import TraceWeave.LineDiff.Script
import TraceWeave.LineDiff.Settle
import TraceWeave.Text.Lines
import TraceWeave.Total

/-! The difference of two texts: stretches of kept lines in turn with changes. -/
namespace TraceWeave.LineDiff

/-- Old lines that stay, or that new lines take the place of. -/
structure Change where
  kept : Bool
  old : Nat
  oldCount : Nat
  new : Nat
  newCount : Nat
deriving DecidableEq, Repr

namespace Change

def ofStep (step : Step) : Change :=
  match step.action with
  | .keep => ⟨true, step.old, step.count, step.new, step.count⟩
  | .delete => ⟨false, step.old, step.count, step.new, 0⟩
  | .insert => ⟨false, step.old, 0, step.new, step.count⟩

/-- A change that begins with `first` and goes on with `second`. Old lines are those of the first
deletion and new lines those of the first insertion on. -/
def join (first second : Change) : Change :=
  { kept := first.kept
    old := if first.oldCount = 0 ∧ second.oldCount ≠ 0 then second.old else first.old
    oldCount := first.oldCount + second.oldCount
    new := if first.newCount = 0 ∧ second.newCount ≠ 0 then second.new else first.new
    newCount := first.newCount + second.newCount }

/-- Changes with one more in front, which is joined with the first of them if both are kept or both
are not. -/
def prepend (change : Change) : List Change → List Change
  | [] => [change]
  | next :: rest =>
      if change.kept = next.kept then change.join next :: rest else change :: next :: rest

def ofSteps (steps : List Step) : List Change :=
  steps.foldr (fun step changes => prepend (ofStep step) changes) []

/-- Where the change ends in the old text. -/
def oldStop (change : Change) : Nat := change.old + change.oldCount

/-- Where the change ends in the new text. -/
def newStop (change : Change) : Nat := change.new + change.newCount

/-- Lines inserted by changes. -/
def added (changes : List Change) : Nat :=
  total (·.newCount) (changes.filter (!·.kept))

/-- Lines deleted by changes. -/
def removed (changes : List Change) : Nat :=
  total (·.oldCount) (changes.filter (!·.kept))

end Change

namespace Pair

def ofTexts (old new : String) : Pair := ⟨(Text.lines old).toArray, (Text.lines new).toArray⟩

/-- The difference of the two texts. -/
def changes (pair : Pair) : List Change :=
  Change.ofSteps (settle pair (pair.script (Box.whole pair)))

end Pair
end TraceWeave.LineDiff
