/-! Edit scripts: how to come from the lines of one text to the lines of another one. -/
namespace TraceWeave.LineDiff

/-- The lines of a text before and after a change. -/
structure Pair where
  old : Array String
  new : Array String

/-- What a step does with lines. -/
inductive Action where
  | keep | delete | insert
deriving DecidableEq, Repr

/-- `count` lines are kept, deleted or inserted. `old` and `new` are positions in the two texts. Of a
deletion only `old` and of an insertion only `new` has to be where the step stands in its script. -/
structure Step where
  action : Action
  old : Nat
  new : Nat
  count : Nat
deriving DecidableEq, Repr

namespace Step

/-- Where the step ends in the old text. -/
def oldStop (step : Step) : Nat := if step.action == .insert then step.old else step.old + step.count

/-- Where the step ends in the new text. -/
def newStop (step : Step) : Nat := if step.action == .delete then step.new else step.new + step.count

/-- A step over some lines; no step at all over none. -/
def some? (action : Action) (old new count : Nat) : List Step :=
  if count = 0 then [] else [⟨action, old, new, count⟩]

end Step

namespace Pair

/-- How many lines from positions on are the same, up to a limit. -/
def commonHead (pair : Pair) (old new : Nat) : Nat → Nat
  | 0 => 0
  | limit + 1 =>
      if pair.old[old]? == pair.new[new]? then pair.commonHead (old + 1) (new + 1) limit + 1 else 0

/-- How many lines before positions are the same, up to a limit. -/
def commonTail (pair : Pair) (old new : Nat) : Nat → Nat
  | 0 => 0
  | limit + 1 =>
      if pair.old[old - 1]? == pair.new[new - 1]? then pair.commonTail (old - 1) (new - 1) limit + 1
      else 0

theorem commonHead_le (pair : Pair) (old new limit : Nat) :
    pair.commonHead old new limit ≤ limit := by
  induction limit generalizing old new with
  | zero => exact Nat.le_refl 0
  | succ limit ih =>
      rw [commonHead]
      split
      · exact Nat.succ_le_succ (ih (old + 1) (new + 1))
      · exact Nat.zero_le _

theorem commonTail_le (pair : Pair) (old new limit : Nat) :
    pair.commonTail old new limit ≤ limit := by
  induction limit generalizing old new with
  | zero => exact Nat.le_refl 0
  | succ limit ih =>
      rw [commonTail]
      split
      · exact Nat.succ_le_succ (ih (old - 1) (new - 1))
      · exact Nat.zero_le _

end Pair

/-- A part of the old lines beside a part of the new lines. -/
structure Box where
  oldStart : Nat
  oldStop : Nat
  newStart : Nat
  newStop : Nat
deriving DecidableEq, Repr

namespace Box

def width (box : Box) : Nat := box.oldStop - box.oldStart

def height (box : Box) : Nat := box.newStop - box.newStart

def size (box : Box) : Nat := box.width + box.height

/-- Everything of both texts. -/
def whole (pair : Pair) : Box := ⟨0, pair.old.size, 0, pair.new.size⟩

/-- A box without lines at the start of both sides. -/
def dropHead (box : Box) (count : Nat) : Box :=
  { box with oldStart := box.oldStart + count, newStart := box.newStart + count }

/-- A box without lines at the end of both sides. -/
def dropTail (box : Box) (count : Nat) : Box :=
  { box with oldStop := box.oldStop - count, newStop := box.newStop - count }

theorem size_dropHead_le (box : Box) (count : Nat) : (box.dropHead count).size ≤ box.size := by
  simp only [size, width, height, dropHead]; omega

theorem size_dropTail_le (box : Box) (count : Nat) : (box.dropTail count).size ≤ box.size := by
  simp only [size, width, height, dropTail]; omega

/-- Lines that both sides have at their start. -/
def head (box : Box) (pair : Pair) : Nat :=
  pair.commonHead box.oldStart box.newStart (min box.width box.height)

/-- Lines that both sides have at their end. -/
def tail (box : Box) (pair : Pair) : Nat :=
  pair.commonTail box.oldStop box.newStop (min box.width box.height)

/-- A point that cuts a box into two smaller ones. -/
def Cuts (box : Box) (point : Nat × Nat) : Prop :=
  box.oldStart ≤ point.1 ∧ point.1 ≤ box.oldStop ∧ box.newStart ≤ point.2 ∧ point.2 ≤ box.newStop ∧
    point ≠ (box.oldStart, box.newStart) ∧ point ≠ (box.oldStop, box.newStop)

instance (box : Box) (point : Nat × Nat) : Decidable (box.Cuts point) := by
  unfold Cuts; infer_instance

/-- The part of a box before a point. -/
def upTo (box : Box) (point : Nat × Nat) : Box := ⟨box.oldStart, point.1, box.newStart, point.2⟩

/-- The part of a box from a point on. -/
def beyond (box : Box) (point : Nat × Nat) : Box := ⟨point.1, box.oldStop, point.2, box.newStop⟩

theorem size_upTo_lt {box : Box} {point : Nat × Nat} (cuts : box.Cuts point) :
    (box.upTo point).size < box.size := by
  obtain ⟨x, y⟩ := point
  obtain ⟨h₁, h₂, h₃, h₄, _, stop⟩ := cuts
  simp only [ne_eq, Prod.mk.injEq] at h₁ h₂ h₃ h₄ stop
  simp only [size, width, height, upTo]; omega

theorem size_beyond_lt {box : Box} {point : Nat × Nat} (cuts : box.Cuts point) :
    (box.beyond point).size < box.size := by
  obtain ⟨x, y⟩ := point
  obtain ⟨h₁, h₂, h₃, h₄, start, _⟩ := cuts
  simp only [ne_eq, Prod.mk.injEq] at h₁ h₂ h₃ h₄ start
  simp only [size, width, height, beyond]; omega

end Box
end TraceWeave.LineDiff
