import TraceWeave.LineDiff.Basic
import TraceWeave.Total

/-! Scripts with fewer, larger changes. A change moves towards the start of its script as far as it
can, then towards the end, and joins changes of its kind on the way. An insertion can move over kept
lines when these end, or begin, with the same lines as the insertion; a deletion stays. -/
namespace TraceWeave.LineDiff

/-- A script seen from one of its steps. `before` has the nearest step first. -/
structure Focus where
  before : List Step
  step : Step
  after : List Step

namespace Step

/-- A step some lines further up in both texts. -/
def up (step : Step) (count : Nat) : Step := { step with old := step.old - count, new := step.new - count }

/-- A step some lines further down in both texts. -/
def down (step : Step) (count : Nat) : Step := { step with old := step.old + count, new := step.new + count }

/-- How many of the kept lines before it an insertion can move over. -/
def slideUp (step : Step) (pair : Pair) (kept : Step) : Nat :=
  if step.action == .insert then
    pair.commonTail kept.oldStop step.newStop (min kept.count step.count)
  else 0

/-- How many of the kept lines after it an insertion can move over. -/
def slideDown (step : Step) (pair : Pair) (kept : Step) : Nat :=
  if step.action == .insert then
    pair.commonHead kept.old step.new (min kept.count step.count)
  else 0

end Step

/-- Bound for the moves over steps: each move passes a step or takes lines from it. -/
def load (steps : List Step) : Nat := total (fun step => step.count + 1) steps

@[simp] theorem load_cons (step : Step) (steps : List Step) :
    load (step :: steps) = step.count + 1 + load steps := rfl

/-- Kept lines put in front of steps. -/
def keepBefore (old new count : Nat) : List Step → List Step
  | [] => [⟨.keep, old, new, count⟩]
  | step :: steps =>
      if step.action = .keep then
        { step with old := step.old - count, new := step.new - count, count := step.count + count } :: steps
      else ⟨.keep, old, new, count⟩ :: step :: steps

/-- Kept lines put after steps that are given nearest first. -/
def keepAfter (old new count : Nat) : List Step → List Step
  | [] => [⟨.keep, old, new, count⟩]
  | step :: steps =>
      if step.action = .keep then { step with count := step.count + count } :: steps
      else ⟨.keep, old, new, count⟩ :: step :: steps

/-- Move a change up as far as it goes. -/
def moveUp (pair : Pair) (before : List Step) (step : Step) (after : List Step) : Focus :=
  match before with
  | [] => ⟨[], step, after⟩
  | previous :: rest =>
      if previous.action = .keep then
        let count := step.slideUp pair previous
        if _moves : 0 < count ∧ count < previous.count then
          moveUp pair ({ previous with count := previous.count - count } :: rest) (step.up count)
            (keepBefore (previous.oldStop - count) (step.newStop - count) count after)
        else if 0 < count then
          moveUp pair rest (step.up count)
            (keepBefore (previous.oldStop - count) (step.newStop - count) count after)
        else if previous.count = 0 then moveUp pair rest step after
        else ⟨previous :: rest, step, after⟩
      else if previous.action = step.action then
        moveUp pair rest { previous with count := previous.count + step.count } after
      else moveUp pair rest step (previous :: after)
termination_by load before
decreasing_by all_goals simp only [load_cons]; omega

/-- Move a change down as far as it goes. -/
def moveDown (pair : Pair) (before : List Step) (step : Step) (after : List Step) : Focus :=
  match after with
  | [] => ⟨before, step, []⟩
  | next :: rest =>
      if next.action = .keep then
        let count := step.slideDown pair next
        if _moves : 0 < count ∧ count < next.count then
          moveDown pair (keepAfter next.old step.new count before) (step.down count)
            ({ next.down count with count := next.count - count } :: rest)
        else if 0 < count then
          moveDown pair (keepAfter next.old step.new count before) (step.down count) rest
        else if next.count = 0 then moveDown pair before step rest
        else ⟨before, step, next :: rest⟩
      else if next.action = step.action then
        moveDown pair before { step with count := step.count + next.count } rest
      else moveDown pair (next :: before) step rest
termination_by load after
decreasing_by all_goals simp only [load_cons]; omega

/-- Move every change of one kind, from the start of a script on. `before` has the steps that are
done, nearest first. A move that joins changes can lead back over steps that were done, so there
are more rounds than steps; a script is as good after any number of rounds. -/
def settleFrom (pair : Pair) (action : Action) : Nat → List Step → List Step → List Step
  | 0, before, after => before.reverse ++ after
  | _ + 1, before, [] => before.reverse
  | rounds + 1, before, step :: after =>
      if step.action = action then
        let up := moveUp pair before step after
        let down := moveDown pair up.before up.step up.after
        settleFrom pair action rounds (down.step :: down.before) down.after
      else settleFrom pair action rounds (step :: before) after

/-- Move every change of one kind. -/
def settleAll (pair : Pair) (action : Action) (steps : List Step) : List Step :=
  settleFrom pair action (load steps * load steps + 1) [] steps

/-- Move the deletions, then the insertions of a script. -/
def settle (pair : Pair) (steps : List Step) : List Step :=
  settleAll pair .insert (settleAll pair .delete steps)

end TraceWeave.LineDiff
