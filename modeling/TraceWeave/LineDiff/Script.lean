import TraceWeave.LineDiff.Middle

/-! Short edit scripts by divide and conquer. -/
namespace TraceWeave.LineDiff

namespace Box

/-- A box without the lines that both sides have at their start and end. -/
def core (box : Box) (pair : Pair) : Box :=
  let rest := box.dropHead (box.head pair)
  rest.dropTail (rest.tail pair)

theorem size_core_le (box : Box) (pair : Pair) : (box.core pair).size ≤ box.size :=
  Nat.le_trans (size_dropTail_le _ _) (size_dropHead_le _ _)

/-- Delete one side and insert the other one. -/
def replace (box : Box) : List Step :=
  Step.some? .delete box.oldStart box.newStart box.width ++
    Step.some? .insert box.oldStart box.newStart box.height

end Box

namespace Pair

/-- A script for a box: what both sides have at their start and end is kept, and what is left is
cut in the middle, if both sides have lines left. -/
def script (pair : Pair) (box : Box) : List Step :=
  let core := box.core pair
  let steps :=
    match if core.width = 0 ∨ core.height = 0 then none else core.middle? pair with
    | none => core.replace
    | some ⟨point, _⟩ => pair.script (core.upTo point) ++ pair.script (core.beyond point)
  Step.some? .keep box.oldStart box.newStart (box.head pair) ++ steps ++
    Step.some? .keep core.oldStop core.newStop ((box.dropHead (box.head pair)).tail pair)
termination_by box.size
decreasing_by
  · exact Nat.lt_of_lt_of_le (Box.size_upTo_lt (by assumption)) (box.size_core_le pair)
  · exact Nat.lt_of_lt_of_le (Box.size_beyond_lt (by assumption)) (box.size_core_le pair)

end Pair
end TraceWeave.LineDiff
