import TraceWeave.LineDiff.Basic

/-! A point in the middle of a shortest script. Paths through a box are followed from both corners
at once, round by round; in round `d` a path has made `d` deletions and insertions. After `d` of them
it stands on one of the diagonals `-d, -d + 2, …, d`, and a row gives for each of these how many old
lines a path has passed there at most. -/
namespace TraceWeave.LineDiff

/-- How far paths have come, by diagonal: entry `i` of the row of round `d` is diagonal `2i - d`. -/
abbrev Row := Array Nat

namespace Row

/-- Where a path on entry `i` of the next row begins: one more insertion from the diagonal above, or
one more deletion from the diagonal below, whichever gets further. -/
def start (row : Row) (i : Nat) : Nat :=
  match if i = 0 then none else row[i - 1]?, row[i]? with
  | none, none => 0
  | none, some above => above
  | some below, none => below + 1
  | some below, some above => if below < above then above else below + 1

/-- The diagonal of an entry. -/
def diagonal (round i : Nat) : Int := 2 * (i : Int) - round

/-- The entry of a diagonal. -/
def entry (row : Row) (round : Nat) (diagonal : Int) : Nat := row.getD ((diagonal + round) / 2).toNat 0

/-- The next row, where `run x y` tells how many common lines follow once `x` old and `y` new lines
are passed. -/
def next (box : Box) (run : Nat → Nat → Nat) (row : Row) (round : Nat) : Row :=
  ((List.range (round + 1)).map fun i =>
    let x := row.start i
    let y := (x : Int) - diagonal round i
    if x < box.width ∧ 0 ≤ y ∧ y < box.height then x + run x y.toNat else x).toArray

end Row

namespace Box

/-- Common lines that follow from the first corner. -/
def runForth (box : Box) (pair : Pair) (x y : Nat) : Nat :=
  pair.commonHead (box.oldStart + x) (box.newStart + y) (min (box.width - x) (box.height - y))

/-- Common lines that follow, backwards, from the last corner. -/
def runBack (box : Box) (pair : Pair) (x y : Nat) : Nat :=
  pair.commonTail (box.oldStop - x) (box.newStop - y) (min (box.width - x) (box.height - y))

/-- How many diagonals the two corners are apart. -/
def shift (box : Box) : Int := (box.width : Int) - box.height

/-- Entries of a row, last diagonal first. -/
def entries (round : Nat) : List Nat := (List.range (round + 1)).reverse

/-- A point where a path from the first corner has met one from the last corner. `forth` is the
row before this round, `reached` the row of this round and `back` the other side's row before it. -/
def meetForth? (box : Box) (forth reached back : Row) (round : Nat) : Option (Nat × Nat) :=
  (entries round).findSome? fun i =>
    let diagonal := Row.diagonal round i
    let apart := diagonal - box.shift
    if apart.natAbs + 1 ≤ round ∧ box.width ≤ reached.getD i 0 + back.entry (round - 1) (-apart) then
      let x := forth.start i
      some (box.oldStart + x, box.newStart + ((x : Int) - diagonal).toNat)
    else none

/-- A point where a path from the last corner has met one from the first corner, both of this
round. -/
def meetBack? (box : Box) (reached forth : Row) (round : Nat) : Option (Nat × Nat) :=
  (entries round).findSome? fun i =>
    let diagonal := Row.diagonal round i
    let apart := diagonal - box.shift
    let x := reached.getD i 0
    if apart.natAbs ≤ round ∧ box.width ≤ x + forth.entry round (-apart) then
      some (box.oldStop - x, ((box.newStop : Int) - ((x : Int) - diagonal)).toNat)
    else none

/-- Follow paths from both corners until they meet. -/
def meetFrom? (box : Box) (pair : Pair) : Nat → Nat → Row → Row → Option (Nat × Nat)
  | 0, _, _, _ => none
  | rounds + 1, round, forth, back =>
      let isOdd := box.shift % 2 != 0
      let nextForth := Row.next box (box.runForth pair) forth round
      match if isOdd then box.meetForth? forth nextForth back round else none with
      | some point => some point
      | none =>
          let nextBack := Row.next box (box.runBack pair) back round
          match if isOdd then none else box.meetBack? nextBack nextForth round with
          | some point => some point
          | none => meetFrom? box pair rounds (round + 1) nextForth nextBack

/-- A point that cuts a box in the middle of a shortest script. Paths meet after at most half of the
steps that delete and insert everything. -/
def middle? (box : Box) (pair : Pair) : Option { point : Nat × Nat // box.Cuts point } :=
  match box.meetFrom? pair ((box.size + 1) / 2 + 1) 0 #[] #[] with
  | none => none
  | some point => if cuts : box.Cuts point then some ⟨point, cuts⟩ else none

end Box
end TraceWeave.LineDiff
