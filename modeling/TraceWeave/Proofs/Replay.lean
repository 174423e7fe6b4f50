import TraceWeave.Proofs.Hunks
import TraceWeave.Proofs.Unified

/-!
Hunks carried out. What a hunk says of the lines of both texts makes the new lines of the old ones, and so do
hunks that follow each other in both texts.
-/
namespace TraceWeave

open LineDiff (Action Change Pair Point Path)
open LineDiff.Change (Runs)
open Unified (Line)

/-! Lines of both texts. -/

namespace LineDiff.Pair

variable {pair : Pair} {old new count : Nat}

def oldLines (pair : Pair) : List Line := pair.old.toList.map String.toList

def newLines (pair : Pair) : List Line := pair.new.toList.map String.toList

@[simp] theorem length_oldLines (pair : Pair) : pair.oldLines.length = pair.old.size := by simp [oldLines]

@[simp] theorem length_newLines (pair : Pair) : pair.newLines.length = pair.new.size := by simp [newLines]

theorem Same.take_eq (same : pair.Same old new count) :
    (pair.oldLines.drop old).take count = (pair.newLines.drop new).take count := by
  apply List.ext_getElem?
  intro i
  rw [List.getElem?_take, List.getElem?_take]
  split
  · rename_i bound
    simpa [oldLines, newLines] using congrArg (Option.map String.toList) (same i bound)
  · rfl

end LineDiff.Pair

/-! Hunks carried out. -/

/-- Lines of a change, with what is done to them. -/
def LineDiff.Change.entries (pair : Pair) (change : Change) : List (Action × Line) :=
  let old := (pair.oldLines.drop change.old).take change.oldCount
  let new := (pair.newLines.drop change.new).take change.newCount
  if change.kept then old.map (.keep, ·) else old.map (.delete, ·) ++ new.map (.insert, ·)

namespace Unified

variable {marked : List (Action × Line)} {lines : List Line}

theorem splice_keep (kept : List Line) :
    splice (kept.map (.keep, ·) ++ marked) (kept ++ lines) =
      (splice marked lines).map fun result => (kept ++ result.1, result.2) := by
  induction kept with
  | nil => simp
  | cons line kept ih =>
      rw [List.map_cons, List.cons_append, List.cons_append, splice, if_pos rfl, ih, Option.map_map]
      rfl

theorem splice_delete (gone : List Line) :
    splice (gone.map (.delete, ·) ++ marked) (gone ++ lines) = splice marked lines := by
  induction gone with
  | nil => rfl
  | cons line gone ih => rw [List.map_cons, List.cons_append, List.cons_append, splice, if_pos rfl, ih]

theorem splice_insert (made : List Line) :
    splice (made.map (.insert, ·) ++ marked) lines =
      (splice marked lines).map fun result => (made ++ result.1, result.2) := by
  induction made with
  | nil => simp
  | cons line made ih =>
      rw [List.map_cons, List.cons_append, splice, ih, Option.map_map]
      rfl

end Unified

namespace Hunk

variable {pair : Pair} {p q : Point} {hunk : Hunk} {hunks : List Hunk}

theorem countP_tagged (action other : Action) (lines : List Line) :
    (lines.map (action, ·)).countP (·.1 ≠ other) = if action = other then 0 else lines.length := by
  rw [List.countP_map]
  split
  · rename_i same
    exact List.countP_eq_zero.2 fun line _ => by simp [same]
  · rename_i differs
    exact List.countP_eq_length.2 fun line _ => by simp [differs]

theorem path_le (path : Path (Runs pair) p hunk q) : p.1 ≤ q.1 ∧ p.2 ≤ q.2 := by
  induction path with
  | nil => exact ⟨Nat.le_refl _, Nat.le_refl _⟩
  | cons run _ ih =>
      rw [run.stop] at ih
      exact ⟨by dsimp only at ih; omega, by dsimp only at ih; omega⟩

theorem Lies.le {r : Point} (lies : Lies pair r p hunks) : p.1 ≤ r.1 ∧ p.2 ≤ r.2 := by
  induction lies with
  | nil => exact ⟨Nat.le_refl _, Nat.le_refl _⟩
  | skip count _ _ ih =>
      dsimp only at ih
      omega
  | hunk path _ ih =>
      have before := path_le path
      omega

/-- The lines of a hunk make the new lines of the old ones. -/
theorem splice_entries (path : Path (Runs pair) p hunk q) :
    Unified.splice (hunk.flatMap (Change.entries pair)) (pair.oldLines.drop p.1) =
      some ((pair.newLines.drop p.2).take (q.2 - p.2), pair.oldLines.drop q.1) := by
  induction path with
  | nil p => simp [Unified.splice]
  | @cons change changes p middle q run rest ih =>
      have order := path_le rest
      obtain ⟨old, new, kept, stop⟩ := run
      subst stop
      dsimp only at ih order
      have all : pair.oldLines.drop p.1 =
          (pair.oldLines.drop p.1).take change.oldCount ++ pair.oldLines.drop (p.1 + change.oldCount) := by
        rw [← List.drop_drop, List.take_append_drop]
      have made : (pair.newLines.drop p.2).take (q.2 - p.2) = (pair.newLines.drop p.2).take change.newCount ++
          (pair.newLines.drop (p.2 + change.newCount)).take (q.2 - (p.2 + change.newCount)) := by
        rw [show q.2 - p.2 = change.newCount + (q.2 - (p.2 + change.newCount)) by omega, List.take_add, List.drop_drop]
      generalize taken : (pair.oldLines.drop p.1).take change.oldCount = passed at all
      rw [List.flatMap_cons, Change.entries, old, new, taken, all, made]
      split
      · rename_i is
        obtain ⟨count, same⟩ := kept is
        rw [Unified.splice_keep, ih, count, ← same.take_eq, taken]
        rfl
      · rw [List.append_assoc, Unified.splice_delete, Unified.splice_insert, ih]
        rfl

/-- A hunk as it is read. -/
def unified (pair : Pair) (hunk : Hunk) : Unified.Hunk :=
  ⟨(hunk.head?.map (·.old)).getD 0, (hunk.head?.map (·.new)).getD 0, hunk.flatMap (Change.entries pair)⟩

theorem unified_start (path : Path (Runs pair) p hunk q) (filled : hunk ≠ []) :
    (unified pair hunk).old = p.1 ∧ (unified pair hunk).new = p.2 := by
  cases path with
  | nil => exact absurd rfl filled
  | cons run _ => exact ⟨run.old, run.new⟩

/-- How many lines of both texts a hunk has. -/
theorem unified_counts (path : Path (Runs pair) p hunk q) (inside : q.1 ≤ pair.old.size) (inside' : q.2 ≤ pair.new.size) :
    p.1 + (unified pair hunk).oldCount = q.1 ∧ p.2 + (unified pair hunk).newCount = q.2 := by
  unfold Unified.Hunk.oldCount Unified.Hunk.newCount unified
  dsimp only
  induction path with
  | nil p => simp
  | @cons change changes p middle q run rest ih =>
      have order := path_le rest
      obtain ⟨old, new, kept, stop⟩ := run
      subst stop
      obtain ⟨first, second⟩ := ih inside inside'
      dsimp only at first second order
      have size : ((pair.oldLines.drop p.1).take change.oldCount).length = change.oldCount := by
        rw [List.length_take, List.length_drop, Pair.length_oldLines]
        omega
      have size' : ((pair.newLines.drop p.2).take change.newCount).length = change.newCount := by
        rw [List.length_take, List.length_drop, Pair.length_newLines]
        omega
      rw [List.flatMap_cons, List.countP_append, List.countP_append, Change.entries, old, new]
      split
      · rename_i is
        obtain ⟨count, _⟩ := kept is
        rw [countP_tagged, countP_tagged, if_neg (by decide), if_neg (by decide), size]
        omega
      · rw [List.countP_append, List.countP_append, countP_tagged, countP_tagged, countP_tagged, countP_tagged, if_neg (by decide),
          if_pos rfl, if_pos rfl, if_neg (by decide), size, size']
        omega

/-- Hunks that lie in both texts make the new text of the old one. -/
theorem apply_unified {r : Point} (lies : Lies pair r p hunks) (ends : r = (pair.old.size, pair.new.size))
    (filled : ∀ hunk ∈ hunks, hunk ≠ []) {old new : Nat} (order : old ≤ p.1) (gap : p.2 = new + (p.1 - old))
    (same : pair.Same old new (p.1 - old)) :
    Unified.apply old new (hunks.map (unified pair)) (pair.oldLines.drop old) = some (pair.newLines.drop new) := by
  induction lies generalizing old new with
  | nil =>
      subst ends
      dsimp only at order gap same
      have lines := same.take_eq
      rw [List.take_of_length_le (by simp), List.take_of_length_le (by simp [gap])] at lines
      rw [List.map_nil, Unified.apply, lines]
  | @skip p hunks count same' _ ih =>
      refine ih filled (Nat.le_add_right_of_le order) ?_ ?_
      · dsimp only
        omega
      · rw [show p.1 + count - old = p.1 - old + count by omega]
        refine LineDiff.Pair.same_add.2 ⟨same, ?_⟩
        rwa [Nat.add_sub_cancel' order, ← gap]
  | @hunk p q hunk hunks path lies ih =>
      obtain ⟨here, later⟩ := List.forall_mem_cons.1 filled
      obtain ⟨inside, inside'⟩ : q.1 ≤ pair.old.size ∧ q.2 ≤ pair.new.size := by
        have before := lies.le
        rwa [ends] at before
      have between := path_le path
      obtain ⟨start, start'⟩ := unified_start path here
      obtain ⟨count, count'⟩ := unified_counts path inside inside'
      have rest := ih later (Nat.le_refl q.1) (show q.2 = q.2 + (q.1 - q.1) by omega) (by
        rw [Nat.sub_self]
        exact fun i bound => absurd bound (Nat.not_lt_zero i))
      have room : p.1 - old ≤ (pair.oldLines.drop old).length := by
        rw [List.length_drop, Pair.length_oldLines]
        omega
      rw [List.map_cons, Unified.apply, start, start', if_pos ⟨order, gap, room⟩, List.drop_drop, Nat.add_sub_cancel' order]
      have entries : (unified pair hunk).lines = hunk.flatMap (Change.entries pair) := rfl
      rw [entries, splice_entries path, count, count']
      dsimp only
      rw [rest]
      have after : (pair.newLines.drop p.2).take (q.2 - p.2) ++ pair.newLines.drop q.2 = pair.newLines.drop p.2 := by
        have split := List.take_append_drop (q.2 - p.2) (pair.newLines.drop p.2)
        rwa [List.drop_drop, Nat.add_sub_cancel' between.2] at split
      have whole := List.take_append_drop (p.1 - old) (pair.newLines.drop new)
      rw [List.drop_drop, ← gap] at whole
      rw [same.take_eq, Option.map_some, List.append_assoc, after, whole]

end Hunk

end TraceWeave
