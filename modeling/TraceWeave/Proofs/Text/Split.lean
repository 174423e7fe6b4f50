import TraceWeave.Text.Search

/-! Texts cut at a character. No piece holds it, and pieces that do not hold it are found again. -/
namespace TraceWeave.Text

theorem notMem_of_mem_splitOn {c : Char} {text piece : List Char} (member : piece ∈ text.splitOn c) :
    c ∉ piece := by
  induction text generalizing piece with
  | nil => simp_all
  | cons d text ih =>
      rw [List.splitOn_cons_eq_if_modifyHead] at member
      split at member
      · rcases List.mem_cons.1 member with rfl | later
        · exact List.not_mem_nil
        · exact ih later
      · rename_i other
        obtain ⟨head, tail, split⟩ := List.exists_cons_of_ne_nil (List.splitOn_ne_nil c text)
        rw [split, List.modifyHead_cons] at member
        rcases List.mem_cons.1 member with rfl | later
        · rw [List.mem_cons, not_or]
          exact ⟨fun same => other (by simp [same]), ih (split ▸ List.mem_cons_self)⟩
        · exact ih (split ▸ List.mem_cons_of_mem _ later)

theorem splitAt_joinWith {c : Char} {middle : String} {parts : List String} (is : middle.toList = [c])
    (some : parts ≠ []) (clear : ∀ part ∈ parts, c ∉ part.toList) : splitAt c (joinWith middle parts) = parts := by
  have split : (List.intercalate [c] (parts.map String.toList)).splitOn c = parts.map String.toList := by
    refine List.splitOn_intercalate c ?_ (by simpa using some)
    rintro chars member
    obtain ⟨part, listed, rfl⟩ := List.mem_map.1 member
    exact clear part listed
  rw [splitAt, joinWith, String.toList_intercalate, is, split, List.map_map]
  simp

end TraceWeave.Text
