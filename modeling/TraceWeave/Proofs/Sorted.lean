import Mathlib.Data.List.Pairwise

/-! Sorted lists. Sorting leaves tied items in their order, and by this a sorted list is known. -/
namespace TraceWeave

variable {α : Type} {le : α → α → Bool} {items items' : List α}

/-- Neither of two items has to stand before the other one. -/
def tied (le : α → α → Bool) (item other : α) : Bool := le item other && le other item

/-- Sorting leaves tied items in their order. -/
theorem filter_tied_mergeSort (trans : ∀ a b c, le a b = true → le b c = true → le a c = true)
    (total : ∀ a b, (le a b || le b a) = true) (item : α) (items : List α) :
    (items.mergeSort le).filter (tied le item) = items.filter (tied le item) := by
  have ties : (items.filter (tied le item)).Pairwise fun a b => le a b = true := by
    refine List.pairwise_of_forall_mem_list fun a member b member' => ?_
    have first := (List.mem_filter.1 member).2
    have second := (List.mem_filter.1 member').2
    simp only [tied, Bool.and_eq_true] at first second
    exact trans a item b first.2 second.1
  have kept := (List.sublist_mergeSort trans total ties List.filter_sublist).filter (tied le item)
  simp only [List.filter_filter, Bool.and_self] at kept
  exact (kept.eq_of_length ((List.mergeSort_perm items le).filter _).length_eq.symm).symm

/-- Sorting by a key puts the keys in order. -/
theorem pairwise_mergeSort_key {β : Type} [LE β] [DecidableLE β] [Std.IsLinearPreorder β] (key : α → β)
    (items : List α) : (items.mergeSort fun a b => decide (key a ≤ key b)).Pairwise fun a b => key a ≤ key b := by
  refine (List.pairwise_mergeSort (fun a b c first second => ?_) (fun a b => ?_) items).imp of_decide_eq_true
  · exact decide_eq_true (Std.le_trans (of_decide_eq_true first) (of_decide_eq_true second))
  · rw [Bool.or_eq_true, decide_eq_true_eq, decide_eq_true_eq]
    exact Std.le_total

/-- A sorted list is known from its tied items. -/
theorem eq_of_tied (total : ∀ a b, (le a b || le b a) = true) (sorted : items.Pairwise fun a b => le a b = true)
    (sorted' : items'.Pairwise fun a b => le a b = true)
    (same : ∀ item, items.filter (tied le item) = items'.filter (tied le item)) : items = items' := by
  have self : ∀ item, le item item = true := fun item => by simpa using total item item
  have listed : ∀ {items items' : List α} {item}, (∀ item, items.filter (tied le item) = items'.filter (tied le item)) →
      item ∈ items → item ∈ items' := by
    intro items items' item same member
    have chosen : item ∈ items.filter (tied le item) := List.mem_filter.2 ⟨member, by simp [tied, self]⟩
    exact (List.mem_filter.1 (same item ▸ chosen)).1
  induction items generalizing items' with
  | nil =>
      refine (List.eq_nil_iff_forall_not_mem.2 fun item member => ?_).symm
      exact List.not_mem_nil (listed (fun item => (same item).symm) member)
  | cons item items ih =>
      cases items' with
      | nil => exact absurd (listed same List.mem_cons_self) List.not_mem_nil
      | cons item' items' =>
          obtain ⟨first, others⟩ := List.pairwise_cons.1 sorted
          obtain ⟨first', others'⟩ := List.pairwise_cons.1 sorted'
          -- each of the two heads stands in the other list, so neither goes before the other one
          have before : le item item' = true := by
            rcases List.mem_cons.1 (listed (fun item => (same item).symm) (List.mem_cons_self (a := item'))) with is | later
            · exact is ▸ self item'
            · exact first item' later
          have after : le item' item = true := by
            rcases List.mem_cons.1 (listed same (List.mem_cons_self (a := item))) with is | later
            · exact is ▸ self item
            · exact first' item later
          have heads := same item
          rw [List.filter_cons_of_pos (by simp [tied, self]), List.filter_cons_of_pos (by simp [tied, before, after])]
            at heads
          obtain rfl := List.head_eq_of_cons_eq heads
          refine congrArg (item :: ·) (ih others others' fun other => ?_)
          have rest := same other
          rw [List.filter_cons, List.filter_cons] at rest
          split at rest
          · exact List.tail_eq_of_cons_eq rest
          · exact rest

end TraceWeave
