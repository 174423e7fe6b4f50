/-! Sums of counts. -/
namespace TraceWeave

/-- The sum of a count over a list. -/
def total {α : Type} (count : α → Nat) : List α → Nat
  | [] => 0
  | a :: rest => count a + total count rest

@[simp] theorem total_nil {α : Type} (count : α → Nat) : total count [] = 0 := rfl

@[simp] theorem total_cons {α : Type} (count : α → Nat) (a : α) (rest : List α) :
    total count (a :: rest) = count a + total count rest := rfl

theorem total_append {α : Type} (count : α → Nat) (first second : List α) :
    total count (first ++ second) = total count first + total count second := by
  induction first with
  | nil => simp
  | cons a rest ih => simp [ih, Nat.add_assoc]

theorem total_perm {α : Type} {count : α → Nat} {items items' : List α} (perm : items.Perm items') :
    total count items = total count items' := by
  induction perm with
  | nil => rfl
  | cons item _ ih => exact congrArg (count item + ·) ih
  | swap item other items => exact Nat.add_left_comm _ _ _
  | trans _ _ first second => exact first.trans second

end TraceWeave
