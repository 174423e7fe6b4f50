import Mathlib.Data.List.Lex
import Mathlib.Data.Prod.Lex
import Mathlib.Data.String.Basic
import TraceWeave.Weave.Inject

/-! Seeds are a set. Keys are in a linear order, and a key goes into an ordered list at most once. -/
namespace TraceWeave

namespace FunctionKey

/-- What keys are compared by. -/
def rank (key : FunctionKey) : ℕ ×ₗ List String ×ₗ String :=
  toLex (key.package, toLex (key.receiver.toList, key.name))

theorem rank_injective : Function.Injective rank := by
  intro a b same
  have outer := Prod.mk.inj (toLex.injective same)
  have inner := Prod.mk.inj (toLex.injective outer.2)
  have receiver : a.receiver = b.receiver := by
    have listed := inner.1
    cases held : a.receiver <;> cases held' : b.receiver <;> simp_all
  cases a
  cases b
  cases outer.1
  cases receiver
  cases inner.2
  rfl

theorem isLess_iff {a b : FunctionKey} : a.isLess b = true ↔ a.rank < b.rank := by
  obtain ⟨package, receiver, name⟩ := a
  obtain ⟨package', receiver', name'⟩ := b
  simp only [rank, Prod.Lex.toLex_lt_toLex]
  by_cases same : package = package'
  · subst same
    cases receiver with
    | none => cases receiver' <;> simp [isLess]
    | some x =>
        cases receiver' with
        | none => simp [isLess]
        | some y => by_cases equal : x = y <;> simp [isLess, equal, List.cons_lt_cons_iff]
  · simp [isLess, same]

theorem not_isLess_self (key : FunctionKey) : key.isLess key = false := by
  rw [Bool.eq_false_iff, ne_eq, isLess_iff]
  exact lt_irrefl _

theorem mem_insert {key other : FunctionKey} {keys : List FunctionKey} :
    other ∈ key.insert keys ↔ other = key ∨ other ∈ keys := by
  fun_induction insert key keys with
  | case1 => simp
  | case2 => simp
  | case3 head rest _ _ => simp
  | case4 head rest _ _ ih => simp only [List.mem_cons, ih]; exact or_left_comm

/-- Keys in order. -/
def Ordered (keys : List FunctionKey) : Prop := keys.Pairwise fun a b => a.isLess b = true

theorem Ordered.nodup {keys : List FunctionKey} (ordered : Ordered keys) : keys.Nodup := by
  refine ordered.imp ?_
  rintro a b less rfl
  rw [not_isLess_self] at less
  cases less

theorem Ordered.insert {keys : List FunctionKey} (key : FunctionKey) (ordered : Ordered keys) :
    Ordered (key.insert keys) := by
  fun_induction FunctionKey.insert key keys with
  | case1 => exact List.pairwise_singleton _ _
  | case2 => exact ordered
  | case3 head rest _ less =>
      refine List.pairwise_cons.2 ⟨?_, ordered⟩
      intro other member
      rcases List.mem_cons.1 member with rfl | later
      · exact less
      · have next := (List.pairwise_cons.1 ordered).1 other later
        rw [isLess_iff] at less next ⊢
        exact less.trans next
  | case4 head rest different notLess ih =>
      obtain ⟨first, ordered⟩ := List.pairwise_cons.1 ordered
      refine List.pairwise_cons.2 ⟨?_, ih ordered⟩
      intro other member
      rcases mem_insert.1 member with rfl | later
      · rw [isLess_iff, not_lt] at notLess
        rw [isLess_iff]
        refine lt_of_le_of_ne notLess fun same => different (rank_injective same.symm)
      · exact first other later

end FunctionKey

namespace Run

theorem addSeeds_ordered {run : Run} (keys : List FunctionKey) (ordered : FunctionKey.Ordered run.seeds) :
    FunctionKey.Ordered (run.addSeeds keys).seeds := by
  unfold addSeeds
  dsimp only
  generalize run.seeds = seeds at ordered
  induction keys generalizing seeds with
  | nil => exact ordered
  | cons key keys ih => exact ih _ (ordered.insert key)

theorem applyBatch_seeds (run : Run) (file : Nat) (edits : List Edit) (imports : List String) :
    (run.applyBatch file edits imports).2.seeds = run.seeds := by
  unfold applyBatch
  split
  · rfl
  · split
    · rfl
    · split
      · rfl
      · rfl

end Run

namespace Setup

theorem injectFile_ordered (setup : Setup) {run : Run} (file : Nat) (ordered : FunctionKey.Ordered run.seeds) :
    FunctionKey.Ordered (setup.injectFile run file).seeds := by
  unfold injectFile
  split
  · exact ordered
  · split
    · exact ordered
    · rename_i plan _
      have kept : FunctionKey.Ordered ((run.record plan.notes).applyBatch file plan.edits plan.imports).2.seeds := by
        rw [Run.applyBatch_seeds]
        exact ordered
      dsimp only
      split
      · exact Run.addSeeds_ordered _ kept
      · exact kept

/-- The first pass finds a set of seeds. -/
theorem inject_seeds_nodup (setup : Setup) (program : Program) (findings : List Diagnostic) :
    (setup.inject (.start program findings)).seeds.Nodup := by
  refine FunctionKey.Ordered.nodup ?_
  unfold inject
  have start : FunctionKey.Ordered (Run.start program findings).seeds := .nil
  generalize Run.start program findings = run at start
  induction run.productionFiles generalizing run with
  | nil => exact start
  | cons file files ih => exact ih _ (injectFile_ordered setup file start)

end Setup
end TraceWeave
