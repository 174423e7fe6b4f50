import Mathlib.Data.List.Basic
import Mathlib.Logic.Relation
import TraceWeave.CallGraph.Reach

/-!
What the search finds: the functions on call paths from entry points. Between two rounds whatever was found
is on such a path, and what a seen function calls was found as well; when no function waits any more, the
seen functions are all of them.
-/
namespace TraceWeave.CallGraph

/-- A path of calls leads from an entry point to the function. -/
inductive Reached (graph : CallGraph) : Nat → Prop where
  | entry {id : Nat} {function : GraphFunction} (found : graph.function? id = some function)
      (is : isEntryPoint function = true) : Reached graph id
  | call {caller callee : Nat} (reached : Reached graph caller) (calls : graph.calls caller callee = true)
      (inside : callee < graph.size) : Reached graph callee

variable {graph : CallGraph} {id caller callee : Nat}

theorem mem_callees : callee ∈ graph.callees caller ↔ callee < graph.size ∧ graph.calls caller callee = true := by
  rw [callees, List.mem_filter, List.mem_range]

theorem mem_entryPoints : id ∈ graph.entryPoints ↔ ∃ function, graph.function? id = some function ∧ isEntryPoint function = true := by
  unfold entryPoints
  rw [List.mem_filter, List.mem_range, Option.any_eq_true]
  constructor
  · exact And.right
  · rintro ⟨function, found, is⟩
    exact ⟨(List.getElem?_eq_some_iff.1 found).1, function, found, is⟩

namespace Search

variable {search next : Search graph}

/-- A function was taken up or waits. -/
def Finds (search : Search graph) (id : Nat) : Prop := id ∈ search.seen ∨ id ∈ search.queue

theorem mem_fresh {seen : List Nat} : callee ∈ fresh graph seen id ↔ callee ∈ graph.callees id ∧ callee ∉ seen := by
  simp [fresh]

/-- What holds between two rounds. -/
structure Progress (search : Search graph) : Prop where
  reached : ∀ id, search.Finds id → graph.Reached id
  entries : ∀ id ∈ graph.entryPoints, search.Finds id
  passed : ∀ caller ∈ search.seen, ∀ callee ∈ graph.callees caller, search.Finds callee

/-- A round loses nothing. -/
theorem Finds.kept (round : search.next? = some next) (found : search.Finds id) : next.Finds id := by
  obtain ⟨first, queue, waiting, ⟨known, seen, rest⟩ | ⟨_, seen, rest⟩⟩ := next?_cases round
  · unfold Finds at found ⊢
    rw [seen, rest]
    rw [waiting, List.mem_cons] at found
    rcases found with old | rfl | later
    · exact .inl old
    · exact .inl known
    · exact .inr later
  · unfold Finds at found ⊢
    rw [seen, rest, List.mem_cons, List.mem_append]
    rw [waiting, List.mem_cons] at found
    rcases found with old | rfl | later
    · exact .inl (.inr old)
    · exact .inl (.inl rfl)
    · exact .inr (.inl later)

theorem Progress.kept (progress : search.Progress) (round : search.next? = some next) : next.Progress := by
  refine ⟨?_, fun id entry => (progress.entries id entry).kept round, ?_⟩
  · intro id found
    obtain ⟨first, queue, waiting, ⟨_, seen, rest⟩ | ⟨_, seen, rest⟩⟩ := next?_cases round
    · refine progress.reached id (found.imp (seen ▸ ·) fun later => ?_)
      rw [waiting]
      exact List.mem_cons_of_mem _ (rest ▸ later)
    · have turn : graph.Reached first := progress.reached first (.inr (waiting ▸ List.mem_cons_self))
      unfold Finds at found
      rw [seen, rest, List.mem_cons, List.mem_append, mem_fresh] at found
      rcases found with (rfl | old) | later | ⟨called, _⟩
      · exact turn
      · exact progress.reached id (.inl old)
      · exact progress.reached id (.inr (waiting ▸ List.mem_cons_of_mem _ later))
      · exact .call turn (mem_callees.1 called).2 (mem_callees.1 called).1
  · intro caller taken callee called
    obtain ⟨first, queue, waiting, ⟨_, seen, _⟩ | ⟨_, seen, rest⟩⟩ := next?_cases round
    · exact (progress.passed caller (seen ▸ taken) callee called).kept round
    · rw [seen, List.mem_cons] at taken
      rcases taken with rfl | old
      · -- the functions it calls are seen, or join the queue in this round
        unfold Finds
        rw [seen, rest, List.mem_append, mem_fresh]
        by_cases known : callee ∈ caller :: search.seen
        · exact .inl known
        · exact .inr (.inr ⟨called, known⟩)
      · exact (progress.passed caller old callee called).kept round

theorem queue_of_next?_eq_none (done : search.next? = none) : search.queue = [] := by
  unfold next? at done
  split at done
  · assumption
  · dsimp only at done
    split at done <;> cases done

/-- When no function waits any more, those that were seen are the ones that entry points lead to. -/
theorem Progress.mem_seen (progress : search.Progress) (done : search.next? = none) :
    id ∈ search.seen ↔ graph.Reached id := by
  have empty := queue_of_next?_eq_none done
  have seen : ∀ id, search.Finds id → id ∈ search.seen := fun id found =>
    found.elim (fun seen => seen) fun waits => by rw [empty] at waits; cases waits
  refine ⟨fun member => progress.reached id (.inl member), fun reached => ?_⟩
  induction reached with
  | entry found is => exact seen _ (progress.entries _ (mem_entryPoints.2 ⟨_, found, is⟩))
  | call _ calls inside ih => exact seen _ (progress.passed _ ih _ (mem_callees.2 ⟨inside, calls⟩))

/-- A search that makes progress finds what entry points lead to. -/
theorem Progress.mem_run (progress : search.Progress) : id ∈ search.run ↔ graph.Reached id := by
  fun_induction run search with
  | case1 search done => exact progress.mem_seen done
  | case2 search next round ih => exact ih (progress.kept round)

end Search

theorem searchFromEntries_progress (graph : CallGraph) : graph.searchFromEntries.Progress where
  reached id found := by
    rcases found with contrary | entry
    · cases contrary
    · obtain ⟨function, present, is⟩ := mem_entryPoints.1 entry
      exact .entry present is
  entries _ entry := .inr entry
  passed _ contrary := by cases contrary

theorem Reached.lt (reached : graph.Reached id) : id < graph.size := by
  cases reached with
  | entry found _ => exact (List.getElem?_eq_some_iff.1 found).1
  | call _ _ inside => exact inside

/-- The search finds the functions that entry points lead to, and no others. -/
theorem mem_reachable : id ∈ graph.reachable ↔ graph.Reached id := by
  rw [reachable, List.mem_filter, List.mem_range, List.contains_iff_mem, graph.searchFromEntries_progress.mem_run]
  exact ⟨And.right, fun reached => ⟨reached.lt, reached⟩⟩

theorem isEntryPoint_iff {function : GraphFunction} : isEntryPoint function = true ↔
    function.isTest = false ∧ (function.entry = some .main ∨ ∃ request, function.entry = some (.handler request)) := by
  unfold isEntryPoint
  rw [Bool.and_eq_true, Bool.not_eq_true']
  refine and_congr_right fun _ => ?_
  split <;> simp_all

/-- A path is one of calls, from an entry point on. -/
theorem reached_iff : graph.Reached id ↔ ∃ entry ∈ graph.entryPoints,
    Relation.ReflTransGen (fun caller callee => callee ∈ graph.callees caller) entry id := by
  constructor
  · intro reached
    induction reached with
    | entry found is => exact ⟨_, mem_entryPoints.2 ⟨_, found, is⟩, .refl⟩
    | call _ calls inside ih =>
        obtain ⟨entry, begins, path⟩ := ih
        exact ⟨entry, begins, path.tail (mem_callees.2 ⟨inside, calls⟩)⟩
  · rintro ⟨entry, begins, path⟩
    induction path with
    | refl =>
        obtain ⟨function, found, is⟩ := mem_entryPoints.1 begins
        exact .entry found is
    | tail _ called ih => exact .call ih (mem_callees.1 called).2 (mem_callees.1 called).1

/-- On every graph the rounds of a search come to an end, whatever was seen and whatever waits, and the
functions that the search from the entry points has found then are, each once and in graph order, those on
call paths from `main` and from handlers outside of tests. -/
theorem reachable_onPaths (graph : CallGraph) :
    (WellFounded fun after before : Search graph => before.next? = some after) ∧
      graph.reachable.Pairwise (· < ·) ∧
        ∀ id, id ∈ graph.reachable ↔ ∃ entry function, graph.function? entry = some function ∧
          (function.isTest = false ∧
            (function.entry = some .main ∨ ∃ request, function.entry = some (.handler request))) ∧
          Relation.ReflTransGen (fun caller callee => callee ∈ graph.callees caller) entry id := by
  refine ⟨?_, List.pairwise_lt_range.filter _, fun id => ?_⟩
  · exact Subrelation.wf (fun round => Search.weight_lt round) (measure Search.weight).wf
  · rw [mem_reachable, reached_iff]
    constructor
    · rintro ⟨entry, begins, path⟩
      obtain ⟨function, found, is⟩ := mem_entryPoints.1 begins
      exact ⟨entry, function, found, isEntryPoint_iff.1 is, path⟩
    · rintro ⟨entry, function, found, is, path⟩
      exact ⟨entry, mem_entryPoints.2 ⟨function, found, isEntryPoint_iff.2 is⟩, path⟩

end TraceWeave.CallGraph
