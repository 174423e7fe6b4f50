import TraceWeave.CallGraph.Basic

/-! Functions that entry points lead to, searched breadth first. A function waits once for each call that
leads to it before its turn, and counts when it is first taken up. -/
namespace TraceWeave.CallGraph

/-- A search: functions that were taken up, last one first, and functions that wait, first one first,
perhaps more than once. -/
structure Search (graph : CallGraph) where
  seen : List Nat
  queue : List Nat
  inside : ∀ id ∈ queue, id < graph.size

namespace Search

variable {graph : CallGraph}

/-- Functions that a function calls and that were not seen before. -/
def fresh (graph : CallGraph) (seen : List Nat) (id : Nat) : List Nat :=
  (graph.callees id).filter fun callee => !seen.contains callee

theorem lt_of_mem_fresh {seen : List Nat} {id callee : Nat} (member : callee ∈ fresh graph seen id) :
    callee < graph.size :=
  List.mem_range.1 (List.mem_filter.1 (List.mem_filter.1 member).1).1

theorem length_fresh_le (seen : List Nat) (id : Nat) : (fresh graph seen id).length ≤ graph.size :=
  calc (fresh graph seen id).length
      ≤ (graph.callees id).length := List.length_filter_le _ _
    _ ≤ (List.range graph.size).length := List.length_filter_le _ _
    _ = graph.size := List.length_range

/-- One round takes a function from the queue. If it is new, functions that it calls join the queue. -/
def next? (search : Search graph) : Option (Search graph) :=
  match _waiting : search.queue with
  | [] => none
  | id :: queue =>
      have inside : ∀ other ∈ queue, other < graph.size := fun other later =>
        search.inside other (_waiting ▸ List.mem_cons_of_mem id later)
      if search.seen.contains id then some ⟨search.seen, queue, inside⟩
      else
        some ⟨id :: search.seen, queue ++ fresh graph (id :: search.seen) id, fun other member =>
          (List.mem_append.1 member).elim (inside other) lt_of_mem_fresh⟩

/-- Number of functions that were not taken up yet. -/
def unseen (search : Search graph) : Nat :=
  ((List.range graph.size).filter fun id => !search.seen.contains id).length

/-- What each round makes smaller: a function that was seen leaves the queue, and a new one is seen from
then on and brings at most all functions into the queue. -/
def weight (search : Search graph) : Nat := search.unseen * (graph.size + 1) + search.queue.length

/-- What a round does. -/
theorem next?_cases {search next : Search graph} (round : search.next? = some next) :
    ∃ id queue, search.queue = id :: queue ∧
      ((id ∈ search.seen ∧ next.seen = search.seen ∧ next.queue = queue) ∨
        (id ∉ search.seen ∧ next.seen = id :: search.seen ∧
          next.queue = queue ++ fresh graph (id :: search.seen) id)) := by
  unfold next? at round
  split at round
  · cases round
  · rename_i id queue waiting
    refine ⟨id, queue, waiting, ?_⟩
    dsimp only at round
    split at round
    · rename_i known
      cases round
      exact .inl ⟨List.contains_iff_mem.1 known, rfl, rfl⟩
    · rename_i new
      cases round
      exact .inr ⟨fun known => new (List.contains_iff_mem.2 known), rfl, rfl⟩

/-- A function that is taken up is one less that was not. -/
theorem unseen_lt {search next : Search graph} {id : Nat} (inside : id < graph.size) (new : id ∉ search.seen)
    (seen : next.seen = id :: search.seen) : next.unseen < search.unseen := by
  have thinned : ((List.range graph.size).filter fun other => !next.seen.contains other) =
      ((List.range graph.size).filter fun other => !search.seen.contains other).filter
        fun other => !next.seen.contains other := by
    rw [List.filter_filter]
    refine List.filter_congr fun other _ => ?_
    rw [seen, List.contains_cons]
    cases other == id <;> cases search.seen.contains other <;> rfl
  unfold unseen
  rw [thinned, List.length_filter_lt_length_iff_exists]
  exact ⟨id, List.mem_filter.2 ⟨List.mem_range.2 inside, by simpa using new⟩, by simp [seen]⟩

theorem weight_lt {search next : Search graph} (round : search.next? = some next) : next.weight < search.weight := by
  obtain ⟨id, queue, waiting, ⟨_, seen, rest⟩ | ⟨new, seen, rest⟩⟩ := next?_cases round
  · unfold weight unseen
    rw [seen, rest, waiting, List.length_cons]
    omega
  · have fewer := unseen_lt (search.inside id (waiting ▸ List.mem_cons_self)) new seen
    have bound := Nat.mul_le_mul_right (graph.size + 1) (Nat.succ_le_of_lt fewer)
    have brought : (fresh graph (id :: search.seen) id).length ≤ graph.size := length_fresh_le _ _
    unfold weight
    rw [rest, waiting, List.length_append, List.length_cons]
    rw [Nat.succ_mul] at bound
    omega

/-- Functions that have been seen when no function waits any more. -/
def run (search : Search graph) : List Nat :=
  match _round : search.next? with
  | none => search.seen
  | some next => next.run
termination_by search.weight
decreasing_by exact weight_lt _round

end Search

theorem lt_of_mem_entryPoints {graph : CallGraph} {id : Nat} (member : id ∈ graph.entryPoints) : id < graph.size :=
  List.mem_range.1 (List.mem_filter.1 member).1

/-- The search that begins at the entry points. -/
def searchFromEntries (graph : CallGraph) : Search graph := ⟨[], graph.entryPoints, fun _ => lt_of_mem_entryPoints⟩

/-- Functions that can be reached from an entry point, in graph order. -/
def reachable (graph : CallGraph) : List Nat :=
  (List.range graph.size).filter graph.searchFromEntries.run.contains

end TraceWeave.CallGraph
