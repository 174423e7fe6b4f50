import TraceWeave.Proofs.HandlePlan
import TraceWeave.Proofs.Reach

/-!
A plan for a graph in which an earlier plan was carried out. The functions that got the handle were free to
take it, so having it now changes neither who can be reached, nor who is blocked, nor who makes the handle:
the second walk goes the way of the first one, round by round, and gives the handle to nobody.
-/
namespace TraceWeave

/-- A function that may have been given the handle. -/
def GraphFunction.equipped (function : GraphFunction) (given : Bool) : GraphFunction :=
  { function with hasHandle := function.hasHandle || given }

namespace CallGraph

/-- The graph in which some functions were given the handle. -/
def withHandles (graph : CallGraph) (given : Nat → Bool) : CallGraph :=
  { graph with functions := graph.functions.mapIdx fun id function => function.equipped (given id) }

variable (graph : CallGraph) (given : Nat → Bool)

theorem function?_withHandles (id : Nat) : (graph.withHandles given).function? id =
    (graph.function? id).map fun function => function.equipped (given id) :=
  List.getElem?_mapIdx

theorem size_withHandles : (graph.withHandles given).size = graph.size := List.length_mapIdx

theorem lookup?_withHandles (key : FunctionKey) : (graph.withHandles given).lookup? key = graph.lookup? key := by
  have same : (graph.withHandles given).functions.map (·.key) = graph.functions.map (·.key) := by
    refine List.ext_getElem? fun id => ?_
    rw [List.getElem?_map, List.getElem?_map, withHandles, List.getElem?_mapIdx, Option.map_map]
    rfl
  have known : ∀ functions : List GraphFunction,
      position? functions key = (functions.map (·.key)).findIdx? (· == key) := fun functions => by
    rw [position?, List.findIdx?_map]
    rfl
  rw [lookup?, lookup?, known, known, same]

theorem callers_withHandles (id : Nat) : (graph.withHandles given).callers id = graph.callers id := by
  rw [callers, callers, size_withHandles]
  rfl

theorem callees_withHandles (id : Nat) : (graph.withHandles given).callees id = graph.callees id := by
  rw [callees, callees, size_withHandles]
  rfl

theorem entryPoints_withHandles : (graph.withHandles given).entryPoints = graph.entryPoints := by
  rw [entryPoints, entryPoints, size_withHandles]
  refine List.filter_congr fun id _ => ?_
  rw [function?_withHandles, Option.any_map]
  rfl

theorem isBarrier_withHandles (id : Nat) : (graph.withHandles given).isBarrier id = graph.isBarrier id := by
  rw [isBarrier, isBarrier, function?_withHandles]
  cases graph.function? id <;> rfl

/-- Whether a function has the handle makes no difference to which functions are reached. -/
theorem reachable_withHandles : (graph.withHandles given).reachable = graph.reachable := by
  rw [reachable, reachable, size_withHandles]
  refine List.filter_congr fun id _ => ?_
  rw [Bool.eq_iff_iff, List.contains_iff_mem, List.contains_iff_mem, (searchFromEntries_progress _).mem_run,
    (searchFromEntries_progress _).mem_run, reached_iff, reached_iff, entryPoints_withHandles]
  simp only [callees_withHandles]

end CallGraph

namespace HandlePlan

variable {graph : CallGraph} {reachable : List Nat} {plan : HandlePlan} {given : Nat → Bool} {id : Nat}
  {function : GraphFunction}

/-! What was widened was free to take the handle. -/

/-- A function that waits is not blocked, and one that was widened may take the handle. -/
structure Permitted (graph : CallGraph) (plan : HandlePlan) : Prop where
  waiting : ∀ id ∈ plan.queue, ∀ function, graph.function? id = some function → isBlocked graph id function = false
  widened : ∀ id ∈ plan.widened, ∀ function, graph.function? id = some function →
    function.entry = none ∧ graph.isBarrier id = false

theorem Permitted.congr {plan' : HandlePlan} (permitted : Permitted graph plan) (queue : plan'.queue = plan.queue)
    (widened : plan'.widened = plan.widened) : Permitted graph plan' :=
  ⟨queue ▸ permitted.waiting, widened ▸ permitted.widened⟩

theorem Permitted.enqueue (permitted : Permitted graph plan) (found : graph.function? id = some function)
    (free : isBlocked graph id function = false) : Permitted graph (plan.enqueue id) := by
  refine ⟨?_, permitted.widened⟩
  intro other waits function' found'
  rcases List.mem_append.1 waits with old | new
  · exact permitted.waiting other old function' found'
  · cases List.mem_singleton.1 new
    cases found.symm.trans found'
    exact free

theorem Permitted.addSeed (permitted : Permitted graph plan) (key : FunctionKey) :
    Permitted graph (addSeed graph reachable plan key) := by
  unfold HandlePlan.addSeed
  split
  · exact permitted
  · split
    · exact permitted
    · rename_i found
      split
      · exact permitted
      · split
        · exact permitted.congr rfl rfl
        · split
          · exact permitted.congr rfl rfl
          · rename_i free
            exact permitted.enqueue found (Bool.eq_false_iff.2 free)

theorem Permitted.addCaller (permitted : Permitted graph plan) (callee : GraphFunction) (id : Nat) :
    Permitted graph (addCaller graph reachable callee plan id) := by
  unfold HandlePlan.addCaller
  split
  · exact permitted
  · rename_i found
    split
    · exact permitted
    · split
      · exact permitted.congr rfl rfl
      · rename_i free
        exact permitted.enqueue found (Bool.eq_false_iff.2 free)

theorem Permitted.addWidened (permitted : Permitted graph plan) (found : graph.function? id = some function)
    (inner : function.entry = none) (free : graph.isBarrier id = false) : Permitted graph (plan.addWidened id) := by
  refine ⟨permitted.waiting, ?_⟩
  intro other listed function' found'
  rcases List.mem_cons.1 listed with rfl | old
  · cases found.symm.trans found'
    exact ⟨inner, free⟩
  · exact permitted.widened other old function' found'

theorem Permitted.settle (permitted : Permitted graph plan) (found : graph.function? id = some function)
    (free : isBlocked graph id function = false) : Permitted graph (settle graph reachable plan id function) := by
  unfold HandlePlan.settle
  split
  · exact permitted.congr rfl rfl
  · split <;> exact permitted.congr rfl rfl
  · exact permitted
  · rename_i inner
    have carried : Permitted graph (plan.addCarrier id) := permitted.congr rfl rfl
    have settled : Permitted graph
        (if function.hasHandle then plan.addCarrier id else (plan.addCarrier id).addWidened id) := by
      split
      · exact carried
      · rename_i lacks
        refine carried.addWidened found inner ?_
        simpa [isBlocked, lacks] using free
    exact List.foldlRecOn _ _ settled fun _ permitted caller _ => permitted.addCaller function caller

theorem Permitted.walk (permitted : Permitted graph plan) (rounds : Nat) :
    Permitted graph (walk graph reachable rounds plan) := by
  induction rounds generalizing plan with
  | zero => exact permitted
  | succ rounds ih =>
      unfold HandlePlan.walk
      split
      · exact permitted
      · rename_i id queue next
        have taken : Permitted graph { plan.setState id .required with queue } :=
          ⟨fun other waits => permitted.waiting other (next ▸ List.mem_cons_of_mem id waits), permitted.widened⟩
        refine ih ?_
        dsimp only
        split
        · rename_i function found
          have free := permitted.waiting id (next ▸ List.mem_cons_self) function found
          have settled : Permitted graph (HandlePlan.settle graph reachable _ id function) := taken.settle found free
          exact settled.congr rfl rfl
        · exact taken.congr rfl rfl

theorem compute_permitted (graph : CallGraph) (seeds : List FunctionKey) : Permitted graph (compute graph seeds) := by
  refine Permitted.walk ?_ _
  have started : Permitted graph (start graph) := 
    ⟨fun _ contrary => (List.not_mem_nil contrary).elim, fun _ contrary => (List.not_mem_nil contrary).elim⟩
  exact List.foldlRecOn _ _ started fun _ permitted key _ => permitted.addSeed key

/-! What was widened stays on the list. -/

theorem addCaller_widened (callee : GraphFunction) (plan : HandlePlan) (id : Nat) :
    (addCaller graph reachable callee plan id).widened = plan.widened := by
  unfold addCaller
  split
  · rfl
  · split
    · rfl
    · split <;> rfl

theorem settle_widened (plan : HandlePlan) (id : Nat) (function : GraphFunction) :
    (settle graph reachable plan id function).widened =
      if function.entry = none ∧ function.hasHandle = false then id :: plan.widened else plan.widened := by
  have callers : ∀ (ids : List Nat) (plan : HandlePlan),
      (ids.foldl (addCaller graph reachable function) plan).widened = plan.widened := fun ids plan =>
    List.foldlRecOn ids _ (motive := fun found => found.widened = plan.widened) rfl
      fun found same id _ => (addCaller_widened function found id).trans same
  unfold settle
  cases entry : function.entry with
  | none =>
      dsimp only
      rw [callers]
      cases function.hasHandle <;> rfl
  | some kind =>
      cases kind with
      | main => rfl
      | handler request =>
          dsimp only
          split <;> rfl
      | test => rfl

theorem subset_walk_widened (rounds : Nat) (plan : HandlePlan) :
    plan.widened ⊆ (walk graph reachable rounds plan).widened := by
  induction rounds generalizing plan with
  | zero => exact List.Subset.refl _
  | succ rounds ih =>
      unfold walk
      split
      · exact List.Subset.refl _
      · refine List.Subset.trans ?_ (ih _)
        dsimp only [setState]
        split
        · rw [settle_widened]
          split
          · exact List.subset_cons_self _ _
          · exact List.Subset.refl _
        · exact List.Subset.refl _

/-! The second walk beside the first one. -/

/-- The functions that were given the handle were free to take it. -/
def Fits (graph : CallGraph) (given : Nat → Bool) : Prop :=
  ∀ id function, given id = true → graph.function? id = some function →
    function.entry = none ∧ graph.isBarrier id = false

/-- A plan without the functions that get the handle. -/
def narrowed (plan : HandlePlan) : HandlePlan := { plan with widened := [] }

theorem isBlocked_withHandles (fits : Fits graph given) (found : graph.function? id = some function) :
    isBlocked (graph.withHandles given) id (function.equipped (given id)) = isBlocked graph id function := by
  rw [isBlocked, isBlocked, graph.isBarrier_withHandles]
  cases known : given id with
  | false => rw [GraphFunction.equipped, Bool.or_false]
  | true => rw [(fits id function known found).2, Bool.false_and, Bool.false_and]

theorem addSeed_withHandles (fits : Fits graph given) (plan : HandlePlan) (key : FunctionKey) :
    addSeed (graph.withHandles given) reachable plan.narrowed key = (addSeed graph reachable plan key).narrowed := by
  unfold addSeed
  rw [graph.lookup?_withHandles]
  cases graph.lookup? key with
  | none => rfl
  | some id =>
      dsimp only
      rw [graph.function?_withHandles]
      cases found : graph.function? id with
      | none => rfl
      | some function =>
          dsimp only [Option.map_some]
          rw [isBlocked_withHandles fits found, GraphFunction.equipped]
          dsimp only
          split
          · rfl
          · split
            · rfl
            · split <;> rfl

theorem addCaller_withHandles (fits : Fits graph given) (callee : GraphFunction) (more : Bool) (plan : HandlePlan)
    (id : Nat) : addCaller (graph.withHandles given) reachable (callee.equipped more) plan.narrowed id =
      (addCaller graph reachable callee plan id).narrowed := by
  unfold addCaller
  rw [graph.function?_withHandles]
  cases found : graph.function? id with
  | none => rfl
  | some caller =>
      dsimp only [Option.map_some]
      rw [isBlocked_withHandles fits found, GraphFunction.equipped]
      dsimp only
      change (if caller.isTest || !reachable.contains id || plan.state id != .unvisited then _ else _) = _
      split
      · rfl
      · split <;> rfl

/-- Settling a function that was given the handle if it had to get it. -/
theorem settle_withHandles (fits : Fits graph given) (found : graph.function? id = some function)
    (gets : function.entry = none → function.hasHandle = false → given id = true) (plan : HandlePlan) :
    settle (graph.withHandles given) reachable plan.narrowed id (function.equipped (given id)) =
      (settle graph reachable plan id function).narrowed := by
  have callers : ∀ (ids : List Nat) (plan : HandlePlan),
      ids.foldl (addCaller (graph.withHandles given) reachable (function.equipped (given id))) plan.narrowed =
        (ids.foldl (addCaller graph reachable function) plan).narrowed := by
    intro ids
    induction ids with
    | nil => exact fun _ => rfl
    | cons caller ids ih =>
        intro plan
        rw [List.foldl_cons, List.foldl_cons, addCaller_withHandles fits, ih]
  unfold settle
  rw [graph.callers_withHandles]
  cases entry : function.entry with
  | none =>
      have inner : (function.equipped (given id)).entry = none := entry
      rw [inner]
      dsimp only
      rw [← callers]
      cases handle : function.hasHandle with
      | true =>
          have has : (function.equipped (given id)).hasHandle = true := by rw [GraphFunction.equipped, handle, Bool.true_or]
          rw [has]
          rfl
      | false =>
          have has : (function.equipped (given id)).hasHandle = true := by
            rw [GraphFunction.equipped, handle, gets entry handle, Bool.false_or]
          rw [has]
          rfl
  | some kind =>
      have outer : (function.equipped (given id)).entry = some kind := entry
      have same : (function.equipped (given id)).hasHandle = function.hasHandle := by
        cases known : given id with
        | false => rw [GraphFunction.equipped, Bool.or_false]
        | true => cases entry.symm.trans (fits id function known found).1
      rw [outer]
      cases kind with
      | main => rfl
      | handler request =>
          dsimp only
          rw [same]
          split <;> rfl
      | test => rfl

/-- The second walk goes the way of the first one, if whatever the first one widens was given the handle. -/
theorem walk_withHandles (fits : Fits graph given) (rounds : Nat) (plan : HandlePlan)
    (gets : ∀ id ∈ (walk graph reachable rounds plan).widened, given id = true) :
    walk (graph.withHandles given) reachable rounds plan.narrowed = (walk graph reachable rounds plan).narrowed := by
  induction rounds generalizing plan with
  | zero => rfl
  | succ rounds ih =>
      unfold walk at gets ⊢
      rw [show plan.narrowed.queue = plan.queue from rfl]
      cases waiting : plan.queue with
      | nil => rfl
      | cons id queue =>
          rw [waiting] at gets
          dsimp only at gets ⊢
          rw [graph.function?_withHandles, ← ih _ gets]
          cases found : graph.function? id with
          | none => rfl
          | some function =>
              rw [found] at gets
              dsimp only [Option.map_some] at gets ⊢
              have given' : function.entry = none → function.hasHandle = false → given id = true := by
                intro inner lacks
                refine gets id (subset_walk_widened rounds _ ?_)
                dsimp only [setState]
                rw [settle_widened, if_pos ⟨inner, lacks⟩]
                exact List.mem_cons_self
              have settled : HandlePlan.settle _ reachable (narrowed { plan.setState id .required with queue }) id _ =
                  (HandlePlan.settle graph reachable _ id function).narrowed :=
                settle_withHandles fits found given' _
              exact congrArg (fun found => walk _ reachable rounds (found.setState id .settled)) settled

/-- A plan for a graph in which the functions that it widens have the handle is the same plan, but for
these functions, which need not be widened again. -/
theorem compute_withHandles (graph : CallGraph) (seeds : List FunctionKey) :
    let plan := compute graph seeds
    compute (graph.withHandles plan.widens) seeds = { plan with widened := [] } := by
  intro plan
  have fits : Fits graph plan.widens := fun id function given found =>
    (compute_permitted graph seeds).widened id (List.contains_iff_mem.1 given) function found
  have seeded : ∀ (keys : List FunctionKey) (plan' : HandlePlan),
      keys.foldl (addSeed (graph.withHandles plan.widens) graph.reachable) plan'.narrowed =
        (keys.foldl (addSeed graph graph.reachable) plan').narrowed := by
    intro keys
    induction keys with
    | nil => exact fun _ => rfl
    | cons key keys ih =>
        intro plan'
        rw [List.foldl_cons, List.foldl_cons, addSeed_withHandles fits, ih]
  have started : start (graph.withHandles plan.widens) = (start graph).narrowed := by
    rw [start, graph.size_withHandles]
    rfl
  change walk _ _ _ _ = _
  rw [graph.reachable_withHandles, graph.size_withHandles, started, seeded]
  exact walk_withHandles fits graph.size _ fun id widened => List.contains_iff_mem.2 widened

example : (compute (ringGraph.withHandles fun id => id = 1 ∨ id = 2) [.function 0 "fetch"]).widened = [] ∧
    (compute (ringGraph.withHandles fun id => id = 1 ∨ id = 2) [.function 0 "fetch"]).carriers = [0, 1, 2] := by
  decide +kernel

end HandlePlan
end TraceWeave
