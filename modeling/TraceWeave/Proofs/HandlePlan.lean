import Mathlib.Data.Finset.Card
import Mathlib.Data.List.Nodup
import TraceWeave.HandlePlan

/-! What the walk from seeds to callers finds. The plan is characterised by call paths: a function
has to know the handle when a path of open functions leads from it to a seed, where only its first
function may be called from outside. The walk is followed round by round with one invariant that
relates queue, states and paths. -/
namespace TraceWeave.HandlePlan

/-- A function that the walk may take up. -/
def IsOpen (graph : CallGraph) (id : Nat) (function : GraphFunction) : Prop :=
  graph.function? id = some function ∧ function.isTest = false ∧ id ∈ graph.reachable ∧
    isBlocked graph id function = false

/-- A function that the walk reaches and cannot pass: it can neither take the handle nor has it. -/
def IsClosed (graph : CallGraph) (id : Nat) (function : GraphFunction) : Prop :=
  graph.function? id = some function ∧ function.isTest = false ∧ id ∈ graph.reachable ∧
    isBlocked graph id function = true

/-- A path of calls from an open function to a seed. Functions after the first one are open too,
and nobody calls them from outside. -/
inductive LeadsToSeed (graph : CallGraph) (seeds : List FunctionKey) : Nat → GraphFunction → Prop
  | seed {key id function} : key ∈ seeds → graph.lookup? key = some id → IsOpen graph id function →
      LeadsToSeed graph seeds id function
  | call {id callee function next} : graph.calls id callee = true → IsOpen graph id function →
      LeadsToSeed graph seeds callee next → next.entry = none → LeadsToSeed graph seeds id function

/-- A closed function that calls one which takes the handle. -/
def StopsAt (graph : CallGraph) (seeds : List FunctionKey) (id : Nat) : Prop :=
  ∃ function callee next, IsClosed graph id function ∧ graph.calls id callee = true ∧
    LeadsToSeed graph seeds callee next ∧ next.entry = none

/-- Whether a function on a path knows the handle in its body: it takes it, or makes it. -/
def knowsHandle (function : GraphFunction) : Bool :=
  match function.entry with
  | none | some .main => true
  | some (.handler request) => request.isSome || function.hasHandle
  | some .test => false

theorem LeadsToSeed.isOpen {graph : CallGraph} {seeds : List FunctionKey} {id : Nat} {function : GraphFunction}
    (path : LeadsToSeed graph seeds id function) : IsOpen graph id function := by
  cases path with
  | seed _ _ isOpen => exact isOpen
  | call _ isOpen _ _ => exact isOpen

theorem function_lt {graph : CallGraph} {id : Nat} {function : GraphFunction}
    (found : graph.function? id = some function) : id < graph.size :=
  (List.getElem?_eq_some_iff.1 found).1

theorem mem_callers {graph : CallGraph} {id callee : Nat} :
    id ∈ graph.callers callee ↔ id < graph.size ∧ graph.calls id callee = true := by
  simp [CallGraph.callers]

theorem callers_nodup (graph : CallGraph) (callee : Nat) : (graph.callers callee).Nodup :=
  List.nodup_range.filter _

/-! States after one update. -/

theorem state_setState (plan : HandlePlan) {id : Nat} (inside : id < plan.states.length) (state : HandleState)
    (other : Nat) : (plan.setState id state).state other = if other = id then state else plan.state other := by
  simp only [HandlePlan.state, setState, List.getElem?_set]
  by_cases same : other = id
  · subst same; simp [inside]
  · simp [same, Ne.symm same]

theorem state_enqueue (plan : HandlePlan) {id : Nat} (inside : id < plan.states.length) (other : Nat) :
    (plan.enqueue id).state other = if other = id then .queued else plan.state other :=
  state_setState plan inside .queued other

@[simp] theorem length_setState (plan : HandlePlan) (id : Nat) (state : HandleState) :
    (plan.setState id state).states.length = plan.states.length := by
  simp [setState]

@[simp] theorem queue_setState (plan : HandlePlan) (id : Nat) (state : HandleState) :
    (plan.setState id state).queue = plan.queue := rfl

@[simp] theorem state_note (plan : HandlePlan) (function : GraphFunction) (kind : DiagnosticKind)
    (message : String) : (plan.note function kind message).state = plan.state := rfl

@[simp] theorem state_addCarrier (plan : HandlePlan) (id : Nat) : (plan.addCarrier id).state = plan.state := rfl

@[simp] theorem state_addWidened (plan : HandlePlan) (id : Nat) : (plan.addWidened id).state = plan.state := rfl

/-! One caller, and all callers of a function. -/

/-- The state of a function once it was looked at as a caller. -/
def seen (graph : CallGraph) (reachable : List Nat) (plan : HandlePlan) (id : Nat) : HandleState :=
  match graph.function? id with
  | none => plan.state id
  | some caller =>
      if caller.isTest || !reachable.contains id || plan.state id != .unvisited then plan.state id
      else if isBlocked graph id caller then .settled
      else .queued

/-- The queue holds each queued function once, and no other. -/
structure Tracks (graph : CallGraph) (plan : HandlePlan) : Prop where
  size : plan.states.length = graph.size
  distinct : plan.queue.Nodup
  queued : ∀ id, id ∈ plan.queue ↔ plan.state id = .queued

variable {graph : CallGraph} {reachable : List Nat} {plan : HandlePlan}

theorem Tracks.congr (tracks : Tracks graph plan) {other : HandlePlan} (states : other.states = plan.states)
    (queue : other.queue = plan.queue) : Tracks graph other := by
  refine ⟨by rw [states, tracks.size], by rw [queue]; exact tracks.distinct, ?_⟩
  intro id
  rw [queue, HandlePlan.state, states]
  exact tracks.queued id

theorem Tracks.enqueue (tracks : Tracks graph plan) {id : Nat} (inside : id < graph.size)
    (fresh : plan.state id = .unvisited) : Tracks graph (plan.enqueue id) := by
  have bound : id < plan.states.length := by rw [tracks.size]; exact inside
  have absent : id ∉ plan.queue := by
    rw [tracks.queued, fresh]
    simp
  refine ⟨by simp [HandlePlan.enqueue, tracks.size], ?_, ?_⟩
  · exact tracks.distinct.append (List.nodup_singleton id) (by simpa using absent)
  · intro other
    rw [state_enqueue plan bound]
    by_cases same : other = id
    · simp [HandlePlan.enqueue, same]
    · simp [HandlePlan.enqueue, same, tracks.queued]

theorem Tracks.setState (tracks : Tracks graph plan) {id : Nat} (inside : id < graph.size)
    (idle : plan.state id ≠ .queued) {state : HandleState} (final : state ≠ .queued) :
    Tracks graph (plan.setState id state) := by
  have bound : id < plan.states.length := by rw [tracks.size]; exact inside
  refine ⟨by simp [tracks.size], tracks.distinct, ?_⟩
  intro other
  rw [state_setState plan bound]
  by_cases same : other = id
  · subst same
    simpa [final, idle] using tracks.queued other
  · simpa [same] using tracks.queued other

theorem addCaller_effect (reachable : List Nat) (callee : GraphFunction) (tracks : Tracks graph plan) (id : Nat) :
    Tracks graph (addCaller graph reachable callee plan id) ∧
      (∀ other, (addCaller graph reachable callee plan id).state other =
        if other = id then seen graph reachable plan id else plan.state other) ∧
      (addCaller graph reachable callee plan id).carriers = plan.carriers ∧
      (addCaller graph reachable callee plan id).widened = plan.widened := by
  unfold addCaller seen
  cases found : graph.function? id with
  | none => exact ⟨tracks, fun other => by split <;> simp_all, rfl, rfl⟩
  | some caller =>
      have inside := function_lt found
      have bound : id < plan.states.length := by rw [tracks.size]; exact inside
      by_cases skipped : (caller.isTest || !reachable.contains id || plan.state id != .unvisited) = true
      · simp only [skipped, if_true]
        exact ⟨tracks, fun other => by split <;> simp_all, trivial, trivial⟩
      · have fresh : plan.state id = .unvisited := by
          simp only [Bool.or_eq_true, not_or, bne_iff_ne, ne_eq, not_not] at skipped
          exact skipped.2
        simp only [skipped]
        by_cases blocked : isBlocked graph id caller = true
        · simp only [blocked, if_true]
          refine ⟨?_, fun other => state_setState plan bound .settled other, rfl, rfl⟩
          have settled : Tracks graph (plan.setState id .settled) :=
            tracks.setState inside (by simp [fresh]) (by simp)
          exact settled.congr rfl rfl
        · simp only [blocked]
          exact ⟨tracks.enqueue inside fresh, state_enqueue plan bound, rfl, rfl⟩

/-- Looking at several callers changes each of them as if it were the only one. -/
theorem addCallers_effect (reachable : List Nat) (callee : GraphFunction) (callers : List Nat)
    (distinct : callers.Nodup) (tracks : Tracks graph plan) :
    Tracks graph (callers.foldl (addCaller graph reachable callee) plan) ∧
      (∀ other, (callers.foldl (addCaller graph reachable callee) plan).state other =
        if other ∈ callers then seen graph reachable plan other else plan.state other) ∧
      (callers.foldl (addCaller graph reachable callee) plan).carriers = plan.carriers ∧
      (callers.foldl (addCaller graph reachable callee) plan).widened = plan.widened := by
  induction callers generalizing plan with
  | nil => exact ⟨tracks, by simp, rfl, rfl⟩
  | cons id callers ih =>
      obtain ⟨absent, distinct⟩ := List.nodup_cons.1 distinct
      obtain ⟨tracks', states', carriers', widened'⟩ :=
        addCaller_effect reachable callee tracks id
      obtain ⟨tracks'', states'', carriers'', widened''⟩ := ih distinct tracks'
      refine ⟨tracks'', ?_, carriers''.trans carriers', widened''.trans widened'⟩
      intro other
      rw [List.foldl_cons, states'' other, states' other]
      by_cases same : other = id
      · subst same; simp [absent]
      · have untouched : seen graph reachable (addCaller graph reachable callee plan id) other =
            seen graph reachable plan other := by
          simp [seen, states' other, same]
        simp [same, untouched]

/-! One round of the walk. -/

/-- What a round does with the function it takes from the queue. -/
def takeUp (graph : CallGraph) (reachable : List Nat) (plan : HandlePlan) (id : Nat) (queue : List Nat)
    (function : GraphFunction) : HandlePlan :=
  (settle graph reachable { plan.setState id .required with queue } id function).setState id .settled

theorem walk_cons (rounds : Nat) {id : Nat} {queue : List Nat} {function : GraphFunction}
    (next : plan.queue = id :: queue) (found : graph.function? id = some function) :
    walk graph reachable (rounds + 1) plan =
      walk graph reachable rounds (takeUp graph reachable plan id queue function) := by
  simp only [walk, next, found, takeUp]

theorem Tracks.required (tracks : Tracks graph plan) {id : Nat} {queue : List Nat} (inside : id < graph.size)
    (next : plan.queue = id :: queue) : Tracks graph { plan.setState id .required with queue } := by
  have bound : id < plan.states.length := by rw [tracks.size]; exact inside
  have distinct := tracks.distinct
  rw [next] at distinct
  obtain ⟨absent, distinct⟩ := List.nodup_cons.1 distinct
  refine ⟨by simpa using tracks.size, distinct, ?_⟩
  intro other
  change other ∈ queue ↔ (plan.setState id .required).state other = .queued
  rw [state_setState plan bound]
  by_cases same : other = id
  · subst same; simp [absent]
  · have known := tracks.queued other
    rw [next, List.mem_cons] at known
    simpa [same] using known

theorem settle_effect (reachable : List Nat) (tracks : Tracks graph plan) (id : Nat) (function : GraphFunction) :
    Tracks graph (settle graph reachable plan id function) ∧
      (∀ other, (settle graph reachable plan id function).state other =
        if function.entry = none ∧ other ∈ graph.callers id then seen graph reachable plan other
        else plan.state other) ∧
      (settle graph reachable plan id function).carriers =
        (if knowsHandle function then id :: plan.carriers else plan.carriers) ∧
      (settle graph reachable plan id function).widened =
        (if function.entry = none ∧ function.hasHandle = false then id :: plan.widened else plan.widened) := by
  unfold settle
  cases entry : function.entry with
  | none =>
      have distinct := callers_nodup graph id
      cases handle : function.hasHandle with
      | true =>
          have carried : Tracks graph (plan.addCarrier id) := tracks.congr rfl rfl
          obtain ⟨tracks', states', carriers', widened'⟩ :=
            addCallers_effect reachable function (graph.callers id) distinct carried
          refine ⟨tracks', ?_, carriers'.trans ?_, widened'.trans ?_⟩
          · intro other
            exact (states' other).trans (by simp [seen])
          · simp [knowsHandle, entry, addCarrier]
          · simp [addCarrier]
      | false =>
          have carried : Tracks graph ((plan.addCarrier id).addWidened id) := tracks.congr rfl rfl
          obtain ⟨tracks', states', carriers', widened'⟩ :=
            addCallers_effect reachable function (graph.callers id) distinct carried
          refine ⟨tracks', ?_, carriers'.trans ?_, widened'.trans ?_⟩
          · intro other
            exact (states' other).trans (by simp [seen])
          · simp [knowsHandle, entry, addCarrier, addWidened]
          · simp [addCarrier, addWidened]
  | some kind =>
      cases kind with
      | main => exact ⟨tracks.congr rfl rfl, by simp, by simp [knowsHandle, entry, addCarrier], by simp [addCarrier]⟩
      | handler request =>
          by_cases known : (request.isSome || function.hasHandle) = true
          · simp only [known, if_true]
            exact ⟨tracks.congr rfl rfl, by simp, by simp [knowsHandle, entry, known, addCarrier], by simp [addCarrier]⟩
          · simp only [known]
            exact ⟨tracks.congr rfl rfl, by simp, by simp [knowsHandle, entry, known, note], by simp [note]⟩
      | test => exact ⟨tracks, by simp, by simp [knowsHandle, entry], by simp⟩

theorem takeUp_effect (reachable : List Nat) (tracks : Tracks graph plan) {id : Nat} {queue : List Nat}
    {function : GraphFunction} (next : plan.queue = id :: queue) (found : graph.function? id = some function) :
    Tracks graph (takeUp graph reachable plan id queue function) ∧
      (∀ other, (takeUp graph reachable plan id queue function).state other =
        if other = id then .settled
        else if function.entry = none ∧ other ∈ graph.callers id then seen graph reachable plan other
        else plan.state other) ∧
      (takeUp graph reachable plan id queue function).carriers =
        (if knowsHandle function then id :: plan.carriers else plan.carriers) ∧
      (takeUp graph reachable plan id queue function).widened =
        (if function.entry = none ∧ function.hasHandle = false then id :: plan.widened else plan.widened) := by
  have inside := function_lt found
  have bound : id < plan.states.length := by rw [tracks.size]; exact inside
  have started := tracks.required inside next
  have before : ∀ other, HandlePlan.state { plan.setState id .required with queue } other =
      if other = id then .required else plan.state other := state_setState plan bound .required
  obtain ⟨tracks', states', carriers', widened'⟩ := settle_effect reachable started id function
  have idle : (settle graph reachable { plan.setState id .required with queue } id function).state id ≠
      .queued := by
    rw [states' id]
    split
    · simp [seen, found, before]
    · simp [before]
  have bound' : id < (settle graph reachable { plan.setState id .required with queue } id function).states.length := by
    rw [tracks'.size]; exact inside
  refine ⟨tracks'.setState inside idle (by simp), ?_, carriers', widened'⟩
  intro other
  rw [takeUp, state_setState _ bound', states' other]
  by_cases here : other = id
  · simp [here]
  · simp [here, seen, before]

/-! The invariant of the walk. -/

/-- What holds between two rounds. A settled function is on a path to a seed or stops the walk; a
queued one is on a path; and what calls a settled function that takes the handle has been seen. -/
structure Progress (graph : CallGraph) (seeds : List FunctionKey) (plan : HandlePlan) : Prop
    extends Tracks graph plan where
  notRequired : ∀ id, plan.state id ≠ .required
  waiting : ∀ id, plan.state id = .queued → ∃ function, LeadsToSeed graph seeds id function
  settled : ∀ id, plan.state id = .settled →
    (∃ function, LeadsToSeed graph seeds id function) ∨ StopsAt graph seeds id
  carriers : ∀ id, id ∈ plan.carriers ↔
    plan.state id = .settled ∧ ∃ function, LeadsToSeed graph seeds id function ∧ knowsHandle function = true
  widened : ∀ id, id ∈ plan.widened ↔
    plan.state id = .settled ∧
      ∃ function, LeadsToSeed graph seeds id function ∧ function.entry = none ∧ function.hasHandle = false
  passed : ∀ {id function caller other}, plan.state id = .settled → LeadsToSeed graph seeds id function →
    function.entry = none → graph.calls caller id = true →
    IsOpen graph caller other ∨ IsClosed graph caller other → plan.state caller ≠ .unvisited
  begun : ∀ {key id function}, key ∈ seeds → graph.lookup? key = some id → IsOpen graph id function →
    plan.state id ≠ .unvisited

theorem IsOpen.unique {graph : CallGraph} {id : Nat} {a b : GraphFunction} (first : IsOpen graph id a)
    (second : graph.function? id = some b) : a = b :=
  Option.some.inj (first.1.symm.trans second)

theorem LeadsToSeed.unique {seeds : List FunctionKey} {id : Nat} {a b : GraphFunction}
    (path : LeadsToSeed graph seeds id a) (found : graph.function? id = some b) : a = b :=
  path.isOpen.unique found

theorem IsClosed.not_leads {seeds : List FunctionKey} {id : Nat} {a b : GraphFunction}
    (closed : IsClosed graph id a) : ¬ LeadsToSeed graph seeds id b := by
  intro path
  have same := path.unique closed.1
  subst same
  have blocked := closed.2.2.2
  rw [path.isOpen.2.2.2] at blocked
  cases blocked

/-- A function that was seen as a caller keeps its state, or is taken up, or stops the walk. -/
theorem seen_cases (graph : CallGraph) (plan : HandlePlan) (id : Nat) :
    (seen graph graph.reachable plan id = plan.state id ∧
      ∀ function, IsOpen graph id function ∨ IsClosed graph id function → plan.state id ≠ .unvisited) ∨
    (∃ function, IsOpen graph id function ∧ plan.state id = .unvisited ∧
      seen graph graph.reachable plan id = .queued) ∨
    (∃ function, IsClosed graph id function ∧ plan.state id = .unvisited ∧
      seen graph graph.reachable plan id = .settled) := by
  unfold seen
  cases found : graph.function? id with
  | none =>
      refine .inl ⟨rfl, ?_⟩
      rintro function (isOpen | closed)
      · cases found.symm.trans isOpen.1
      · cases found.symm.trans closed.1
  | some caller =>
      dsimp only
      by_cases skipped : (caller.isTest || !graph.reachable.contains id || plan.state id != .unvisited) = true
      · refine .inl ⟨by simp only [skipped, if_true], ?_⟩
        intro function eligible fresh
        have known : graph.function? id = some function ∧ function.isTest = false ∧ id ∈ graph.reachable := by
          rcases eligible with isOpen | closed
          · exact ⟨isOpen.1, isOpen.2.1, isOpen.2.2.1⟩
          · exact ⟨closed.1, closed.2.1, closed.2.2.1⟩
        have same : caller = function := Option.some.inj (found.symm.trans known.1)
        subst same
        simp [known.2.1, known.2.2, fresh] at skipped
      · have facts : caller.isTest = false ∧ id ∈ graph.reachable ∧ plan.state id = .unvisited := by
          simpa [and_assoc] using skipped
        by_cases blocked : isBlocked graph id caller = true
        · exact .inr (.inr ⟨caller, ⟨found, facts.1, facts.2.1, blocked⟩, facts.2.2, by simp [facts, blocked]⟩)
        · exact .inr (.inl ⟨caller, ⟨found, facts.1, facts.2.1, by simpa using blocked⟩, facts.2.2,
            by simp [facts, blocked]⟩)

/-- What a round changes: the function it takes up is settled, and callers that nobody had seen are
queued or stop the walk. -/
theorem takeUp_cases {seeds : List FunctionKey} (progress : Progress graph seeds plan) {id : Nat}
    {queue : List Nat} {function : GraphFunction} (next : plan.queue = id :: queue)
    (path : LeadsToSeed graph seeds id function) (other : Nat) :
    let state := (takeUp graph graph.reachable plan id queue function).state other
    (other = id ∧ state = .settled) ∨ (other ≠ id ∧ state = plan.state other) ∨
      (other ≠ id ∧ plan.state other = .unvisited ∧ state = .queued ∧
        ∃ caller, LeadsToSeed graph seeds other caller) ∨
      (other ≠ id ∧ plan.state other = .unvisited ∧ state = .settled ∧ StopsAt graph seeds other ∧
        ∃ caller, IsClosed graph other caller) := by
  intro state
  have effect := (takeUp_effect graph.reachable progress.toTracks next path.isOpen.1).2.1 other
  by_cases here : other = id
  · exact .inl ⟨here, effect.trans (by simp [here])⟩
  · by_cases caller : function.entry = none ∧ other ∈ graph.callers id
    · have same : state = seen graph graph.reachable plan other := effect.trans (by simp [here, caller])
      have call := (mem_callers.1 caller.2).2
      rcases seen_cases graph plan other with kept | ⟨g, isOpen, fresh, queued⟩ | ⟨g, closed, fresh, stopped⟩
      · exact .inr (.inl ⟨here, same.trans kept.1⟩)
      · exact .inr (.inr (.inl ⟨here, fresh, same.trans queued, g, .call call isOpen path caller.1⟩))
      · exact .inr (.inr (.inr ⟨here, fresh, same.trans stopped, ⟨g, id, function, closed, call, path, caller.1⟩,
          g, closed⟩))
    · exact .inr (.inl ⟨here, effect.trans (by simp [here, caller])⟩)

section Round

variable {seeds : List FunctionKey} {id : Nat} {queue : List Nat} {function : GraphFunction}

/-- Nothing that was seen is forgotten. -/
theorem takeUp_visited (progress : Progress graph seeds plan) (next : plan.queue = id :: queue)
    (path : LeadsToSeed graph seeds id function) {other : Nat} (visited : plan.state other ≠ .unvisited) :
    (takeUp graph graph.reachable plan id queue function).state other ≠ .unvisited := by
  rcases takeUp_cases progress next path other with ⟨_, same⟩ | ⟨_, same⟩ | ⟨_, fresh, _⟩ | ⟨_, fresh, _⟩
  · rw [same]; simp
  · rw [same]; exact visited
  · exact absurd fresh visited
  · exact absurd fresh visited

/-- Of the functions on paths, a round settles only the one it takes up. -/
theorem takeUp_settled (progress : Progress graph seeds plan) (next : plan.queue = id :: queue)
    (path : LeadsToSeed graph seeds id function) {other : Nat} {reached : GraphFunction}
    (leads : LeadsToSeed graph seeds other reached) :
    (takeUp graph graph.reachable plan id queue function).state other = .settled ↔
      other = id ∨ plan.state other = .settled := by
  rcases takeUp_cases progress next path other with
    ⟨here, same⟩ | ⟨here, same⟩ | ⟨here, fresh, same, _⟩ | ⟨_, _, _, _, caller, closed⟩
  · exact ⟨fun _ => .inl here, fun _ => same⟩
  · simp [here, same]
  · simp [here, fresh, same]
  · exact absurd leads closed.not_leads

/-- A list of the settled functions on paths with some property stays one, if the function that is
taken up joins it just when it has the property. -/
theorem takeUp_recorded (progress : Progress graph seeds plan) (next : plan.queue = id :: queue)
    (path : LeadsToSeed graph seeds id function) {has : GraphFunction → Prop} [Decidable (has function)]
    {before : List Nat}
    (recorded : ∀ other, other ∈ before ↔
      plan.state other = .settled ∧ ∃ reached, LeadsToSeed graph seeds other reached ∧ has reached) (other : Nat) :
    (other ∈ if has function then id :: before else before) ↔
      (takeUp graph graph.reachable plan id queue function).state other = .settled ∧
        ∃ reached, LeadsToSeed graph seeds other reached ∧ has reached := by
  have member : (other ∈ if has function then id :: before else before) ↔
      (other = id ∧ has function) ∨ other ∈ before := by
    split <;> simp_all
  rw [member]
  constructor
  · rintro (⟨rfl, property⟩ | old)
    · exact ⟨(takeUp_settled progress next path path).2 (.inl rfl), function, path, property⟩
    · obtain ⟨done, reached, leads, property⟩ := (recorded other).1 old
      exact ⟨(takeUp_settled progress next path leads).2 (.inr done), reached, leads, property⟩
  · rintro ⟨done, reached, leads, property⟩
    rcases (takeUp_settled progress next path leads).1 done with here | old
    · subst here
      rw [leads.unique path.isOpen.1] at property
      exact .inl ⟨rfl, property⟩
    · exact .inr ((recorded other).2 ⟨old, reached, leads, property⟩)

/-- All that calls the function taken up has been seen afterwards, if it takes the handle. -/
theorem takeUp_callers (progress : Progress graph seeds plan) (next : plan.queue = id :: queue)
    (path : LeadsToSeed graph seeds id function) (inner : function.entry = none) {caller : Nat}
    {other : GraphFunction} (call : graph.calls caller id = true)
    (eligible : IsOpen graph caller other ∨ IsClosed graph caller other) :
    (takeUp graph graph.reachable plan id queue function).state caller ≠ .unvisited := by
  have inside : caller < graph.size := by
    rcases eligible with isOpen | closed
    · exact function_lt isOpen.1
    · exact function_lt closed.1
  rw [(takeUp_effect graph.reachable progress.toTracks next path.isOpen.1).2.1 caller]
  split
  · simp
  · rw [if_pos ⟨inner, mem_callers.2 ⟨inside, call⟩⟩]
    rcases seen_cases graph plan caller with ⟨same, visited⟩ | ⟨_, _, _, same⟩ | ⟨_, _, _, same⟩
    · rw [same]; exact visited other eligible
    · rw [same]; simp
    · rw [same]; simp

/-- One round keeps the invariant. -/
theorem Progress.takeUp (progress : Progress graph seeds plan) (next : plan.queue = id :: queue)
    (path : LeadsToSeed graph seeds id function) :
    Progress graph seeds (takeUp graph graph.reachable plan id queue function) := by
  have step := takeUp_cases progress next path
  obtain ⟨tracks, _, carriers, widened⟩ :=
    takeUp_effect graph.reachable progress.toTracks next path.isOpen.1
  refine ⟨tracks, ?_, ?_, ?_, ?_, ?_, ?_, ?_⟩
  · intro other
    rcases step other with ⟨_, same⟩ | ⟨_, same⟩ | ⟨_, _, same, _⟩ | ⟨_, _, same, _⟩
    · rw [same]; simp
    · rw [same]; exact progress.notRequired other
    · rw [same]; simp
    · rw [same]; simp
  · intro other waits
    rcases step other with ⟨_, same⟩ | ⟨_, same⟩ | ⟨_, _, _, leads⟩ | ⟨_, _, same, _⟩
    · rw [same] at waits; cases waits
    · exact progress.waiting other (same ▸ waits)
    · exact leads
    · rw [same] at waits; cases waits
  · intro other done
    rcases step other with ⟨here, _⟩ | ⟨_, same⟩ | ⟨_, _, same, _⟩ | ⟨_, _, _, stops, _⟩
    · exact .inl ⟨function, here ▸ path⟩
    · exact progress.settled other (same ▸ done)
    · rw [same] at done; cases done
    · exact .inr stops
  · rw [carriers]
    exact takeUp_recorded progress next path progress.carriers
  · rw [widened]
    exact takeUp_recorded progress next path progress.widened
  · intro other reached caller found done leads inner call eligible
    rcases (takeUp_settled progress next path leads).1 done with here | old
    · subst here
      rw [leads.unique path.isOpen.1] at inner
      exact takeUp_callers progress next path inner call eligible
    · exact takeUp_visited progress next path (progress.passed old leads inner call eligible)
  · intro key other reached member known isOpen
    exact takeUp_visited progress next path (progress.begun member known isOpen)

/-! The whole walk. -/

/-- Functions that a round can still take up or queue. -/
def pending (graph : CallGraph) (plan : HandlePlan) : Finset Nat :=
  {id ∈ Finset.range graph.size | plan.state id = .unvisited ∨ plan.state id = .queued}

theorem takeUp_pending (progress : Progress graph seeds plan) (next : plan.queue = id :: queue)
    (path : LeadsToSeed graph seeds id function) :
    (pending graph (takeUp graph graph.reachable plan id queue function)).card < (pending graph plan).card := by
  have queued : plan.state id = .queued := (progress.queued id).1 (by simp [next])
  apply Finset.card_lt_card
  rw [Finset.ssubset_iff_of_subset]
  · refine ⟨id, ?_, ?_⟩
    · simpa [pending, queued] using function_lt path.isOpen.1
    · simp [pending, (takeUp_settled progress next path path).2 (.inl rfl)]
  · intro other
    simp only [pending, Finset.mem_filter, and_imp]
    intro inside waits
    refine ⟨inside, ?_⟩
    rcases takeUp_cases progress next path other with ⟨_, same⟩ | ⟨_, same⟩ | ⟨_, fresh, _⟩ | ⟨_, fresh, _⟩
    · simp [same] at waits
    · rwa [same] at waits
    · exact .inl fresh
    · exact .inl fresh

/-- As many rounds as functions can still be taken up are enough: the walk ends with nothing queued. -/
theorem walk_progress (rounds : Nat) (progress : Progress graph seeds plan)
    (enough : (pending graph plan).card ≤ rounds) :
    Progress graph seeds (walk graph graph.reachable rounds plan) ∧
      (walk graph graph.reachable rounds plan).queue = [] := by
  induction rounds generalizing plan with
  | zero =>
      refine ⟨progress, ?_⟩
      have none := Finset.card_eq_zero.1 (Nat.le_zero.1 enough)
      rw [walk, List.eq_nil_iff_forall_not_mem]
      intro id member
      obtain ⟨function, path⟩ := progress.waiting id ((progress.queued id).1 member)
      have waits : id ∈ pending graph plan := by
        simpa [pending, (progress.queued id).1 member] using function_lt path.isOpen.1
      rw [none] at waits
      simp at waits
  | succ rounds ih =>
      cases next : plan.queue with
      | nil =>
          have stays : walk graph graph.reachable (rounds + 1) plan = plan := by simp only [walk, next]
          rw [stays]
          exact ⟨progress, next⟩
      | cons id queue =>
          obtain ⟨function, path⟩ := progress.waiting id ((progress.queued id).1 (by simp [next]))
          rw [walk_cons rounds next path.isOpen.1]
          have fewer := takeUp_pending progress next path
          exact ih (progress.takeUp next path) (by omega)

end Round

/-! The start of the walk. -/

theorem key_of_lookup {key : FunctionKey} {id : Nat} (known : graph.lookup? key = some id) :
    ∃ function, graph.function? id = some function ∧ function.key = key := by
  obtain ⟨inside, same, _⟩ := List.findIdx?_eq_some_iff_getElem.1 known
  exact ⟨graph.functions[id], by simp [CallGraph.function?, inside], by simpa using same⟩

theorem lookup_injective {a b : FunctionKey} {id : Nat} (first : graph.lookup? a = some id)
    (second : graph.lookup? b = some id) : a = b := by
  obtain ⟨f, foundF, keyF⟩ := key_of_lookup first
  obtain ⟨g, foundG, keyG⟩ := key_of_lookup second
  rw [← keyF, ← keyG, Option.some.inj (foundF.symm.trans foundG)]

/-- What holds while seeds are taken up: those looked at so far are queued if they are open. -/
structure Seeded (graph : CallGraph) (done : List FunctionKey) (plan : HandlePlan) : Prop
    extends Tracks graph plan where
  states : ∀ id, plan.state id = .unvisited ∨ plan.state id = .queued
  taken : ∀ id, plan.state id = .queued ↔
    ∃ key ∈ done, ∃ function, graph.lookup? key = some id ∧ IsOpen graph id function
  carriers : plan.carriers = []
  widened : plan.widened = []

theorem seeded_start (graph : CallGraph) : Seeded graph [] (start graph) := by
  have fresh : ∀ id, (start graph).state id = .unvisited := by
    intro id
    by_cases inside : id < graph.size <;> simp [start, HandlePlan.state, inside]
  refine ⟨⟨by simp [start], by simp [start], ?_⟩, fun id => .inl (fresh id), ?_, rfl, rfl⟩
  · intro id
    rw [fresh id]
    simp [start]
  · intro id
    simp [fresh]

/-- A seed that is not open changes nothing but the notes. -/
theorem addSeed_cases (graph : CallGraph) (plan : HandlePlan) (key : FunctionKey) :
    (∃ id function, graph.lookup? key = some id ∧ IsOpen graph id function ∧
      addSeed graph graph.reachable plan key = plan.enqueue id) ∨
    ((∀ id function, graph.lookup? key = some id → ¬ IsOpen graph id function) ∧
      ∃ notes, addSeed graph graph.reachable plan key = { plan with notes }) := by
  unfold addSeed
  cases known : graph.lookup? key with
  | none => exact .inr ⟨by simp, plan.notes, rfl⟩
  | some id =>
      obtain ⟨function, found, _⟩ := key_of_lookup known
      simp only [found]
      have unique : ∀ other g, some id = some other → IsOpen graph other g → other = id ∧ g = function := by
        intro other g same isOpen
        cases same
        exact ⟨rfl, isOpen.unique found⟩
      by_cases test : function.isTest = true
      · refine .inr ⟨?_, plan.notes, by simp [test]⟩
        intro other g same isOpen
        obtain ⟨_, rfl⟩ := unique other g same isOpen
        simp [isOpen.2.1] at test
      · by_cases reached : id ∈ graph.reachable
        · by_cases blocked : isBlocked graph id function = true
          · refine .inr ⟨?_, _, by simp [test, reached, blocked, note]; rfl⟩
            intro other g same isOpen
            obtain ⟨rfl, rfl⟩ := unique other g same isOpen
            simp [isOpen.2.2.2] at blocked
          · refine .inl ⟨id, function, rfl, ⟨found, by simpa using test, reached, by simpa using blocked⟩, ?_⟩
            simp [test, reached, blocked]
        · refine .inr ⟨?_, _, by simp [test, reached, note]; rfl⟩
          intro other g same isOpen
          obtain ⟨rfl, _⟩ := unique other g same isOpen
          exact reached isOpen.2.2.1

/-- A seed whose key was not taken up before is queued if it is open. -/
theorem Seeded.addSeed {done : List FunctionKey} (seeded : Seeded graph done plan) {key : FunctionKey}
    (fresh : key ∉ done) : Seeded graph (done ++ [key]) (addSeed graph graph.reachable plan key) := by
  rcases addSeed_cases graph plan key with ⟨id, function, known, isOpen, same⟩ | ⟨unfit, notes, same⟩
  · have inside := function_lt isOpen.1
    have bound : id < plan.states.length := by rw [seeded.size]; exact inside
    have unvisited : plan.state id = .unvisited := by
      refine (seeded.states id).resolve_right ?_
      intro queued
      obtain ⟨other, member, _, otherKnown, _⟩ := (seeded.taken id).1 queued
      exact fresh (lookup_injective otherKnown known ▸ member)
    rw [same]
    refine ⟨seeded.toTracks.enqueue inside unvisited, ?_, ?_, seeded.carriers, seeded.widened⟩
    · intro other
      rw [state_enqueue plan bound]
      split
      · exact .inr rfl
      · exact seeded.states other
    · intro other
      rw [state_enqueue plan bound]
      by_cases here : other = id
      · subst here
        simp only [if_true, true_iff]
        exact ⟨key, by simp, function, known, isOpen⟩
      · simp only [here, if_false, seeded.taken other]
        constructor
        · rintro ⟨otherKey, member, g, facts⟩
          exact ⟨otherKey, List.mem_append_left _ member, g, facts⟩
        · rintro ⟨otherKey, member, g, otherKnown, facts⟩
          rcases List.mem_append.1 member with old | new
          · exact ⟨otherKey, old, g, otherKnown, facts⟩
          · rw [List.mem_singleton.1 new, known] at otherKnown
            exact absurd (Option.some.inj otherKnown).symm here
  · rw [same]
    refine ⟨seeded.toTracks.congr rfl rfl, seeded.states, ?_, seeded.carriers, seeded.widened⟩
    intro other
    rw [show HandlePlan.state { plan with notes } other = plan.state other from rfl, seeded.taken other]
    constructor
    · rintro ⟨otherKey, member, g, facts⟩
      exact ⟨otherKey, List.mem_append_left _ member, g, facts⟩
    · rintro ⟨otherKey, member, g, otherKnown, otherOpen⟩
      rcases List.mem_append.1 member with old | new
      · exact ⟨otherKey, old, g, otherKnown, otherOpen⟩
      · rw [List.mem_singleton.1 new] at otherKnown
        exact absurd otherOpen (unfit other g otherKnown)

theorem Seeded.addSeeds {done : List FunctionKey} (keys : List FunctionKey) (distinct : (done ++ keys).Nodup)
    (seeded : Seeded graph done plan) :
    Seeded graph (done ++ keys) (keys.foldl (HandlePlan.addSeed graph graph.reachable) plan) := by
  induction keys generalizing done plan with
  | nil => simpa using seeded
  | cons key keys ih =>
      have fresh : key ∉ done := by
        have apart := (List.nodup_append.1 distinct).2.2
        exact fun member => apart key member key (by simp) rfl
      have rest := ih (by simpa using distinct) (seeded.addSeed fresh)
      simpa using rest

/-- When all seeds are taken up the walk can begin. -/
theorem Seeded.progress {seeds : List FunctionKey} (seeded : Seeded graph seeds plan) : Progress graph seeds plan := by
  have unsettled : ∀ id, plan.state id ≠ .settled := by
    intro id done
    rcases seeded.states id with same | same
    · cases same.symm.trans done
    · cases same.symm.trans done
  refine ⟨seeded.toTracks, ?_, ?_, ?_, ?_, ?_, ?_, ?_⟩
  · intro id needed
    rcases seeded.states id with same | same
    · cases same.symm.trans needed
    · cases same.symm.trans needed
  · intro id queued
    obtain ⟨key, member, function, known, isOpen⟩ := (seeded.taken id).1 queued
    exact ⟨function, .seed member known isOpen⟩
  · intro id done
    exact absurd done (unsettled id)
  · intro id
    simp [seeded.carriers, unsettled]
  · intro id
    simp [seeded.widened, unsettled]
  · intro id function caller other done
    exact absurd done (unsettled id)
  · intro key id function member known isOpen
    rw [(seeded.taken id).2 ⟨key, member, function, known, isOpen⟩]
    simp

theorem compute_progress (graph : CallGraph) {seeds : List FunctionKey} (distinct : seeds.Nodup) :
    Progress graph seeds (compute graph seeds) ∧ (compute graph seeds).queue = [] := by
  have seeded : Seeded graph seeds (seeds.foldl (addSeed graph graph.reachable) (start graph)) := by
    simpa using (seeded_start graph).addSeeds seeds (by simpa using distinct)
  apply walk_progress graph.size seeded.progress
  exact (Finset.card_filter_le _ _).trans_eq (Finset.card_range graph.size)

/-- When nothing is queued any more, a function is settled or was never seen. -/
theorem Progress.ended_cases {seeds : List FunctionKey} (progress : Progress graph seeds plan)
    (ended : plan.queue = []) (id : Nat) : plan.state id = .unvisited ∨ plan.state id = .settled := by
  cases state : plan.state id with
  | unvisited => exact .inl rfl
  | queued =>
      have member := (progress.queued id).2 state
      rw [ended] at member
      cases member
  | required => exact absurd state (progress.notRequired id)
  | settled => exact .inr rfl

/-- A walk that has ended has settled every function on a path to a seed. -/
theorem Progress.settled_of_leads {seeds : List FunctionKey} (progress : Progress graph seeds plan)
    (ended : plan.queue = []) {id : Nat} {function : GraphFunction} (path : LeadsToSeed graph seeds id function) :
    plan.state id = .settled := by
  induction path with
  | @seed key id function member known isOpen =>
      exact (progress.ended_cases ended id).resolve_left (progress.begun member known isOpen)
  | @call id callee function next call isOpen path inner ih =>
      exact (progress.ended_cases ended id).resolve_left (progress.passed ih path inner call (.inl isOpen))

/-- A plan that says of every function what the call paths to the seeds say. -/
structure FollowsPaths (graph : CallGraph) (seeds : List FunctionKey) (plan : HandlePlan) : Prop where
  ended : plan.queue = []
  widened : ∀ id, id ∈ plan.widened ↔
    ∃ function, LeadsToSeed graph seeds id function ∧ function.entry = none ∧ function.hasHandle = false
  carriers : ∀ id, id ∈ plan.carriers ↔
    ∃ function, LeadsToSeed graph seeds id function ∧ knowsHandle function = true
  settled : ∀ id, plan.state id = .settled ↔
    (∃ function, LeadsToSeed graph seeds id function) ∨ StopsAt graph seeds id
  finished : ∀ id, plan.state id = .unvisited ∨ plan.state id = .settled

/-- The walk ends within its rounds, whatever cycles the graph has, and finds exactly the functions
on call paths to seeds and those that stop it. Seeds are a set: no key is listed twice. -/
theorem compute_followsPaths (graph : CallGraph) (seeds : List FunctionKey) (distinct : seeds.Nodup) :
    FollowsPaths graph seeds (compute graph seeds) := by
  obtain ⟨progress, ended⟩ := compute_progress graph distinct
  have settled : ∀ {id function}, LeadsToSeed graph seeds id function →
      (compute graph seeds).state id = .settled := progress.settled_of_leads ended
  refine ⟨ended, ?_, ?_, ?_, progress.ended_cases ended⟩
  · intro id
    rw [progress.widened id]
    exact ⟨fun ⟨_, found⟩ => found, fun ⟨function, path, widens⟩ => ⟨settled path, function, path, widens⟩⟩
  · intro id
    rw [progress.carriers id]
    exact ⟨fun ⟨_, found⟩ => found, fun ⟨function, path, knows⟩ => ⟨settled path, function, path, knows⟩⟩
  · intro id
    refine ⟨progress.settled id, ?_⟩
    rintro (⟨function, path⟩ | ⟨function, callee, next, closed, call, path, inner⟩)
    · exact settled path
    · exact (progress.ended_cases ended id).resolve_left
        (progress.passed (settled path) path inner call (.inr closed))

/-- `main` calls `run`; `run` and `fetch` call each other; `hook`, which is used as a value and calls
`fetch`, is called by `main` as well. -/
def ringGraph : CallGraph where
  functions :=
    [⟨.function 0 "main", 0, "main.go", 3, false, some .main, 0, true, false, true⟩,
      ⟨.function 0 "run", 0, "main.go", 8, false, none, 0, true, false, true⟩,
      ⟨.function 0 "fetch", 0, "main.go", 12, false, none, 0, true, false, true⟩,
      ⟨.function 0 "hook", 0, "main.go", 17, false, none, 0, true, false, true⟩]
  usages := [.call 0 1, .call 1 2, .call 2 1, .call 0 3, .value 3, .call 3 2]
  interfaceMethods := []

theorem compute_followsPaths_ring :
    [FunctionKey.function 0 "fetch"].Nodup ∧
      FollowsPaths ringGraph [.function 0 "fetch"] (compute ringGraph [.function 0 "fetch"]) :=
  ⟨by decide, compute_followsPaths ringGraph [.function 0 "fetch"] (by decide)⟩

example : (compute ringGraph [.function 0 "fetch"]).widened = [1, 2] ∧
    (compute ringGraph [.function 0 "fetch"]).carriers = [0, 1, 2] ∧
    (compute ringGraph [.function 0 "fetch"]).states = [.settled, .settled, .settled, .settled] := by decide +kernel

end TraceWeave.HandlePlan
