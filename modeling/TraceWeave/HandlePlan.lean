import TraceWeave.CallGraph.Reach
import TraceWeave.Diagnostic

/-! Which functions carry the tracing handle. From the functions that need it a walk goes to their
callers until entry points are reached; every function on the way takes the handle as a parameter,
and entry points make it. -/
namespace TraceWeave

/-- How far the walk has come with a function. -/
inductive HandleState where
  | unvisited | queued | required | settled
deriving DecidableEq, Repr

/-- A plan, while the walk goes on and after it. -/
structure HandlePlan where
  states : List HandleState
  /-- Functions still to be taken up, first one first. -/
  queue : List Nat
  /-- Functions in whose bodies the handle is known. -/
  carriers : List Nat
  /-- Functions that get a handle parameter. -/
  widened : List Nat
  notes : List Diagnostic

namespace HandlePlan

def state (plan : HandlePlan) (id : Nat) : HandleState := plan.states[id]?.getD .unvisited

def carries (plan : HandlePlan) (id : Nat) : Bool := plan.carriers.contains id

def widens (plan : HandlePlan) (id : Nat) : Bool := plan.widened.contains id

def setState (plan : HandlePlan) (id : Nat) (state : HandleState) : HandlePlan :=
  { plan with states := plan.states.set id state }

def addCarrier (plan : HandlePlan) (id : Nat) : HandlePlan := { plan with carriers := id :: plan.carriers }

def addWidened (plan : HandlePlan) (id : Nat) : HandlePlan := { plan with widened := id :: plan.widened }

def note (plan : HandlePlan) (function : GraphFunction) (kind : DiagnosticKind) (message : String) : HandlePlan :=
  { plan with notes := plan.notes ++ [.onLine kind function.path function.line message] }

/-- Queue a function. -/
def enqueue (plan : HandlePlan) (id : Nat) : HandlePlan :=
  { plan.setState id .queued with queue := plan.queue ++ [id] }

/-- A name as messages show it. -/
def quoted (function : GraphFunction) : String :=
  let mark := String.singleton (Char.ofNat 96)
  mark ++ function.key.render ++ mark

/-- Whether a function can neither take the handle nor has it already. -/
def isBlocked (graph : CallGraph) (id : Nat) (function : GraphFunction) : Bool :=
  graph.isBarrier id && !function.hasHandle

def start (graph : CallGraph) : HandlePlan :=
  ⟨List.replicate graph.size .unvisited, [], [], [], []⟩

/-- Take up a function that needs the handle. -/
def addSeed (graph : CallGraph) (reachable : List Nat) (plan : HandlePlan) (key : FunctionKey) : HandlePlan :=
  match graph.lookup? key with
  | none => plan
  | some id =>
      match graph.function? id with
      | none => plan
      | some function =>
          if function.isTest then plan
          else if !reachable.contains id then
            plan.note function .unreachableMatch
              (quoted function ++ " is not reachable from an entry point; its calls are left as is")
          else if isBlocked graph id function then
            plan.note function .propagationBarrier
              (quoted function ++ " cannot take a tracing handle parameter")
          else plan.enqueue id

/-- Go from a function to one of its callers. -/
def addCaller (graph : CallGraph) (reachable : List Nat) (callee : GraphFunction) (plan : HandlePlan)
    (id : Nat) : HandlePlan :=
  match graph.function? id with
  | none => plan
  | some caller =>
      if caller.isTest || !reachable.contains id || plan.state id != .unvisited then plan
      else if isBlocked graph id caller then
        (plan.setState id .settled).note caller .propagationBarrier
          (quoted caller ++ " cannot take a tracing handle parameter; it passes nil to " ++ quoted callee)
      else plan.enqueue id

/-- Settle a function that was queued. -/
def settle (graph : CallGraph) (reachable : List Nat) (plan : HandlePlan) (id : Nat)
    (function : GraphFunction) : HandlePlan :=
  match function.entry with
  | some .main => plan.addCarrier id
  | some (.handler request) =>
      if request.isSome || function.hasHandle then plan.addCarrier id
      else
        plan.note function .propagationBarrier
          ("handler " ++ quoted function ++ " has no named request parameter to take a transaction from")
  | some .test => plan
  | none =>
      let plan := plan.addCarrier id
      let plan := if function.hasHandle then plan else plan.addWidened id
      (graph.callers id).foldl (addCaller graph reachable function) plan

/-- Take up queued functions one by one. A function is queued at most once, so the number of
functions bounds the rounds. -/
def walk (graph : CallGraph) (reachable : List Nat) : Nat → HandlePlan → HandlePlan
  | 0, plan => plan
  | rounds + 1, plan =>
      match plan.queue with
      | [] => plan
      | id :: queue =>
          let plan := { plan.setState id .required with queue }
          let plan :=
            match graph.function? id with
            | some function => settle graph reachable plan id function
            | none => plan
          walk graph reachable rounds (plan.setState id .settled)

/-- The plan for the functions that need the handle. -/
def compute (graph : CallGraph) (seeds : List FunctionKey) : HandlePlan :=
  let reachable := graph.reachable
  walk graph reachable graph.size (seeds.foldl (addSeed graph reachable) (start graph))

/-- Functions that get a handle parameter, in graph order. -/
def widenedInOrder (graph : CallGraph) (plan : HandlePlan) : List Nat :=
  (List.range graph.size).filter plan.widens

end HandlePlan
end TraceWeave
