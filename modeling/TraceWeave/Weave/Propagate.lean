import TraceWeave.HandlePlan
import TraceWeave.Weave.HandleScope
import TraceWeave.Weave.Inject
import TraceWeave.Weave.Insertion

/-! The second pass: functions on the way to a seed take the handle, calls of them pass it on, entry
points make it, and the statements that waited for it get their code. -/
namespace TraceWeave

open Go (Node Place)

/-- What the second pass is going to do with a file. -/
structure HandleEdits where
  edits : List Edit := []
  imports : List String := []
  notes : List Diagnostic := []

/-- What the second pass knows about a file. -/
structure HandleSite where
  setup : Setup
  program : Program
  source : Source
  package : Nat
  imports : Imports
  graph : CallGraph
  plan : HandlePlan
  seeds : List FunctionKey

namespace HandleSite

def handle (site : HandleSite) : String := site.setup.settings.handle

def handleParameter (site : HandleSite) : String := site.setup.handleParameter site.imports

/-- The handle for a new goroutine. -/
def goroutineHandle (site : HandleSite) : String := site.handle ++ ".NewGoroutine()"

end HandleSite

/-- The position and parameter position of the function that a call names, if it takes the handle. -/
def widenedCallee? (graph : CallGraph) (widened : Nat → Bool) (here : Surroundings) (source : String)
    (call : Place) : Option GraphFunction := do
  if call.kind != .callExpression then none
  let callee ← (here.callTarget? source call).bind graph.lookup?
  if widened callee then graph.function? callee else none

/-- Calls of functions that take the handle, in variables at file level, pass `nil`. -/
def fileLevelEdits (graph : CallGraph) (widened : Nat → Bool) (here : Surroundings) (source : Source) :
    List Edit :=
  (source.rootPlace.parts.filter (·.kind == .varDeclaration)).flatMap fun item =>
    item.descendants.filterMap fun call => do
      let callee ← widenedCallee? graph widened here source.text call
      Edit.addArgument? call.node callee.handleIndex "nil"

namespace HandleSite

/-- The edit for one call, if it names a function that takes the handle. -/
def callEdit (site : HandleSite) (here : Surroundings) (state : List Edit × HandleScope) (call : Place) :
    List Edit × HandleScope :=
  match widenedCallee? site.graph site.plan.widens here site.source.text call with
  | none => state
  | some callee =>
      let (available, scope) := state.2.availableAt call
      let argument :=
        if !available then "nil"
        else if isLaunched call.around then site.goroutineHandle
        else site.handle
      (state.1 ++ (Edit.addArgument? call.node callee.handleIndex argument).toList, scope)

/-- Edits for the calls in a body, in document order. -/
def callEdits (site : HandleSite) (here : Surroundings) (scope : HandleScope) (body : Place) :
    List Edit × HandleScope :=
  body.descendants.foldl (site.callEdit here) ([], scope)

/-- The integration whose code waited for the handle. -/
def deferredFor? (site : HandleSite) (isMain : Bool) (view : StatementView) : Option Integration :=
  site.setup.active.find? fun integration =>
    integration.needsHandle && integration.appliesIn isMain && integration.accepts view

/-- Code for one statement that needs the handle. -/
def deferredStatement (site : HandleSite) (isMain : Bool) (state : HandleEdits × HandleScope)
    (found : Place × StatementView) : Naming (HandleEdits × HandleScope) := do
  let (place, view) := found
  match site.deferredFor? isMain view with
  | none => return state
  | some integration =>
      if integration.isDone view then return state
      else
        let (available, scope) := state.2.availableAt place
        if available then
          let injection ← integration.generate view site.setup.names
          return ({ state.1 with
            edits := state.1.edits ++ injection.toEdits view.source view.node
            imports := state.1.imports ++ injection.imports }, scope)
        else
          return ({ state.1 with
            notes := state.1.notes ++ [.onLine .propagationBarrier site.source.path
              (site.source.nodeLine view.node)
              ("no tracing handle in scope for " ++ integration.name ++ " call")] }, scope)

/-- Statements of a block with their views. -/
def viewsOf (site : HandleSite) (statements : List Place) : List (Place × StatementView) :=
  statements.zip (StatementView.ofSequence site.source.text site.imports (statements.map (·.node)))

/-- Code for the statements of a function that needs the handle. -/
def deferredEdits (site : HandleSite) (isMain : Bool) (scope : HandleScope) (decl : FunctionDecl) (body : Place) :
    Except NameCollision (HandleEdits × HandleScope) :=
  (((body.sequences.flatMap site.viewsOf).foldlM (site.deferredStatement isMain) ({}, scope)).run
    (NameSupply.forFunction site.source site.imports decl.place.node)).1

/-- A statement that makes the handle from a request. -/
def fromRequest (site : HandleSite) (request : String) : String :=
  site.handle ++ " := " ++ Setup.agentPackage site.imports ++ ".FromContext(" ++ request ++ ".Context())"

/-- How an entry point makes the handle, with the imports that takes. -/
def creation (site : HandleSite) (entry : Option Entry) : List String × List String :=
  match entry with
  | some .main =>
      ([site.handle ++ " := " ++ site.setup.settings.agent ++ ".StartTransaction(\"main\")",
        "defer " ++ site.handle ++ ".End()"], [])
  | some (.handler (some request)) => ([site.fromRequest request], [Integration.agentPath])
  | _ => ([], [])

/-- Make the handle at the start of a body that uses it and does not declare it. -/
def creationEdits (site : HandleSite) (scope : HandleScope) (entry : Option Entry) (body : Node) : HandleEdits :=
  if scope.used && !declaresIn site.source.text site.handle body then
    let (lines, imports) := site.creation entry
    if lines.isEmpty then { imports } else { edits := [Edit.addAtStart site.source.text body lines], imports }
  else {}

/-- The parameter of a goroutine literal and the argument of its launch. -/
def launchedEdits (site : HandleSite) (found : LaunchedLiteral) : HandleEdits :=
  let parameter := (found.literal.child? .parameters).toList.map fun list =>
    Edit.addParameter list site.handleParameter
  { edits := parameter ++ (Edit.addArgument? found.launch found.index site.goroutineHandle).toList
    imports := if parameter.isEmpty then [] else [Integration.agentPath] }

/-- The handle that a handler literal makes. -/
def handlerEdits (site : HandleSite) (found : HandlerLiteral) : HandleEdits :=
  match found.literal.child? .body with
  | some body =>
      { edits := [Edit.addAtStart site.source.text body [site.fromRequest found.request]]
        imports := [Integration.agentPath] }
  | none => {}

/-- The parameter of a function that takes the handle. -/
def signatureEdits (site : HandleSite) (id : Nat) (decl : FunctionDecl) : HandleEdits :=
  match decl.parameters with
  | some list =>
      if site.plan.widens id then
        { edits := [Edit.addParameter list.node site.handleParameter], imports := [Integration.agentPath] }
      else {}
  | none => {}

/-- Edits for a declaration. Edits at one offset keep this order, so that the handle is made before
statements that are added before the first one. -/
def declEdits (site : HandleSite) (withDeferred : Bool) (decl : FunctionDecl) :
    Except NameCollision HandleEdits := do
  match site.graph.lookup? (decl.key site.package), decl.body with
  | some id, some body =>
      let entry := (site.graph.function? id).bind (·.entry)
      let here := Surroundings.ofDecl site.program site.package site.imports decl
      let start : HandleScope :=
        { source := site.source, handle := site.handle, http := site.imports.nameFor? "net/http",
          available := site.plan.carries id }
      let (calls, scope) := site.callEdits here start body
      let (deferred, scope) ←
        if withDeferred && site.seeds.contains (decl.key site.package) && site.plan.carries id then
          site.deferredEdits (entry == some .main) scope decl body
        else .ok ({}, scope)
      let signature := site.signatureEdits id decl
      let creation := site.creationEdits scope entry body.node
      let literals := scope.launchedInOrder.map site.launchedEdits ++ scope.handlersInOrder.map site.handlerEdits
      return {
        edits := signature.edits ++ creation.edits ++ literals.flatMap (·.edits) ++ calls ++ deferred.edits
        imports := signature.imports ++ creation.imports ++ literals.flatMap (·.imports) ++ deferred.imports
        notes := deferred.notes ++ scope.notes }
  | _, _ => return {}

/-- Edits for the whole file. -/
def fileEdits (site : HandleSite) (withDeferred : Bool) : Except NameCollision HandleEdits := do
  let parts ← (FunctionDecl.all site.source).mapM (site.declEdits withDeferred)
  let here := Surroundings.ofFile site.program site.package site.imports
  return {
    edits := parts.flatMap (·.edits) ++ fileLevelEdits site.graph site.plan.widens here site.source
    imports := parts.flatMap (·.imports)
    notes := parts.flatMap (·.notes) }

end HandleSite

namespace Setup

/-- Second pass over one file. If no fresh name is found, only the code that needs it is left out, so
that declarations and calls still fit together. -/
def propagateFile (setup : Setup) (graph : CallGraph) (plan : HandlePlan) (run : Run) (file : Nat) : Run :=
  match run.program.files[file]? with
  | none => run
  | some entry =>
      let site : HandleSite :=
        { setup, program := run.program, source := entry.source, package := entry.package,
          imports := run.program.importsOf entry.source, graph, plan, seeds := run.seeds }
      let (edits, run) :=
        match site.fileEdits true with
        | .ok edits => (edits, run)
        | .error collision =>
            match site.fileEdits false with
            | .ok edits => (edits, run.recordFailure entry.source.path (.name collision))
            | .error _ => ({}, run.recordFailure entry.source.path (.name collision))
      ((run.record edits.notes).applyBatch file edits.edits edits.imports).2

/-- Second pass over every production file. -/
def propagate (setup : Setup) (graph : CallGraph) (run : Run) : HandlePlan × Run :=
  let plan := HandlePlan.compute graph run.seeds
  let run := { run.record plan.notes with widened := plan.widenedInOrder graph }
  (plan, run.productionFiles.foldl (setup.propagateFile graph plan) run)

end Setup
end TraceWeave
