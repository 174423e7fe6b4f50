import TraceWeave.Weave.Substitution

/-! The first pass: statements get the code of their integrations. What needs the tracing handle is
only noted, as a seed for the second pass. -/
namespace TraceWeave

open Go (Node Place)

/-- What the first pass is going to do with a file. -/
structure FilePlan where
  edits : List Edit := []
  imports : List String := []
  seeds : List FunctionKey := []
  notes : List Diagnostic := []

namespace FilePlan

def addSeed (plan : FilePlan) (key : FunctionKey) : FilePlan :=
  if plan.seeds.contains key then plan else { plan with seeds := plan.seeds ++ [key] }

/-- Add what a statement means for the bindings in force. -/
def addCarried (plan : FilePlan) (carried : List (List Edit × List Diagnostic)) : FilePlan :=
  { plan with
    edits := plan.edits ++ carried.flatMap (·.1)
    notes := plan.notes ++ carried.flatMap (·.2) }

def addInjection (plan : FilePlan) (view : StatementView) (injection : Injection) : FilePlan :=
  { plan with
    edits := plan.edits ++ injection.toEdits view.source view.node
    imports := plan.imports ++ injection.imports }

end FilePlan

/-- A function whose body the first pass goes through. -/
structure InjectionSite where
  source : Source
  key : FunctionKey
  isMain : Bool

namespace Setup

/-- The integration for a statement: the first that applies and accepts it. -/
def integrationFor? (setup : Setup) (isMain : Bool) (view : StatementView) : Option Integration :=
  setup.active.find? fun integration => integration.appliesIn isMain && integration.accepts view

/-- Plan for one statement, after names have been carried over to it. -/
def injectInto (setup : Setup) (site : InjectionSite) (plan : FilePlan) (bindings : List Binding)
    (view : StatementView) : Naming (FilePlan × List Binding) := do
  match setup.integrationFor? site.isMain view with
  | none => return (plan, bindings)
  | some integration =>
      if integration.needsHandle then return (plan.addSeed site.key, bindings)
      else if integration.isDone view then return (plan, bindings)
      else
        let injection ← integration.generate view setup.names
        if injection.edits.isEmpty then return (plan, bindings)
        else return (plan.addInjection view injection, bindings ++ injection.binding.toList)

/-- Plan for one statement: first names are carried over, then code is added. -/
def injectStatement (setup : Setup) (site : InjectionSite) (state : FilePlan × List Binding)
    (view : StatementView) : Naming (FilePlan × List Binding) :=
  let (plan, bindings) := state
  let line := site.source.nodeLine view.node
  let carried := bindings.map (Binding.carryOver site.source.path view.source line view.node)
  setup.injectInto site (plan.addCarried carried) (Binding.remaining view.source view.node bindings) view

/-- Plan for the statements of a block. -/
def injectSequence (setup : Setup) (site : InjectionSite) (imports : Imports) (plan : FilePlan)
    (statements : List Node) : Naming FilePlan := do
  let views := StatementView.ofSequence site.source.text imports statements
  return (← views.foldlM (setup.injectStatement site) (plan, [])).1

/-- Plan for the body of a function. -/
def injectBody (setup : Setup) (site : InjectionSite) (imports : Imports) (plan : FilePlan) (body : Place) :
    Naming FilePlan :=
  (body.sequences.map fun places => places.map (·.node)).foldlM (setup.injectSequence site imports) plan

/-- Plan for a declaration, with a supply of names of its own. -/
def injectDecl (setup : Setup) (source : Source) (package : Nat) (packageName : String) (imports : Imports)
    (plan : FilePlan) (decl : FunctionDecl) : Except NameCollision FilePlan :=
  match decl.body with
  | none => .ok plan
  | some body =>
      let site := ⟨source, decl.key package, decl.isMain packageName⟩
      ((setup.injectBody site imports plan body).run
        (NameSupply.forFunction source imports decl.place.node)).1

/-- Plan for a file. -/
def planInjections (setup : Setup) (program : Program) (file : Nat) : Except NameCollision FilePlan :=
  match program.files[file]?, program.packageOf? file with
  | some entry, some package =>
      (FunctionDecl.all entry.source).foldlM
        (setup.injectDecl entry.source entry.package package.name (program.importsOf entry.source)) {}
  | _, _ => .ok {}

/-- First pass over one file. Its seeds count only if its edits were carried out. -/
def injectFile (setup : Setup) (run : Run) (file : Nat) : Run :=
  match run.program.source? file with
  | none => run
  | some source =>
      match setup.planInjections run.program file with
      | .error collision => run.recordFailure source.path (.name collision)
      | .ok plan =>
          let (applied, run) := (run.record plan.notes).applyBatch file plan.edits plan.imports
          if applied || plan.edits.isEmpty then run.addSeeds plan.seeds else run

/-- First pass over every production file. -/
def inject (setup : Setup) (run : Run) : Run := run.productionFiles.foldl setup.injectFile run

end Setup
end TraceWeave
