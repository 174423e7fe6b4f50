import TraceWeave.Detection
import TraceWeave.Failure
import TraceWeave.Function

/-! The state of a run while code is woven into a program. -/
namespace TraceWeave

open Go (Node)

/-- Names and switches for new code. -/
structure Settings where
  /-- The variable that holds the agent in `main`. -/
  agent : String := "NewRelicAgent"
  /-- The name of the tracing handle. -/
  handle : String := "nrTxn"
  /-- The name the application reports. -/
  appName : Option String := none
  /-- Make the agent in `main` where new code needs it. -/
  bootstrap : Bool := true
deriving DecidableEq, Repr

/-- What stays the same during a run. -/
structure Setup where
  catalog : Catalog
  settings : Settings
  detection : Detection

namespace Setup

def names (setup : Setup) : AgentNames := ⟨setup.settings.agent, setup.settings.handle⟩

/-- Active integrations, in catalog order. -/
def active (setup : Setup) : List Integration :=
  setup.detection.active.filterMap fun index => setup.catalog[index]?

/-- What a file calls the package of the agent. -/
def agentPackage (imports : Imports) : String := imports.callName Integration.agentPath

/-- The declaration of the handle as a parameter. -/
def handleParameter (setup : Setup) (imports : Imports) : String :=
  setup.settings.handle ++ " *" ++ agentPackage imports ++ ".Transaction"

end Setup

/-- What changes during a run. -/
structure Run where
  program : Program
  findings : List Diagnostic
  /-- Import paths that new code refers to, with the position of the file it is in. -/
  imports : List (Nat × String) := []
  /-- Functions with a statement that needs the handle, in order. -/
  seeds : List FunctionKey := []
  /-- Functions that got a handle parameter, by position in the graph. -/
  widened : List Nat := []

namespace Run

def start (program : Program) (findings : List Diagnostic) : Run := { program, findings }

def record (run : Run) (notes : List Diagnostic) : Run := { run with findings := run.findings ++ notes }

def requireImports (run : Run) (file : Nat) (paths : List String) : Run :=
  { run with imports := run.imports ++ paths.map fun path => (file, path) }

def addSeeds (run : Run) (keys : List FunctionKey) : Run :=
  { run with seeds := keys.foldl (fun seeds key => key.insert seeds) run.seeds }

/-- Note that the edits of a file were dropped. -/
def recordFailure (run : Run) (path : String) (failure : FileFailure) : Run :=
  let kind := match failure with
    | .name _ => DiagnosticKind.identifierCollision
    | .edit _ _ => DiagnosticKind.editConflict
  run.record [.inFile kind path failure.message]

/-- Carry out the edits of a file. If they do not fit together, the file stays as it is. The answer
tells whether there were edits and they were carried out. -/
def applyBatch (run : Run) (file : Nat) (edits : List Edit) (imports : List String) : Bool × Run :=
  if edits.isEmpty then (false, run)
  else
    match run.program.source? file with
    | none => (false, run)
    | some source =>
        match source.apply edits with
        | .ok changed =>
            (true, { run with program := run.program.setSource file changed }.requireImports file imports)
        | .error cause => (false, run.recordFailure source.path (.edit source.path cause))

/-- Positions of the files that pass a test, in file order. -/
def filesWhere (run : Run) (test : Source → Bool) : List Nat :=
  (List.range run.program.files.length).filter fun file => (run.program.source? file).any test

def productionFiles (run : Run) : List Nat := run.filesWhere fun source => !source.isTest

def testFiles (run : Run) : List Nat := run.filesWhere Source.isTest

end Run

namespace NameSupply

/-- Names that a function can see: declarations and imports of its file, and its own identifiers. -/
def forFunction (source : Source) (imports : Imports) (function : Node) : NameSupply :=
  { path := source.path
    taken := source.topLevelNames ++ imports.names ++
      (function.descendants.filter (·.kind == .identifier)).map (·.text source.text) }

end NameSupply
end TraceWeave
