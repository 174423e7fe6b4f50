import TraceWeave.Weave.Bootstrap
import TraceWeave.Weave.ImportEdit
import TraceWeave.Weave.TestCalls

/-! A run from a loaded program to a changed one. -/
namespace TraceWeave

/-- What a run has done. -/
structure RunSummary where
  filesChanged : Nat
  functionsWidened : Nat
  /-- Modules that the imports of new code come from. -/
  requiredModules : List String
deriving DecidableEq, Repr

namespace Setup

/-- Modules that provide the imports of new code. -/
def requiredModules (setup : Setup) (run : Run) : List String :=
  sortedSet ((run.imports.map (·.2)).filterMap (Detection.providing? setup.detection.modules))

def summary (setup : Setup) (run : Run) : RunSummary :=
  { filesChanged := run.program.dirtyFiles.length
    functionsWidened := run.widened.length
    requiredModules := setup.requiredModules run }

/-- Make the agent and add imports. -/
def finish (setup : Setup) (run : Run) : Run := (setup.bootstrap run).addImports

/-- Every stage, one after the other. The graph is that of the program as it was loaded. -/
def weave (setup : Setup) (graph : CallGraph) (run : Run) : Run :=
  setup.finish (resolveTests graph (setup.propagate graph (setup.inject run)).2)

end Setup

/-- The setup for a program. -/
def Setup.ofProgram (program : Program) (catalog : Catalog) (settings : Settings) : Setup :=
  ⟨catalog, settings, Detection.ofProgram program catalog⟩

/-- The start of a run, with what detection has to say. -/
def Run.ofProgram (program : Program) (setup : Setup) : Run := .start program setup.detection.notes

end TraceWeave
