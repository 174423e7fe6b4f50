import TraceWeave.Text.Quoted
import TraceWeave.Weave.Basic

/-! The agent is made at the start of every `main` that refers to it without making it. -/
namespace TraceWeave

open Go (Node Place)

/-- What stands in a body in which an agent is made. -/
def agentMaker : String := ".NewApplication("

/-- Whether a body refers to the agent and does not make one. -/
def needsAgent (source agent : String) (body : Node) : Bool :=
  (body.descendants.any fun node => node.kind == .identifier && node.text source == agent) &&
    !Text.contains (body.text source) agentMaker

/-- Statements that make the agent, where `failure` is a fresh name for the error. -/
def agentLines (settings : Settings) (imports : Imports) (failure : String) : List String :=
  let package := Setup.agentPackage imports
  let time := (imports.nameFor? "time").getD "time"
  let named := match settings.appName with
    | some name => ", " ++ package ++ ".ConfigAppName(" ++ Text.quote name ++ ")"
    | none => ""
  [settings.agent ++ ", " ++ failure ++ " := " ++ package ++ ".NewApplication(" ++ package ++
      ".ConfigFromEnvironment()" ++ named ++ ")",
    "if " ++ failure ++ " != nil \x7b",
    "\tpanic(" ++ failure ++ ")",
    "\x7d",
    "defer " ++ settings.agent ++ ".Shutdown(5 * " ++ time ++ ".Second)"]

/-- Edits that make the agent in the `main` of a file, if it has one that needs it. -/
def bootstrapEdits (settings : Settings) (imports : Imports) (source : Source) :
    Except NameCollision (List Edit) :=
  match (FunctionDecl.all source).find? fun decl => decl.name == "main" && decl.receiverType.isNone with
  | none => .ok []
  | some decl =>
      match decl.body with
      | none => .ok []
      | some body =>
          if needsAgent source.text settings.agent body.node then
            match (NameSupply.forFunction source imports decl.place.node).fresh "agentInitError" with
            | .error collision => .error collision
            | .ok (failure, _) =>
                .ok [Edit.addAtStart source.text body.node (agentLines settings imports failure)]
          else .ok []

namespace Setup

def bootstrapFile (setup : Setup) (run : Run) (file : Nat) : Run :=
  match run.program.source? file with
  | none => run
  | some source =>
      match bootstrapEdits setup.settings (run.program.importsOf source) source with
      | .error collision => run.recordFailure source.path (.name collision)
      | .ok edits => (run.applyBatch file edits [Integration.agentPath, "time"]).2

/-- Production files of main packages. -/
def mainFiles (run : Run) : List Nat :=
  run.productionFiles.filter fun file => (run.program.packageOf? file).any (·.name == "main")

/-- Make the agent where it is needed. -/
def bootstrap (setup : Setup) (run : Run) : Run :=
  if setup.settings.bootstrap then (mainFiles run).foldl setup.bootstrapFile run else run

end Setup
end TraceWeave
