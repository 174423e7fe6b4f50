import TraceWeave.Edit.Statement
import TraceWeave.Imports
import TraceWeave.NameSupply

/-! Integrations: each knows a library by its imports, recognizes one kind of statement, and writes
the code that goes with it. -/
namespace TraceWeave

open Go (Node)

/-- Bodies in which an integration applies. -/
inductive BodyScope where
  | anyFunction
  /-- Only `main` of a main package, where the agent lives. -/
  | mainOnly
deriving DecidableEq, Repr

/-- Where new code goes. -/
inductive Placement where
  | before
  | after
  | replace
  | at (offset : Nat)
deriving DecidableEq, Repr

/-- A new name that later statements use in the place of another one. -/
structure Binding where
  name : String
  replacement : String
deriving DecidableEq, Repr

/-- Code for one statement, with the import paths it refers to. -/
structure Injection where
  edits : List (Placement × String) := []
  imports : List String := []
  binding : Option Binding := none
deriving Repr

namespace Injection

/-- Edits around a statement. -/
def toEdits (injection : Injection) (source : String) (statement : Node) : List Edit :=
  injection.edits.map fun (placement, text) =>
    match placement with
    | .before => Edit.addBefore source statement text
    | .after => Edit.addAfter source statement text
    | .replace => Edit.replaceNode statement text
    | .at offset => Edit.insertAt offset text

end Injection

/-- A statement with its neighbours in the block. -/
structure StatementView where
  node : Node
  source : String
  imports : Imports
  previous : Option Node
  next : Option Node

namespace StatementView

/-- The call of a statement and the name of the function, if it is one of the given package. -/
def packageCall? (view : StatementView) (path : String) : Option (Node × String) := do
  let call ← view.node.soleCall?
  let (operand, field) ← call.selectorCall? view.source
  if view.imports.pathFor? operand == some path then some (call, field) else none

/-- The name of the first variable that the statement assigns, unless it is blank. -/
def assigned? (view : StatementView) : Option String :=
  (view.node.assignedNames view.source).head?.filter (· != "_")

/-- Views of the statements of a block. -/
def ofSequence (source : String) (imports : Imports) (statements : List Node) : List StatementView :=
  statements.zipIdx.map fun (node, index) =>
    { node, source, imports
      previous := if index = 0 then none else statements[index - 1]?
      next := statements[index + 1]? }

end StatementView

/-- Names that new code refers to. -/
structure AgentNames where
  agent : String
  handle : String

/-- A computation that takes fresh names. -/
abbrev Naming (α : Type) := ExceptT NameCollision (StateM NameSupply) α

namespace Naming

/-- A fresh name. Where there is none, the supply stays as it is. -/
def fresh (base : String) : Naming String := fun supply =>
  match supply.fresh base with
  | .ok (name, supply) => (.ok name, supply)
  | .error collision => (.error collision, supply)

end Naming

/-- A supported library. -/
structure Integration where
  name : String
  /-- Import paths of which one has to be present. -/
  triggers : List String
  /-- The module that new code needs. -/
  requiredModule : String
  scope : BodyScope
  /-- New code uses the tracing handle. -/
  needsHandle : Bool
  accepts : StatementView → Bool
  /-- An accepted statement already has its code. -/
  isDone : StatementView → Bool
  generate : StatementView → AgentNames → Naming Injection

namespace Integration

/-- Import path of the agent. -/
def agentPath : String := "github.com/newrelic/go-agent/v3/newrelic"

/-- The module that provides the agent. -/
def agentModule : String := "github.com/newrelic/go-agent/v3"

/-- Whether an integration applies in a body, where `isMain` marks the one of `main`. -/
def appliesIn (integration : Integration) (isMain : Bool) : Bool :=
  integration.scope == .anyFunction || isMain

end Integration
end TraceWeave
