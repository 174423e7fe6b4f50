import TraceWeave.Integration.Basic

/-! Handlers of the structured logger are wrapped, and later statements use the wrapped one. -/
namespace TraceWeave.Slog

open Go (Node)

def path : String := "log/slog"

def wrapperPath : String := "github.com/newrelic/go-agent/v3/integrations/logcontext-v2/nrslog"

/-- The variable that a statement assigns a new handler to. -/
def handler? (view : StatementView) : Option String := do
  let (_, function) ← view.packageCall? path
  if view.node.kind.isAssignment && ["NewTextHandler", "NewJSONHandler"].contains function then view.assigned?
  else none

/-- Whether a statement wraps a handler: the call of a `WrapHandler` whose last argument it is. -/
def wraps (source handler : String) (statement : Node) : Bool :=
  match statement.soleCall? with
  | none => false
  | some call =>
      (call.selectorCall? source).any (·.2 == "WrapHandler") &&
        call.callArguments.getLast?.any fun argument => argument.text source == handler

def isDone (view : StatementView) : Bool :=
  match handler? view, view.next with
  | some handler, some next => wraps view.source handler next
  | _, _ => false

def generate (view : StatementView) (names : AgentNames) : Naming Injection := do
  let handler := (handler? view).getD ""
  let wrapped ← Naming.fresh ("NR" ++ handler)
  let package := view.imports.callName wrapperPath
  return {
    edits := [(.after, wrapped ++ " := " ++ package ++ ".WrapHandler(" ++ names.agent ++ ", " ++ handler ++ ")")]
    imports := [wrapperPath]
    binding := some ⟨handler, wrapped⟩ }

def integration : Integration where
  name := "slog"
  triggers := [path]
  requiredModule := wrapperPath
  scope := .mainOnly
  needsHandle := false
  accepts view := (handler? view).isSome
  isDone
  generate

end TraceWeave.Slog
