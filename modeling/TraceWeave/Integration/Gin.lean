import TraceWeave.Integration.Basic

/-! Routers get a middleware. -/
namespace TraceWeave.Gin

def path : String := "github.com/gin-gonic/gin"

def middlewarePath : String := "github.com/newrelic/go-agent/v3/integrations/nrgin"

/-- The variable that a statement assigns a new router to. -/
def router? (view : StatementView) : Option String := do
  let (_, function) ← view.packageCall? path
  if view.node.kind.isAssignment && ["Default", "New"].contains function then view.assigned? else none

def isDone (view : StatementView) : Bool :=
  view.next.any fun next => Text.contains (next.text view.source) ".Middleware("

def generate (view : StatementView) (names : AgentNames) : Naming Injection := do
  let router := (router? view).getD ""
  let package := view.imports.callName middlewarePath
  return {
    edits := [(.after, router ++ ".Use(" ++ package ++ ".Middleware(" ++ names.agent ++ "))")]
    imports := [middlewarePath] }

def integration : Integration where
  name := "gin"
  triggers := [path]
  requiredModule := middlewarePath
  scope := .mainOnly
  needsHandle := false
  accepts view := (router? view).isSome
  isDone
  generate

end TraceWeave.Gin
