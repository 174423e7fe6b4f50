import TraceWeave.Integration.Basic

/-! Registrations of HTTP handlers are wrapped, and HTTP requests are timed. -/
namespace TraceWeave.Http

open Go (Node)

def path : String := "net/http"

/-- The function that wraps the arguments of a registration. -/
def wrapper? (function : String) : Option String :=
  match function with
  | "HandleFunc" => some "WrapHandleFunc"
  | "Handle" => some "WrapHandle"
  | _ => none

def acceptsServer (view : StatementView) : Bool :=
  view.node.kind == .expressionStatement &&
    (view.packageCall? path).any fun (call, function) =>
      (wrapper? function).isSome && !call.callArguments.isEmpty

def isDoneServer (view : StatementView) : Bool :=
  (view.packageCall? path).any fun (call, _) =>
    call.callArguments.head?.any fun argument =>
      let text := argument.text view.source
      Text.contains text ".WrapHandleFunc(" || Text.contains text ".WrapHandle("

/-- New code stands around the two arguments, which can still be edited themselves. -/
def generateServer (view : StatementView) (names : AgentNames) : Naming Injection := do
  match view.packageCall? path with
  | none => return {}
  | some (call, function) =>
      match wrapper? function, call.callArguments with
      | some wrapper, [first, last] =>
          let package := view.imports.callName Integration.agentPath
          return {
            edits := [(.at first.start, package ++ "." ++ wrapper ++ "(" ++ names.agent ++ ", "),
              (.at last.stop, ")")]
            imports := [Integration.agentPath] }
      | _, _ => return {}

def server : Integration where
  name := "net/http server"
  triggers := [path]
  requiredModule := Integration.agentModule
  scope := .mainOnly
  needsHandle := false
  accepts := acceptsServer
  isDone := isDoneServer
  generate := generateServer

/-- The function that sends the request of a statement. -/
def request? (view : StatementView) : Option String := do
  let (_, function) ← view.packageCall? path
  if ["Get", "Head", "Post", "PostForm"].contains function then some function else none

def isDoneClient (view : StatementView) : Bool :=
  view.previous.any fun previous =>
    Text.contains (previous.text view.source) (".StartSegment(" ++ String.singleton (Char.ofNat 34) ++ "http.")

def generateClient (view : StatementView) (names : AgentNames) : Naming Injection := do
  match request? view with
  | none => return {}
  | some function =>
      let segment ← Naming.fresh "nrSegment"
      return {
        edits := [(.before, segment ++ " := " ++ names.handle ++ ".StartSegment(\"http." ++ function ++ "\")"),
          (.after, segment ++ ".End()")] }

def client : Integration where
  name := "net/http client"
  triggers := [path]
  requiredModule := Integration.agentModule
  scope := .anyFunction
  needsHandle := true
  accepts view := (request? view).isSome
  isDone := isDoneClient
  generate := generateClient

end TraceWeave.Http
