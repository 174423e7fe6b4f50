import TraceWeave.Diagnostic
import TraceWeave.Function

/-! Where the handle can be used inside one function. Each function literal is judged once: it may
have a handle of its own, get one when it is launched as a goroutine, make one from its request, or
use the one around it. -/
namespace TraceWeave

open Go (Node Place)

/-- Whether a body declares a name with `:=` anywhere. -/
def declaresIn (source name : String) (body : Node) : Bool :=
  body.descendants.any fun node =>
    node.kind == .shortVarDeclaration && (node.assignedNames source).contains name

/-- Whether a node is launched by `go`, where `around` are the nodes around it. -/
def isLaunched (around : List Node) : Bool := around.head?.any (·.kind == .goStatement)

/-- The call that launches a literal as a goroutine. -/
def launchOf? (literal : Node) (around : List Node) : Option Node :=
  match around with
  | call :: outer =>
      if call.kind == .callExpression && literal.role == some .function && isLaunched outer then some call
      else none
  | [] => none

/-- What a function literal has to do with the handle. -/
inductive LiteralKind where
  /-- A parameter or variable of the literal has the name of the handle. -/
  | own
  /-- A goroutine that takes the handle as a parameter, at a position. -/
  | launched (launch : Node) (index : Nat)
  /-- A goroutine that cannot take another parameter. -/
  | unnamed
  /-- A handler that makes the handle from its request. -/
  | handler (request : String)
  /-- The handle is the one around the literal. -/
  | inherited

namespace LiteralKind

/-- The kind of a literal, where `around` are the nodes around it. -/
def judge (source handle : String) (http : Option String) (literal : Node) (around : List Node) : LiteralKind :=
  let groups := ((literal.child? .parameters).map fun list => ParameterGroup.ofList list source).getD []
  if ParameterGroup.declares groups handle || (literal.child? .body).any (declaresIn source handle) then .own
  else
    match launchOf? literal around with
    | some launch =>
        if ParameterGroup.allNamed groups then .launched launch (ParameterGroup.handleIndex groups)
        else .unnamed
    | none =>
        match ParameterGroup.handlerRequest? groups http with
        | some (some request) => .handler request
        | _ => .inherited

end LiteralKind

/-- A goroutine literal that gets a handle parameter. -/
structure LaunchedLiteral where
  literal : Node
  launch : Node
  index : Nat

/-- A handler literal that makes a handle. -/
structure HandlerLiteral where
  literal : Node
  request : String

/-- What is known about the handle in one function. -/
structure HandleScope where
  source : Source
  handle : String
  http : Option String
  /-- The function itself has a handle. -/
  available : Bool
  /-- The handle of the function is used. -/
  used : Bool := false
  /-- Literals already judged. -/
  judged : List (Node × Bool) := []
  launched : List LaunchedLiteral := []
  handlers : List HandlerLiteral := []
  notes : List Diagnostic := []

namespace HandleScope

/-- What is known about a literal. -/
def known? (scope : HandleScope) (literal : Node) : Option Bool :=
  (scope.judged.find? fun entry => entry.1.isSame literal).map (·.2)

def remember (scope : HandleScope) (literal : Node) (answer : Bool) : HandleScope :=
  { scope with judged := (literal, answer) :: scope.judged }

def addHandler (scope : HandleScope) (literal : Node) (request : String) : HandleScope :=
  { scope with handlers := scope.handlers ++ [⟨literal, request⟩] }

def addLaunched (scope : HandleScope) (literal launch : Node) (index : Nat) : HandleScope :=
  { scope with launched := scope.launched ++ [⟨literal, launch, index⟩] }

/-- The answer outside of literals. -/
def atFunction (scope : HandleScope) : Bool × HandleScope :=
  (scope.available, { scope with used := scope.used || scope.available })

/-- Note a goroutine that cannot take the handle. -/
def noteUnnamed (scope : HandleScope) (literal : Node) : HandleScope :=
  { scope with
    notes := scope.notes ++ [.onLine .propagationBarrier scope.source.path (scope.source.nodeLine literal)
      "goroutine literal with unnamed parameters cannot take a tracing handle"] }

/-- Whether the handle can be used below the given nodes, innermost first. -/
def consult (scope : HandleScope) : List Node → Bool × HandleScope
  | [] => scope.atFunction
  | node :: around =>
      if node.kind.isFunction then scope.atFunction
      else if node.kind == .funcLiteral then
        match scope.known? node with
        | some answer => (answer, scope)
        | none =>
            match LiteralKind.judge scope.source.text scope.handle scope.http node around with
            | .own => (true, scope.remember node true)
            | .unnamed => (false, (scope.noteUnnamed node).remember node false)
            | .handler request => (true, (scope.addHandler node request).remember node true)
            | .launched launch index =>
                let (answer, scope) := consult scope around
                let scope := if answer then scope.addLaunched node launch index else scope
                (answer, scope.remember node answer)
            | .inherited =>
                let (answer, scope) := consult scope around
                (answer, scope.remember node answer)
      else consult scope around

/-- Whether the handle can be used at a place. -/
def availableAt (scope : HandleScope) (place : Place) : Bool × HandleScope := scope.consult place.around

/-- Goroutine literals that get a parameter, in document order. -/
def launchedInOrder (scope : HandleScope) : List LaunchedLiteral :=
  scope.launched.mergeSort fun a b => decide (a.literal.start ≤ b.literal.start)

/-- Handler literals that make a handle, in document order. -/
def handlersInOrder (scope : HandleScope) : List HandlerLiteral :=
  scope.handlers.mergeSort fun a b => decide (a.literal.start ≤ b.literal.start)

end HandleScope
end TraceWeave
