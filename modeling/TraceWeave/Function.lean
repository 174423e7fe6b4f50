import TraceWeave.Program
import TraceWeave.Total

/-! Function declarations: who they are, and what parameters they take. -/
namespace TraceWeave

open Go (Node Place)

/-- A function of a program: its package, the type it is a method of, and its name. -/
structure FunctionKey where
  package : Nat
  receiver : Option String
  name : String
deriving DecidableEq, Repr

namespace FunctionKey

def function (package : Nat) (name : String) : FunctionKey := ⟨package, none, name⟩

def method (package : Nat) (receiver name : String) : FunctionKey := ⟨package, some receiver, name⟩

/-- `name` or `(Receiver).name`. -/
def render (key : FunctionKey) : String :=
  match key.receiver with
  | some receiver => "(" ++ receiver ++ ")." ++ key.name
  | none => key.name

/-- Order by package, then functions before methods, then receiver and name. -/
def isLess (a b : FunctionKey) : Bool :=
  if a.package ≠ b.package then decide (a.package < b.package)
  else
    match a.receiver, b.receiver with
    | none, some _ => true
    | some _, none => false
    | none, none => decide (a.name < b.name)
    | some x, some y => if x = y then decide (a.name < b.name) else decide (x < y)

/-- Put a key into an ordered list, once. -/
def insert (key : FunctionKey) : List FunctionKey → List FunctionKey
  | [] => [key]
  | other :: rest =>
      if key = other then other :: rest
      else if key.isLess other then key :: other :: rest
      else other :: insert key rest

end FunctionKey

/-- Parameters declared together, like `a, b int` or `opts ...Option`. -/
structure ParameterGroup where
  names : List String
  type : String
  variadic : Bool
deriving DecidableEq, Repr

namespace ParameterGroup

/-- Number of parameters in the group: one if it has no names. -/
def arity (group : ParameterGroup) : Nat := max group.names.length 1

/-- The groups of a parameter list. -/
def ofList (list : Node) (source : String) : List ParameterGroup :=
  (list.parts.filter (·.kind.isParameter)).map fun declaration =>
    { names := (declaration.childrenAs .name).map (·.text source)
      type := ((declaration.child? .type).map (·.text source)).getD ""
      variadic := declaration.kind == .variadicParameterDeclaration }

/-- Where a new parameter goes: after the fixed parameters, before a variadic one. -/
def handleIndex (groups : List ParameterGroup) : Nat :=
  total arity (groups.filter (!·.variadic))

/-- Whether every parameter has a name, so that another named one may join them. -/
def allNamed (groups : List ParameterGroup) : Bool := groups.all (!·.names.isEmpty)

/-- Whether some parameter has a name. -/
def declares (groups : List ParameterGroup) (name : String) : Bool := groups.any (·.names.contains name)

/-- Each parameter by itself, with its name if it has one. -/
def flatten (groups : List ParameterGroup) : List (Option String × String) :=
  groups.flatMap fun group =>
    if group.names.isEmpty then [(none, group.type)]
    else group.names.map fun name => (some name, group.type)

/-- The name of the request, itself possibly absent, if the parameters are those of an HTTP handler.
`http` is what the file calls the package `net/http`. -/
def handlerRequest? (groups : List ParameterGroup) (http : Option String) : Option (Option String) := do
  let http ← http
  match flatten groups with
  | [(_, writer), (request, type)] =>
      if writer == http ++ ".ResponseWriter" && type == "*" ++ http ++ ".Request" then
        some (request.filter (· != "_"))
      else none
  | _ => none

end ParameterGroup

/-- A function or method declaration in a tree. -/
structure FunctionDecl where
  place : Place
  name : String
  receiverType : Option String
  receiverName : Option String
  parameters : Option Place
  body : Option Place

namespace FunctionDecl

def key (decl : FunctionDecl) (package : Nat) : FunctionKey := ⟨package, decl.receiverType, decl.name⟩

def groups (decl : FunctionDecl) (source : String) : List ParameterGroup :=
  match decl.parameters with
  | some list => ParameterGroup.ofList list.node source
  | none => []

/-- The receiver's type without stars and type parameters, and its name. -/
def receiver? (method : Node) (source : String) : Option (String × Option String) := do
  let list ← method.child? .receiver
  let group ← (ParameterGroup.ofList list source).head?
  let base := (Text.dropStart (· == '*') group.type).toList.takeWhile (· != '[')
  let type := Text.trim (String.ofList base)
  if type == "" then none
  else some (type, group.names.head?.filter (· != "_"))

/-- The declaration at a place. -/
def ofPlace? (source : String) (place : Place) : Option FunctionDecl :=
  match place.kind with
  | .functionDeclaration => do
      let name ← place.node.child? .name
      return ⟨place, name.text source, none, none, place.child? .parameters, place.child? .body⟩
  | .methodDeclaration => do
      let (type, holder) ← receiver? place.node source
      let name ← place.node.child? .name
      return ⟨place, name.text source, some type, holder, place.child? .parameters,
        place.child? .body⟩
  | _ => none

/-- Every function and method declared at file level. -/
def all (source : Source) : List FunctionDecl :=
  source.rootPlace.parts.filterMap (ofPlace? source.text)

/-- Whether this is the `main` function of a package with the given name. -/
def isMain (decl : FunctionDecl) (packageName : String) : Bool :=
  packageName == "main" && decl.name == "main" && decl.receiverType.isNone

end FunctionDecl

/-- Names declared at file level: functions, types, variables and constants. -/
def Source.topLevelNames (source : Source) : List String :=
  source.root.parts.flatMap fun item =>
    match item.kind with
    | .functionDeclaration => (item.child? .name).toList.map (·.text source.text)
    | .varDeclaration | .constDeclaration | .typeDeclaration =>
        (item.descendants.filter fun node =>
            [Go.Kind.varSpec, .constSpec, .typeSpec, .typeAlias].contains node.kind).flatMap
          fun spec => (spec.childrenAs .name).map (·.text source.text)
    | _ => []

end TraceWeave
