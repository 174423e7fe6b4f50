import TraceWeave.Function
import TraceWeave.Resolve.Local

/-! Which function an expression names. Resolution goes by the text alone: a name declared in the
function around it is never a function of the package, and a method is found only where a
declaration shows the type of its operand. -/
namespace TraceWeave

open Go (Kind Node Place)

/-- Where an expression stands: its package, the imports of its file, and the receiver in scope. -/
structure Surroundings where
  program : Program
  package : Nat
  imports : Imports
  receiverName : Option String := none
  receiverType : Option String := none

/-- What `x.m` is. -/
inductive SelectorTarget where
  /-- A function or method of a loaded package, if it exists there. -/
  | resolved (key : FunctionKey)
  /-- Something of a package that is not loaded. -/
  | external
  /-- A method of a value whose type the text does not show. -/
  | dynamic (name : String)
deriving DecidableEq, Repr

namespace SelectorTarget

def key? : SelectorTarget → Option FunctionKey
  | .resolved key => some key
  | _ => none

/-- The method name, if the target is a method that may not exist as declared. -/
def method? : SelectorTarget → Option String
  | .dynamic name => some name
  | .resolved key => if key.receiver.isSome then some key.name else none
  | .external => none

end SelectorTarget

namespace Surroundings

/-- The body of a declaration. -/
def ofDecl (program : Program) (package : Nat) (imports : Imports) (decl : FunctionDecl) : Surroundings :=
  ⟨program, package, imports, decl.receiverName, decl.receiverType⟩

/-- The initial value of a variable at file level. -/
def ofFile (program : Program) (package : Nat) (imports : Imports) : Surroundings :=
  ⟨program, package, imports, none, none⟩

/-- The loaded package that the file calls by a name. -/
def packageCalled? (here : Surroundings) (name : String) : Option Nat :=
  (here.imports.pathFor? name).bind here.program.packageAt?

/-- A method of a type, if the type is known. -/
def methodOf (here : Surroundings) (type : Option TypeRef) (field : String) : SelectorTarget :=
  match type with
  | none => .dynamic field
  | some ⟨none, name⟩ => .resolved (.method here.package name field)
  | some ⟨some package, name⟩ =>
      match here.packageCalled? package with
      | some package => .resolved (.method package name field)
      | none => .external

/-- The declaration of a variable at file level, anywhere in the package, with the text it is in. -/
def packageVariable? (here : Surroundings) (name : String) : Option (LocalName × String) :=
  (here.program.sourcesOf here.package).findSome? fun source =>
    (source.root.parts.filter (·.kind == .varDeclaration)).findSome? fun item =>
      (LocalName.ofDeclaration? source.text name item).map fun found => (found, source.text)

/-- What the field of a name is that no declaration around it declares. -/
def fieldOutside (here : Surroundings) (name field : String) : SelectorTarget :=
  if here.receiverType.isSome && here.receiverName == some name then
    .resolved ⟨here.package, here.receiverType, field⟩
  else
    match here.imports.pathFor? name with
    | some path =>
        match here.program.packageAt? path with
        | some package => .resolved (.function package field)
        | none => .external
    | none =>
        match here.packageVariable? name with
        | some (found, source) => here.methodOf (found.typeRef? source) field
        | none => .dynamic field

/-- What a selector expression is; `none` for other expressions. -/
def selector? (here : Surroundings) (source : String) (place : Place) : Option SelectorTarget :=
  if place.kind == .selectorExpression then do
    let field := (← place.child? .field).text source
    let operand ← place.child? .operand
    if operand.kind != .identifier then return .dynamic field
    let name := operand.text source
    match LocalName.at? source name operand with
    | some found => return here.methodOf (found.typeRef? source) field
    | none => return here.fieldOutside name field
  else none

/-- The function an expression names: `f`, `p.F`, `x.M`, or one of these in parentheses. Whether
it exists is another question. -/
def target? (here : Surroundings) (source : String) (place : Place) : Option FunctionKey :=
  match place.kind with
  | .identifier =>
      let name := place.text source
      if (LocalName.at? source name place).isSome then none else some (.function here.package name)
  | .selectorExpression => (here.selector? source place).bind SelectorTarget.key?
  | .parenthesizedExpression =>
      match _below : place.node.first? with
      | some inner => target? here source (place.inside inner)
      | none => none
  | _ => none
termination_by place.node.count
decreasing_by exact Node.count_lt_of_first? _below

/-- The function a call names. -/
def callTarget? (here : Surroundings) (source : String) (call : Place) : Option FunctionKey :=
  (call.child? .function).bind (here.target? source)

/-- The method name of a selector call that cannot be tied to one declaration. It matters only
where the target does not exist. -/
def dynamicMethod? (here : Surroundings) (source : String) (call : Place) : Option String :=
  ((call.child? .function).bind (here.selector? source)).bind SelectorTarget.method?

end Surroundings
end TraceWeave

namespace TraceWeave.Go.Place

/-- Whether a node, below the given nodes, is what a call calls, parentheses aside. -/
def isCalledIn (node : Node) : List Node → Bool
  | [] => false
  | parent :: around =>
      match parent.kind with
      | .callExpression => node.role == some .function
      | .parenthesizedExpression => isCalledIn parent around
      | _ => false

/-- Whether the place is what a call calls. -/
def isCalled (place : Place) : Bool := isCalledIn place.node place.around

/-- Whether the place is `x` of `x.f`. -/
def isOperand (place : Place) : Bool :=
  match place.around with
  | parent :: _ => parent.kind == .selectorExpression && place.node.role == some .operand
  | [] => false

/-- Whether the place declares a name and does not refer to one. What `range` ranges over counts as
well when it stands alone. -/
def declaresName (place : Place) : Bool :=
  match place.around with
  | [] => false
  | parent :: around =>
      match parent.kind with
      | .parameterDeclaration | .variadicParameterDeclaration | .varSpec | .constSpec | .typeSpec
      | .functionDeclaration | .methodDeclaration | .labeledStatement | .rangeClause => true
      | .expressionList =>
          match around with
          | outer :: _ =>
              (outer.kind == .shortVarDeclaration || outer.kind == .rangeClause) &&
                parent.role == some .left
          | [] => false
      | .shortVarDeclaration => place.node.role == some .left
      | _ => false

end TraceWeave.Go.Place
