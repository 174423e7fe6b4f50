import TraceWeave.Go.Place
import TraceWeave.Resolve.TypeRef
import TraceWeave.Text.Search

/-! Names declared inside a function, and which declaration a use refers to. -/
namespace TraceWeave

open Go (Kind Node Place)

/-- What a declaration says about a name: its type, or else the value it starts with. -/
structure LocalName where
  type : Option Node
  value : Option Node

namespace LocalName

/-- A name of which nothing is known. -/
def plain : LocalName := ⟨none, none⟩

/-- The type of the name, where the text shows it. -/
def typeRef? (found : LocalName) (source : String) : Option TypeRef :=
  match found.type with
  | some type => TypeRef.ofType? source type
  | none => found.value.bind (TypeRef.ofValue? source)

/-- The value at a position, if names and values go in pairs. -/
def pairedValue (names values : List Node) (index : Nat) : Option Node :=
  if values.length = names.length then values[index]? else none

/-- The position of a name among nodes. -/
def position? (source name : String) (nodes : List Node) : Option Nat :=
  nodes.findIdx? (·.text source == name)

def mentions (source name : String) (nodes : List Node) : Bool := nodes.any (·.text source == name)

/-- Values a node gives to its names. -/
def valuesOf (node : Node) (role : Go.Role) : List Node := ((node.child? role).map Node.items).getD []

/-- `x, y := v, w`. -/
def ofShort? (source name : String) (node : Node) : Option LocalName := do
  let names := (← node.child? .left).items
  let index ← position? source name names
  return ⟨none, pairedValue names (valuesOf node .right) index⟩

/-- `x, y T = v, w` in a declaration of variables or constants. -/
def ofSpec? (source name : String) (spec : Node) : Option LocalName :=
  if spec.kind == .varSpec || spec.kind == .constSpec then do
    let names := spec.childrenAs .name
    let index ← position? source name names
    return ⟨spec.child? .type, pairedValue names (valuesOf spec .value) index⟩
  else none

/-- A declaration of variables or constants, grouped or not. -/
def ofDeclaration? (source name : String) (node : Node) : Option LocalName :=
  (node.parts.flatMap fun child => if child.kind == .varSpecList then child.parts else [child]).findSome?
    (ofSpec? source name)

/-- `x := range v` and `x := <-c`, where `:=` stands between the two sides. -/
def ofAssigned? (source name : String) (node : Node) : Option LocalName := do
  let left ← node.child? .left
  let right ← node.child? .right
  if Text.contains (Text.slice source left.stop right.start) ":=" && mentions source name left.items then
    some plain
  else none

/-- A list of parameters or results. -/
def ofParameters? (source name : String) (list : Node) : Option LocalName :=
  (list.parts.find? fun declaration =>
      declaration.kind.isParameter && mentions source name (declaration.childrenAs .name)).map
    fun declaration => ⟨declaration.child? .type, none⟩

/-- What a child of `scope` declares about a name. -/
def declaredBy? (source name : String) (scope node : Node) : Option LocalName :=
  match node.kind with
  | .shortVarDeclaration => ofShort? source name node
  | .varDeclaration | .constDeclaration => ofDeclaration? source name node
  | .forClause => do
      let start ← node.child? .initializer
      if start.kind == .shortVarDeclaration then ofShort? source name start else none
  | .rangeClause | .receiveStatement => ofAssigned? source name node
  | .parameterList => ofParameters? source name node
  | .expressionList =>
      if scope.kind == .typeSwitchStatement && mentions source name node.items then some plain else none
  | _ => none

/-- The last declaration of a name among the children of a scope that end before an offset. -/
def lastBefore? (source name : String) (offset : Nat) (scope : Node) : Option LocalName :=
  ((scope.parts.takeWhile fun child => decide (child.stop ≤ offset)).filterMap
    (declaredBy? source name scope)).getLast?

/-- The innermost declaration of a name before an offset, in the nodes around it up to the function
declaration. A declaration that has not ended before the offset does not count, so that the second
`x` of `x := x` is an outer one. -/
def among? (source name : String) (offset : Nat) : List Node → Option LocalName
  | [] => none
  | scope :: around =>
      match lastBefore? source name offset scope with
      | some found => some found
      | none => if scope.kind.isFunction then none else among? source name offset around

/-- The local declaration that a name at a place refers to. -/
def at? (source name : String) (place : Place) : Option LocalName :=
  among? source name place.start place.around

end LocalName
end TraceWeave
