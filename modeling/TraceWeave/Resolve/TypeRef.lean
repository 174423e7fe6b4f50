import TraceWeave.Go.Node

/-! Names of types as far as the text of a declaration shows them. -/
namespace TraceWeave

open Go (Node)

/-- A named type, from this package or from one that the file calls `package`. -/
structure TypeRef where
  package : Option String
  name : String
deriving DecidableEq, Repr

namespace TypeRef

/-- The name behind `T`, `*T`, `(T)`, `T[A]` or `p.T`. -/
def ofType? (source : String) (node : Node) : Option TypeRef :=
  match node.kind with
  | .typeIdentifier | .identifier => some ⟨none, node.text source⟩
  | .qualifiedType => do
      let package ← node.child? .package
      let name ← node.child? .name
      return ⟨some (package.text source), name.text source⟩
  | .pointerType | .parenthesizedType =>
      match _below : node.first? with
      | some inner => ofType? source inner
      | none => none
  | .genericType =>
      match _below : node.child? .type with
      | some inner => ofType? source inner
      | none => none
  | _ => none
termination_by node.count
decreasing_by
  · exact Node.count_lt_of_first? _below
  · exact Node.count_lt_of_child? _below

/-- Whether an expression is `&x`. -/
def isAddress (source : String) (node : Node) : Bool :=
  (node.child? .operator).any fun operator => operator.text source == "&"

/-- The type of `T\x7b…\x7d`, `&T\x7b…\x7d`, `(v)` or `new(T)`. -/
def ofValue? (source : String) (node : Node) : Option TypeRef :=
  match node.kind with
  | .compositeLiteral => (node.child? .type).bind (ofType? source)
  | .unaryExpression =>
      if isAddress source node then
        match _below : node.child? .operand with
        | some inner => ofValue? source inner
        | none => none
      else none
  | .callExpression => do
      let function ← node.child? .function
      if function.kind == .identifier && function.text source == "new" then
        ofType? source (← node.callArguments.head?)
      else none
  | .parenthesizedExpression =>
      match _below : node.first? with
      | some inner => ofValue? source inner
      | none => none
  | _ => none
termination_by node.count
decreasing_by
  · exact Node.count_lt_of_child? _below
  · exact Node.count_lt_of_first? _below

end TypeRef
end TraceWeave
