import TraceWeave.Weave.Basic

/-! Uses of a name that a new one takes the place of. -/
namespace TraceWeave

open Go (Node)

/-- How a statement uses a name. -/
inductive NameUses where
  | unused
  /-- Every use is an argument of the statement's only call. -/
  | arguments (nodes : List Node)
  | other

namespace NameUses

/-- Nodes on the left of an assignment. -/
def targets (statement : Node) : List Node :=
  if statement.kind.isAssignment then
    match statement.child? .left with
    | some left => left.descendants
    | none => []
  else []

/-- Identifiers with a name in a statement, targets of an assignment apart. -/
def identifiers (source name : String) (statement : Node) : List Node :=
  statement.descendants.filter fun node =>
    node.kind == .identifier && node.text source == name && !(targets statement).any node.isSame

/-- How a statement uses a name. -/
def ofStatement (source name : String) (statement : Node) : NameUses :=
  let uses := identifiers source name statement
  if uses.isEmpty then .unused
  else
    match statement.soleCall? with
    | none => .other
    | some call =>
        if uses.all fun use => call.callArguments.any use.isSame then .arguments uses else .other

end NameUses

namespace Binding

/-- What a statement means for a binding: edits of its arguments, or a note that it is not changed. -/
def carryOver (path source : String) (line : Nat) (statement : Node) (binding : Binding) :
    List Edit × List Diagnostic :=
  match NameUses.ofStatement source binding.name statement with
  | .unused => ([], [])
  | .arguments nodes => (nodes.map fun node => Edit.replaceNode node binding.replacement, [])
  | .other =>
      let mark := String.singleton (Char.ofNat 96)
      ([], [.onLine .injectionAmbiguity path line
        (mark ++ binding.name ++ mark ++
          " is used in a statement that is not rewritten; it still refers to the unwrapped value instead of " ++
          mark ++ binding.replacement ++ mark)])

/-- Bindings still in force after a statement: those whose name it does not assign. -/
def remaining (source : String) (statement : Node) (bindings : List Binding) : List Binding :=
  bindings.filter fun binding => !(statement.assignedNames source).contains binding.name

end Binding
end TraceWeave
