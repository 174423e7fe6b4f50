import TraceWeave.Edit.Basic
import TraceWeave.Function

/-! Edits that add one parameter or one argument to a list. -/
namespace TraceWeave.Edit

open Go (Node)

/-- Add a parameter: before a variadic one, otherwise last. -/
def addParameter (parameters : Node) (text : String) : Edit :=
  let declarations := parameters.parts.filter (·.kind.isParameter)
  match declarations.find? (·.kind == .variadicParameterDeclaration), declarations.getLast? with
  | some variadic, _ => insertAt variadic.start (text ++ ", ")
  | none, some last => insertAt last.stop (", " ++ text)
  | none, none => insertAt (parameters.start + 1) text

/-- Add an argument at a position, or last if there are fewer. -/
def addToArguments (list : Node) (index : Nat) (text : String) : Edit :=
  match list.parts[index]?, list.parts.getLast? with
  | some argument, _ => insertAt argument.start (text ++ ", ")
  | none, some last => insertAt last.stop (", " ++ text)
  | none, none => insertAt (list.start + 1) text

/-- Add an argument to a call. -/
def addArgument? (call : Node) (index : Nat) (text : String) : Option Edit :=
  (call.child? .arguments).map fun list => addToArguments list index text

end TraceWeave.Edit
