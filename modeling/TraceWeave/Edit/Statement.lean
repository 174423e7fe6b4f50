import TraceWeave.Edit.Basic
import TraceWeave.Go.Node
import TraceWeave.Text.Line

/-! Edits that add whole statements. A new statement stands on a line of its own, indented like the
statement it belongs to. -/
namespace TraceWeave.Edit

open Go (Node)

/-- Put a new text in the place of a node. -/
def replaceNode (node : Node) (text : String) : Edit := ⟨node.start, node.stop, text⟩

/-- Add a statement after another one. A comment on the same line stays with the first. -/
def addAfter (source : String) (statement : Node) (text : String) : Edit :=
  let offset :=
    if Text.restIsTrivia source statement.stop then Text.lineEnd source statement.stop else statement.stop
  insertAt offset ("\n" ++ Text.indentation source statement.start ++ text)

/-- Add a statement before another one. -/
def addBefore (source : String) (statement : Node) (text : String) : Edit :=
  let indent := Text.indentation source statement.start
  if Text.startsLine source statement.start then
    insertAt (Text.lineStart source statement.start) (indent ++ text ++ "\n")
  else insertAt statement.start (text ++ "\n" ++ indent)

/-- Add lines before the first statement of a block. -/
def addBeforeFirst (source : String) (first : Node) (lines : List String) : Edit :=
  let indent := Text.indentation source first.start
  let text := String.join (lines.map fun line => indent ++ line ++ "\n")
  if Text.startsLine source first.start then insertAt (Text.lineStart source first.start) text
  else insertAt first.start (Text.trimStart text ++ indent)

/-- Add lines to a block without statements. A block without comments is opened up. -/
def addToEmpty (source : String) (block : Node) (lines : List String) : Edit :=
  let indent := Text.indentation source block.start
  let text := String.join (lines.map fun line => "\n" ++ indent ++ "\t" ++ line)
  let start := block.start + 1
  let stop := max (block.stop - 1) start
  if Text.isAllBlank (Text.slice source start stop) then ⟨start, stop, text ++ "\n" ++ indent⟩
  else insertAt start text

/-- Add lines at the start of a block. -/
def addAtStart (source : String) (block : Node) (lines : List String) : Edit :=
  match block.statements.head? with
  | some first => addBeforeFirst source first lines
  | none => addToEmpty source block lines

end TraceWeave.Edit
