import TraceWeave.Text.Blank
import TraceWeave.Text.Slice

/-! Lines around an offset. A line ends before its line feed. -/
namespace TraceWeave.Text

/-- Offset of the first byte of the line that holds `offset`. -/
def lineStart (s : String) (offset : Nat) : Nat :=
  offset - byteCount ((slice s 0 offset).toList.reverse.takeWhile (· != '\n'))

/-- Offset of the line feed that ends the line of `offset`, or of the end of the text. -/
def lineEnd (s : String) (offset : Nat) : Nat :=
  offset + byteCount ((slice s offset (size s)).toList.takeWhile (· != '\n'))

/-- Spaces and tabs at the start of the line of `offset`. -/
def indentation (s : String) (offset : Nat) : String :=
  let start := lineStart s offset
  String.ofList ((slice s start (lineEnd s start)).toList.takeWhile fun c => c == ' ' || c == '\t')

/-- Whether only white space stands before `offset` on its line. -/
def startsLine (s : String) (offset : Nat) : Bool := isAllBlank (slice s (lineStart s offset) offset)

/-- Whether the rest of the line after `offset` is blank or a line comment. -/
def restIsTrivia (s : String) (offset : Nat) : Bool :=
  match (trim (slice s offset (lineEnd s offset))).toList with
  | [] => true
  | '/' :: '/' :: _ => true
  | _ => false

/-- Number, from one, of the line that holds `offset`. An offset past the end is on the last line. -/
def lineNumber (s : String) (offset : Nat) : Nat :=
  (slice s 0 (min offset (size s))).toList.count '\n' + 1

/-- What the lines around an offset look like. -/
structure LineView where
  start : Nat
  stop : Nat
  indent : String
  first : Bool
  trivia : Bool

/-- The view of a sound offset; `none` for an offset past the end or inside a character. -/
def lineView? (s : String) (offset : Nat) : Option LineView :=
  if isBoundary s offset then
    some ⟨lineStart s offset, lineEnd s offset, indentation s offset, startsLine s offset,
      restIsTrivia s offset⟩
  else none

end TraceWeave.Text
