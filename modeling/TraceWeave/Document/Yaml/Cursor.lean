/-! Places in a YAML text. -/
namespace TraceWeave.Yaml

def isBlank (c : Char) : Bool := c == ' ' || c == '\t'

def isNextLine (c : Char) : Bool := c.toNat == 0x85

/-- The line separator and the paragraph separator. -/
def isSeparator (c : Char) : Bool := c.toNat == 0x2028 || c.toNat == 0x2029

def isBreak (c : Char) : Bool := c == '\n' || c == '\r' || isNextLine c || isSeparator c

def isWhite (c : Char) : Bool := isBlank c || isBreak c

/-- Characters of anchors and of tag handles. -/
def isNameChar (c : Char) : Bool := c.isAlphanum || c == '-' || c == '_'

/-- Whether a text may hold a character: no control characters but tab and line ends. -/
def isAllowed (c : Char) : Bool :=
  let n := c.toNat
  c == '\t' || c == '\n' || c == '\r' || (decide (0x20 ≤ n) && decide (n ≤ 0x7E)) || n == 0x85 ||
    (decide (0xA0 ≤ n) && n != 0xFFFE && n != 0xFFFF)

/-- Whether a word ends before what may be a character. -/
def endsWord (next : Option Char) : Bool := next.all isWhite

/-- The rest of a text, and where it begins: its line, its column and the number of characters
before it, all from zero. -/
structure Cursor where
  rest : List Char
  line : Nat := 0
  column : Nat := 0
  index : Nat := 0

namespace Cursor

/-- The place after one character. A carriage return before a line feed ends no line itself. -/
def step (cursor : Cursor) : Cursor :=
  match cursor.rest with
  | [] => cursor
  | c :: rest =>
      if isBreak c && !(c == '\r' && rest.head? == some '\n') then
        ⟨rest, cursor.line + 1, 0, cursor.index + 1⟩
      else ⟨rest, cursor.line, cursor.column + 1, cursor.index + 1⟩

/-- The place after some characters. -/
def skip (cursor : Cursor) : Nat → Cursor
  | 0 => cursor
  | count + 1 => skip cursor.step count

/-- The place after all characters of a kind that follow. -/
def skipWhile (cursor : Cursor) (kind : Char → Bool) : Cursor :=
  cursor.skip (cursor.rest.takeWhile kind).length

/-- The place where `rest`, an end of the rest, begins. -/
def skipTo (cursor : Cursor) (rest : List Char) : Cursor :=
  cursor.skip (cursor.rest.length - rest.length)

def peek? (cursor : Cursor) (count : Nat) : Option Char := cursor.rest[count]?

def next? (cursor : Cursor) : Option Char := cursor.rest.head?

/-- Whether a certain character follows. -/
def isAt (cursor : Cursor) (c : Char) : Bool := cursor.next? == some c

/-- Whether a character of a kind follows. -/
def isAtSome (cursor : Cursor) (kind : Char → Bool) : Bool := cursor.next?.any kind

/-- Characters of the line end that follows. -/
def breakSize (cursor : Cursor) : Nat :=
  match cursor.rest with
  | '\r' :: '\n' :: _ => 2
  | c :: _ => if isBreak c then 1 else 0
  | [] => 0

/-- Whether a line begins with three characters that stand for themselves. -/
def isAtMarker (cursor : Cursor) (c : Char) : Bool :=
  cursor.column == 0 && [c, c, c].isPrefixOf cursor.rest && endsWord (cursor.peek? 3)

def isAtDocumentMarker (cursor : Cursor) : Bool := cursor.isAtMarker '-' || cursor.isAtMarker '.'

end Cursor

/-- The line ends among characters. All but separators read as a line feed. -/
def breaks : List Char → List Char
  | '\r' :: '\n' :: rest => '\n' :: breaks rest
  | c :: rest =>
      if isSeparator c then c :: breaks rest
      else if isBreak c then '\n' :: breaks rest
      else breaks rest
  | [] => []

/-- White space inside a scalar: one line end reads as a space, of more line ends the first is left
out, and blanks around line ends do not count. -/
def fold (run : List Char) : List Char :=
  if run.any isBreak then
    match breaks run with
    | ['\n'] => [' ']
    | '\n' :: more => more
    | ends => ends
  else run

end TraceWeave.Yaml
