import TraceWeave.Text.Slice
import TraceWeave.Text.Word

/-! Tokens of Go source. The longest lexeme wins, comments are tokens of their own, and every token
knows whether a line break stands between it and the token before it. -/
namespace TraceWeave.Go

inductive TokenKind where
  | word | int | float | imaginary | rune | interpreted | raw | mark | comment | bad | eof
deriving DecidableEq, Repr, Inhabited

/-- A lexeme with its span. `newLine`: a line break stands before it and after the last token. -/
structure Token where
  kind : TokenKind
  text : String
  start : Nat
  stop : Nat
  newLine : Bool
deriving Repr, Inhabited

namespace Token

def isMark (token : Token) (text : String) : Bool := token.kind == .mark && token.text == text

def isWord (token : Token) (text : String) : Bool := token.kind == .word && token.text == text

end Token

namespace Lexeme

def isSpace (c : Char) : Bool := c == ' ' || (decide (9 ≤ c.toNat) && decide (c.toNat ≤ 13))

def isHexDigit (c : Char) : Bool :=
  c.isDigit || (decide ('a' ≤ c) && decide (c ≤ 'f')) || (decide ('A' ≤ c) && decide (c ≤ 'F'))

def isOctalDigit (c : Char) : Bool := decide ('0' ≤ c) && decide (c ≤ '7')

def isBinaryDigit (c : Char) : Bool := c == '0' || c == '1'

def quotation : Char := Char.ofNat 34

def apostrophe : Char := Char.ofNat 39

def backQuote : Char := Char.ofNat 96

/-- Length of further digits, each with at most one underscore before it. -/
def moreDigits (digit : Char → Bool) : List Char → Nat
  | [] => 0
  | c :: cs =>
      if digit c then 1 + moreDigits digit cs
      else if c == '_' then
        match cs with
        | [] => 0
        | d :: ds => if digit d then 2 + moreDigits digit ds else 0
      else 0

/-- Length of a run of digits that begins with a digit. -/
def digits (digit : Char → Bool) : List Char → Nat
  | [] => 0
  | c :: cs => if digit c then 1 + moreDigits digit cs else 0

/-- Length of a run of digits that may begin with an underscore; zero without a digit. -/
def looseDigits (digit : Char → Bool) : List Char → Nat
  | '_' :: cs => if digits digit cs = 0 then 0 else 1 + digits digit cs
  | cs => digits digit cs

/-- Length of an exponent with one of two letters; zero without one. -/
def exponent (lower upper : Char) : List Char → Nat
  | c :: cs =>
      if c == lower || c == upper then
        let sign := match cs with
          | '+' :: _ => 1
          | '-' :: _ => 1
          | _ => 0
        let run := digits Char.isDigit (cs.drop sign)
        if run = 0 then 0 else 1 + sign + run
      else 0
  | [] => 0

/-- Length of the longest integer literal at the start. -/
def int (cs : List Char) : Nat :=
  let based (letters : List Char) (digit : Char → Bool) : Nat :=
    match cs with
    | '0' :: c :: rest =>
        if letters.contains c && decide (0 < looseDigits digit rest) then 2 + looseDigits digit rest else 0
    | _ => 0
  let octal := match cs with
    | '0' :: rest => if looseDigits isOctalDigit rest = 0 then 0 else 1 + looseDigits isOctalDigit rest
    | _ => 0
  let decimal := match cs with
    | '0' :: _ => 1
    | _ => digits Char.isDigit cs
  [based ['b', 'B'] isBinaryDigit, based ['o', 'O'] isOctalDigit, based ['x', 'X'] isHexDigit, octal,
    decimal].foldl max 0

/-- Length of the longest decimal float literal at the start; zero without one. -/
def decimalFloat (cs : List Char) : Nat :=
  let whole := digits Char.isDigit cs
  match cs.drop whole with
  | '.' :: rest =>
      let part := digits Char.isDigit rest
      if whole = 0 && part = 0 then 0
      else whole + 1 + part + exponent 'e' 'E' (rest.drop part)
  | rest =>
      let power := exponent 'e' 'E' rest
      if whole = 0 || power = 0 then 0 else whole + power

/-- Length of the longest hexadecimal float literal at the start; zero without one. -/
def hexFloat : List Char → Nat
  | '0' :: c :: cs =>
      if c == 'x' || c == 'X' then
        let whole := looseDigits isHexDigit cs
        let mantissa := match cs.drop whole with
          | '.' :: rest =>
              let part := digits isHexDigit rest
              if whole = 0 && part = 0 then 0 else whole + 1 + part
          | _ => whole
        let power := exponent 'p' 'P' (cs.drop mantissa)
        if mantissa = 0 || power = 0 then 0 else 2 + mantissa + power
      else 0
  | _ => 0

/-- Kind and length of the longest number at the start; length zero without one. -/
def number (cs : List Char) : TokenKind × Nat :=
  let whole := int cs
  let float := max (decimalFloat cs) (hexFloat cs)
  let longest := max (max whole float) (digits Char.isDigit cs)
  match cs.drop longest with
  | 'i' :: _ => if longest = 0 then (.int, 0) else (.imaginary, longest + 1)
  | _ => if whole < float then (.float, float) else (.int, whole)

/-- Length up to and including the closing mark of an interpreted string. -/
def interpretedRest? : List Char → Option Nat
  | [] => none
  | '\\' :: 'x' :: a :: b :: cs =>
      if isHexDigit a && isHexDigit b then (interpretedRest? cs).map (· + 4) else none
  | '\\' :: 'u' :: a :: b :: c :: d :: cs =>
      if [a, b, c, d].all isHexDigit then (interpretedRest? cs).map (· + 6) else none
  | '\\' :: 'U' :: a :: b :: c :: d :: e :: f :: g :: h :: cs =>
      if [a, b, c, d, e, f, g, h].all isHexDigit then (interpretedRest? cs).map (· + 10) else none
  | '\\' :: c :: cs =>
      if c == 'x' || c == 'u' || c == 'U' then none else (interpretedRest? cs).map (· + 2)
  | c :: cs =>
      if c == quotation then some 1
      else if c == '\n' || c == '\\' then none
      else (interpretedRest? cs).map (· + 1)

/-- Length up to and including the next occurrence of a character. -/
def upTo? (mark : Char) : List Char → Option Nat
  | [] => none
  | c :: cs => if c == mark then some 1 else (upTo? mark cs).map (· + 1)

/-- Length of an escape sequence of a rune literal, after its backslash; zero without one. -/
def runeEscape : List Char → Nat
  | c :: cs =>
      if ['a', 'b', 'f', 'n', 'r', 't', 'v', '\\', apostrophe, quotation].contains c then 1
      else if c == 'x' && cs.length ≥ 2 && (cs.take 2).all isHexDigit then 3
      else if c == 'u' && cs.length ≥ 4 && (cs.take 4).all isHexDigit then 5
      else if c == 'U' && cs.length ≥ 8 && (cs.take 8).all isHexDigit then 9
      else if isOctalDigit c && cs.length ≥ 2 && (cs.take 2).all isOctalDigit then 3
      else 0
  | [] => 0

/-- Length of the rest of a rune literal after its opening mark. -/
def runeRest? (cs : List Char) : Option Nat :=
  let size := match cs with
    | '\\' :: rest => if runeEscape rest = 0 then 0 else 1 + runeEscape rest
    | c :: _ => if c == apostrophe then 0 else 1
    | [] => 0
  match cs.drop size with
  | c :: _ => if c == apostrophe && decide (0 < size) then some (size + 1) else none
  | [] => none

/-- Length of the rest of a block comment after its opening mark. -/
def blockCommentRest? : List Char → Option Nat
  | '*' :: '/' :: _ => some 2
  | _ :: cs => (blockCommentRest? cs).map (· + 1)
  | [] => none

/-- Marks, longer ones first. The zero character ends a statement like a semicolon. -/
def marks : List String :=
  ["&^=", "<<=", ">>=", "...", "<<", ">>", "&^", "+=", "-=", "*=", "/=", "%=", "&=", "|=", "^=", "&&",
    "||", "<-", "++", "--", "==", "!=", "<=", ">=", ":=", "+", "-", "*", "/", "%", "&", "|", "^", "<",
    ">", "=", "!", "(", ")", "[", "]", "\x7b", "\x7d", ",", ";", ".", ":", "~", "\x00"]

/-- Length of the longest mark at the start; zero without one. -/
def mark (cs : List Char) : Nat :=
  match marks.find? fun text => text.toList.isPrefixOf cs with
  | some text => text.toList.length
  | none => 0

/-- Kind of the token that begins with a character, and how many characters after it belong to it. -/
def after (c : Char) (rest : List Char) : TokenKind × Nat :=
  let found (kind : TokenKind) : Option Nat → TokenKind × Nat
    | some more => (kind, more)
    | none => (.bad, 0)
  if Text.startsWord c then (.word, (rest.takeWhile Text.continuesWord).length)
  else if c == quotation then found .interpreted (interpretedRest? rest)
  else if c == backQuote then found .raw (upTo? backQuote rest)
  else if c == apostrophe then found .rune (runeRest? rest)
  else
    match c :: rest with
    | '/' :: '/' :: more => (.comment, 1 + (more.takeWhile (· != '\n')).length)
    | '/' :: '*' :: more => found .comment ((blockCommentRest? more).map (· + 1))
    | cs =>
        let (kind, size) := number cs
        if size = 0 then
          if mark cs = 0 then (.bad, 0) else (.mark, mark cs - 1)
        else (kind, size - 1)

end Lexeme

namespace Token

/-- Tokens of the characters from an offset on, comments included, with the end of the text last. -/
def listFrom (offset : Nat) (newLine : Bool) : List Char → List Token
  | [] => [⟨.eof, "", offset, offset, true⟩]
  | c :: rest =>
      if Lexeme.isSpace c then listFrom (offset + c.utf8Size) (newLine || c == '\n') rest
      else
        let (kind, more) := Lexeme.after c rest
        let lexeme := c :: rest.take more
        let stop := offset + Text.byteCount lexeme
        ⟨kind, String.ofList lexeme, offset, stop, newLine⟩ ::
          listFrom stop (kind == .comment && newLine) (rest.drop more)
termination_by cs => cs.length
decreasing_by
  · simp
  · simp only [List.length_drop, List.length_cons]; omega

/-- Tokens of a text. A byte order mark at its start is passed over. -/
def list (source : String) : List Token :=
  match source.toList with
  | c :: rest => if c.toNat = 0xfeff then listFrom c.utf8Size false rest else listFrom 0 false (c :: rest)
  | [] => listFrom 0 false []

end Token
end TraceWeave.Go
