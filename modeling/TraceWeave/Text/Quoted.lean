import TraceWeave.Text.Printable

/-! Texts between quotation marks. -/
namespace TraceWeave.Text

/-- Lower case hexadecimal digits of a number. -/
def hexadecimal (n : Nat) : List Char := Nat.toDigits 16 n

/-- How a character is written between quotation marks. Characters that do not show on their own are
written by their code point. -/
def quoteChar (c : Char) : List Char :=
  if c.toNat = 0 then ['\\', '0']
  else if c == '\t' then ['\\', 't']
  else if c == '\r' then ['\\', 'r']
  else if c == '\n' then ['\\', 'n']
  else if c == '\\' || c.toNat = 34 then ['\\', c]
  else if isPrintable c then [c]
  else ['\\', 'u', Char.ofNat 123] ++ hexadecimal c.toNat ++ [Char.ofNat 125]

/-- A text between quotation marks. -/
def quote (s : String) : String :=
  String.ofList ([Char.ofNat 34] ++ s.toList.flatMap quoteChar ++ [Char.ofNat 34])

end TraceWeave.Text
