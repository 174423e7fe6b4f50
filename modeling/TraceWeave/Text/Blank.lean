/-! White space, and texts without it at their ends. -/
namespace TraceWeave.Text

/-- Characters with the Unicode property White_Space. -/
def isBlank (c : Char) : Bool :=
  let n := c.toNat
  (decide (9 ≤ n) && decide (n ≤ 13)) || n == 0x20 || n == 0x85 || n == 0xa0 || n == 0x1680 ||
    (decide (0x2000 ≤ n) && decide (n ≤ 0x200a)) || n == 0x2028 || n == 0x2029 || n == 0x202f ||
    n == 0x205f || n == 0x3000

/-- The text from its first character that fails the test on. -/
def dropStart (test : Char → Bool) (s : String) : String := String.ofList (s.toList.dropWhile test)

/-- The text up to its last character that fails the test. -/
def dropEnd (test : Char → Bool) (s : String) : String :=
  String.ofList (s.toList.reverse.dropWhile test).reverse

def trimStart (s : String) : String := dropStart isBlank s

def trim (s : String) : String := dropEnd isBlank (dropStart isBlank s)

/-- Whether a text holds nothing but white space. -/
def isAllBlank (s : String) : Bool := s.toList.all isBlank

end TraceWeave.Text
