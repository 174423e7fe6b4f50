/-! Sets of characters given by tables of code point ranges. -/
namespace TraceWeave.Text

/-- Whether a table of inclusive code point ranges holds a character. -/
def inRanges (table : List (Nat × Nat)) (c : Char) : Bool :=
  table.any fun range => decide (range.1 ≤ c.toNat) && decide (c.toNat ≤ range.2)

end TraceWeave.Text
