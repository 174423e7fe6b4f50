import TraceWeave.Total

/-! Texts addressed by byte offset. An offset is sound when it lies between two characters. -/
namespace TraceWeave.Text

/-- Length in bytes. -/
def size (s : String) : Nat := s.utf8ByteSize

/-- Whether an offset lies between two characters of the text, its ends included. -/
def isBoundary (s : String) (offset : Nat) : Bool := String.Pos.Raw.isValid s ⟨offset⟩

/-- The text between two sound offsets. -/
def slice (s : String) (start stop : Nat) : String := String.Pos.Raw.extract s ⟨start⟩ ⟨stop⟩

/-- Bytes a list of characters takes. -/
def byteCount (cs : List Char) : Nat := total Char.utf8Size cs

@[simp] theorem byteCount_nil : byteCount [] = 0 := rfl

@[simp] theorem byteCount_cons (c : Char) (cs : List Char) :
    byteCount (c :: cs) = c.utf8Size + byteCount cs := rfl

theorem byteCount_append (a b : List Char) : byteCount (a ++ b) = byteCount a + byteCount b :=
  total_append _ a b

end TraceWeave.Text
