import TraceWeave.Text.Quoted

/-!
Interpreted string literals. A quoted text is read by the rules for literals, whose escapes are not all those of
quoted texts: there is none for a code point in braces, and digits after a zero belong to the number of a byte.
-/
namespace TraceWeave

namespace Go

/-! Interpreted string literals. -/

/-- What a reader of a string literal is in. -/
inductive Literal where
  | text
  | escape
  /-- `left` digits are left of the number of a byte or of a code point. -/
  | number (base left value : Nat) (isByte : Bool)

namespace Literal

def digit? (base : Nat) (c : Char) : Option Nat :=
  let value :=
    if '0' ≤ c ∧ c ≤ '9' then c.toNat - 48
    else if 'a' ≤ c ∧ c ≤ 'f' then c.toNat - 87
    else if 'A' ≤ c ∧ c ≤ 'F' then c.toNat - 55
    else base
  if value < base then some value else none

/-- The bytes that a number is written for. -/
def bytes? (value : Nat) (isByte : Bool) : Option (List UInt8) :=
  if isByte then if value < 256 then some [UInt8.ofNat value] else none
  else if value.isValidChar then some (String.utf8EncodeChar (Char.ofNat value)) else none

/-- Letters that are an escape by themselves. -/
def letter? : Char → Option UInt8
  | 'a' => some 7
  | 'b' => some 8
  | 't' => some 9
  | 'n' => some 10
  | 'v' => some 11
  | 'f' => some 12
  | 'r' => some 13
  | '\\' => some 92
  | c => if c.toNat = 34 then some 34 else none

/-- Letters and digits that begin a number. -/
def number? : Char → Option Literal
  | 'x' => some (.number 16 2 0 true)
  | 'u' => some (.number 16 4 0 false)
  | 'U' => some (.number 16 8 0 false)
  | c => (digit? 8 c).map fun value => .number 8 2 value true

/-- The bytes of a literal from some place on. The quotation mark that ends it ends the text as well. -/
def read : Literal → List Char → Option (List UInt8)
  | _, [] => none
  | .text, c :: rest =>
      if c.toNat = 34 then if rest.isEmpty then some [] else none
      else if c = '\n' then none
      else if c = '\\' then read .escape rest
      else (read .text rest).map (String.utf8EncodeChar c ++ ·)
  | .escape, c :: rest =>
      match letter? c, number? c with
      | some byte, _ => (read .text rest).map (byte :: ·)
      | none, some begun => read begun rest
      | none, none => none
  | .number base left value isByte, c :: rest =>
      match digit? base c with
      | none => none
      | some digit =>
          if 1 < left then read (.number base (left - 1) (base * value + digit) isByte) rest
          else
            match bytes? (base * value + digit) isByte with
            | none => none
            | some bytes => (read .text rest).map (bytes ++ ·)

end Literal

/-- The bytes of an interpreted string literal. -/
def stringValue? (literal : String) : Option (List UInt8) :=
  match literal.toList with
  | [] => none
  | c :: rest => if c.toNat = 34 then Literal.read .text rest else none

end Go

/-! Quoted texts. -/

namespace Text

/-- The bytes of characters. -/
def utf8 (cs : List Char) : List UInt8 := cs.flatMap String.utf8EncodeChar

@[simp] theorem utf8_cons (c : Char) (cs : List Char) : utf8 (c :: cs) = String.utf8EncodeChar c ++ utf8 cs :=
  List.flatMap_cons

theorem length_encode_pos (c : Char) : 0 < (String.utf8EncodeChar c).length := by
  rw [String.length_utf8EncodeChar]
  exact c.utf8Size_pos

/-- Whether the quoted form of a character is one that Go has for it. -/
def isSharedEscape (c : Char) : Bool :=
  c == '\t' || c == '\r' || c == '\n' || c == '\\' || c.toNat == 34 || isPrintable c

/-- The characters of a text after its first quotation mark. -/
def quoted (cs : List Char) : List Char := cs.flatMap quoteChar ++ [Char.ofNat 34]

@[simp] theorem quoted_cons (c : Char) (cs : List Char) : quoted (c :: cs) = quoteChar c ++ quoted cs := by
  rw [quoted, quoted, List.flatMap_cons, List.append_assoc]

end Text

namespace Go.Literal

open Text

variable {c : Char} {cs rest : List Char} {bytes : List UInt8}

/-- How a character is quoted, and what Go makes of that. -/
inductive Form (c : Char) : List Char → Prop
  | letter {letter : Char} {byte : UInt8} (shared : isSharedEscape c = true) (known : letter? letter = some byte)
      (same : String.utf8EncodeChar c = [byte]) : Form c ['\\', letter]
  | plain (shared : isSharedEscape c = true) (inside : c.toNat ≠ 34) (feed : c ≠ '\n') (other : c ≠ '\\') : Form c [c]
  | zero (unshared : isSharedEscape c = false) : Form c ['\\', '0']
  | point (unshared : isSharedEscape c = false) (digits : List Char) : Form c ('\\' :: 'u' :: Char.ofNat 123 :: digits)

theorem eq_ofNat {code : Nat} (same : c.toNat = code) : c = Char.ofNat code := by
  rw [← same, Char.ofNat_toNat]

theorem form_quoteChar (c : Char) : Form c (quoteChar c) := by
  unfold quoteChar
  by_cases zero : c.toNat = 0
  · rw [if_pos zero, eq_ofNat zero]
    exact .zero (by decide)
  rw [if_neg zero]
  by_cases tab : c = '\t'
  · subst tab
    exact .letter (by decide) (show letter? 't' = some 9 from rfl) (by decide)
  rw [if_neg (by simpa using tab)]
  by_cases turn : c = '\r'
  · subst turn
    exact .letter (by decide) (show letter? 'r' = some 13 from rfl) (by decide)
  rw [if_neg (by simpa using turn)]
  by_cases feed : c = '\n'
  · subst feed
    exact .letter (by decide) (show letter? 'n' = some 10 from rfl) (by decide)
  rw [if_neg (by simpa using feed)]
  by_cases backslash : c = '\\'
  · subst backslash
    exact .letter (by decide) (show letter? '\\' = some 92 from rfl) (by decide)
  by_cases mark : c.toNat = 34
  · rw [eq_ofNat mark]
    exact .letter (by decide) (show letter? (Char.ofNat 34) = some 34 from rfl) (by decide)
  rw [if_neg (by simp [backslash, mark])]
  by_cases shows : isPrintable c = true
  · rw [if_pos shows]
    exact .plain (by simp [isSharedEscape, shows]) mark feed backslash
  · rw [if_neg shows]
    exact .point (by simp [isSharedEscape, tab, turn, feed, backslash, mark, shows]) _

theorem read_letter {byte : UInt8} (letter : letter? c = some byte) :
    read .text ('\\' :: c :: rest) = (read .text rest).map (byte :: ·) := by
  rw [read, if_neg (by decide), if_neg (by decide), if_pos rfl, read, letter]

theorem read_plain (inside : c.toNat ≠ 34) (feed : c ≠ '\n') (other : c ≠ '\\') :
    read .text (c :: rest) = (read .text rest).map (String.utf8EncodeChar c ++ ·) := by
  rw [read, if_neg inside, if_neg feed, if_neg other]

/-- Nothing is read of a code point in braces. -/
theorem read_point (digits : List Char) : read .text ('\\' :: 'u' :: Char.ofNat 123 :: digits) = none := by
  rw [read, if_neg (by decide), if_neg (by decide), if_pos rfl, read]
  rfl

theorem read_zero : read .text ('\\' :: '0' :: rest) = read (.number 8 2 0 true) rest := by
  rw [read, if_neg (by decide), if_neg (by decide), if_pos rfl, read]
  rfl

/-- A character as it is read where both sides write it alike. -/
theorem read_quoteChar (shared : isSharedEscape c = true) :
    read .text (quoteChar c ++ rest) = (read .text rest).map (String.utf8EncodeChar c ++ ·) := by
  have form := form_quoteChar c
  generalize quoteChar c = shown at form
  cases form with
  | letter _ known same =>
      rw [same]
      exact read_letter known
  | plain _ inside feed other => exact read_plain inside feed other
  | zero unshared => exact absurd shared (by simp [unshared])
  | point unshared digits => exact absurd shared (by simp [unshared])

/-- Of a quoted text, a number takes only characters that stand for themselves. -/
theorem exists_of_read_number {base left value : Nat} {isByte : Bool}
    (found : read (.number base left value isByte) (quoted cs) = some bytes) :
    ∃ c rest digit, cs = c :: rest ∧ digit? base c = some digit ∧
      read (.number base left value isByte) (c :: quoted rest) = some bytes := by
  have none_of {c : Char} (stops : digit? base c = none) (rest : List Char) :
      read (.number base left value isByte) (c :: rest) = none := by
    rw [read, stops]
  cases cs with
  | nil =>
      have mark : digit? base (Char.ofNat 34) = none := by simp [digit?]
      rw [quoted, List.flatMap_nil, List.nil_append, none_of mark] at found
      cases found
  | cons c rest =>
      have backslash : digit? base '\\' = none := by simp [digit?]
      have form := form_quoteChar c
      rw [quoted_cons] at found
      generalize quoteChar c = shown at form found
      cases form with
      | plain _ _ _ _ =>
          cases digit : digit? base c with
          | none =>
              rw [List.singleton_append, none_of digit] at found
              cases found
          | some value => exact ⟨c, rest, value, rfl, digit, found⟩
      | letter _ _ _ =>
          rw [List.cons_append, none_of backslash] at found
          cases found
      | zero _ =>
          rw [List.cons_append, none_of backslash] at found
          cases found
      | point _ digits =>
          rw [List.cons_append, none_of backslash] at found
          cases found

/-- After a zero, a byte takes two digits of the text. -/
theorem exists_of_read_byte {value : Nat} (found : read (.number 8 2 value true) (quoted cs) = some bytes) :
    ∃ c d rest byte more, cs = c :: d :: rest ∧ bytes = byte :: more ∧ read .text (quoted rest) = some more := by
  obtain ⟨c, rest, first, rfl, digit, found⟩ := exists_of_read_number found
  rw [read, digit] at found
  obtain ⟨d, rest, second, rfl, digit', found⟩ := exists_of_read_number found
  rw [read, digit'] at found
  dsimp only at found
  rw [if_neg (by decide), bytes?, if_pos rfl] at found
  split at found
  · cases found
  · rename_i byte known
    obtain ⟨_, same⟩ := Option.ite_none_right_eq_some.1 known
    obtain rfl := Option.some.inj same
    obtain ⟨more, rest', rfl⟩ := Option.map_eq_some_iff.1 found
    exact ⟨c, d, rest, _, more, rfl, rfl, rest'⟩

/-- What is read of a quoted text is the text, or it is shorter. -/
theorem read_quoted (found : read .text (quoted cs) = some bytes) :
    (bytes = utf8 cs ∧ ∀ c ∈ cs, isSharedEscape c = true) ∨ bytes.length < (utf8 cs).length := by
  -- a byte written by digits takes characters after the next one, so the induction is on the length
  induction size : cs.length using Nat.strongRecOn generalizing cs bytes with
  | ind size ih =>
      subst size
      cases cs with
      | nil =>
          cases found
          exact .inl ⟨rfl, fun _ listed => absurd listed List.not_mem_nil⟩
      | cons c cs =>
          rw [quoted_cons] at found
          by_cases shared : isSharedEscape c = true
          · rw [read_quoteChar shared] at found
            obtain ⟨later, found', rfl⟩ := Option.map_eq_some_iff.1 found
            rcases ih _ (Nat.lt_succ_self _) found' rfl with ⟨rfl, rest⟩ | shorter
            · exact .inl ⟨rfl, List.forall_mem_cons.2 ⟨shared, rest⟩⟩
            · right
              rw [utf8_cons, List.length_append, List.length_append]
              omega
          · have form := form_quoteChar c
            generalize quoteChar c = shown at form found
            cases form with
            | letter shared' _ _ => exact absurd shared' shared
            | plain shared' _ _ _ => exact absurd shared' shared
            | point _ digits =>
                rw [List.cons_append, List.cons_append, List.cons_append, read_point] at found
                cases found
            | zero _ =>
                rw [List.cons_append, List.cons_append, List.nil_append, read_zero] at found
                obtain ⟨d, e, rest, byte, more, rfl, rfl, found'⟩ := exists_of_read_byte found
                have taken := length_encode_pos c
                have taken' := length_encode_pos d
                have taken'' := length_encode_pos e
                have most : more.length ≤ (utf8 rest).length := by
                  rcases ih _ (show rest.length < rest.length + 3 by omega) found' rfl with ⟨rfl, _⟩ | shorter
                  · exact Nat.le_refl _
                  · exact Nat.le_of_lt shorter
                right
                simp only [utf8_cons, List.length_append, List.length_cons]
                omega

theorem read_of_shared (shared : ∀ c ∈ cs, isSharedEscape c = true) : read .text (quoted cs) = some (utf8 cs) := by
  induction cs with
  | nil => rfl
  | cons c cs ih =>
      obtain ⟨here, later⟩ := List.forall_mem_cons.1 shared
      rw [quoted_cons, read_quoteChar here, ih later, utf8_cons]
      rfl

end Go.Literal

/-- The literal of a text says the text where each of its characters has a form that both sides know. -/
theorem Go.stringValue?_quote (text : String) :
    stringValue? (Text.quote text) = some (Text.utf8 text.toList) ↔ ∀ c ∈ text.toList, Text.isSharedEscape c = true := by
  have inside : stringValue? (Text.quote text) = Literal.read .text (Text.quoted text.toList) := by
    unfold stringValue? Text.quote
    rw [String.toList_ofList]
    rfl
  rw [inside]
  constructor
  · intro found
    exact ((Literal.read_quoted found).resolve_right (Nat.lt_irrefl _)).2
  · exact Literal.read_of_shared

example : Go.stringValue? "\"a\\tb\\x41\\u00e9\\101\"" = some (Text.utf8 "a\tbAéA".toList) := by decide +kernel

end TraceWeave
