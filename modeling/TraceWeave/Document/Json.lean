import TraceWeave.Document.Basic

/-! JSON texts. -/
namespace TraceWeave

/-- A JSON value. A text is `none` if one of its escapes is half of a surrogate pair without the other
half. What a number is does not matter here. -/
inductive Json where
  | null
  | bool (value : Bool)
  | number
  | text (content : Option String)
  | list (items : List Json)
  | table (entries : List (Option String × Json))

namespace Json

def isBlank (c : Char) : Bool := c == ' ' || c == '\t' || c == '\n' || c == '\r'

def skipBlank (cs : List Char) : List Char := cs.dropWhile isBlank

def quoteMark : Char := Char.ofNat 34

def tableOpen : Char := Char.ofNat 123

def tableClose : Char := Char.ofNat 125

/-! ### Texts -/

/-- A part of a text: a character, or an escaped unit of sixteen bits. -/
inductive Part where
  | char (c : Char)
  | unit (value : Nat)

def hexDigit? (c : Char) : Option Nat :=
  if c.isDigit then some (c.toNat - 48)
  else if 'a' ≤ c && c ≤ 'f' then some (c.toNat - 87)
  else if 'A' ≤ c && c ≤ 'F' then some (c.toNat - 55)
  else none

/-- The number that hexadecimal digits stand for. -/
def hexNumber? (digits : List Char) : Option Nat :=
  (digits.mapM hexDigit?).map fun values => values.foldl (fun sum value => sum * 16 + value) 0

/-- What an escape with one character stands for. -/
def escaped? (c : Char) : Option Char :=
  if c == quoteMark || c == '\\' || c == '/' then some c
  else
    match c with
    | 'b' => some (Char.ofNat 8)
    | 'f' => some (Char.ofNat 12)
    | 'n' => some '\n'
    | 'r' => some '\r'
    | 't' => some '\t'
    | _ => none

/-- Parts of a text up to its closing quote, and what follows the quote. -/
def parts? : List Char → Option (List Part × List Char)
  | [] => none
  | '\\' :: 'u' :: a :: b :: c :: d :: rest => do
      let value ← hexNumber? [a, b, c, d]
      let (parts, rest) ← parts? rest
      return (.unit value :: parts, rest)
  | '\\' :: c :: rest => do
      let meant ← escaped? c
      let (parts, rest) ← parts? rest
      return (.char meant :: parts, rest)
  | c :: rest =>
      if c == quoteMark then some ([], rest)
      else if c.toNat < 32 || c == '\\' then none
      else do
        let (parts, rest) ← parts? rest
        return (.char c :: parts, rest)

def isHighSurrogate (unit : Nat) : Bool := decide (0xD800 ≤ unit) && decide (unit < 0xDC00)

def isLowSurrogate (unit : Nat) : Bool := decide (0xDC00 ≤ unit) && decide (unit < 0xE000)

/-- The characters of parts. -/
def characters? : List Part → Option (List Char)
  | [] => some []
  | .char c :: parts => (characters? parts).map (c :: ·)
  | .unit high :: .unit low :: parts =>
      if isHighSurrogate high then
        if isLowSurrogate low then
          (characters? parts).map
            (Char.ofNat (0x10000 + (high - 0xD800) * 0x400 + (low - 0xDC00)) :: ·)
        else none
      else if isLowSurrogate high then none
      else (characters? (.unit low :: parts)).map (Char.ofNat high :: ·)
  | .unit unit :: parts =>
      if isHighSurrogate unit || isLowSurrogate unit then none
      else (characters? parts).map (Char.ofNat unit :: ·)

/-- A text after its opening quote. -/
def string? (cs : List Char) : Option (Option String × List Char) :=
  (parts? cs).map fun (parts, rest) => ((characters? parts).map String.ofList, rest)

/-! ### Numbers -/

/-- What follows at least one digit. -/
def digits? (cs : List Char) : Option (List Char) :=
  match cs with
  | [] => none
  | c :: rest => if c.isDigit then some (rest.dropWhile Char.isDigit) else none

/-- What follows an integer, which does not begin with a needless zero. -/
def integer? (cs : List Char) : Option (List Char) :=
  match cs with
  | '0' :: rest => if rest.head?.any Char.isDigit then none else some rest
  | _ => digits? cs

def fraction? (cs : List Char) : Option (List Char) :=
  match cs with
  | '.' :: rest => digits? rest
  | _ => some cs

def exponent? (cs : List Char) : Option (List Char) :=
  match cs with
  | c :: rest =>
      if c == 'e' || c == 'E' then
        match rest with
        | sign :: digits => if sign == '+' || sign == '-' then digits? digits else digits? rest
        | [] => none
      else some cs
  | [] => some cs

/-- What follows a number. -/
def number? (cs : List Char) : Option (List Char) := do
  let cs ← integer? (if cs.head? == some '-' then cs.drop 1 else cs)
  exponent? (← fraction? cs)

/-! ### Values -/

/-- What follows a word. -/
def word? (word : String) (cs : List Char) : Option (List Char) :=
  if word.toList.isPrefixOf cs then some (cs.drop word.toList.length) else none

mutual

/-- A value at the start of characters that are not blank. `depth` bounds how deep values nest, and
with it the number of values in a row: no text has more values than characters. -/
def value? : Nat → List Char → Option (Json × List Char)
  | 0, _ => none
  | depth + 1, cs =>
      match cs with
      | [] => none
      | c :: rest =>
          if c == quoteMark then (string? rest).map fun (content, rest) => (.text content, rest)
          else if c == '[' then
            let rest := skipBlank rest
            if rest.head? == some ']' then some (.list [], rest.drop 1)
            else (items? depth rest).map fun (items, rest) => (.list items, rest)
          else if c == tableOpen then
            let rest := skipBlank rest
            if rest.head? == some tableClose then some (.table [], rest.drop 1)
            else (entries? depth rest).map fun (entries, rest) => (.table entries, rest)
          else if c == 'n' then (word? "null" cs).map (.null, ·)
          else if c == 't' then (word? "true" cs).map (.bool true, ·)
          else if c == 'f' then (word? "false" cs).map (.bool false, ·)
          else (number? cs).map (.number, ·)

/-- Items up to the end of their list. -/
def items? : Nat → List Char → Option (List Json × List Char)
  | 0, _ => none
  | depth + 1, cs => do
      let (item, rest) ← value? depth cs
      match skipBlank rest with
      | ',' :: rest =>
          let (items, rest) ← items? depth (skipBlank rest)
          return (item :: items, rest)
      | ']' :: rest => return ([item], rest)
      | _ => none

/-- Entries up to the end of their table. -/
def entries? : Nat → List Char → Option (List (Option String × Json) × List Char)
  | 0, _ => none
  | depth + 1, cs =>
      match cs with
      | [] => none
      | c :: rest =>
          if c != quoteMark then none
          else do
            let (key, rest) ← string? rest
            match skipBlank rest with
            | ':' :: rest =>
                let (value, rest) ← value? depth (skipBlank rest)
                match skipBlank rest with
                | ',' :: rest =>
                    let (entries, rest) ← entries? depth (skipBlank rest)
                    return ((key, value) :: entries, rest)
                | c :: rest => if c == tableClose then some ([(key, value)], rest) else none
                | [] => none
            | _ => none

end

/-- The value of a text that holds nothing else. -/
def parse? (s : String) : Option Json := do
  let (value, rest) ← value? (s.toList.length + 1) (skipBlank s.toList)
  if (skipBlank rest).isEmpty then some value else none

instance : Readable Json where
  isNull?
    | .null => some true
    | _ => some false
  text?
    | .text content => content
    | _ => none
  flag?
    | .bool value => some value
    | _ => none
  list?
    | .list items => some items
    | _ => none
  entries?
    | .table entries => entries.mapM fun (key, value) => key.map (·, value)
    | _ => none

end Json
end TraceWeave
