import TraceWeave.Document.Yaml.Scalar

/-! Tokens of a YAML text. Indentation shows as tokens that open and close blocks. -/
namespace TraceWeave.Yaml

/-- How a scalar is written. -/
inductive Style where
  | plain | literal | folded | quoted
deriving DecidableEq, Repr

inductive Token where
  | version (major minor : Nat)
  | handle (name meaning : String)
  | documentStart | documentEnd
  /-- Opens a block of items. -/
  | blockSequence
  /-- Opens a block of entries. -/
  | blockMapping
  | blockEnd
  | flowSequence | flowSequenceEnd | flowMapping | flowMappingEnd
  /-- The dash before an item. -/
  | item
  | comma
  | key | value
  | anchor (name : String)
  | reference (name : String)
  | tag (handle suffix : String)
  | scalar (style : Style) (text : String)
deriving DecidableEq, Repr

/-- A place that becomes a key if a colon follows on its line. -/
structure KeyPlace where
  /-- Number of tokens before it. -/
  token : Nat
  /-- Whether nothing but a key can stand there. -/
  required : Bool
  line : Nat
  column : Nat
  index : Nat

/-- The state between two tokens. Tokens are only added at the end; those that turn out to belong
before an earlier token, since a key was found, are kept apart with the place they belong to. -/
structure Scanner where
  cursor : Cursor
  tokens : Array Token := #[]
  inserted : List (Nat × List Token) := []
  /-- Column of the innermost block, `-1` outside of all blocks. -/
  indent : Int := -1
  outer : List Int := []
  /-- For each open bracket, innermost first, and for the text outside of all, where a key may
  begin. -/
  keys : List (Option KeyPlace) := [none]
  keyAllowed : Bool := true

namespace Scanner

/-- Whether a bracket is open. -/
def inFlow (s : Scanner) : Bool := decide (1 < s.keys.length)

def push (s : Scanner) (token : Token) : Scanner := { s with tokens := s.tokens.push token }

def allowKey (s : Scanner) (allowed : Bool) : Scanner := { s with keyAllowed := allowed }

def moveTo (s : Scanner) (cursor : Cursor) : Scanner := { s with cursor }

/-- Leave out white space and comments. Tabs are white space where no key can begin. -/
def skipBlankFrom (s : Scanner) : Nat → Scanner
  | 0 => s
  | rounds + 1 =>
      let cursor := s.cursor
      let cursor := if cursor.column == 0 && cursor.isAtSome (·.toNat == 0xFEFF) then cursor.step else cursor
      let cursor := cursor.skipWhile fun c => c == ' ' || (c == '\t' && (s.inFlow || !s.keyAllowed))
      let cursor := if cursor.isAt '#' then cursor.skipWhile fun c => !isBreak c else cursor
      if cursor.isAtSome isBreak then
        skipBlankFrom { s with
          cursor := cursor.skip cursor.breakSize
          keyAllowed := s.keyAllowed || !s.inFlow } rounds
      else s.moveTo cursor

def skipBlank (s : Scanner) : Scanner := s.skipBlankFrom (s.cursor.rest.length + 1)

/-- How many characters a key can have before its colon. -/
def longestKey : Nat := 1024

/-- Give up places of keys that are too far away; `none` if one of them has to be a key. -/
def dropStaleKeys? (s : Scanner) : Option Scanner :=
  let isStale (place : KeyPlace) : Bool :=
    place.line < s.cursor.line || place.index + longestKey < s.cursor.index
  if s.keys.any fun key => key.any fun place => place.required && isStale place then none
  else some { s with keys := s.keys.map fun key => key.filter fun place => !isStale place }

/-- Give up the innermost place of a key; `none` if it has to be a key. -/
def dropKey? (s : Scanner) : Option Scanner :=
  match s.keys with
  | some place :: rest => if place.required then none else some { s with keys := none :: rest }
  | _ => some s

/-- Note that a key may begin here. -/
def noteKey? (s : Scanner) : Option Scanner :=
  if s.keyAllowed then do
    let s ← s.dropKey?
    let place : KeyPlace :=
      { token := s.tokens.size
        required := !s.inFlow && s.indent == s.cursor.column
        line := s.cursor.line
        column := s.cursor.column
        index := s.cursor.index }
    return { s with keys := some place :: s.keys.drop 1 }
  else some s

/-- Open a block at a column if it is deeper than the innermost one. -/
def opens (s : Scanner) (column : Nat) : Bool := !s.inFlow && decide (s.indent < column)

/-- The state with the block open. -/
def indentTo (s : Scanner) (column : Nat) : Scanner :=
  if s.opens column then { s with indent := column, outer := s.indent :: s.outer } else s

/-- Open a block of a kind at the cursor's column if it is deeper than the innermost one. -/
def openBlock (s : Scanner) (token : Token) : Scanner :=
  if s.opens s.cursor.column then (s.indentTo s.cursor.column).push token else s

/-- Close blocks that are deeper than a column; `outer` bounds their number. -/
def closeFrom (column : Int) : List Int → Scanner → Scanner
  | [], s => s
  | previous :: outer, s =>
      if column < s.indent then
        closeFrom column outer { s with indent := previous, outer, tokens := s.tokens.push .blockEnd }
      else s

/-- Close blocks that are deeper than a column. Brackets have no blocks inside. -/
def closeBlocks (s : Scanner) (column : Int) : Scanner :=
  if s.inFlow then s else closeFrom column s.outer s

/-! ### One token each -/

/-- A token that ends all blocks and allows no key, over some characters. -/
def marker? (s : Scanner) (token : Token) (count : Nat) : Option Scanner := do
  let s ← (s.closeBlocks (-1)).dropKey?
  return ((s.allowKey false).moveTo (s.cursor.skip count)).push token

def flowOpen? (s : Scanner) (token : Token) : Option Scanner := do
  let s ← s.noteKey?
  return ({ s with keys := none :: s.keys, keyAllowed := true, cursor := s.cursor.step }).push token

def flowClose? (s : Scanner) (token : Token) : Option Scanner := do
  let s ← s.dropKey?
  let keys := if s.inFlow then s.keys.drop 1 else s.keys
  return ({ s with keys, keyAllowed := false, cursor := s.cursor.step }).push token

def comma? (s : Scanner) : Option Scanner := do
  let s ← s.dropKey?
  return ((s.allowKey true).moveTo s.cursor.step).push .comma

def item? (s : Scanner) : Option Scanner :=
  if !s.inFlow && !s.keyAllowed then none
  else do
    let s ← (s.openBlock .blockSequence).dropKey?
    return ((s.allowKey true).moveTo s.cursor.step).push .item

/-- A question mark before a key. -/
def key? (s : Scanner) : Option Scanner :=
  if !s.inFlow && !s.keyAllowed then none
  else do
    let s ← (s.openBlock .blockMapping).dropKey?
    return ((s.allowKey (!s.inFlow)).moveTo s.cursor.step).push .key

/-- A colon. If a key may have begun on this line, it has. -/
def value? (s : Scanner) : Option Scanner :=
  match s.keys with
  | some place :: rest =>
      let opened := if s.opens place.column then [Token.blockMapping, .key] else [.key]
      let s := s.indentTo place.column
      some (({ s with
        inserted := s.inserted ++ [(place.token, opened)]
        keys := none :: rest
        keyAllowed := false
        cursor := s.cursor.step }).push .value)
  | _ =>
      if s.inFlow then some (((s.allowKey false).moveTo s.cursor.step).push .value)
      else if !s.keyAllowed then none
      else
        let s := s.openBlock .blockMapping
        some (((s.allowKey true).moveTo s.cursor.step).push .value)

/-- A token in whose place a key may begin, with the place after it. -/
def content? (s : Scanner) (read : Scanner → Option (Token × Cursor)) : Option Scanner := do
  let s ← s.noteKey?
  let (token, after) ← read s
  return ((s.allowKey false).moveTo after).push token

/-- The name of an anchor or a reference to one. -/
def name? (cursor : Cursor) : Option (String × Cursor) :=
  let name := cursor.rest.takeWhile isNameChar
  let after := cursor.skip name.length
  let isEnd (c : Char) : Bool := isWhite c || "?:,]%@".toList.contains c || c.toNat == 125 || c.toNat == 96
  if name.isEmpty || after.isAtSome fun c => !isEnd c then none else some (String.ofList name, after)

/-! ### Tags -/

def isTagChar (verbatim : Bool) (c : Char) : Bool :=
  isNameChar c || ";/?:@&=+$.!~*()".toList.contains c || c.toNat == 39 ||
    (verbatim && (c == ',' || c == '[' || c == ']'))

/-- Bytes given by escapes with a percent sign; `skip` characters are done already. -/
def percentBytes? : Nat → List Char → Option (List UInt8)
  | _, [] => some []
  | skip + 1, _ :: rest => percentBytes? skip rest
  | 0, c :: rest =>
      if c == '%' then do
        let byte ← if rest.length < 2 then none else Json.hexNumber? (rest.take 2)
        return byte.toUInt8 :: (← percentBytes? 2 rest)
      else return c.toString.toUTF8.toList ++ (← percentBytes? 0 rest)

/-- The text of a tag, with bytes given by escapes put in. -/
def tagText? (verbatim : Bool) (cursor : Cursor) : Option (String × Cursor) := do
  let raw := cursor.rest.takeWhile fun c => isTagChar verbatim c || c == '%'
  let text ← String.fromUTF8? ⟨(← percentBytes? 0 raw).toArray⟩
  return (text, cursor.skip raw.length)

/-- A tag: its handle, which can be empty, and the rest of it. -/
def tag? (flow : Bool) (cursor : Cursor) : Option (Token × Cursor) := do
  let (token, after) ← if cursor.peek? 1 == some '<' then do
      let (text, after) ← tagText? true (cursor.skip 2)
      if text.isEmpty || !after.isAt '>' then none else some (Token.tag "" text, after.step)
    else
      let name := cursor.step.rest.takeWhile isNameChar
      let bare := cursor.skip (name.length + 1)
      if bare.isAt '!' then do
        let (text, after) ← tagText? false bare.step
        if text.isEmpty then none
        else some (Token.tag ("!" ++ String.ofList name ++ "!") text, after)
      else do
        let (text, after) ← tagText? false cursor.step
        some (if text.isEmpty then Token.tag "" "!" else Token.tag "!" text, after)
  if endsWord after.next? || (flow && after.isAt ',') then some (token, after) else none

/-! ### Directives -/

/-- Digits of a version number, at most nine. -/
def versionPart? (cursor : Cursor) : Option (Nat × Cursor) :=
  let digits := cursor.rest.takeWhile Char.isDigit
  if digits.isEmpty || 9 < digits.length then none
  else some (digits.foldl (fun sum c => sum * 10 + (c.toNat - 48)) 0, cursor.skip digits.length)

def version? (cursor : Cursor) : Option (Token × Cursor) := do
  let (major, cursor) ← versionPart? (cursor.skipWhile isBlank)
  if !cursor.isAt '.' then none
  else do
    let (minor, cursor) ← versionPart? cursor.step
    return (.version major minor, cursor)

def handle? (cursor : Cursor) : Option (Token × Cursor) := do
  let cursor := cursor.skipWhile isBlank
  let name := cursor.step.rest.takeWhile isNameChar
  let after := cursor.skip (name.length + 1)
  let closed := after.isAt '!'
  if !cursor.isAt '!' || (!closed && !name.isEmpty) then none
  else do
    let handle := "!" ++ String.ofList name ++ (if closed then "!" else "")
    let after := if closed then after.step else after
    if !after.isAtSome isBlank then none
    else do
      let (meaning, after) ← tagText? true (after.skipWhile isBlank)
      if meaning.isEmpty || !endsWord after.next? then none
      else some (.handle handle meaning, after)

/-- A line that begins with a percent sign. -/
def directive? (s : Scanner) : Option Scanner := do
  let s ← (s.closeBlocks (-1)).dropKey?
  let word := s.cursor.step.rest.takeWhile isNameChar
  let after := s.cursor.skip (word.length + 1)
  let (token, after) ←
    if !endsWord after.next? then none
    else if word == "YAML".toList then version? after
    else if word == "TAG".toList then handle? after
    else none
  let after := after.skipWhile isBlank
  let after := if after.isAt '#' then after.skipWhile fun c => !isBreak c else after
  if after.isAtSome fun c => !isBreak c then none
  else some (((s.allowKey false).moveTo (after.skip after.breakSize)).push token)

/-! ### Scalars -/

def blockScalar? (s : Scanner) (folded : Bool) : Option Scanner := do
  let s ← s.dropKey?
  let (text, after) ← block? folded s.indent s.cursor.step
  return ((s.allowKey true).moveTo after).push
    (.scalar (if folded then .folded else .literal) (String.ofList text))

def plainScalar? (s : Scanner) : Option Scanner := do
  let s ← s.noteKey?
  let plain ← plain? s.inFlow (s.indent + 1) s.cursor
  return ((s.allowKey plain.endsLine).moveTo plain.after).push (.scalar .plain (String.ofList plain.text))

def quotedScalar? (s : Scanner) (mark : Char) : Option Scanner :=
  s.content? fun s => (quoted? mark s.cursor).map fun (text, after) =>
    (.scalar .quoted (String.ofList text), after)

/-- Characters that a plain scalar cannot begin with, unless something else allows it. -/
def isIndicator (c : Char) : Bool :=
  isWhite c || isFlowMark c || "-?:#&*!|>%@".toList.contains c || c.toNat == 39 || c.toNat == 34 ||
    c.toNat == 96

/-- Whether a plain scalar can begin here. -/
def startsPlain (s : Scanner) (c : Char) : Bool :=
  let next := s.cursor.peek? 1
  !isIndicator c || (c == '-' && !next.any isBlank) ||
    (!s.inFlow && (c == '?' || c == ':') && !endsWord next)

/-- The next token, at a cursor that is not at the end. -/
def token? (s : Scanner) (c : Char) : Option Scanner :=
  let next := s.cursor.peek? 1
  if s.cursor.column == 0 && c == '%' then s.directive?
  else if s.cursor.isAtMarker '-' then s.marker? .documentStart 3
  else if s.cursor.isAtMarker '.' then s.marker? .documentEnd 3
  else if c == '[' then s.flowOpen? .flowSequence
  else if c.toNat == 123 then s.flowOpen? .flowMapping
  else if c == ']' then s.flowClose? .flowSequenceEnd
  else if c.toNat == 125 then s.flowClose? .flowMappingEnd
  else if c == ',' then s.comma?
  else if c == '-' && endsWord next then s.item?
  else if c == '?' && (s.inFlow || endsWord next) then s.key?
  else if c == ':' && (s.inFlow || endsWord next) then s.value?
  else if c == '*' then
    s.content? fun s => (name? s.cursor.step).map fun (name, after) => (.reference name, after)
  else if c == '&' then
    s.content? fun s => (name? s.cursor.step).map fun (name, after) => (.anchor name, after)
  else if c == '!' then s.content? fun s => tag? s.inFlow s.cursor
  else if c == '|' && !s.inFlow then s.blockScalar? false
  else if c == '>' && !s.inFlow then s.blockScalar? true
  else if c.toNat == 39 || c.toNat == 34 then s.quotedScalar? c
  else if s.startsPlain c then s.plainScalar?
  else none

/-- All tokens up to the end of the text. Each round takes at least one character. -/
def scanFrom? : Nat → Scanner → Option Scanner
  | 0, _ => none
  | rounds + 1, s => do
      let s ← s.skipBlank.dropStaleKeys?
      match s.cursor.rest with
      | [] => (s.closeBlocks (-1)).dropKey?
      | c :: _ => scanFrom? rounds (← (s.closeBlocks s.cursor.column).token? c)

/-- Tokens with those kept apart put in at their places, which are counted from `position`. -/
def splice (inserted : List (Nat × List Token)) : Nat → List Token → List Token
  | _, [] => []
  | position, token :: tokens =>
      (inserted.filter (·.1 == position)).flatMap (·.2) ++ token :: splice inserted (position + 1) tokens

end Scanner

/-- The tokens of a text. -/
def Token.scan? (s : String) : Option (List Token) :=
  if s.toList.all isAllowed then
    (Scanner.scanFrom? (s.toList.length + 1) { cursor := ⟨s.toList, 0, 0, 0⟩ }).map fun scanner =>
      Scanner.splice scanner.inserted 0 scanner.tokens.toList
  else none

end TraceWeave.Yaml
