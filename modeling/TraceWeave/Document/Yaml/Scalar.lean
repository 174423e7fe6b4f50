import TraceWeave.Document.Json
import TraceWeave.Document.Yaml.Cursor

/-! Scalars: plain, quoted and block texts. Each reader begins at a cursor and gives the text and
the cursor after it. -/
namespace TraceWeave.Yaml

/-! ### Plain scalars -/

/-- Characters that end a plain scalar inside brackets. -/
def isFlowMark (c : Char) : Bool :=
  c == ',' || c == '[' || c == ']' || c.toNat == 123 || c.toNat == 125

/-- Characters of a plain scalar up to white space or what ends it. -/
def plainWord? (flow : Bool) : List Char → Option (List Char)
  | [] => some []
  | c :: rest =>
      if isWhite c then some []
      else if flow && c == ':' && rest.head?.any fun d => isFlowMark d || d == '?' then none
      else if (c == ':' && endsWord rest.head?) || (flow && isFlowMark c) then some []
      else (plainWord? flow rest).map (c :: ·)

/-- Whether white space has a tab in the indentation of a line. -/
def hasTabIndent (indent : Int) : Bool → Nat → List Char → Bool
  | _, _, [] => false
  | inIndent, column, c :: rest =>
      if isBreak c then hasTabIndent indent true 0 rest
      else (inIndent && c == '\t' && decide ((column : Int) < indent)) ||
        hasTabIndent indent inIndent (column + 1) rest

/-- A plain scalar, the place after it and the white space that follows, and whether that white
space holds a line end. -/
structure Plain where
  text : List Char
  after : Cursor
  endsLine : Bool

/-- The rest of a plain scalar. `indent` is the least column of its further lines, and `gap` what
stands for the white space before the next word. -/
def plainFrom? (flow : Bool) (indent : Int) : Nat → Plain → List Char → Option Plain
  | 0, _, _ => none
  | rounds + 1, soFar, gap =>
      if soFar.after.isAtDocumentMarker || soFar.after.isAt '#' then some soFar
      else do
        let word ← plainWord? flow soFar.after.rest
        if word.isEmpty then return soFar
        let text := soFar.text ++ gap ++ word
        let stop := soFar.after.skip word.length
        let run := stop.rest.takeWhile isWhite
        let after := stop.skip run.length
        if hasTabIndent indent false stop.column run then none
        else if run.isEmpty then some ⟨text, stop, false⟩
        else
          let found : Plain := ⟨text, after, run.any isBreak⟩
          if !flow && decide ((after.column : Int) < indent) then some found
          else plainFrom? flow indent rounds found (fold run)

def plain? (flow : Bool) (indent : Int) (cursor : Cursor) : Option Plain :=
  plainFrom? flow indent (cursor.rest.length + 1) ⟨[], cursor, false⟩ []

/-! ### Quoted scalars -/

/-- What the character after a backslash stands for. -/
def escaped? (c : Char) : Option Char :=
  if c == Json.quoteMark || c == '/' || c == '\\' || c == ' ' || c == '\t' then some c
  else
    match c with
    | '0' => some (Char.ofNat 0)
    | 'a' => some (Char.ofNat 7)
    | 'b' => some (Char.ofNat 8)
    | 't' => some '\t'
    | 'n' => some '\n'
    | 'v' => some (Char.ofNat 11)
    | 'f' => some (Char.ofNat 12)
    | 'r' => some '\r'
    | 'e' => some (Char.ofNat 27)
    | 'N' => some (Char.ofNat 0x85)
    | '_' => some (Char.ofNat 0xA0)
    | 'L' => some (Char.ofNat 0x2028)
    | 'P' => some (Char.ofNat 0x2029)
    | _ => none

/-- Hexadecimal digits after the character that begins a numeric escape. -/
def escapeDigits : Char → Nat
  | 'x' => 2
  | 'u' => 4
  | 'U' => 8
  | _ => 0

/-- The character of an escape and the number of characters after the backslash. -/
def escape? : List Char → Option (Char × Nat)
  | [] => none
  | c :: rest =>
      match escapeDigits c with
      | 0 => (escaped? c).map (·, 1)
      | count =>
          if rest.length < count then none
          else do
            let code ← Json.hexNumber? (rest.take count)
            if code.isValidChar then some (Char.ofNat code, count + 1) else none

/-- Part of a quoted scalar up to white space or the closing quote. -/
structure Quoted where
  text : List Char
  rest : List Char
  /-- Whether the part ends with a line end that is escaped. -/
  joined : Bool

def Quoted.prepend (c : Char) (part : Quoted) : Quoted := { part with text := c :: part.text }

/-- Part of a scalar in single quotes; `skip` characters are done already. -/
def singleWord : Nat → List Char → Quoted
  | _, [] => ⟨[], [], false⟩
  | skip + 1, _ :: rest => singleWord skip rest
  | 0, c :: rest =>
      if c.toNat == 39 then
        if rest.head? == some c then (singleWord 1 rest).prepend c else ⟨[], c :: rest, false⟩
      else if isWhite c then ⟨[], c :: rest, false⟩
      else (singleWord 0 rest).prepend c

/-- Part of a scalar in double quotes; `skip` characters are done already. -/
def doubleWord? : Nat → List Char → Option Quoted
  | _, [] => some ⟨[], [], false⟩
  | skip + 1, _ :: rest => doubleWord? skip rest
  | 0, c :: rest =>
      if c == Json.quoteMark || isWhite c then some ⟨[], c :: rest, false⟩
      else if c == '\\' then
        if rest.head?.any isBreak then
          some ⟨[], rest.drop (Cursor.breakSize ⟨rest, 0, 0, 0⟩), true⟩
        else do
          let (meant, count) ← escape? rest
          return (← doubleWord? count rest).prepend meant
      else (doubleWord? 0 rest).map (·.prepend c)

/-- The rest of a quoted scalar. -/
def quotedFrom? (mark : Char) : Nat → List Char → Cursor → Option (List Char × Cursor)
  | 0, _, _ => none
  | rounds + 1, text, cursor =>
      if cursor.isAtDocumentMarker || cursor.rest.isEmpty then none
      else do
        let part ← if mark == Json.quoteMark then doubleWord? 0 cursor.rest else some (singleWord 0 cursor.rest)
        let text := text ++ part.text
        let cursor := cursor.skipTo part.rest
        if cursor.isAt mark then return (text, cursor.step)
        let run := cursor.rest.takeWhile isWhite
        quotedFrom? mark rounds (text ++ if part.joined then breaks run else fold run)
          (cursor.skip run.length)

/-- A quoted scalar, from its opening quote on. -/
def quoted? (mark : Char) (cursor : Cursor) : Option (List Char × Cursor) :=
  quotedFrom? mark (cursor.rest.length + 1) [] cursor.step

/-! ### Block scalars -/

/-- What becomes of the line ends after a block scalar. -/
inductive Chomp where
  | strip | clip | keep
deriving DecidableEq

def chomp? (cursor : Cursor) : Option Chomp :=
  if cursor.isAt '+' then some .keep else if cursor.isAt '-' then some .strip else none

/-- The first line of a block scalar after its mark: what becomes of line ends, the indentation if it
is given, and where the lines begin. -/
def blockHeader? (cursor : Cursor) : Option (Chomp × Option Nat × Cursor) := do
  let digit (cursor : Cursor) : Option Nat :=
    cursor.next?.bind fun c => if c.isDigit then some (c.toNat - 48) else none
  let first := chomp? cursor
  let cursor := if first.isSome then cursor.step else cursor
  let increment := digit cursor
  let cursor := if increment.isSome then cursor.step else cursor
  let second := if first.isNone && increment.isSome then chomp? cursor else none
  let cursor := if second.isSome then cursor.step else cursor
  let cursor := cursor.skipWhile isBlank
  let cursor := if cursor.isAt '#' then cursor.skipWhile fun c => !isBreak c else cursor
  if increment == some 0 || cursor.isAtSome fun c => !isBreak c then none
  else some ((first.orElse fun _ => second).getD .clip, increment, cursor.skip cursor.breakSize)

/-- Blank lines of a block scalar: their ends, the widest indentation, and the place after them. An
`indent` of zero is not known yet. -/
def blockBreaks? (indent : Nat) : Nat → Cursor → Nat → List Char → Option (List Char × Nat × Cursor)
  | 0, _, _, _ => none
  | rounds + 1, cursor, widest, ends =>
      let spaces := (cursor.rest.takeWhile (· == ' ')).length
      let cursor := cursor.skip (if indent == 0 then spaces else min spaces (indent - cursor.column))
      let widest := max widest cursor.column
      if (indent == 0 || cursor.column < indent) && cursor.isAt '\t' then none
      else if cursor.isAtSome isBreak then
        blockBreaks? indent rounds (cursor.skip cursor.breakSize) widest
          (ends ++ breaks (cursor.rest.take cursor.breakSize))
      else some (ends, widest, cursor)

/-- A block scalar while it is read. `lead` is the end of the last line, `ends` those of the blank
lines after it. -/
structure Block where
  text : List Char
  lead : List Char
  ends : List Char
  /-- Whether the last line begins with a blank. -/
  indented : Bool
  cursor : Cursor

/-- What stands between the last line and the next one. A folded scalar has a space for a single line
end between lines that do not begin with a blank. -/
def Block.gap (block : Block) (folded : Bool) : List Char :=
  if folded && block.lead == ['\n'] && !block.indented && !block.cursor.isAtSome isBlank then
    if block.ends.isEmpty then [' '] else block.ends
  else block.lead ++ block.ends

/-- The lines of a block scalar. -/
def blockLines? (folded : Bool) (indent : Nat) : Nat → Block → Option Block
  | 0, _ => none
  | rounds + 1, block =>
      if block.cursor.column == indent && !block.cursor.rest.isEmpty then do
        let line := block.cursor.rest.takeWhile fun c => !isBreak c
        let stop := block.cursor.skip line.length
        let after := stop.skip stop.breakSize
        let (ends, _, cursor) ← blockBreaks? indent (after.rest.length + 1) after 0 []
        blockLines? folded indent rounds
          { text := block.text ++ block.gap folded ++ line
            lead := breaks (stop.rest.take stop.breakSize)
            ends
            indented := block.cursor.isAtSome isBlank
            cursor }
      else some block

/-- A block scalar after its mark. `parent` is the indentation of what holds it. -/
def block? (folded : Bool) (parent : Int) (cursor : Cursor) : Option (List Char × Cursor) := do
  let (chomp, increment, cursor) ← blockHeader? cursor
  let given := match increment with
    | some increment => (max parent 0).toNat + increment
    | none => 0
  let (ends, widest, start) ← blockBreaks? given (cursor.rest.length + 1) cursor 0 []
  let indent := if given == 0 then max (max widest (parent + 1).toNat) 1 else given
  let block ← blockLines? folded indent (start.rest.length + 1) ⟨[], [], ends, false, start⟩
  let tail := match chomp with
    | .strip => []
    | .clip => block.lead
    | .keep => block.lead ++ block.ends
  return (block.text ++ tail, block.cursor)

end TraceWeave.Yaml
