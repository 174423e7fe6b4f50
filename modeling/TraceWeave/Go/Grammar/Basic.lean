import TraceWeave.Go.Node
import TraceWeave.Go.Token

/-! Reading phrases from a list of tokens. A reader either takes tokens from the front of the list
or is stuck, and then tells how many tokens were left at the furthest point it reached. -/
namespace TraceWeave.Go

/-- A reader of phrases; an error is the number of tokens left where it got stuck. -/
abbrev Reader := StateT (List Token) (Except Nat)

namespace Reader

/-- The next token. Past the end there is always another end. -/
def peek : Reader Token := fun tokens => .ok (tokens.headD default, tokens)

/-- The token after the next one. -/
def peekSecond : Reader Token := fun tokens => .ok (tokens.tail.headD default, tokens)

def stuck {α : Type} : Reader α := fun tokens => .error tokens.length

/-- Take the next token, whatever it is. -/
def take : Reader Token := fun tokens =>
  match tokens with
  | token :: rest => .ok (token, rest)
  | [] => .error 0

/-- Take the next token if it passes a test. -/
def takeIf (test : Token → Bool) : Reader Token := fun tokens =>
  match tokens with
  | token :: rest => if test token then .ok (token, rest) else .error tokens.length
  | [] => .error 0

def mark (text : String) : Reader Token := takeIf (·.isMark text)

def keyword (text : String) : Reader Token := takeIf (·.isWord text)

def word : Reader Token := takeIf (·.kind == .word)

/-- Try one reader, then another from the same point. If both are stuck the further one counts. -/
def either {α : Type} (first second : Reader α) : Reader α := fun tokens =>
  match first tokens with
  | .ok found => .ok found
  | .error left =>
      match second tokens with
      | .ok found => .ok found
      | .error left' => .error (min left left')

/-- Try a reader; where it is stuck, stay. -/
def attempt {α : Type} (reader : Reader α) : Reader (Option α) := fun tokens =>
  match reader tokens with
  | .ok (found, rest) => .ok (some found, rest)
  | .error _ => .ok (none, tokens)

/-- The next token passes a test and, where a line break ends the phrase, stands on the same line. -/
def nextOnLine (lineEnds : Bool) (test : Token → Bool) : Reader Bool := do
  let token ← peek
  return !(lineEnds && token.newLine) && test token

def nextIs (lineEnds : Bool) (text : String) : Reader Bool := nextOnLine lineEnds (·.isMark text)

/-- Repeat a step until it yields nothing, at most `rounds` times. -/
def repeatUpTo {α : Type} (step : Reader (Option α)) : Nat → Reader (List α)
  | 0 => return []
  | rounds + 1 => do
      match ← step with
      | some found => return found :: (← repeatUpTo step rounds)
      | none => return []

/-- Repeat a step that takes a token each time it yields something. -/
def repeating {α : Type} (step : Reader (Option α)) : Reader (List α) := fun tokens =>
  repeatUpTo step (tokens.length + 1) tokens

/-- Elements with a mark between each two. -/
def separated {α : Type} (lineEnds : Bool) (text : String) (element : Reader α) : Reader (List α) := do
  let first ← element
  let rest ← repeating do
    if ← nextIs lineEnds text then
      let _ ← mark text
      return some (← element)
    else return none
  return first :: rest

/-- Elements with commas between and an optional comma last, up to a closing mark, which stays. -/
def commaList {α : Type} (close : String) (element : Reader α) : Reader (List α) := do
  if ← nextIs false close then return []
  if ← nextIs false "," then
    let _ ← mark ","
    return []
  let first ← element
  let rest ← repeating do
    if ← nextIs false "," then
      let _ ← mark ","
      if ← nextIs false close then return none
      return some (← element)
    else return none
  return first :: rest

/-- Whether a statement can end here: before a line break, a semicolon, a zero or the end. -/
def atTerminator : Reader Bool := do
  let token ← peek
  return token.newLine || token.kind == .eof || token.isMark ";" || token.isMark "\x00"

/-- Pass a terminator. A line break takes no token of its own. -/
def terminator : Reader Unit := do
  let token ← peek
  if token.newLine || token.kind == .eof then return ()
  else if token.isMark ";" || token.isMark "\x00" then
    let _ ← take
    return ()
  else stuck

/-- Elements that each but the last are followed by a terminator, up to a closing mark, which stays. -/
def lineList {α : Type} (close : String) (element : Reader α) : Reader (List α) := do
  if ← nextIs false close then return []
  let first ← element
  let rest ← repeating do
    if ← nextIs false close then return none
    terminator
    if ← nextIs false close then return none
    return some (← element)
  return first :: rest

/-- Elements that are all followed by a terminator, up to a closing mark, which stays. -/
def closedLineList {α : Type} (close : String) (element : Reader α) : Reader (List α) :=
  repeating do
    if ← nextIs false close then return none
    let found ← element
    terminator
    return some found

end Reader

/-- A token as a node without children. -/
def Token.leaf (token : Token) (kind : Kind) : Node := ⟨kind, none, token.start, token.stop, []⟩

namespace Node

def withRole (role : Role) (node : Node) : Node := { node with role := some role }

/-- A node from the start of one span to the end of another. -/
def build (kind : Kind) (start stop : Nat) (children : List Node) : Node :=
  ⟨kind, none, start, stop, children⟩

/-- A node that spans its children, of which there is at least one. -/
def spanning (kind : Kind) (first : Node) (rest : List Node) : Node :=
  ⟨kind, none, first.start, (rest.getLastD first).stop, first :: rest⟩

end Node

/-- What ends a phrase besides its own last token. -/
structure Mode where
  /-- A line break ends the phrase. -/
  lineEnds : Bool
  /-- A name may be followed by the braces of a literal. -/
  literals : Bool
  /-- `.(type)` ends the phrase. -/
  guarded : Bool := false

namespace Mode

def statement : Mode := ⟨true, true, false⟩

/-- Between brackets of any kind. -/
def enclosed : Mode := ⟨false, true, false⟩

/-- Before the block of a statement. -/
def header : Mode := ⟨false, false, false⟩

end Mode

/-- Readers for the phrases that nest in each other. -/
structure Grammar where
  type : Bool → Reader Node
  expression : Mode → Reader Node
  literalValue : Reader Node
  block : Reader Node
  statement : Reader Node

end TraceWeave.Go
