import TraceWeave.Text.Search

/-! Glob patterns for slash separated paths. A pattern matches bytes: `?` is one byte other than a
slash, `*` any number of them, `**` as a whole segment any number of segments, `[…]` one byte of a
set, `\x7b…,…\x7d` one of several patterns, and a backslash takes away the meaning of a character. -/
namespace TraceWeave

/-- A piece of a pattern. -/
inductive Glob.Token where
  | literal (c : Char)
  | any
  | run
  /-- `**/` at the start. -/
  | leading
  /-- `/**` at the end. -/
  | trailing
  /-- `/**/` in the middle. -/
  | between
  | oneOf (negated : Bool) (ranges : List (Char × Char))
  | choice (branches : List (List Glob.Token))
deriving Repr

/-- Why a text is not a pattern. -/
inductive Glob.Fault where
  | unclosedSet | badRange | unopenedChoice | unclosedChoice | danglingEscape
deriving DecidableEq, Repr

namespace Glob

/-- Pieces read so far. `branches` holds the open branches, innermost last; `opened` holds, for each
choice that is open, the number of branches before it, innermost first. Pieces of a branch are in
reverse. -/
structure Reading where
  branches : List (List Token)
  opened : List Nat
  /-- The last character read. -/
  last : Option Char
deriving Repr

namespace Reading

def start : Reading := ⟨[[]], [], none⟩

/-- Take note of a character that was read. -/
def took (reading : Reading) (c : Char) : Reading :=
  { reading with last := some c }

/-- Pieces of the innermost branch, in reverse. -/
def innermost (reading : Reading) : List Token := reading.branches.getLast?.getD []

def setInnermost (reading : Reading) (pieces : List Token) : Reading :=
  { reading with branches := reading.branches.dropLast ++ [pieces] }

def push (reading : Reading) (piece : Token) : Reading :=
  reading.setInnermost (piece :: reading.innermost)

def isNested (reading : Reading) : Bool := decide (reading.branches.length ≥ 2)

def openChoice (reading : Reading) : Reading :=
  { reading with opened := reading.branches.length :: reading.opened, branches := reading.branches ++ [[]] }

def nextBranch (reading : Reading) : Reading :=
  if reading.opened.isEmpty then reading.push (.literal ',')
  else { reading with branches := reading.branches ++ [[]] }

def closeChoice (reading : Reading) : Except Fault Reading :=
  match reading.opened with
  | [] => .error .unopenedChoice
  | before :: opened =>
      let inner := (reading.branches.drop before).map List.reverse
      .ok (({ reading with opened, branches := reading.branches.take before } : Reading).push (.choice inner))

end Reading

/-- Ranges read so far in a set, latest first, and whether a hyphen waits for the end of a range. -/
def addToSet (ranges : List (Char × Char)) (waiting first : Bool) (c : Char) :
    Except Fault (List (Char × Char) × Bool) :=
  if c == '-' && !waiting && !first then .ok (ranges, true)
  else if waiting then
    match ranges with
    | (low, _) :: rest => if c < low then .error .badRange else .ok ((low, c) :: rest, false)
    | [] => .ok ([(c, c)], false)
  else .ok ((c, c) :: ranges, false)

/-- The ranges of a set up to its closing bracket, and what follows it. A closing bracket in the
first place belongs to the set. -/
def readSet (ranges : List (Char × Char)) (waiting first : Bool) :
    List Char → Except Fault (List (Char × Char) × List Char)
  | [] => .error .unclosedSet
  | c :: rest =>
      if c == ']' && !first then
        .ok ((if waiting then ('-', '-') :: ranges else ranges).reverse, rest)
      else
        match addToSet ranges waiting first c with
        | .error fault => .error fault
        | .ok (ranges, waiting) => readSet ranges waiting false rest

/-- What `**` is: a piece that replaces the slash before it, or two runs. -/
inductive Stars where
  | runs
  | leading
  | joined (atEnd : Bool)

/-- What `**` is between what was read and the character after it. -/
def starsAt (reading : Reading) (before next : Option Char) : Stars :=
  if reading.innermost.isEmpty then
    if next.all (· == '/') then .leading else .runs
  else if before != some '/' &&
      (!reading.isNested || (before != some ',' && before != some (Char.ofNat 123))) then .runs
  else
    match next with
    | none => .joined true
    | some c =>
        if (c == ',' || c == Char.ofNat 125) && reading.isNested then .joined true
        else if c == '/' then .joined false
        else .runs

/-- Put `/**` or `/**/` in the place of the piece before it, which is a slash. -/
def joinStars (reading : Reading) (atEnd : Bool) : Reading :=
  match reading.innermost with
  | .leading :: _ | .trailing :: _ => reading
  | _ :: rest => reading.setInnermost ((if atEnd then .trailing else .between) :: rest)
  | [] => reading

/-- Read the next piece of a pattern; what is left is shorter by at least the first character. -/
def readPiece (reading : Reading) (c : Char) (rest : List Char) : Except Fault (Reading × List Char) :=
  let before := reading.last
  let reading := reading.took c
  if c == '?' then .ok (reading.push .any, rest)
  else if c == '[' then
    let negated := rest.head? == some '!' || rest.head? == some '^'
    match readSet [] false true (if negated then rest.tail else rest) with
    | .error fault => .error fault
    | .ok (ranges, rest) => .ok ((reading.push (.oneOf negated ranges)).took ']', rest)
  else if c == Char.ofNat 123 then .ok (reading.openChoice, rest)
  else if c == Char.ofNat 125 then reading.closeChoice.map fun reading => (reading, rest)
  else if c == ',' then .ok (reading.nextBranch, rest)
  else if c == '\\' then
    match rest with
    | [] => .error .danglingEscape
    | d :: rest => .ok ((reading.push (.literal d)).took d, rest)
  else if c == '*' then
    match rest with
    | '*' :: rest =>
        let reading := reading.took '*'
        match starsAt reading before rest.head? with
        | .runs => .ok ((reading.push .run).push .run, rest)
        | .leading => .ok ((reading.push .leading).took '/', rest.tail)
        | .joined true => .ok (joinStars reading true, rest)
        | .joined false => .ok ((joinStars reading false).took '/', rest.tail)
    | _ => .ok (reading.push .run, rest)
  else .ok (reading.push (.literal c), rest)

/-- Read pieces to the end, in at most so many rounds. Each round takes a character. -/
def readPieces : Nat → Reading → List Char → Except Fault Reading
  | 0, reading, _ => .ok reading
  | _, reading, [] => .ok reading
  | rounds + 1, reading, c :: rest =>
      match readPiece reading c rest with
      | .error fault => .error fault
      | .ok (reading, rest) => readPieces rounds reading rest

/-- The pieces of a pattern. -/
def parse (pattern : String) : Except Fault (List Token) :=
  match readPieces pattern.toList.length .start pattern.toList with
  | .error fault => .error fault
  | .ok reading => if reading.isNested then .error .unclosedChoice else .ok reading.innermost.reverse

/-- Bytes of a text. -/
def bytes (s : String) : List UInt8 := s.toUTF8.toList

def slash : UInt8 := 47

/-- What can be left after any number of bytes that pass a test. -/
def leftAfterRun (test : UInt8 → Bool) : List UInt8 → List (List UInt8)
  | [] => [[]]
  | b :: rest => (b :: rest) :: if test b then leftAfterRun test rest else []

/-- What can be left after a slash anywhere. -/
def leftAfterSlash : List UInt8 → List (List UInt8)
  | [] => []
  | b :: rest => if b == slash then rest :: leftAfterSlash rest else leftAfterSlash rest

/-- Byte ranges of a range of characters. Of characters of several bytes, the bytes stand side by
side in the set, and the range lies between the two that meet. -/
def byteRanges (range : Char × Char) : List (UInt8 × UInt8) :=
  let low := bytes (String.singleton range.1)
  let high := bytes (String.singleton range.2)
  if range.1 == range.2 then low.map fun b => (b, b)
  else
    low.dropLast.map (fun b => (b, b)) ++
      [(low.getLast?.getD 0, high.head?.getD 0)] ++ high.tail.map fun b => (b, b)

/-- Whether a set holds a byte. -/
def setHolds (negated : Bool) (ranges : List (Char × Char)) (b : UInt8) : Bool :=
  negated != (ranges.flatMap byteRanges).any fun range => decide (range.1 ≤ b) && decide (b ≤ range.2)

mutual

/-- Whether a piece stands for nothing at all: a choice between nothings. -/
def isVoid : Token → Bool
  | .choice branches => areVoid branches
  | _ => false

/-- Whether all branches stand for nothing. -/
def areVoid : List (List Token) → Bool
  | [] => true
  | branch :: branches => isVoidBranch branch && areVoid branches

/-- Whether all pieces of a branch stand for nothing. -/
def isVoidBranch : List Token → Bool
  | [] => true
  | piece :: pieces => isVoid piece && isVoidBranch pieces

end

mutual

/-- What can be left of bytes after a piece. -/
def leftAfter : Token → List UInt8 → List (List UInt8)
  | .literal c, input =>
      let code := bytes (String.singleton c)
      if code.isPrefixOf input then [input.drop code.length] else []
  | .any, input =>
      match input with
      | b :: rest => if b == slash then [] else [rest]
      | [] => []
  | .run, input => leftAfterRun (· != slash) input
  | .leading, input => input :: leftAfterSlash input
  | .trailing, input =>
      match input with
      | b :: rest => if b == slash then leftAfterRun (fun _ => true) rest else []
      | [] => []
  | .between, input =>
      match input with
      | b :: rest => if b == slash then rest :: leftAfterSlash rest else []
      | [] => []
  | .oneOf negated ranges, input =>
      match input with
      | b :: rest => if setHolds negated ranges b then [rest] else []
      | [] => []
  | .choice branches, input => if areVoid branches then [input] else leftAfterBranches branches input

/-- What can be left after one of several branches. Branches that stand for nothing are no choice. -/
def leftAfterBranches : List (List Token) → List UInt8 → List (List UInt8)
  | [], _ => []
  | branch :: branches, input =>
      (if isVoidBranch branch then [] else leftAfterAll branch [input]) ++ leftAfterBranches branches input

/-- What can be left after all pieces, from any of several inputs. -/
def leftAfterAll : List Token → List (List UInt8) → List (List UInt8)
  | [], inputs => inputs
  | piece :: pieces, inputs => leftAfterAll pieces ((inputs.flatMap (leftAfter piece)).eraseDups)

end

/-- Whether a path matches a pattern. -/
def matchesPath (pieces : List Token) (path : String) : Bool :=
  (leftAfterAll pieces [bytes path]).any (·.isEmpty)

end Glob
end TraceWeave
