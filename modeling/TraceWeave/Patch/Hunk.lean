import TraceWeave.LineDiff.Change

/-! Hunks: changes that stand close together, with some kept lines around them. -/
namespace TraceWeave

open LineDiff (Change Pair)

/-- Changes and the kept lines around and between them, in order. -/
abbrev Hunk := List Change

namespace Hunk

/-- Only the last lines of a kept stretch. -/
def lastLines (context : Nat) (change : Change) : Change :=
  let surplus := change.oldCount - context
  if change.kept then
    { change with
      old := change.old + surplus
      oldCount := change.oldCount - surplus
      new := change.new + surplus
      newCount := change.newCount - surplus }
  else change

/-- Only the first lines of a kept stretch. -/
def firstLines (context : Nat) (change : Change) : Change :=
  let surplus := change.oldCount - context
  if change.kept then
    { change with oldCount := change.oldCount - surplus, newCount := change.newCount - surplus }
  else change

/-- Changes with only some kept lines at the start. -/
def trimStart (context : Nat) : List Change → List Change
  | [] => []
  | change :: rest => lastLines context change :: rest

/-- Changes with only some kept lines at the end. -/
def trimEnd (context : Nat) : List Change → List Change
  | [] => []
  | [change] => [firstLines context change]
  | change :: rest => change :: trimEnd context rest

/-- Whether a kept stretch is too long to stand inside a hunk. -/
def divides (context : Nat) (change : Change) : Bool :=
  change.kept && decide (2 * context < change.oldCount)

/-- Cut changes inside long kept stretches; each part gets its share of the kept lines. -/
def cut (context : Nat) : List Change → List Hunk
  | [] => [[]]
  | change :: rest =>
      if divides context change then
        match cut context rest with
        | [] => [[firstLines context change]]
        | hunk :: hunks => [firstLines context change] :: (lastLines context change :: hunk) :: hunks
      else
        match cut context rest with
        | [] => [[change]]
        | hunk :: hunks => (change :: hunk) :: hunks

/-- Whether nothing is changed. -/
def isIdle (hunk : Hunk) : Bool := hunk.all (·.kept)

/-- The hunks of a difference, with `context` kept lines around changes. -/
def ofChanges (context : Nat) (changes : List Change) : List Hunk :=
  (cut context (trimEnd context (trimStart context changes))).filter fun hunk => !hunk.isIdle

/-- A stretch of lines in a header: its first line, from one, and the number of lines if it is not
one. No lines stand after the line with the number given. -/
def stretch (start stop : Nat) : String :=
  match stop - start with
  | 0 => toString start ++ ",0"
  | 1 => toString (start + 1)
  | count => toString (start + 1) ++ "," ++ toString count

/-- The line that says which lines of both texts a hunk is about. -/
def header (hunk : Hunk) : String :=
  match hunk.head?, hunk.getLast? with
  | some first, some last =>
      "@@ -" ++ stretch first.old last.oldStop ++ " +" ++ stretch first.new last.newStop ++ " @@\n"
  | _, _ => ""

/-- A line of a hunk: a mark and the line, which is ended if it has no end. -/
def markedLine (mark : Char) (line : String) : String :=
  let text := mark.toString ++ line
  if Text.isEnded line then text else text ++ "\n\\ No newline at end of file\n"

/-- Marked lines of one change. -/
def changeLines (pair : Pair) (change : Change) : List String :=
  let old := (pair.old.extract change.old change.oldStop).toList
  let new := (pair.new.extract change.new change.newStop).toList
  if change.kept then old.map (markedLine ' ')
  else old.map (markedLine '-') ++ new.map (markedLine '+')

/-- A hunk as text. -/
def render (pair : Pair) (hunk : Hunk) : String :=
  hunk.header ++ String.join (hunk.flatMap (changeLines pair))

end Hunk
end TraceWeave
