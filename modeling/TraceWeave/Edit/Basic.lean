import TraceWeave.Text.Slice

/-! Batches of edits against one text. An edit puts a new text in the place of a span of bytes; a
span without bytes is an insertion. Text outside the spans is copied as it is. -/
namespace TraceWeave

/-- Put `text` in the place of the bytes from `start` up to `stop`. -/
structure Edit where
  start : Nat
  stop : Nat
  text : String
deriving DecidableEq, Repr

/-- Why a batch of edits cannot be carried out. -/
inductive EditError where
  | outside (start stop size : Nat)
  | splitsCharacter (start stop : Nat)
  | overlap (start stop previousStop : Nat)
deriving DecidableEq, Repr

namespace EditError

def message : EditError → String
  | .outside start stop size => s!"edit span {start}..{stop} is outside the source ({size} bytes)"
  | .splitsCharacter start stop => s!"edit span {start}..{stop} splits a character"
  | .overlap start stop previousStop =>
      s!"edit at {start}..{stop} overlaps a previous edit ending at {previousStop}"

end EditError

namespace Edit

/-- Put `text` between two bytes. -/
def insertAt (offset : Nat) (text : String) : Edit := ⟨offset, offset, text⟩

def isInsertion (edit : Edit) : Bool := edit.start == edit.stop

/-- The order in which a batch is carried out: by start, insertions before replacements. -/
def goesBefore (a b : Edit) : Bool :=
  decide (a.start < b.start) || (a.start == b.start && (a.isInsertion || !b.isInsertion))

/-- A batch in the order of execution. Edits of equal rank keep their place in the batch. -/
def inOrder (edits : List Edit) : List Edit := edits.mergeSort goesBefore

/-- Why an edit cannot follow edits that end at `done`. -/
def refusal? (source : String) (done : Nat) (edit : Edit) : Option EditError :=
  if edit.start > edit.stop || edit.stop > Text.size source then
    some (.outside edit.start edit.stop (Text.size source))
  else if !Text.isBoundary source edit.start || !Text.isBoundary source edit.stop then
    some (.splitsCharacter edit.start edit.stop)
  else if edit.start < done then some (.overlap edit.start edit.stop done)
  else none

/-- The text from `done` on, with ordered edits carried out. -/
def performFrom (source : String) : Nat → List Edit → Except EditError String
  | done, [] => .ok (Text.slice source done (Text.size source))
  | done, edit :: edits =>
      match refusal? source done edit with
      | some error => .error error
      | none =>
          (performFrom source edit.stop edits).map
            fun rest => Text.slice source done edit.start ++ edit.text ++ rest

/-- Carry out a batch whose spans all refer to `source`. -/
def perform (source : String) (edits : List Edit) : Except EditError String :=
  performFrom source 0 (inOrder edits)

@[simp] theorem performFrom_nil (source : String) (done : Nat) :
    performFrom source done [] = .ok (Text.slice source done (Text.size source)) := rfl

end Edit
end TraceWeave
