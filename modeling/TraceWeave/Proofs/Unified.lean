import Mathlib.Data.List.Basic
import TraceWeave.Patch.Hunk

/-!
Patches read back. A reader of the unified format goes by the line feeds of a patch and by the ranges of its
headers; it knows nothing of how differences are found. What is printed line by line is read as it was meant.
-/
namespace TraceWeave.Unified

open LineDiff (Action)

/-- A line with its line feed, if it has one. -/
abbrev Line := List Char

/-- Cut after every line feed. -/
def feedLines : List Char → List Line
  | [] => []
  | c :: rest =>
      if c = '\n' then [c] :: feedLines rest
      else
        match feedLines rest with
        | [] => [[c]]
        | line :: lines => (c :: line) :: lines

/-- What follows a line without a line feed. -/
def endMark : Line := "\\ No newline at end of file\n".toList

/-- Lines of a patch, with the line feeds taken away that do not belong to the text. -/
def joinEnds : List Line → List Line
  | line :: next :: rest => if next = endMark then line.dropLast :: joinEnds rest else line :: joinEnds (next :: rest)
  | lines => lines

/-- Lines that are kept, deleted and inserted after some lines of both texts. -/
structure Hunk where
  old : Nat
  new : Nat
  lines : List (Action × Line)

namespace Hunk

def oldCount (hunk : Hunk) : Nat := hunk.lines.countP (·.1 ≠ .insert)

def newCount (hunk : Hunk) : Nat := hunk.lines.countP (·.1 ≠ .delete)

end Hunk

/-- The hunks of a file. -/
structure FilePatch where
  path : String
  hunks : List Hunk

/-! Reading. -/

/-- What is left after a given start. -/
def after? : List Char → List Char → Option (List Char)
  | [], cs => some cs
  | _ :: _, [] => none
  | c :: start, d :: cs => if c = d then after? start cs else none

def number? (cs : List Char) : Option (Nat × List Char) :=
  match cs.takeWhile Char.isDigit with
  | [] => none
  | digits => some (Nat.ofDigitChars 10 digits 0, cs.dropWhile Char.isDigit)

/-- How many lines stand before a range, and how many in it. A range without lines gives the line before it,
any other one its first line. -/
def range? (cs : List Char) : Option ((Nat × Nat) × List Char) := do
  let (start, cs) ← number? cs
  let (count, cs) ← match cs with
    | ',' :: cs => number? cs
    | cs => some (1, cs)
  if count = 0 then some ((start, 0), cs)
  else if start = 0 then none
  else some ((start - 1, count), cs)

/-- The ranges of both texts in the header of a hunk. -/
def ranges? (line : Line) : Option ((Nat × Nat) × (Nat × Nat)) := do
  let cs ← after? "@@ -".toList line
  let (old, cs) ← range? cs
  let cs ← after? " +".toList cs
  let (new, cs) ← range? cs
  if cs = " @@\n".toList then some (old, new) else none

/-- The path in a line that names a file. -/
def path? (start : String) (line : Line) : Option String := do
  let cs ← after? start.toList line
  if cs.getLast? = some '\n' then some (String.ofList cs.dropLast) else none

/-- What a marked line is for. -/
def entry? : Line → Option (Action × Line)
  | ' ' :: content => some (.keep, content)
  | '-' :: content => some (.delete, content)
  | '+' :: content => some (.insert, content)
  | _ => none

/-- How many lines of both texts a hunk lacks after one of its lines. -/
def lessen? : Action → Nat → Nat → Option (Nat × Nat)
  | .keep, old + 1, new + 1 => some (old, new)
  | .delete, old + 1, new => some (old, new)
  | .insert, old, new + 1 => some (old, new)
  | _, _, _ => none

/-- What is read from some line on: the rest of a hunk, the rest of a file, and other files. -/
structure Rest where
  lines : List (Action × Line)
  hunks : List Hunk
  files : List FilePatch

/-- Read lines, of which the first ones belong to a hunk that still lacks lines of both texts. -/
def read (old new : Nat) : List Line → Option Rest
  | [] => if old = 0 ∧ new = 0 then some ⟨[], [], []⟩ else none
  | line :: lines =>
      if old = 0 ∧ new = 0 then
        match ranges? line with
        | some (before, after) =>
            (read before.2 after.2 lines).map fun rest =>
              ⟨[], ⟨before.1, after.1, rest.lines⟩ :: rest.hunks, rest.files⟩
        | none =>
            match lines with
            | [] => none
            | next :: lines =>
                match path? "--- a/" line, path? "+++ b/" next with
                | some path, some path' =>
                    if path = path' then (read 0 0 lines).map fun rest => ⟨[], [], ⟨path, rest.hunks⟩ :: rest.files⟩
                    else none
                | _, _ => none
      else
        match entry? line with
        | none => none
        | some entry =>
            match lessen? entry.1 old new with
            | none => none
            | some (old, new) => (read old new lines).map fun rest => { rest with lines := entry :: rest.lines }

/-- The files of a patch. Hunks before the first of them belong to none. -/
def ofText? (text : String) : Option (List FilePatch) :=
  match read 0 0 (joinEnds (feedLines text.toList)) with
  | some ⟨[], [], files⟩ => some files
  | _ => none

/-! Application. -/

/-- Follow the lines of a hunk; what is made of them, and the lines after them. -/
def splice : List (Action × Line) → List Line → Option (List Line × List Line)
  | [], lines => some ([], lines)
  | (.insert, line) :: marked, lines => (splice marked lines).map fun (made, rest) => (line :: made, rest)
  | (.keep, line) :: marked, next :: lines =>
      if line = next then (splice marked lines).map fun (made, rest) => (line :: made, rest) else none
  | (.delete, line) :: marked, next :: lines => if line = next then splice marked lines else none
  | _ :: _, [] => none

/-- Carry out hunks on the lines of a text that are left, where some lines of both texts are done. -/
def apply (old new : Nat) : List Hunk → List Line → Option (List Line)
  | [], lines => some lines
  | hunk :: hunks, lines =>
      let gap := hunk.old - old
      if old ≤ hunk.old ∧ hunk.new = new + gap ∧ gap ≤ lines.length then
        match splice hunk.lines (lines.drop gap) with
        | none => none
        | some (made, rest) =>
            (apply (hunk.old + hunk.oldCount) (hunk.new + hunk.newCount) hunks rest).map
              fun done => lines.take gap ++ made ++ done
      else none

/-- Carry out the hunks of a file on a text. -/
def FilePatch.applyTo (file : FilePatch) (text : String) : Option String :=
  (apply 0 0 file.hunks (feedLines text.toList)).map fun lines => String.ofList lines.flatten

/-! Headers. -/

@[simp] theorem after?_nil (cs : List Char) : after? [] cs = some cs := rfl

@[simp] theorem after?_cons (c : Char) (start cs : List Char) : after? (c :: start) (c :: cs) = after? start cs := if_pos rfl

theorem after?_append (start cs : List Char) : after? start (start ++ cs) = some cs := by
  induction start with
  | nil => rfl
  | cons c start ih => rwa [List.cons_append, after?_cons]

theorem number?_toDigits (number : Nat) {c : Char} (other : c.isDigit = false) (cs : List Char) :
    number? (Nat.toDigits 10 number ++ c :: cs) = some (number, c :: cs) := by
  have all : ∀ d ∈ Nat.toDigits 10 number, d.isDigit = true := fun d member =>
    Nat.isDigit_of_mem_toDigits (by decide) (by decide) member
  have none : (c :: cs).takeWhile Char.isDigit = [] := by simp [other]
  have rest : (c :: cs).dropWhile Char.isDigit = c :: cs := by simp [other]
  unfold number?
  rw [List.takeWhile_append_of_pos all, List.dropWhile_append_of_pos all, none, rest, List.append_nil]
  split
  · rename_i empty
    exact absurd empty Nat.toDigits_ne_nil
  · rw [Nat.ofDigitChars_ten_toDigits]

/-- A range is read as it was written. -/
theorem range?_stretch (start stop : Nat) (cs : List Char) :
    range? ((TraceWeave.Hunk.stretch start stop).toList ++ ' ' :: cs) = some ((start, stop - start), ' ' :: cs) := by
  have digits (number : Nat) : (toString number).toList = Nat.toDigits 10 number := by simp
  unfold TraceWeave.Hunk.stretch range?
  split
  · rename_i none
    have zero : number? ('0' :: ' ' :: cs) = some (0, ' ' :: cs) := number?_toDigits 0 (by decide) cs
    rw [String.toList_append, digits, List.append_assoc, none]
    change (number? (Nat.toDigits 10 start ++ ',' :: '0' :: ' ' :: cs)).bind _ = _
    rw [number?_toDigits start (by decide)]
    simp [zero]
  · rename_i one
    rw [digits, one, number?_toDigits (start + 1) (by decide)]
    rfl
  · rename_i count several several'
    rw [String.toList_append, String.toList_append, digits, digits, List.append_assoc, List.append_assoc]
    change (number? (Nat.toDigits 10 (start + 1) ++ ',' :: (Nat.toDigits 10 (stop - start) ++ ' ' :: cs))).bind _ = _
    have counted := number?_toDigits (stop - start) (show ' '.isDigit = false by decide) cs
    rw [number?_toDigits (start + 1) (by decide)]
    change (number? (Nat.toDigits 10 (stop - start) ++ ' ' :: cs)).bind _ = _
    rw [counted]
    exact if_neg several

/-- The line that begins a hunk. -/
def header (old oldStop new newStop : Nat) : String :=
  "@@ -" ++ TraceWeave.Hunk.stretch old oldStop ++ " +" ++ TraceWeave.Hunk.stretch new newStop ++ " @@\n"

theorem ranges?_header (old oldStop new newStop : Nat) :
    ranges? (header old oldStop new newStop).toList = some ((old, oldStop - old), (new, newStop - new)) := by
  have first := range?_stretch old oldStop ('+' :: ((TraceWeave.Hunk.stretch new newStop).toList ++ [' ', '@', '@', '\n']))
  have second := range?_stretch new newStop ['@', '@', '\n']
  simp [ranges?, header, first, second]

/-! Lines of a patch. -/

/-- A line that ends where its only line feed is. -/
def IsFed (line : Line) : Prop := ∃ body, '\n' ∉ body ∧ line = body ++ ['\n']

theorem feedLines_append {line : Line} (fed : IsFed line) (cs : List Char) : feedLines (line ++ cs) = line :: feedLines cs := by
  obtain ⟨body, clear, rfl⟩ := fed
  induction body with
  | nil => rfl
  | cons c body ih =>
      rw [List.mem_cons, not_or] at clear
      rw [List.cons_append, List.cons_append, feedLines, if_neg (Ne.symm clear.1), ih clear.2]

theorem feedLines_flatten {lines : List Line} (fed : ∀ line ∈ lines, IsFed line) : feedLines lines.flatten = lines := by
  induction lines with
  | nil => rfl
  | cons line lines ih =>
      obtain ⟨first, rest⟩ := List.forall_mem_cons.1 fed
      rw [List.flatten_cons, feedLines_append first, ih rest]

theorem flatten_feedLines (cs : List Char) : (feedLines cs).flatten = cs := by
  fun_induction feedLines cs with
  | case1 => rfl
  | case2 rest ih => simp [ih]
  | case3 c rest _ empty ih => simp_all
  | case4 c rest _ line lines found ih => simp_all

/-- The mark of a line in a hunk. -/
def mark : Action → Char
  | .keep => ' '
  | .delete => '-'
  | .insert => '+'

/-- A line of a hunk. -/
def markedLine (entry : Action × Line) : Line := mark entry.1 :: entry.2

theorem mark_ne (action : Action) : mark action ≠ '\\' := by
  cases action <;> decide

theorem entry?_markedLine (entry : Action × Line) : entry? (markedLine entry) = some entry := by
  obtain ⟨action, line⟩ := entry
  cases action with
  | keep => rfl
  | delete => rfl
  | insert => rfl

theorem read_entry {old new old' new' : Nat} (entry : Action × Line) (lines : List Line)
    (less : lessen? entry.1 old new = some (old', new')) (lacks : ¬ (old = 0 ∧ new = 0)) :
    read old new (markedLine entry :: lines) =
      (read old' new' lines).map fun rest => { rest with lines := entry :: rest.lines } := by
  rw [read.eq_def]
  dsimp only
  rw [if_neg lacks, entry?_markedLine]
  dsimp only
  rw [less]

theorem read_marked (marked : List (Action × Line)) (lines : List Line) :
    read (marked.countP (·.1 ≠ .insert)) (marked.countP (·.1 ≠ .delete)) (marked.map markedLine ++ lines) =
      (read 0 0 lines).map fun rest => { rest with lines := marked ++ rest.lines } := by
  induction marked with
  | nil => simp
  | cons entry marked ih =>
      have step {old new : Nat} (less : lessen? entry.1 old new = some (marked.countP (·.1 ≠ .insert), marked.countP (·.1 ≠ .delete)))
          (lacks : ¬ (old = 0 ∧ new = 0)) : read old new ((entry :: marked).map markedLine ++ lines) =
            (read 0 0 lines).map fun rest => { rest with lines := (entry :: marked) ++ rest.lines } := by
        rw [List.map_cons, List.cons_append, read_entry entry _ less lacks, ih, Option.map_map]
        rfl
      obtain ⟨action, line⟩ := entry
      rw [List.countP_cons, List.countP_cons]
      cases action with
      | keep => exact step rfl (by simp)
      | delete => exact step rfl (by simp)
      | insert => exact step rfl (by simp)

/-- Lines of a hunk in the patch. -/
def Hunk.print (hunk : Hunk) : List Line :=
  (header hunk.old (hunk.old + hunk.oldCount) hunk.new (hunk.new + hunk.newCount)).toList :: hunk.lines.map markedLine

theorem read_hunk {hunk : Hunk} {hunks : List Hunk} {files : List FilePatch} {lines : List Line}
    (rest : read 0 0 lines = some ⟨[], hunks, files⟩) : read 0 0 (hunk.print ++ lines) = some ⟨[], hunk :: hunks, files⟩ := by
  rw [Hunk.print, List.cons_append, read.eq_def]
  dsimp only
  rw [if_pos ⟨rfl, rfl⟩, ranges?_header]
  dsimp only
  rw [Nat.add_sub_cancel_left, Nat.add_sub_cancel_left, Hunk.oldCount, Hunk.newCount, read_marked, rest]
  simp

theorem read_hunks {hunks : List Hunk} {files : List FilePatch} {lines : List Line}
    (rest : read 0 0 lines = some ⟨[], [], files⟩) :
    read 0 0 (hunks.flatMap Hunk.print ++ lines) = some ⟨[], hunks, files⟩ := by
  induction hunks with
  | nil => exact rest
  | cons hunk hunks ih =>
      rw [List.flatMap_cons, List.append_assoc]
      exact read_hunk ih

/-- Lines of a file in the patch. -/
def FilePatch.print (file : FilePatch) : List Line :=
  ("--- a/" ++ file.path ++ "\n").toList :: ("+++ b/" ++ file.path ++ "\n").toList :: file.hunks.flatMap Hunk.print

theorem path?_line (start path : String) : path? start (start ++ path ++ "\n").toList = some path := by
  rw [String.append_assoc, String.toList_append, path?, after?_append]
  simp

theorem ranges?_line (path : String) : ranges? ("--- a/" ++ path ++ "\n").toList = none := by
  simp [ranges?, after?]

theorem read_file {file : FilePatch} {files : List FilePatch} {lines : List Line}
    (rest : read 0 0 lines = some ⟨[], [], files⟩) :
    read 0 0 (file.print ++ lines) = some ⟨[], [], file :: files⟩ := by
  rw [FilePatch.print, List.cons_append, List.cons_append, read.eq_def]
  dsimp only
  rw [if_pos ⟨rfl, rfl⟩, ranges?_line]
  dsimp only
  rw [path?_line, path?_line]
  dsimp only
  rw [if_pos rfl, read_hunks rest]
  rfl

/-- A patch is read as it was printed. -/
theorem read_print (files : List FilePatch) : read 0 0 (files.flatMap FilePatch.print) = some ⟨[], [], files⟩ := by
  induction files with
  | nil => rfl
  | cons file files ih => exact read_file ih

/-! Line feeds that do not belong to the text. -/

/-- A line in the patch; one without a line feed gets one, and is marked as such. -/
def fed (line : Line) : List Line := if line.getLast? = some '\n' then [line] else [line ++ ['\n'], endMark]

/-- A line whose line feed, if it has one, ends it, and that cannot be taken for a mark of the end. -/
structure Sound (line : Line) : Prop where
  clear : '\n' ∉ line.dropLast
  other : line.head? ≠ some '\\'

theorem isFed_of_mem {line part : Line} (sound : Sound line) (member : part ∈ fed line) : IsFed part := by
  unfold fed at member
  split at member
  · rename_i ended
    rw [List.mem_singleton.1 member]
    exact ⟨line.dropLast, sound.clear, (List.dropLast_append_getLast? _ ended).symm⟩
  · rename_i unended
    rw [List.mem_cons, List.mem_singleton] at member
    rcases member with rfl | rfl
    · refine ⟨line, fun inside => ?_, rfl⟩
      cases last : line.getLast? with
      | none =>
          rw [List.getLast?_eq_none_iff.1 last] at inside
          cases inside
      | some c =>
          rw [← List.dropLast_append_getLast? c last, List.mem_append, List.mem_singleton] at inside
          rcases inside with earlier | rfl
          · exact sound.clear earlier
          · exact unended last
    · exact ⟨"\\ No newline at end of file".toList, by decide, by decide⟩

theorem joinEnds_cons {line : Line} {lines : List Line} (other : lines.head? ≠ some endMark) :
    joinEnds (line :: lines) = line :: joinEnds lines := by
  cases lines with
  | nil => rfl
  | cons next rest =>
      rw [joinEnds, if_neg]
      rintro rfl
      exact other rfl

/-- A line of a patch, where a carriage return alone ends a line as well. -/
def shut (line : Line) : List Line :=
  if line.getLast? = some '\n' ∨ line.getLast? = some '\r' then [line] else [line ++ ['\n'], endMark]

theorem shut_eq_fed {line : Line} (other : line.getLast? ≠ some '\r') : shut line = fed line := by
  unfold shut fed
  simp only [other, or_false]

/-- Lines that are given a line feed and marked as such are joined again. -/
theorem joinEnds_flatMap {shown : Line → List Line} {lines : List Line} (other : ∀ line ∈ lines, line.head? ≠ some '\\')
    (shows : ∀ line, shown line = [line] ∨ shown line = [line ++ ['\n'], endMark]) : joinEnds (lines.flatMap shown) = lines := by
  induction lines with
  | nil => rfl
  | cons line lines ih =>
      obtain ⟨_, later⟩ := List.forall_mem_cons.1 other
      have rest : (lines.flatMap shown).head? ≠ some endMark := by
        cases lines with
        | nil => simp
        | cons next rest =>
            obtain ⟨here, _⟩ := List.forall_mem_cons.1 later
            have differs : next ≠ endMark ∧ next ++ ['\n'] ≠ endMark := by
              cases next with
              | nil => decide
              | cons c cs => exact ⟨fun same => here (congrArg List.head? same), fun same => here (congrArg List.head? same)⟩
            rw [List.flatMap_cons]
            rcases shows next with same | same
            · simpa [same] using differs.1
            · simpa [same] using differs.2
      rw [List.flatMap_cons]
      rcases shows line with same | same
      · rw [same, List.singleton_append, joinEnds_cons rest, ih later]
      · rw [same, List.cons_append, List.singleton_append, joinEnds, if_pos rfl, List.dropLast_concat, ih later]

theorem joinEnds_fed {lines : List Line} (sound : ∀ line ∈ lines, Sound line) : joinEnds (lines.flatMap fed) = lines := by
  refine joinEnds_flatMap (fun line listed => (sound line listed).other) fun line => ?_
  unfold fed
  split
  · exact .inl rfl
  · exact .inr rfl

/-- A text that prints files line by line is read as these files. -/
theorem ofText?_of_print {text : String} {files : List FilePatch}
    (prints : text.toList = ((files.flatMap FilePatch.print).flatMap fed).flatten)
    (sound : ∀ line ∈ files.flatMap FilePatch.print, Sound line) : ofText? text = some files := by
  have lines : feedLines text.toList = (files.flatMap FilePatch.print).flatMap fed := by
    rw [prints]
    refine feedLines_flatten fun part member => ?_
    obtain ⟨line, listed, inside⟩ := List.mem_flatMap.1 member
    exact isFed_of_mem (sound line listed) inside
  rw [ofText?, lines, joinEnds_fed sound, read_print]

end TraceWeave.Unified
