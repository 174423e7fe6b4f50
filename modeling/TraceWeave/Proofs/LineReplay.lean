import TraceWeave.Proofs.Patch
import TraceWeave.Proofs.ScriptOpening

/-!
Differences replayed line by line. A reader that cuts lines where a difference cuts them takes from the text of a
file where each hunk begins in the old text and what it does with its lines, and carries that out on the old
lines. The new lines come out, and the counts of a difference are those of the lines it shows.
-/
namespace TraceWeave

open LineDiff (Action Change Pair Point Path)
open LineDiff.Change (Runs Alike)
open Unified (Line)

/-! Cut lines. -/

namespace Text

variable {line rest : List Char} {lines : List (List Char)}

/-- Nothing in it ends a line. -/
def IsOpen (line : List Char) : Prop := '\n' ∉ line ∧ '\r' ∉ line

/-- A line with its end. -/
def IsClosed (line : List Char) : Prop :=
  ∃ body stop, IsOpen body ∧ stop ∈ [['\n'], ['\r'], ['\r', '\n']] ∧ line = body ++ stop

theorem isOpen_cons {c : Char} : IsOpen (c :: line) ↔ (c ≠ '\n' ∧ c ≠ '\r') ∧ IsOpen line := by
  simp only [IsOpen, List.mem_cons, not_or, ne_comm, ne_eq]
  tauto

theorem cutLines_cons {c : Char} (stays : c ≠ '\n' ∧ c ≠ '\r') (cut : cutLines rest = line :: lines) :
    cutLines (c :: rest) = (c :: line) :: lines := by
  rw [cutLines.eq_3 _ _ (by intro _ is _; exact stays.2 is), cut]
  simp [stays]

theorem cutLines_stop {stop : List Char} (stops : stop ∈ [['\n'], ['\r'], ['\r', '\n']]) (other : rest.head? ≠ some '\n') :
    cutLines (stop ++ rest) = stop :: cutLines rest := by
  simp only [List.mem_cons, List.not_mem_nil, or_false] at stops
  rcases stops with rfl | rfl | rfl
  · simp [cutLines]
  · cases rest with
    | nil => rfl
    | cons c rest =>
        rw [List.singleton_append, cutLines.eq_3]
        · rfl
        · rintro _ _ same
          exact other (congrArg List.head? same)
  · simp [cutLines]

/-- A line with its end is cut off, unless a line feed follows that belongs to it. -/
theorem cutLines_append (closed : IsClosed line) (other : rest.head? ≠ some '\n') :
    cutLines (line ++ rest) = line :: cutLines rest := by
  obtain ⟨body, stop, clear, stops, rfl⟩ := closed
  induction body with
  | nil => exact cutLines_stop stops other
  | cons c body ih =>
      obtain ⟨stays, clear⟩ := isOpen_cons.1 clear
      exact cutLines_cons stays (ih clear)

theorem ne_nil_of_isClosed (closed : IsClosed line) : line ≠ [] := by
  obtain ⟨body, stop, _, stops, rfl⟩ := closed
  rw [Ne, List.append_eq_nil_iff, not_and]
  rintro _ rfl
  simp at stops

theorem cutLines_flatten (closed : ∀ line ∈ lines, IsClosed line) (other : ∀ line ∈ lines, line.head? ≠ some '\n') :
    cutLines lines.flatten = lines := by
  induction lines with
  | nil => rfl
  | cons line lines ih =>
      obtain ⟨here, later⟩ := List.forall_mem_cons.1 closed
      obtain ⟨_, later'⟩ := List.forall_mem_cons.1 other
      rw [List.flatten_cons, cutLines_append here, ih later later']
      cases lines with
      | nil => simp
      | cons next lines =>
          obtain ⟨c, cs, rfl⟩ := List.exists_cons_of_ne_nil (ne_nil_of_isClosed (later next List.mem_cons_self))
          exact later' (c :: cs) List.mem_cons_self

theorem isClosed_or_isOpen (listed : line ∈ cutLines rest) : IsClosed line ∨ IsOpen line := by
  fun_induction cutLines rest generalizing line with
  | case1 => cases listed
  | case2 rest ih =>
      rcases List.mem_cons.1 listed with rfl | later
      · exact .inl ⟨[], _, by simp [IsOpen], by simp, rfl⟩
      · exact ih later
  | case3 c rest _ ends ih =>
      rcases List.mem_cons.1 listed with rfl | later
      · refine .inl ⟨[], [c], by simp [IsOpen], ?_, rfl⟩
        simpa using ends
      · exact ih later
  | case4 c rest _ goes _ _ =>
      rw [List.mem_singleton.1 listed]
      exact .inr (isOpen_cons.2 ⟨by simpa using goes, by simp [IsOpen]⟩)
  | case5 c rest _ goes first lines found ih =>
      rcases List.mem_cons.1 listed with rfl | later
      · have stays : c ≠ '\n' ∧ c ≠ '\r' := by simpa using goes
        rcases ih (found ▸ List.mem_cons_self) with ⟨body, stop, clear, stops, rfl⟩ | clear
        · exact .inl ⟨c :: body, stop, isOpen_cons.2 ⟨stays, clear⟩, stops, rfl⟩
        · exact .inr (isOpen_cons.2 ⟨stays, clear⟩)
      · exact ih (found ▸ List.mem_cons_of_mem _ later)

theorem isClosed_cons {c : Char} (stays : c ≠ '\n' ∧ c ≠ '\r') (closed : IsClosed line) : IsClosed (c :: line) := by
  obtain ⟨body, stop, clear, stops, rfl⟩ := closed
  exact ⟨c :: body, stop, isOpen_cons.2 ⟨stays, clear⟩, stops, rfl⟩

theorem isClosed_of_isOpen (clear : IsOpen line) : IsClosed (line ++ ['\n']) :=
  ⟨line, ['\n'], clear, List.mem_cons_self, rfl⟩

end Text

/-! Reading and replaying. -/

namespace Unified

/-- Marked lines up to the first header, and the hunks from there on. -/
def gather? : List Line → Option (List (Action × Line) × List Hunk)
  | [] => some ([], [])
  | line :: lines => do
      let (marked, hunks) ← gather? lines
      match ranges? line with
      | some (old, new) => some ([], ⟨old.1, new.1, marked⟩ :: hunks)
      | none => entry? line |>.map fun entry => (entry :: marked, hunks)

/-- The hunks of a file, from its text. Nothing is taken from their headers but where they begin. -/
def hunks? (path text : String) : Option (List Hunk) :=
  if text = "" then some []
  else
    match (after? (FileChange.fileHeader path).toList text.toList).bind fun cs => gather? (joinEnds (Text.cutLines cs)) with
    | some ([], hunks) => some hunks
    | _ => none

/-- Carry out hunks on the lines of a text that are left, where some of its lines are done. -/
def replay (done : Nat) : List Hunk → List Line → Option (List Line)
  | [], lines => some lines
  | hunk :: hunks, lines =>
      let gap := hunk.old - done
      if done ≤ hunk.old ∧ gap ≤ lines.length then
        match splice hunk.lines (lines.drop gap) with
        | none => none
        | some (made, rest) =>
            (replay (hunk.old + hunk.oldCount) hunks rest).map fun later => lines.take gap ++ made ++ later
      else none

/-- How many lines of hunks are for an action. -/
def countLines (action : Action) (hunks : List Hunk) : Nat := (hunks.flatMap (·.lines)).countP (·.1 = action)

variable {hunks hunks' : List Hunk} {lines result : List Line} {old new : Nat}

/-- What can be carried out in both texts can be replayed on the old one. -/
theorem replay_of_apply (applies : apply old new hunks lines = some result) : replay old hunks lines = some result := by
  induction hunks generalizing old new lines result with
  | nil => exact applies
  | cons hunk hunks ih =>
      rw [apply] at applies
      split at applies
      · rename_i fits
        rw [replay]
        rw [if_pos ⟨fits.1, fits.2.2⟩]
        cases spliced : splice hunk.lines (lines.drop (hunk.old - old)) with
        | none =>
            rw [spliced] at applies
            cases applies
        | some parts =>
            rw [spliced] at applies
            obtain ⟨later, found, rfl⟩ := Option.map_eq_some_iff.1 applies
            exact congrArg (Option.map _) (ih found)
      · cases applies

/-- Hunks are replayed by where they begin and by their lines. -/
theorem replay_congr
    (same : List.Forall₂ (fun hunk hunk' : Hunk => hunk.old = hunk'.old ∧ hunk.lines = hunk'.lines) hunks hunks') :
    replay old hunks lines = replay old hunks' lines := by
  induction same generalizing old lines with
  | nil => rfl
  | cons head _ ih =>
      obtain ⟨start, marked⟩ := head
      rw [replay, replay, Hunk.oldCount, Hunk.oldCount, start, marked]
      simp only [ih]

theorem ranges?_markedLine (entry : Action × Line) : ranges? (markedLine entry) = none := by
  obtain ⟨action, line⟩ := entry
  cases action <;> rfl

theorem shows_shut (line : Line) : shut line = [line] ∨ shut line = [line ++ ['\n'], endMark] := by
  unfold shut
  split
  · exact .inl rfl
  · exact .inr rfl

theorem shut_of_isClosed {line : Line} (closed : Text.IsClosed line) : shut line = [line] := by
  obtain ⟨body, stop, _, stops, rfl⟩ := closed
  simp only [List.mem_cons, List.not_mem_nil, or_false] at stops
  rcases stops with rfl | rfl | rfl
  · exact if_pos (by simp)
  · exact if_pos (by simp)
  · exact if_pos (by simp)

/-- A line that is cut off when a difference is read, and no part of the line before it. -/
structure Stands (line : Line) : Prop where
  closed : Text.IsClosed line
  other : line.head? ≠ some '\n'

/-- Lines are read back from what is shown of them. -/
theorem joinEnds_cutLines (stands : ∀ line ∈ lines, line.head? ≠ some '\\' ∧ ∀ part ∈ shut line, Stands part) :
    joinEnds (Text.cutLines (lines.flatMap shut).flatten) = lines := by
  have parts : ∀ part ∈ lines.flatMap shut, Stands part := by
    intro part listed
    obtain ⟨line, member, inside⟩ := List.mem_flatMap.1 listed
    exact (stands line member).2 part inside
  have cut : Text.cutLines (lines.flatMap shut).flatten = lines.flatMap shut :=
    Text.cutLines_flatten (fun part listed => (parts part listed).closed) fun part listed => (parts part listed).other
  rw [cut, joinEnds_flatMap (fun line listed => (stands line listed).1) shows_shut]

theorem stands_of_mem_shut {c : Char} {line part : Line} (other : c ≠ '\n')
    (cut : Text.IsClosed (c :: line) ∨ Text.IsOpen (c :: line)) (listed : part ∈ shut (c :: line)) : Stands part := by
  rcases cut with closed | clear
  · rw [shut_of_isClosed closed, List.mem_singleton] at listed
    subst listed
    exact ⟨closed, by simpa using other⟩
  · rcases shows_shut (c :: line) with same | same
    · rw [same, List.mem_singleton] at listed
      subst listed
      have ends : shut (c :: line) ≠ [c :: line] := by
        refine (if_neg ?_).trans_ne (by simp)
        rintro (last | last)
        · exact clear.1 (List.mem_of_getLast? last)
        · exact clear.2 (List.mem_of_getLast? last)
      exact absurd same ends
    · rw [same, List.mem_cons, List.mem_singleton] at listed
      rcases listed with rfl | rfl
      · exact ⟨Text.isClosed_of_isOpen clear, by simpa using other⟩
      · have mark : Text.IsOpen "\\ No newline at end of file".toList := ⟨by decide, by decide⟩
        exact ⟨Text.isClosed_of_isOpen mark, by decide⟩

theorem gather?_marked (marked : List (Action × Line)) (lines : List Line) :
    gather? (marked.map markedLine ++ lines) = (gather? lines).map fun rest => (marked ++ rest.1, rest.2) := by
  induction marked with
  | nil => simp
  | cons entry marked ih =>
      rw [List.map_cons, List.cons_append, gather?, ih]
      cases gather? lines with
      | none => rfl
      | some rest =>
          simp only [Option.map_some, Option.bind_eq_bind, Option.bind_some, ranges?_markedLine, entry?_markedLine]
          rfl

end Unified

namespace Hunk

variable {pair : Pair} {hunk : Hunk} {hunks : List Hunk}

/-- The lines that a hunk is printed as. -/
def shown (pair : Pair) (hunk : Hunk) : List Line := hunk.header.toList :: (unified pair hunk).lines.map Unified.markedLine

theorem exists_header (pair : Pair) (filled : hunk ≠ []) :
    ∃ oldStop newStop, hunk.header = Unified.header (unified pair hunk).old oldStop (unified pair hunk).new newStop := by
  obtain ⟨first, rest, rfl⟩ := List.exists_cons_of_ne_nil filled
  have last := List.getLast?_eq_getLast_of_ne_nil filled
  refine ⟨((first :: rest).getLast filled).oldStop, ((first :: rest).getLast filled).newStop, ?_⟩
  rw [header, last]
  rfl

theorem gather?_shown (filled : ∀ hunk ∈ hunks, hunk ≠ []) :
    Unified.gather? (hunks.flatMap (shown pair)) = some ([], hunks.map (unified pair)) := by
  induction hunks with
  | nil => rfl
  | cons hunk hunks ih =>
      obtain ⟨here, later⟩ := List.forall_mem_cons.1 filled
      obtain ⟨oldStop, newStop, header⟩ := exists_header pair here
      rw [List.flatMap_cons, shown, List.cons_append, Unified.gather?, Unified.gather?_marked, ih later, header]
      simp only [Option.map_some, Option.bind_eq_bind, Option.bind_some, Unified.ranges?_header, List.append_nil]
      rfl

/-! Where hunks begin. -/

/-- Hunks with the same lines that begin at the same place of the old text. -/
structure Level (first second : Hunk) : Prop where
  alike : List.Forall₂ Alike first second
  start : first.head?.map (·.old) = second.head?.map (·.old)

variable {context : Nat} {changes changes' : List Change}

theorem old_lastLines {first second : Change} (context : Nat) (alike : Alike first second) (same : first.old = second.old) :
    (lastLines context first).old = (lastLines context second).old := by
  unfold lastLines
  rw [← alike.kept, ← alike.oldCount]
  split
  · exact congrArg (· + _) same
  · exact same

theorem old_firstLines (change : Change) : (firstLines context change).old = change.old := by
  unfold firstLines
  split
  · rfl
  · rfl

theorem level_trimStart (level : Level changes changes') :
    Level (trimStart context changes) (trimStart context changes') := by
  refine ⟨alike_trimStart level.alike, ?_⟩
  have start := level.start
  cases level.alike with
  | nil => rfl
  | cons head _ => exact congrArg some (old_lastLines context head (Option.some.inj start))

theorem head?_trimEnd (changes : List Change) : (trimEnd context changes).head?.map (·.old) = changes.head?.map (·.old) := by
  fun_cases trimEnd context changes with
  | case1 => rfl
  | case2 change => exact congrArg some (old_firstLines change)
  | case3 change rest _ => rfl

theorem level_trimEnd (level : Level changes changes') : Level (trimEnd context changes) (trimEnd context changes') :=
  ⟨alike_trimEnd level.alike, by rw [head?_trimEnd, head?_trimEnd, level.start]⟩

/-- Only the first part of changes can begin where they do; every other part begins with kept lines. -/
theorem exists_cut (context : Nat) (alike : List.Forall₂ Alike changes changes') :
    ∃ hunk hunks hunk' hunks', cut context changes = hunk :: hunks ∧ cut context changes' = hunk' :: hunks' ∧
      List.Forall₂ Alike hunk hunk' ∧ List.Forall₂ Level hunks hunks' ∧
      hunk.head?.map (·.old) = changes.head?.map (·.old) ∧ hunk'.head?.map (·.old) = changes'.head?.map (·.old) := by
  induction alike with
  | nil => exact ⟨[], [], [], [], rfl, rfl, .nil, .nil, rfl, rfl⟩
  | @cons first second _ _ head _ ih =>
      obtain ⟨hunk, hunks, hunk', hunks', found, found', part, parts, _, _⟩ := ih
      have same : divides context first = divides context second := by
        rw [divides, divides, head.kept, head.oldCount]
      rw [cut, cut, found, found', ← same]
      split
      · rename_i divided
        rw [divides, Bool.and_eq_true, decide_eq_true_eq] at divided
        have start := old_lastLines context head (head.old (by omega))
        exact ⟨_, _, _, _, rfl, rfl, .cons (alike_firstLines head) .nil,
          .cons ⟨.cons (alike_lastLines head) part, congrArg some start⟩ parts,
          congrArg some (old_firstLines first), congrArg some (old_firstLines second)⟩
      · exact ⟨_, _, _, _, rfl, rfl, .cons head part, parts, rfl, rfl⟩

theorem level_ofChanges (level : Level changes changes') :
    List.Forall₂ Level (ofChanges context changes) (ofChanges context changes') := by
  have trimmed : Level (trimEnd context (trimStart context changes)) (trimEnd context (trimStart context changes')) :=
    level_trimEnd (level_trimStart level)
  obtain ⟨hunk, hunks, hunk', hunks', found, found', part, parts, start, start'⟩ := exists_cut context trimmed.alike
  have all : List.Forall₂ Level (hunk :: hunks) (hunk' :: hunks') :=
    .cons ⟨part, start.trans (trimmed.start.trans start'.symm)⟩ parts
  rw [ofChanges, ofChanges, found, found']
  generalize hunk :: hunks = cuts at all ⊢
  generalize hunk' :: hunks' = cuts' at all ⊢
  induction all with
  | nil => exact .nil
  | cons head _ ih =>
      rw [List.filter_cons, List.filter_cons, isIdle_congr head.alike]
      split
      · exact .cons head ih
      · exact ih

theorem entries_congr {first second : Change} (alike : Alike first second) : first.entries pair = second.entries pair := by
  obtain ⟨kept, oldCount, newCount, old, new, _⟩ := alike
  have same {lines : List Line} {start start' count : Nat} (starts : count ≠ 0 → start = start') :
      (lines.drop start).take count = (lines.drop start').take count := by
    by_cases none : count = 0
    · rw [none, List.take_zero, List.take_zero]
    · rw [starts none]
  rw [Change.entries, Change.entries, ← kept, ← oldCount, ← newCount, same old, same new]

theorem flatMap_entries {hunk' : Hunk} (alike : List.Forall₂ Alike hunk hunk') :
    hunk.flatMap (Change.entries pair) = hunk'.flatMap (Change.entries pair) := by
  induction alike with
  | nil => rfl
  | cons head _ ih => rw [List.flatMap_cons, List.flatMap_cons, entries_congr head, ih]

/-! What hunks change. -/

/-- Changes that keep nothing. -/
def changed (changes : List Change) : List Change := changes.filter fun change => !change.kept

theorem changed_cons (change : Change) (rest : List Change) :
    changed (change :: rest) = if change.kept then changed rest else change :: changed rest := by
  unfold changed
  cases kept : change.kept <;> simp [kept]

theorem changed_append (first second : List Change) : changed (first ++ second) = changed first ++ changed second :=
  List.filter_append ..

theorem changed_firstLines (change : Change) (rest : List Change) :
    changed (firstLines context change :: rest) = changed (change :: rest) := by
  by_cases kept : change.kept = true
  · rw [changed_cons, changed_cons, kept_firstLines kept, kept]
    rfl
  · rw [firstLines, if_neg kept]

theorem changed_lastLines (change : Change) (rest : List Change) :
    changed (lastLines context change :: rest) = changed (change :: rest) := by
  by_cases kept : change.kept = true
  · rw [changed_cons, changed_cons, kept_lastLines kept, kept]
    rfl
  · rw [lastLines, if_neg kept]

theorem changed_trimStart (changes : List Change) : changed (trimStart context changes) = changed changes := by
  cases changes with
  | nil => rfl
  | cons change rest => exact changed_lastLines change rest

theorem changed_trimEnd (changes : List Change) : changed (trimEnd context changes) = changed changes := by
  fun_induction trimEnd context changes with
  | case1 => rfl
  | case2 change => exact changed_firstLines change []
  | case3 change rest _ ih => rw [changed_cons, changed_cons, ih]

theorem changed_cut (changes : List Change) : changed (cut context changes).flatten = changed changes := by
  induction changes with
  | nil => rfl
  | cons change rest ih =>
      rw [cut]
      split
      · rename_i divided
        rw [divides, Bool.and_eq_true] at divided
        split
        · rename_i none
          rw [none] at ih
          rw [List.flatten_singleton, changed_firstLines, changed_cons, changed_cons, ← ih]
          rfl
        · rename_i hunk hunks found
          rw [found, List.flatten_cons] at ih
          rw [List.flatten_cons, List.flatten_cons, List.singleton_append, List.cons_append, changed_firstLines,
            changed_cons, changed_lastLines, changed_cons, changed_cons, if_pos divided.1, if_pos divided.1, if_pos divided.1, ih]
      · split
        · rename_i none
          rw [none] at ih
          rw [List.flatten_singleton, changed_cons, changed_cons, ← ih]
          rfl
        · rename_i hunk hunks found
          rw [found, List.flatten_cons] at ih
          rw [List.flatten_cons, List.cons_append, changed_cons, changed_cons, ih]

theorem changed_of_isIdle (idle : isIdle hunk = true) : changed hunk = [] := by
  rw [changed, List.filter_eq_nil_iff]
  intro change listed
  simp [List.all_eq_true.1 idle change listed]

theorem changed_filter (hunks : List Hunk) :
    changed (hunks.filter fun hunk => !hunk.isIdle).flatten = changed hunks.flatten := by
  induction hunks with
  | nil => rfl
  | cons hunk hunks ih =>
      rw [List.filter_cons, List.flatten_cons, changed_append]
      by_cases idle : isIdle hunk = true
      · rw [idle, changed_of_isIdle idle, List.nil_append]
        exact ih
      · rw [if_pos (by simpa using idle), List.flatten_cons, changed_append, ih]

/-- Hunks leave no change out. -/
theorem changed_ofChanges (context : Nat) (changes : List Change) :
    changed (ofChanges context changes).flatten = changed changes := by
  rw [ofChanges, changed_filter, changed_cut, changed_trimEnd, changed_trimStart]

/-! Lines of changes. -/

/-- Whether the lines of a change are lines of the texts. -/
def Fits (pair : Pair) (change : Change) : Prop :=
  (change.oldCount ≠ 0 → change.old + change.oldCount ≤ pair.old.size) ∧
    (change.newCount ≠ 0 → change.new + change.newCount ≤ pair.new.size)

theorem le_of_moves {p r : Point} (path : Path (Change.Moves pair) p changes r) : p.1 ≤ r.1 ∧ p.2 ≤ r.2 := by
  induction path with
  | nil => exact ⟨Nat.le_refl _, Nat.le_refl _⟩
  | cons move _ ih =>
      rw [move.stop] at ih
      dsimp only at ih
      omega

theorem fits_of_moves {p r : Point} (path : Path (Change.Moves pair) p changes r) (inside : r.1 ≤ pair.old.size)
    (inside' : r.2 ≤ pair.new.size) : ∀ change ∈ changes, Fits pair change := by
  induction path with
  | nil => exact fun _ listed => absurd listed List.not_mem_nil
  | cons move rest ih =>
      refine List.forall_mem_cons.2 ⟨⟨fun filled => ?_, fun filled => ?_⟩, ih inside inside'⟩
      · have before := (le_of_moves rest).1
        rw [move.stop] at before
        dsimp only at before
        have start := move.old filled
        omega
      · have before := (le_of_moves rest).2
        rw [move.stop] at before
        dsimp only at before
        have start := move.new filled
        omega

theorem length_take_drop {lines : List Line} {start count : Nat} (fits : count ≠ 0 → start + count ≤ lines.length) :
    ((lines.drop start).take count).length = count := by
  rw [List.length_take, List.length_drop]
  omega

theorem countP_marked (action other : Action) (lines : List Line) :
    (lines.map (action, ·)).countP (·.1 = other) = if action = other then lines.length else 0 := by
  rw [List.countP_map]
  split
  · rename_i same
    exact List.countP_eq_length.2 fun line _ => by simp [same]
  · rename_i differs
    exact List.countP_eq_zero.2 fun line _ => by simp [differs]

/-- How many lines changes delete and insert. -/
theorem countP_entries (fits : ∀ change ∈ changed changes, Fits pair change) :
    (changes.flatMap (Change.entries pair)).countP (·.1 = .delete) = total (·.oldCount) (changed changes) ∧
      (changes.flatMap (Change.entries pair)).countP (·.1 = .insert) = total (·.newCount) (changed changes) := by
  induction changes with
  | nil => exact ⟨rfl, rfl⟩
  | cons change rest ih =>
      rw [changed_cons] at fits ⊢
      rw [List.flatMap_cons, List.countP_append, List.countP_append]
      by_cases kept : change.kept = true
      · rw [if_pos kept] at fits ⊢
        obtain ⟨gone, made⟩ := ih fits
        rw [Change.entries, if_pos kept, countP_marked, countP_marked, if_neg (by decide), if_neg (by decide), gone, made]
        exact ⟨Nat.zero_add _, Nat.zero_add _⟩
      · rw [if_neg kept] at fits ⊢
        obtain ⟨⟨old, new⟩, later⟩ := List.forall_mem_cons.1 fits
        obtain ⟨gone, made⟩ := ih later
        rw [Change.entries, if_neg kept, List.countP_append, List.countP_append, countP_marked, countP_marked, countP_marked,
          countP_marked, if_pos rfl, if_neg (by decide), if_neg (by decide), if_pos rfl,
          length_take_drop (by rwa [LineDiff.Pair.length_oldLines]),
          length_take_drop (by rwa [LineDiff.Pair.length_newLines]), gone, made]
        exact ⟨rfl, by rw [total_cons, Nat.zero_add]⟩

/-- What is inserted is more in the new text, and what is deleted less. -/
theorem sum_of_moves {p r : Point} (path : Path (Change.Moves pair) p changes r) :
    r.2 + p.1 + total (·.oldCount) (changed changes) = p.2 + r.1 + total (·.newCount) (changed changes) := by
  induction path with
  | nil p => rfl
  | @cons change rest p q r move _ ih =>
      rw [move.stop] at ih
      rw [changed_cons]
      dsimp only at ih
      split
      · rename_i kept
        have even := (move.kept kept).1
        omega
      · rw [total_cons, total_cons]
        omega

/-! Hunks as text. -/

theorem isClosed_header (old oldStop new newStop : Nat) : Text.IsClosed (Unified.header old oldStop new newStop).toList := by
  have clear (c : Char) (other : c.isDigit = false) (differs : c ∉ ", @-+".toList) :
      c ∉ ("@@ -" ++ stretch old oldStop ++ " +" ++ stretch new newStop ++ " @@").toList := by
    have first := clear_stretch other (fun same => differs (by simp [same])) old oldStop
    have second := clear_stretch other (fun same => differs (by simp [same])) new newStop
    simp only [String.toList_append, List.mem_append, not_or]
    refine ⟨⟨⟨⟨?_, first⟩, ?_⟩, second⟩, ?_⟩
    all_goals exact fun listed => differs (by revert listed; simp; tauto)
  have parts : Unified.header old oldStop new newStop =
      ("@@ -" ++ stretch old oldStop ++ " +" ++ stretch new newStop ++ " @@") ++ "\n" := by
    simp only [Unified.header, String.append_assoc]
    rfl
  rw [parts, String.toList_append]
  exact Text.isClosed_of_isOpen ⟨clear '\n' (by decide) (by decide), clear '\r' (by decide) (by decide)⟩

theorem head?_header (old oldStop new newStop : Nat) : (Unified.header old oldStop new newStop).toList.head? = some '@' := by
  simp [Unified.header]

theorem toList_render_shown (filled : hunk ≠ []) :
    (render pair hunk).toList = ((shown pair hunk).flatMap Unified.shut).flatten := by
  obtain ⟨oldStop, newStop, same⟩ := exists_header pair filled
  have header : Unified.shut hunk.header.toList = [hunk.header.toList] := by
    rw [same]
    exact Unified.shut_of_isClosed (isClosed_header _ _ _ _)
  have lines : (hunk.flatMap (changeLines pair)).flatMap String.toList =
      (((unified pair hunk).lines.map Unified.markedLine).flatMap Unified.shut).flatten := by
    rw [Unified.flatten_flatMap, List.flatMap_map, unified, List.flatMap_assoc, List.flatMap_assoc]
    exact List.flatMap_congr fun change _ => toList_changeLines pair change
  rw [render, String.toList_append, String.toList_join, lines, shown, List.flatMap_cons, header,
    List.singleton_append, List.flatten_cons]

theorem toList_renders_shown (filled : ∀ hunk ∈ hunks, hunk ≠ []) :
    (String.join (hunks.map (render pair))).toList = ((hunks.flatMap (shown pair)).flatMap Unified.shut).flatten := by
  rw [String.toList_join, List.flatMap_map]
  induction hunks with
  | nil => rfl
  | cons hunk hunks ih =>
      obtain ⟨here, later⟩ := List.forall_mem_cons.1 filled
      rw [List.flatMap_cons, List.flatMap_cons, List.flatMap_append, List.flatten_append, toList_render_shown here, ih later]

/-- What a difference shows is cut where it is printed. -/
theorem stands_of_mem_shown (old : ∀ line ∈ pair.oldLines, Text.IsClosed line ∨ Text.IsOpen line)
    (new : ∀ line ∈ pair.newLines, Text.IsClosed line ∨ Text.IsOpen line) (filled : hunk ≠ []) {line : Line}
    (listed : line ∈ shown pair hunk) : line.head? ≠ some '\\' ∧ ∀ part ∈ Unified.shut line, Unified.Stands part := by
  rcases List.mem_cons.1 listed with rfl | marked
  · obtain ⟨oldStop, newStop, same⟩ := exists_header pair filled
    have closed := isClosed_header (unified pair hunk).old oldStop (unified pair hunk).new newStop
    have head := head?_header (unified pair hunk).old oldStop (unified pair hunk).new newStop
    rw [← same] at closed head
    rw [Unified.shut_of_isClosed closed, List.forall_mem_singleton, head]
    exact ⟨by decide, closed, by rw [head]; decide⟩
  · obtain ⟨entry, member, rfl⟩ := List.mem_map.1 marked
    obtain ⟨change, _, inside⟩ := List.mem_flatMap.1 member
    have stays : Unified.mark entry.1 ≠ '\n' ∧ Unified.mark entry.1 ≠ '\r' := by cases entry.1 <;> decide
    have cut : Text.IsClosed entry.2 ∨ Text.IsOpen entry.2 := (mem_of_mem_entries inside).elim (old _) (new _)
    refine ⟨?_, fun part shut => Unified.stands_of_mem_shut stays.1 ?_ shut⟩
    · simpa [Unified.markedLine] using Unified.mark_ne entry.1
    · exact cut.imp (Text.isClosed_cons stays) fun clear => Text.isOpen_cons.2 ⟨stays, clear⟩

end Hunk

namespace FileChange

variable {context : Nat} {change : FileChange}

theorem cutLines_old (change : FileChange) : change.pair.oldLines = Text.cutLines change.old.toList := by
  simp [pair, LineDiff.Pair.oldLines, LineDiff.Pair.ofTexts, Text.lines]

theorem cutLines_new (change : FileChange) : change.pair.newLines = Text.cutLines change.new.toList := by
  simp [pair, LineDiff.Pair.newLines, LineDiff.Pair.ofTexts, Text.lines]

/-- The hunks of a file as they are read from its text. -/
def readHunks (context : Nat) (change : FileChange) : List Unified.Hunk :=
  (Hunk.ofChanges context change.pair.changes).map (Hunk.unified change.pair)

/-- The text of a file is read as the hunks of its difference. -/
theorem hunks?_text (context : Nat) (change : FileChange) :
    Unified.hunks? change.path (change.diff context).text = some (readHunks context change) := by
  have text : (change.diff context).text =
      if ((Hunk.ofChanges context change.pair.changes).map (Hunk.render change.pair)).isEmpty then ""
      else fileHeader change.path ++
        String.join ((Hunk.ofChanges context change.pair.changes).map (Hunk.render change.pair)) := rfl
  have filled : ∀ hunk ∈ Hunk.ofChanges context change.pair.changes, hunk ≠ [] := fun _ => Hunk.ne_nil_of_mem_ofChanges
  rw [readHunks, text]
  generalize Hunk.ofChanges context change.pair.changes = hunks at filled
  have stands : ∀ line ∈ hunks.flatMap (Hunk.shown change.pair),
      line.head? ≠ some '\\' ∧ ∀ part ∈ Unified.shut line, Unified.Stands part := by
    intro line listed
    obtain ⟨hunk, member, inside⟩ := List.mem_flatMap.1 listed
    refine Hunk.stands_of_mem_shown ?_ ?_ (filled hunk member) inside
    · exact cutLines_old change ▸ fun _ => Text.isClosed_or_isOpen
    · exact cutLines_new change ▸ fun _ => Text.isClosed_or_isOpen
  cases hunks with
  | nil => rfl
  | cons hunk hunks =>
      have some : fileHeader change.path ++ String.join ((hunk :: hunks).map (Hunk.render change.pair)) ≠ "" := by
        simp [fileHeader]
      rw [if_neg (by simp), Unified.hunks?, if_neg some, String.toList_append, Unified.after?_append, Option.bind_some,
        Hunk.toList_renders_shown filled, Unified.joinEnds_cutLines stands, Hunk.gather?_shown filled]

theorem level_changes (pair : Pair) : Hunk.Level pair.changes (Change.place (0, 0) pair.changes) := by
  refine ⟨LineDiff.Change.alike_place (LineDiff.Change.path_changes pair), ?_⟩
  cases changes : pair.changes with
  | nil => rfl
  | cons first rest => exact congrArg some (LineDiff.Change.old_of_head? (by rw [changes]; rfl))

/-- The hunks that are read make the new lines of the old ones. -/
theorem replay_readHunks (context : Nat) (change : FileChange) :
    Unified.replay 0 (readHunks context change) (Text.cutLines change.old.toList) =
      some (Text.cutLines change.new.toList) := by
  have done := Hunk.apply_unified (lies_placed context change) rfl (fun _ listed => Hunk.ne_nil_of_mem_ofChanges listed)
    (Nat.le_refl 0) rfl (fun i bound => absurd bound (Nat.not_lt_zero i))
  rw [List.drop_zero, List.drop_zero, cutLines_old, cutLines_new] at done
  rw [← Unified.replay_of_apply done]
  refine Unified.replay_congr (List.forall₂_map_left_iff.2 (List.forall₂_map_right_iff.2 ?_))
  refine (Hunk.level_ofChanges (level_changes change.pair)).imp fun hunk hunk' level => ⟨?_, ?_⟩
  · exact congrArg (·.getD 0) level.start
  · exact Hunk.flatMap_entries level.alike

/-- The lines of the text of a file, hunk by hunk, are what its difference counts. -/
theorem countLines_readHunks (context : Nat) (change : FileChange) :
    Unified.countLines .insert (readHunks context change) = (change.diff context).added ∧
      Unified.countLines .delete (readHunks context change) = (change.diff context).removed := by
  have fits := Hunk.fits_of_moves (LineDiff.Change.path_changes change.pair) (Nat.le_refl _) (Nat.le_refl _)
  have changed := Hunk.changed_ofChanges context change.pair.changes
  have counts := Hunk.countP_entries fun change listed => fits change (List.mem_filter.1 (changed ▸ listed)).1
  have lines : (readHunks context change).flatMap (·.lines) =
      (Hunk.ofChanges context change.pair.changes).flatten.flatMap (Change.entries change.pair) := by
    rw [readHunks, List.flatMap_map, ← List.flatMap_id, List.flatMap_assoc]
    rfl
  rw [changed] at counts
  rw [Unified.countLines, Unified.countLines, lines]
  exact counts.symm

/-- A file has as many lines more as the difference inserts more lines than it deletes. -/
theorem length_cutLines (context : Nat) (change : FileChange) :
    (Text.cutLines change.new.toList).length + (change.diff context).removed =
      (Text.cutLines change.old.toList).length + (change.diff context).added := by
  have sum := Hunk.sum_of_moves (LineDiff.Change.path_changes change.pair)
  have old : change.pair.oldLines.length = change.pair.old.size := change.pair.length_oldLines
  have new : change.pair.newLines.length = change.pair.new.size := change.pair.length_newLines
  rw [cutLines_old] at old
  rw [cutLines_new] at new
  rw [Nat.add_zero, Nat.zero_add, ← old, ← new] at sum
  exact sum

end FileChange

/-! Patches. -/

/-- What the difference of a file says of its lines, as they are read from its text. -/
structure FileDiff.Tells (diff : FileDiff) (change : FileChange) : Prop where
  path : diff.path = change.path
  replays : ∃ hunks, Unified.hunks? diff.path diff.text = some hunks ∧
    Unified.replay 0 hunks (Text.cutLines change.old.toList) = some (Text.cutLines change.new.toList) ∧
    Unified.countLines .insert hunks = diff.added ∧ Unified.countLines .delete hunks = diff.removed
  lines : (Text.cutLines change.new.toList).length + diff.removed = (Text.cutLines change.old.toList).length + diff.added

namespace Patch

variable {context : Nat} {changes : List FileChange}

theorem tells_diff (context : Nat) (change : FileChange) : (change.diff context).Tells change := by
  obtain ⟨inserted, deleted⟩ := FileChange.countLines_readHunks context change
  exact ⟨rfl, ⟨_, FileChange.hunks?_text context change, FileChange.replay_readHunks context change, inserted, deleted⟩,
    FileChange.length_cutLines context change⟩

/-- What is read from a patch follows its files. -/
theorem length_lines (context : Nat) (changes : List FileChange) :
    total (fun change => (Text.cutLines change.new.toList).length) changes + (ofChanges context changes).removed =
      total (fun change => (Text.cutLines change.old.toList).length) changes + (ofChanges context changes).added := by
  induction changes with
  | nil => rfl
  | cons change changes ih =>
      have here := FileChange.length_cutLines context change
      have added : (ofChanges context (change :: changes)).added =
          (change.diff context).added + (ofChanges context changes).added := rfl
      have removed : (ofChanges context (change :: changes)).removed =
          (change.diff context).removed + (ofChanges context changes).removed := rfl
      rw [total_cons, total_cons, added, removed]
      omega

theorem size_eq (patch : Patch) : patch.size = total (·.text.utf8ByteSize) patch.files := by
  obtain ⟨files⟩ := patch
  rw [size, text, Text.size]
  induction files with
  | nil => rfl
  | cons file files ih => rw [List.map_cons, String.join_cons, String.utf8ByteSize_append, ih, total_cons]

/-- For all files and any number of kept lines, the hunks that a patch shows make the new lines of each file of its
old lines, and its counts are those of the lines that they insert and delete. -/
theorem tells_ofChanges (context : Nat) (changes : List FileChange) :
    let patch := ofChanges context changes
    List.Forall₂ FileDiff.Tells patch.files changes ∧
      patch.added = total (·.added) patch.files ∧ patch.removed = total (·.removed) patch.files ∧
      total (fun change => (Text.cutLines change.new.toList).length) changes + patch.removed =
        total (fun change => (Text.cutLines change.old.toList).length) changes + patch.added ∧
      patch.text = String.join (patch.files.map (·.text)) ∧ patch.size = patch.text.utf8ByteSize ∧
      patch.size = total (·.text.utf8ByteSize) patch.files := by
  refine ⟨?_, rfl, rfl, length_lines context changes, rfl, rfl, size_eq _⟩
  exact List.forall₂_map_left_iff.2 (List.forall₂_same.2 fun change _ => tells_diff context change)

/-- The header of this hunk has wrong ranges, since its insertion has gone down over a kept line. Its lines are right. -/
example :
    let file := FileChange.diff ⟨"", "a.go", "d\nc\nb\n", "d\nb\nb\n"⟩ 3
    file.text = "--- a/a.go\n+++ b/a.go\n@@ -1,2 +1,3 @@\n d\n-c\n b\n+b\n" ∧
      (Unified.hunks? file.path file.text).bind (Unified.replay 0 · ["d\n".toList, "c\n".toList, "b\n".toList]) =
        some ["d\n".toList, "b\n".toList, "b\n".toList] := by
  decide +kernel

end Patch
end TraceWeave
