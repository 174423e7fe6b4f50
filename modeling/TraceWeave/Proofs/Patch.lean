import TraceWeave.Patch.Basic
import TraceWeave.Proofs.Replay

/-!
Patches read back. The hunks of a difference, with every change where it stands, are what its text says as long
as its headers give their ranges, line feeds alone end lines, and no path has one.
-/
namespace TraceWeave

open LineDiff (Action Change Pair Point Path)
open LineDiff.Change (Runs Alike)
open Unified (Line)

/-! Lines end at line feeds. -/

namespace Text

/-- Whether every carriage return has its line feed. -/
def feedsReturns : List Char → Bool
  | [] => true
  | c :: rest => (c != '\r' || rest.head? == some '\n') && feedsReturns rest

theorem cutLines_eq {cs : List Char} (fed : feedsReturns cs = true) : cutLines cs = Unified.feedLines cs := by
  fun_induction cutLines cs with
  | case1 => rfl
  | case2 rest ih =>
      simp only [feedsReturns, Bool.and_eq_true] at fed
      rw [ih fed.2.2, Unified.feedLines, if_neg (by decide), Unified.feedLines, if_pos rfl]
  | case3 c rest lone ends ih =>
      simp only [feedsReturns, Bool.and_eq_true, Bool.or_eq_true, bne_iff_ne, beq_iff_eq] at fed ends
      have feed : c = '\n' := by
        rcases ends with feed | rfl
        · exact feed
        · obtain ⟨rest', rfl⟩ := List.head?_eq_some_iff.1 (fed.1.resolve_left (absurd rfl))
          exact absurd rfl (lone rest' rfl)
      rw [feed, Unified.feedLines, if_pos rfl, ih fed.2]
  | case4 c rest lone goes empty ih =>
      simp only [feedsReturns, Bool.and_eq_true, Bool.or_eq_true, beq_iff_eq, not_or] at fed goes
      rw [Unified.feedLines, if_neg goes.1, ← ih fed.2, empty]
  | case5 c rest lone goes line lines found ih =>
      simp only [feedsReturns, Bool.and_eq_true, Bool.or_eq_true, beq_iff_eq, not_or] at fed goes
      rw [Unified.feedLines, if_neg goes.1, ← ih fed.2, found]

theorem toList_lines {text : String} (fed : feedsReturns text.toList = true) :
    (lines text).map String.toList = Unified.feedLines text.toList := by
  rw [lines, cutLines_eq fed]
  simp

end Text

namespace Unified

/-- A line that has a line feed only at its end, and no carriage return there. -/
structure IsPlain (line : Line) : Prop where
  clear : '\n' ∉ line.dropLast
  ends : line.getLast? ≠ some '\r'

theorem ne_nil_of_mem_feedLines {cs : List Char} {line : Line} (listed : line ∈ feedLines cs) : line ≠ [] := by
  fun_induction feedLines cs generalizing line with
  | case1 => cases listed
  | case2 rest ih =>
      rcases List.mem_cons.1 listed with rfl | later
      · exact List.cons_ne_nil _ _
      · exact ih later
  | case3 c rest _ _ _ =>
      rw [List.mem_singleton.1 listed]
      exact List.cons_ne_nil _ _
  | case4 c rest _ first lines found ih =>
      rcases List.mem_cons.1 listed with rfl | later
      · exact List.cons_ne_nil _ _
      · exact ih (found ▸ List.mem_cons_of_mem _ later)

theorem isPlain_of_mem_feedLines {cs : List Char} {line : Line} (fed : Text.feedsReturns cs = true)
    (listed : line ∈ feedLines cs) : IsPlain line := by
  fun_induction feedLines cs generalizing line with
  | case1 => cases listed
  | case2 rest ih =>
      rw [Text.feedsReturns, Bool.and_eq_true] at fed
      rcases List.mem_cons.1 listed with rfl | later
      · exact ⟨by simp, by decide⟩
      · exact ih fed.2 later
  | case3 c rest _ empty _ =>
      have none : rest = [] := by rw [← flatten_feedLines rest, empty, List.flatten_nil]
      subst none
      rw [List.mem_singleton.1 listed]
      refine ⟨by simp, ?_⟩
      simpa [Text.feedsReturns] using fed
  | case4 c rest other first lines found ih =>
      rw [Text.feedsReturns, Bool.and_eq_true] at fed
      rw [found] at ih
      rcases List.mem_cons.1 listed with rfl | later
      · have filled : first ≠ [] := ne_nil_of_mem_feedLines (show first ∈ feedLines rest from found ▸ List.mem_cons_self)
        obtain ⟨clear, ends⟩ := ih fed.2 List.mem_cons_self
        refine ⟨?_, ?_⟩
        · rw [List.dropLast_cons_of_ne_nil filled, List.mem_cons, not_or]
          exact ⟨Ne.symm other, clear⟩
        · rwa [List.getLast?_cons_of_ne_nil filled]
      · exact ih fed.2 (List.mem_cons_of_mem _ later)

theorem sound_markedLine {entry : Action × Line} (plain : IsPlain entry.2) : Sound (markedLine entry) := by
  obtain ⟨action, line⟩ := entry
  have differs : mark action ≠ '\n' := by cases action <;> decide
  refine ⟨?_, ?_⟩
  · cases line with
    | nil => simp [markedLine]
    | cons c cs =>
        rw [markedLine, List.dropLast_cons_of_ne_nil (List.cons_ne_nil _ _), List.mem_cons, not_or]
        exact ⟨Ne.symm differs, plain.clear⟩
  · simpa [markedLine] using mark_ne action

end Unified

namespace Hunk

variable {pair : Pair} {p q : Point} {hunk : Hunk}

/-- A marked line, with the line feed that it may lack. -/
theorem toList_markedLine (action : Action) (line : String) :
    (markedLine (Unified.mark action) line).toList = (Unified.shut (Unified.markedLine (action, line.toList))).flatten := by
  have mark : ((Unified.mark action).toString ++ line).toList = Unified.markedLine (action, line.toList) := by
    simp [Unified.markedLine]
  have missing : "\n\\ No newline at end of file\n".toList = '\n' :: Unified.endMark := by decide
  have ended : Text.isEnded line = true ↔ (Unified.markedLine (action, line.toList)).getLast? = some '\n' ∨
      (Unified.markedLine (action, line.toList)).getLast? = some '\r' := by
    unfold Text.isEnded Unified.markedLine
    cases last : line.toList.getLast? with
    | none =>
        have differs : Unified.mark action ≠ '\n' ∧ Unified.mark action ≠ '\r' := by cases action <;> decide
        simp [List.getLast?_eq_none_iff.1 last, differs]
    | some c => simp [List.getLast?_cons, last]
  unfold markedLine Unified.shut
  by_cases ends : Text.isEnded line = true
  · rw [if_pos ends, if_pos (ended.1 ends), mark, List.flatten_singleton]
  · rw [if_neg ends, if_neg fun contrary => ends (ended.2 contrary), String.toList_append, mark, missing]
    simp

theorem flatMap_markedLine (action : Action) (lines : List String) :
    (lines.map (markedLine (Unified.mark action))).flatMap String.toList =
      (((lines.map String.toList).map (action, ·)).flatMap fun entry => (Unified.shut (Unified.markedLine entry)).flatten) := by
  induction lines with
  | nil => rfl
  | cons line lines ih =>
      rw [List.map_cons, List.flatMap_cons, toList_markedLine action line, ih]
      rfl

theorem map_toList_extract (lines : Array String) (start count : Nat) :
    (lines.extract start (start + count)).toList.map String.toList = ((lines.toList.map String.toList).drop start).take count := by
  rw [Array.toList_extract, List.extract_eq_take_drop, Nat.add_sub_cancel_left, List.map_take, List.map_drop]

/-- The lines of a change as they are printed. -/
theorem toList_changeLines (pair : Pair) (change : Change) :
    (changeLines pair change).flatMap String.toList =
      (change.entries pair).flatMap fun entry => (Unified.shut (Unified.markedLine entry)).flatten := by
  have old : (pair.oldLines.drop change.old).take change.oldCount =
      (pair.old.extract change.old change.oldStop).toList.map String.toList := (map_toList_extract _ _ _).symm
  have new : (pair.newLines.drop change.new).take change.newCount =
      (pair.new.extract change.new change.newStop).toList.map String.toList := (map_toList_extract _ _ _).symm
  unfold changeLines Change.entries
  dsimp only
  rw [old, new]
  split
  · exact flatMap_markedLine .keep _
  · rw [List.flatMap_append, List.flatMap_append]
    exact congrArg₂ _ (flatMap_markedLine .delete _) (flatMap_markedLine .insert _)

/-- All lines of both texts end at line feeds. -/
def Plain (pair : Pair) : Prop := (∀ line ∈ pair.oldLines, Unified.IsPlain line) ∧ ∀ line ∈ pair.newLines, Unified.IsPlain line

theorem mem_of_mem_entries {change : Change} {entry : Action × Line} (listed : entry ∈ change.entries pair) :
    entry.2 ∈ pair.oldLines ∨ entry.2 ∈ pair.newLines := by
  have old : ∀ line ∈ (pair.oldLines.drop change.old).take change.oldCount, line ∈ pair.oldLines := fun line member =>
    List.mem_of_mem_drop (List.mem_of_mem_take member)
  have new : ∀ line ∈ (pair.newLines.drop change.new).take change.newCount, line ∈ pair.newLines := fun line member =>
    List.mem_of_mem_drop (List.mem_of_mem_take member)
  unfold Change.entries at listed
  dsimp only at listed
  split at listed
  · obtain ⟨line, member, rfl⟩ := List.mem_map.1 listed
    exact .inl (old line member)
  · rcases List.mem_append.1 listed with gone | made
    · obtain ⟨line, member, rfl⟩ := List.mem_map.1 gone
      exact .inl (old line member)
    · obtain ⟨line, member, rfl⟩ := List.mem_map.1 made
      exact .inr (new line member)

theorem isPlain_of_mem_entries {change : Change} {entry : Action × Line} (plain : Plain pair) (listed : entry ∈ change.entries pair) :
    Unified.IsPlain entry.2 := by
  rcases mem_of_mem_entries listed with old | new
  · exact plain.1 _ old
  · exact plain.2 _ new

/-- Where line feeds end the lines, they alone do. -/
theorem shut_markedLine {entry : Action × Line} (plain : Unified.IsPlain entry.2) :
    Unified.shut (Unified.markedLine entry) = Unified.fed (Unified.markedLine entry) := by
  refine Unified.shut_eq_fed fun last => ?_
  unfold Unified.markedLine at last
  cases final : entry.2.getLast? with
  | none =>
      have differs : Unified.mark entry.1 ≠ '\r' := by cases entry.1 <;> decide
      rw [List.getLast?_eq_none_iff.1 final] at last
      exact differs (Option.some.inj last)
  | some c =>
      rw [List.getLast?_cons, final] at last
      exact plain.ends (final.trans last)

theorem last_stop {last : Change} (path : Path (Runs pair) p hunk q) (found : hunk.getLast? = some last) :
    last.oldStop = q.1 ∧ last.newStop = q.2 := by
  rw [← List.dropLast_append_getLast? last found] at path
  obtain ⟨middle, _, final⟩ := LineDiff.path_append.1 path
  cases final with
  | cons run rest =>
      cases rest
      rw [Change.oldStop, Change.newStop, run.old, run.new, run.stop]
      exact ⟨rfl, rfl⟩

theorem header_eq (path : Path (Runs pair) p hunk q) (filled : hunk ≠ []) :
    hunk.header = Unified.header p.1 q.1 p.2 q.2 := by
  cases path with
  | nil => exact absurd rfl filled
  | @cons first rest _ _ _ run more =>
      have last := List.getLast?_eq_getLast_of_ne_nil filled
      obtain ⟨stop, stop'⟩ := last_stop (.cons run more) last
      rw [header, last]
      dsimp only [List.head?_cons]
      rw [stop, stop', run.old, run.new]
      rfl

theorem clear_stretch {c : Char} (other : c.isDigit = false) (differs : c ≠ ',') (start stop : Nat) :
    c ∉ (stretch start stop).toList := by
  have digits (number : Nat) : c ∉ (toString number).toList := by
    intro member
    have digit := Nat.isDigit_of_mem_toDigits (b := 10) (n := number) (by decide) (by decide) (by simpa using member)
    exact absurd digit (by simp [other])
  have comma (digits : List Char) (clear : c ∉ digits) : c ∉ ',' :: digits := by
    rw [List.mem_cons, not_or]
    exact ⟨differs, clear⟩
  unfold stretch
  split
  · rw [String.toList_append, List.mem_append, not_or]
    exact ⟨digits _, comma ['0'] (by simpa using digits 0)⟩
  · exact digits _
  · rw [String.toList_append, String.toList_append, List.mem_append, List.mem_append, not_or, not_or]
    exact ⟨⟨digits _, comma [] List.not_mem_nil⟩, digits _⟩

end Hunk

namespace Unified

/-- A line that is given its line feed. -/
theorem sound_line {text : String} (clear : '\n' ∉ text.toList) (other : text.toList.head? ≠ some '\\') :
    Sound (text ++ "\n").toList ∧ fed (text ++ "\n").toList = [(text ++ "\n").toList] := by
  have parts : (text ++ "\n").toList = text.toList ++ ['\n'] := by simp
  rw [parts]
  refine ⟨⟨?_, ?_⟩, ?_⟩
  · rwa [List.dropLast_concat]
  · cases first : text.toList with
    | nil => decide
    | cons c cs =>
        rw [first] at other
        exact other
  · rw [fed, if_pos (by simp)]

theorem sound_header (old oldStop new newStop : Nat) :
    Sound (header old oldStop new newStop).toList ∧
      fed (header old oldStop new newStop).toList = [(header old oldStop new newStop).toList] := by
  have parts : header old oldStop new newStop =
      ("@@ -" ++ TraceWeave.Hunk.stretch old oldStop ++ " +" ++ TraceWeave.Hunk.stretch new newStop ++ " @@") ++ "\n" := by
    simp only [header, String.append_assoc]
    rfl
  have first := TraceWeave.Hunk.clear_stretch (show '\n'.isDigit = false by decide) (by decide) old oldStop
  have second := TraceWeave.Hunk.clear_stretch (show '\n'.isDigit = false by decide) (by decide) new newStop
  rw [parts]
  apply sound_line
  · simp [first, second]
  · simp

theorem flatten_flatMap (shown : Line → List Line) (lines : List Line) :
    (lines.flatMap shown).flatten = lines.flatMap fun line => (shown line).flatten := by
  induction lines with
  | nil => rfl
  | cons line lines ih => rw [List.flatMap_cons, List.flatMap_cons, List.flatten_append, ih]

end Unified

namespace Hunk

variable {pair : Pair} {p q : Point} {hunk : Hunk} {hunks hunks' : List Hunk}

/-- A hunk is printed line by line. -/
theorem toList_render (plain : Plain pair) (path : Path (Runs pair) p hunk q) (filled : hunk ≠ [])
    (inside : q.1 ≤ pair.old.size) (inside' : q.2 ≤ pair.new.size) :
    (render pair hunk).toList = ((unified pair hunk).print.flatMap Unified.fed).flatten := by
  obtain ⟨start, start'⟩ := unified_start path filled
  obtain ⟨count, count'⟩ := unified_counts path inside inside'
  obtain ⟨_, whole⟩ := Unified.sound_header p.1 q.1 p.2 q.2
  have lines : (hunk.flatMap (changeLines pair)).flatMap String.toList =
      (((unified pair hunk).lines.map Unified.markedLine).flatMap Unified.fed).flatten := by
    rw [Unified.flatten_flatMap, List.flatMap_map, unified, List.flatMap_assoc, List.flatMap_assoc]
    refine List.flatMap_congr fun change _ => (toList_changeLines pair change).trans ?_
    exact List.flatMap_congr fun entry listed => by rw [shut_markedLine (isPlain_of_mem_entries plain listed)]
  rw [render, String.toList_append, header_eq path filled, String.toList_join, lines, Unified.Hunk.print, List.flatMap_cons,
    start, start', count, count', whole, List.singleton_append, List.flatten_cons]

theorem sound_print (plain : Plain pair) (hunk : Hunk) : ∀ line ∈ (unified pair hunk).print, Unified.Sound line := by
  refine List.forall_mem_cons.2 ⟨(Unified.sound_header _ _ _ _).1, fun line listed => ?_⟩
  obtain ⟨entry, member, rfl⟩ := List.mem_map.1 listed
  obtain ⟨change, _, inside⟩ := List.mem_flatMap.1 member
  exact Unified.sound_markedLine (isPlain_of_mem_entries plain inside)

/-- Hunks that lie in both texts are printed line by line. -/
theorem toList_renders {r : Point} (plain : Plain pair) (lies : Lies pair r p hunks) (ends : r = (pair.old.size, pair.new.size))
    (filled : ∀ hunk ∈ hunks, hunk ≠ []) :
    (String.join (hunks.map (render pair))).toList =
      (((hunks.map (unified pair)).flatMap Unified.Hunk.print).flatMap Unified.fed).flatten := by
  induction lies with
  | nil => rfl
  | skip _ _ _ ih => exact ih filled
  | @hunk p q hunk hunks path lies ih =>
      obtain ⟨here, later⟩ := List.forall_mem_cons.1 filled
      obtain ⟨inside, inside'⟩ : q.1 ≤ pair.old.size ∧ q.2 ≤ pair.new.size := by
        have before := lies.le
        rwa [ends] at before
      have rest := ih later
      rw [String.toList_join] at rest ⊢
      rw [List.map_cons, List.flatMap_cons, rest, toList_render plain path here inside inside', List.map_cons, List.flatMap_cons,
        List.flatMap_append, List.flatten_append]

/-! Changes with the same lines are printed the same. -/

theorem extract_congr (lines : Array String) {start start' : Nat} (count : Nat) (same : count ≠ 0 → start = start') :
    lines.extract start (start + count) = lines.extract start' (start' + count) := by
  by_cases none : count = 0
  · rw [none, Nat.add_zero, Nat.add_zero, Array.extract_eq_empty_of_le (by omega), Array.extract_eq_empty_of_le (by omega)]
  · rw [same none]

theorem changeLines_congr {first second : Change} (alike : Alike first second) : changeLines pair first = changeLines pair second := by
  obtain ⟨kept, oldCount, newCount, old, new, _⟩ := alike
  rw [changeLines, changeLines, Change.oldStop, Change.oldStop, Change.newStop, Change.newStop, ← kept, ← oldCount, ← newCount,
    extract_congr pair.old _ old, extract_congr pair.new _ new]

theorem flatMap_changeLines (alike : List.Forall₂ Alike hunk hunk') :
    hunk.flatMap (changeLines pair) = hunk'.flatMap (changeLines pair) := by
  induction alike with
  | nil => rfl
  | cons head _ ih => rw [List.flatMap_cons, List.flatMap_cons, changeLines_congr head, ih]

/-- Where the headers are the same, so are the hunks. -/
theorem render_congr (alike : List.Forall₂ (List.Forall₂ Alike) hunks hunks') (headed : hunks.map header = hunks'.map header) :
    hunks.map (render pair) = hunks'.map (render pair) := by
  induction alike with
  | nil => rfl
  | cons head _ ih =>
      rw [List.map_cons, List.map_cons] at headed ⊢
      obtain ⟨here, later⟩ := List.cons.inj headed
      rw [render, render, here, flatMap_changeLines head, ih later]

end Hunk

/-! Patches of files. -/

namespace FileChange

variable {context : Nat} {change : FileChange}

def pair (change : FileChange) : Pair := Pair.ofTexts change.old change.new

/-- The hunks of a file, with every change where it stands. -/
def placed (context : Nat) (change : FileChange) : List Hunk :=
  Hunk.ofChanges context (Change.place (0, 0) change.pair.changes)

/-- Whether the headers of a file give the lines that its hunks are about. -/
def IsHeaded (context : Nat) (change : FileChange) : Prop :=
  (Hunk.ofChanges context change.pair.changes).map Hunk.header = (placed context change).map Hunk.header

instance (context : Nat) (change : FileChange) : Decidable (IsHeaded context change) :=
  inferInstanceAs (Decidable (_ = _))

/-- Line feeds, alone or after a carriage return, end the lines of a file, and its path has none. -/
structure IsPlain (change : FileChange) : Prop where
  path : '\n' ∉ change.path.toList
  old : Text.feedsReturns change.old.toList = true
  new : Text.feedsReturns change.new.toList = true

instance (change : FileChange) : Decidable change.IsPlain :=
  decidable_of_iff ('\n' ∉ change.path.toList ∧ Text.feedsReturns change.old.toList = true ∧ Text.feedsReturns change.new.toList = true)
    ⟨fun ⟨path, old, new⟩ => ⟨path, old, new⟩, fun ⟨path, old, new⟩ => ⟨path, old, new⟩⟩

/-- The patch of a file as it is read. -/
def unified (context : Nat) (change : FileChange) : Unified.FilePatch :=
  ⟨change.path, (placed context change).map (Hunk.unified change.pair)⟩

theorem lies_placed (context : Nat) (change : FileChange) :
    Hunk.Lies change.pair (change.pair.old.size, change.pair.new.size) (0, 0) (placed context change) :=
  Hunk.lies_ofChanges (LineDiff.Change.path_place (LineDiff.Change.path_changes change.pair))

theorem oldLines_pair (plain : change.IsPlain) : change.pair.oldLines = Unified.feedLines change.old.toList :=
  Text.toList_lines plain.old

theorem newLines_pair (plain : change.IsPlain) : change.pair.newLines = Unified.feedLines change.new.toList :=
  Text.toList_lines plain.new

theorem plain_pair (plain : change.IsPlain) : Hunk.Plain change.pair := by
  refine ⟨fun line listed => ?_, fun line listed => ?_⟩
  · rw [oldLines_pair plain] at listed
    exact Unified.isPlain_of_mem_feedLines plain.old listed
  · rw [newLines_pair plain] at listed
    exact Unified.isPlain_of_mem_feedLines plain.new listed

/-- The hunks of a file make its new text of the old one. -/
theorem applyTo_unified (plain : change.IsPlain) : (unified context change).applyTo change.old = some change.new := by
  have done := Hunk.apply_unified (lies_placed context change) rfl (fun _ listed => Hunk.ne_nil_of_mem_ofChanges listed)
    (Nat.le_refl 0) rfl (fun i bound => absurd bound (Nat.not_lt_zero i))
  rw [List.drop_zero, List.drop_zero, oldLines_pair plain, newLines_pair plain] at done
  rw [Unified.FilePatch.applyTo, unified, done, Option.map_some, Unified.flatten_feedLines, String.ofList_toList]

/-- A file without a difference has no hunks. -/
theorem ofChanges_of_same (same : change.old = change.new) : Hunk.ofChanges context change.pair.changes = [] := by
  refine Hunk.ofChanges_of_kept (LineDiff.Change.kept_changes ?_)
  rw [pair, same]
  rfl

theorem placed_ne_nil (context : Nat) (plain : change.IsPlain) (differs : change.old ≠ change.new) : placed context change ≠ [] := by
  intro none
  have done : (unified context change).applyTo change.old = some change.new := applyTo_unified plain
  rw [unified, none, List.map_nil, Unified.FilePatch.applyTo, Unified.apply, Option.map_some, Unified.flatten_feedLines,
    String.ofList_toList] at done
  exact differs (Option.some.inj done)

theorem text_of_same (same : change.old = change.new) : (change.diff context).text = "" := by
  have none : Hunk.ofChanges context (Pair.ofTexts change.old change.new).changes = [] := ofChanges_of_same same
  rw [diff, none]
  rfl

theorem sound_name {start : String} (plain : change.IsPlain) (named : start = "--- a/" ∨ start = "+++ b/") :
    Unified.Sound (start ++ change.path ++ "\n").toList ∧
      Unified.fed (start ++ change.path ++ "\n").toList = [(start ++ change.path ++ "\n").toList] := by
  rcases named with rfl | rfl
  · exact Unified.sound_line (by simp [plain.path]) (by simp)
  · exact Unified.sound_line (by simp [plain.path]) (by simp)

/-- A changed file is printed line by line. -/
theorem toList_text (plain : change.IsPlain) (headed : change.IsHeaded context) (differs : change.old ≠ change.new) :
    (change.diff context).text.toList = ((unified context change).print.flatMap Unified.fed).flatten := by
  have renders : (Hunk.ofChanges context change.pair.changes).map (Hunk.render change.pair) =
      (placed context change).map (Hunk.render change.pair) :=
    Hunk.render_congr (Hunk.alike_ofChanges (LineDiff.Change.alike_place (LineDiff.Change.path_changes change.pair))) headed
  have filled : ((placed context change).map (Hunk.render change.pair)).isEmpty = false := by
    simpa using placed_ne_nil context plain differs
  have text : (change.diff context).text =
      fileHeader change.path ++ String.join ((placed context change).map (Hunk.render change.pair)) := by
    change (if ((Hunk.ofChanges context change.pair.changes).map (Hunk.render change.pair)).isEmpty = true then ""
      else fileHeader change.path ++ String.join ((Hunk.ofChanges context change.pair.changes).map (Hunk.render change.pair))) = _
    rw [renders, filled]
    rfl
  have hunks := Hunk.toList_renders (plain_pair plain) (lies_placed context change) rfl
    (fun _ listed => Hunk.ne_nil_of_mem_ofChanges listed)
  have names : (fileHeader change.path).toList =
      ("--- a/" ++ change.path ++ "\n").toList ++ ("+++ b/" ++ change.path ++ "\n").toList := by
    simp [fileHeader]
  rw [text, String.toList_append, names, hunks, unified, Unified.FilePatch.print, List.flatMap_cons, List.flatMap_cons,
    (sound_name plain (.inl rfl)).2, (sound_name plain (.inr rfl)).2]
  simp

theorem sound_print (plain : change.IsPlain) : ∀ line ∈ (unified context change).print, Unified.Sound line := by
  refine List.forall_mem_cons.2 ⟨(sound_name plain (.inl rfl)).1, List.forall_mem_cons.2 ⟨(sound_name plain (.inr rfl)).1, ?_⟩⟩
  intro line listed
  obtain ⟨hunk, member, inside⟩ := List.mem_flatMap.1 listed
  obtain ⟨hunk, _, rfl⟩ := List.mem_map.1 member
  exact Hunk.sound_print (plain_pair plain) hunk line inside

end FileChange

namespace Patch

variable {context : Nat} {changes : List FileChange}

/-- A patch is what its changed files print. -/
theorem toList_text (plain : ∀ change ∈ changes, change.old ≠ change.new → change.IsPlain)
    (headed : ∀ change ∈ changes, change.IsHeaded context) :
    (ofChanges context changes).text.toList =
      ((((changes.filter fun change => change.old ≠ change.new).map (FileChange.unified context)).flatMap
        Unified.FilePatch.print).flatMap Unified.fed).flatten := by
  rw [text, String.toList_join, ofChanges, List.map_map]
  induction changes with
  | nil => rfl
  | cons change changes ih =>
      obtain ⟨here, later⟩ := List.forall_mem_cons.1 plain
      obtain ⟨here', later'⟩ := List.forall_mem_cons.1 headed
      rw [List.map_cons, List.flatMap_cons, ih later later', List.filter_cons]
      by_cases same : change.old = change.new
      · rw [if_neg (by simpa using same), Function.comp_apply, FileChange.text_of_same same]
        rfl
      · rw [if_pos (by simpa using same), Function.comp_apply, FileChange.toList_text (here same) here' same, List.map_cons,
          List.flatMap_cons, List.flatMap_append, List.flatten_append]

/-- A patch is read as one with the changed files alone, in order, each of which makes the new text of the old one. -/
theorem ofText?_text (plain : ∀ change ∈ changes, change.old ≠ change.new → change.IsPlain)
    (headed : ∀ change ∈ changes, change.IsHeaded context) :
    ∃ files, Unified.ofText? (ofChanges context changes).text = some files ∧
      List.Forall₂ (fun (file : Unified.FilePatch) (change : FileChange) =>
        file.path = change.path ∧ file.applyTo change.old = some change.new)
        files (changes.filter fun change => change.old ≠ change.new) := by
  have changed : ∀ change ∈ changes.filter fun change => change.old ≠ change.new, change.IsPlain := by
    intro change listed
    obtain ⟨member, differs⟩ := List.mem_filter.1 listed
    exact plain change member (by simpa using differs)
  refine ⟨_, Unified.ofText?_of_print (toList_text plain headed) ?_, ?_⟩
  · intro line listed
    obtain ⟨file, member, inside⟩ := List.mem_flatMap.1 listed
    obtain ⟨change, kept, rfl⟩ := List.mem_map.1 member
    exact FileChange.sound_print (changed change kept) line inside
  · refine List.forall₂_map_left_iff.2 (List.forall₂_same.2 fun change listed => ?_)
    exact ⟨rfl, FileChange.applyTo_unified (changed change listed)⟩

/-- A file that gets its last line feed, one that stays, and a new one. -/
def editedFiles : List FileChange :=
  [⟨"app", "main.go", "a\nb\nc\nd\ne\nf\ng", "a\nb\nx\nd\ne\nf\ng\n"⟩, ⟨"app", "same.go", "a\rb\n", "a\rb\n"⟩,
    ⟨"app/web", "web/web.go", "", "p\r\nq\n"⟩]

theorem ofText?_text_editedFiles : (∀ change ∈ editedFiles, change.old ≠ change.new → change.IsPlain) ∧
    (∀ change ∈ editedFiles, change.IsHeaded 1) ∧
    ∃ files, Unified.ofText? (ofChanges 1 editedFiles).text = some files ∧
      List.Forall₂ (fun (file : Unified.FilePatch) (change : FileChange) =>
        file.path = change.path ∧ file.applyTo change.old = some change.new)
        files (editedFiles.filter fun change => change.old ≠ change.new) := by
  have plain : ∀ change ∈ editedFiles, change.old ≠ change.new → change.IsPlain := by decide
  have headed : ∀ change ∈ editedFiles, change.IsHeaded 1 := by decide +kernel
  exact ⟨plain, headed, ofText?_text plain headed⟩

/-- An inserted line that slides away from a deleted one leaves the header with the range it had before; a lone
carriage return ends a line of the text and no line of the patch. Neither patch can be read. -/
theorem slidInsertion_isMisread :
    Unified.ofText? (ofChanges 3 [⟨"", "a.go", "d\nc\nb\n", "d\nb\nb\n"⟩]).text = none ∧
      Unified.ofText? (ofChanges 3 [⟨"", "a.go", "a\rb\n", "a\rc\n"⟩]).text = none := by
  refine ⟨Option.isNone_iff_eq_none.1 ?_, Option.isNone_iff_eq_none.1 ?_⟩
  · decide +kernel
  · decide +kernel

end Patch
end TraceWeave
