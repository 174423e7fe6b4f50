import Mathlib.Data.List.Sort
import Mathlib.Data.List.SplitBy
import Mathlib.Data.String.Basic
import TraceWeave.Proofs.Ink
import TraceWeave.Weave.ImportEdit

/-!
Groups of imports. A group is a run of imports without an empty line between them. New paths are merged into the group
of their kind: what was in order stays in order, nothing is lost, and the groups stay apart.
-/
namespace TraceWeave

open Go (Node)

/-! Empty lines. -/

namespace Text

variable {a b : String} {cs : List Char}

theorem occursIn_iff {part : List Char} : occursIn part cs = true ↔ part <:+: cs := by
  induction cs with
  | nil => rw [occursIn, List.isEmpty_iff, List.infix_nil]
  | cons c cs ih => rw [occursIn, Bool.or_eq_true, List.isPrefixOf_iff_prefix, ih, List.infix_cons_iff]

/-- Whether a text has an empty line. -/
abbrev hasGap (s : String) : Bool := contains s "\n\n"

theorem hasGap_iff : hasGap a = true ↔ ∃ early late, a.toList = early ++ '\n' :: '\n' :: late := by
  rw [hasGap, contains, occursIn_iff]
  constructor
  · rintro ⟨early, late, same⟩
    exact ⟨early, late, by rw [← same, List.append_assoc]; rfl⟩
  · rintro ⟨early, late, same⟩
    exact ⟨early, late, by rw [same, List.append_assoc]; rfl⟩

/-- No line feed. -/
def IsLine (s : String) : Prop := ∀ c ∈ s.toList, c ≠ '\n'

/-- What stands on one line does not end an empty line. -/
theorem hasGap_append_line (line : IsLine b) : hasGap (a ++ b) = hasGap a := by
  rw [Bool.eq_iff_iff, hasGap_iff, hasGap_iff, String.toList_append]
  constructor
  · rintro ⟨early, late, same⟩
    rcases List.append_eq_append_iff.1 same with ⟨more, _, inside⟩ | ⟨more, whole, inside⟩
    · exact absurd rfl (line '\n' (by rw [inside]; simp))
    · rcases more with _ | ⟨first, _ | ⟨second, more⟩⟩
      · exact absurd rfl (line '\n' (by rw [show b.toList = _ from inside.symm]; simp))
      · obtain ⟨_, inside⟩ := List.cons.inj inside
        exact absurd rfl (line '\n' (by rw [show b.toList = _ from inside.symm]; simp))
      · obtain ⟨begins, inside⟩ := List.cons.inj inside
        rw [← begins, ← (List.cons.inj inside).1] at whole
        exact ⟨early, more, whole⟩
  · rintro ⟨early, late, same⟩
    exact ⟨early, late ++ b.toList, by rw [same]; simp⟩

theorem hasGap_line_append (line : IsLine a) : hasGap (a ++ b) = hasGap b := by
  rw [Bool.eq_iff_iff, hasGap_iff, hasGap_iff, String.toList_append]
  constructor
  · rintro ⟨early, late, same⟩
    rcases List.append_eq_append_iff.1 same with ⟨more, _, inside⟩ | ⟨more, whole, inside⟩
    · exact ⟨more, late, inside⟩
    · cases more with
      | nil => exact ⟨[], late, inside.symm⟩
      | cons first more =>
          obtain ⟨rfl, _⟩ := List.cons.inj inside
          exact absurd rfl (line '\n' (by rw [whole]; simp))
  · rintro ⟨early, late, same⟩
    exact ⟨a.toList ++ early, late, by rw [same]; simp⟩

end Text

namespace ImportEdit

variable {source : String} {specs : List Node} {spec : Node} {groups : List (List Node)}

/-! Groups. -/

/-- Runs of imports that are joined, and apart from each other. -/
structure Grouped (source : String) (specs : List Node) (groups : List (List Node)) : Prop where
  flatten : specs = groups.flatten
  filled : [] ∉ groups
  joined : ∀ group ∈ groups, group.IsChain fun a b => joins source a b = true
  apart : groups.IsChain fun a b => ∃ ha hb, joins source (a.getLast ha) (b.head hb) = false

theorem Grouped.add (grouped : Grouped source specs groups) (spec : Node) :
    Grouped source (specs ++ [spec]) (addToGroups source groups spec) := by
  obtain ⟨flatten, filled, joined, apart⟩ := grouped
  rcases List.eq_nil_or_concat' groups with rfl | ⟨others, last, rfl⟩
  · exact ⟨by simp [flatten, addToGroups], by simp [addToGroups], by simp [addToGroups], by simp [addToGroups]⟩
  rw [List.mem_append, List.mem_singleton, not_or] at filled
  have full : last ≠ [] := fun none => filled.2 none.symm
  rw [List.forall_mem_append, List.forall_mem_singleton] at joined
  obtain ⟨before, -, follows⟩ := List.isChain_append.1 apart
  have previous : (others ++ [last]).getLast?.bind List.getLast? = some (last.getLast full) := by
    rw [List.getLast?_concat, Option.bind_some, List.getLast?_eq_some_getLast full]
  unfold addToGroups
  rw [previous]
  dsimp only
  split
  · rename_i same
    rw [List.dropLast_concat, List.getLast?_concat, Option.getD_some]
    refine ⟨by simp [flatten], by simp [filled.1], ?_, ?_⟩
    · refine List.forall_mem_append.2 ⟨joined.1, List.forall_mem_singleton.2 ?_⟩
      refine List.isChain_append.2 ⟨joined.2, .singleton _, fun a last' b head => ?_⟩
      rw [List.getLast?_eq_some_getLast full, Option.mem_some_iff] at last'
      rw [List.head?_cons, Option.mem_some_iff] at head
      exact last' ▸ head ▸ same
    · refine List.isChain_append.2 ⟨before, .singleton _, fun a last' b head => ?_⟩
      rw [List.head?_cons, Option.mem_some_iff] at head
      obtain ⟨ha, _, away⟩ := follows a last' last (by simp)
      subst head
      refine ⟨ha, by simp, ?_⟩
      rwa [List.head_append_of_ne_nil full]
  · rename_i away
    refine ⟨by simp [flatten], by simp [filled.1, full.symm], ?_, ?_⟩
    · refine List.forall_mem_append.2 ⟨List.forall_mem_append.2 ⟨joined.1, List.forall_mem_singleton.2 joined.2⟩, ?_⟩
      exact List.forall_mem_singleton.2 (.singleton _)
    · refine List.isChain_append.2 ⟨apart, .singleton _, fun a last' b head => ?_⟩
      rw [List.getLast?_concat, Option.mem_some_iff] at last'
      rw [List.head?_cons, Option.mem_some_iff] at head
      subst last' head
      exact ⟨full, by simp, by simpa using away⟩

theorem groups_eq_splitBy (source : String) (specs : List Node) :
    ImportEdit.groups source specs = specs.splitBy (joins source) := by
  have grouped : Grouped source specs (ImportEdit.groups source specs) := by
    induction specs using List.reverseRec with
    | nil => exact ⟨rfl, by simp [ImportEdit.groups], by simp [ImportEdit.groups], .nil⟩
    | append_singleton specs spec ih =>
        have next := ih.add spec
        rwa [ImportEdit.groups, List.foldl_append]
  exact (List.splitBy_eq_iff.2 ⟨grouped.flatten, grouped.filled, grouped.joined, grouped.apart⟩).symm

/-- A group is headed by an import of the same kind as a path. -/
def IsAlike (source : String) (group : List Node) (path : String) : Prop :=
  ∃ spec, group.head? = some spec ∧ isStandard (specPath source spec) = isStandard path

/-- The group a path goes to: the first of its kind, or else the last. -/
inductive GoesTo (source : String) (groups : List (List Node)) (path : String) (group : List Node) : Prop
  | alike (before after : List (List Node)) (split : groups = before ++ group :: after)
      (alike : IsAlike source group path) (first : ∀ other ∈ before, ¬ IsAlike source other path)
  | last (unlike : ∀ other ∈ groups, ¬ IsAlike source other path) (last : groups.getLast? = some group)

theorem isAlike_iff {group : List Node} {path : String} : IsAlike source group path ↔
    group.head?.any (fun spec => isStandard (specPath source spec) == isStandard path) = true := by
  rw [Option.any_eq_true]
  simp only [beq_iff_eq]
  rfl

theorem goesTo_iff {group : List Node} {path : String} (some : groups ≠ []) :
    GoesTo source groups path group ↔ groupFor source groups path = group := by
  constructor
  · rintro (⟨before, after, split, alike, first⟩ | ⟨unlike, last⟩)
    · have found : groups.find? (fun group => group.head?.any fun spec =>
          isStandard (specPath source spec) == isStandard path) = .some group := by
        refine List.find?_eq_some_iff_append.2 ⟨isAlike_iff.1 alike, before, after, split, fun other listed => ?_⟩
        rw [Bool.not_eq_true']
        exact Bool.eq_false_iff.2 (isAlike_iff.not.1 (first other listed))
      rw [groupFor, found]
    · have none : groups.find? (fun group => group.head?.any fun spec =>
          isStandard (specPath source spec) == isStandard path) = .none :=
        List.find?_eq_none.2 fun other listed => isAlike_iff.not.1 (unlike other listed)
      rw [groupFor, none, last]
      rfl
  · rintro rfl
    unfold groupFor
    split
    · rename_i group found
      obtain ⟨alike, before, after, split, first⟩ := List.find?_eq_some_iff_append.1 found
      refine .alike before after split (isAlike_iff.2 alike) fun other listed contrary => ?_
      have unlike := first other listed
      rw [isAlike_iff.1 contrary] at unlike
      cases unlike
    · rename_i none
      refine .last (fun other listed => isAlike_iff.not.2 (List.find?_eq_none.1 none other listed)) ?_
      rw [List.getLast?_eq_some_getLast some, Option.getD_some]

theorem groupFor_mem (source : String) (some : groups ≠ []) (path : String) : groupFor source groups path ∈ groups := by
  have goes : GoesTo source groups path (groupFor source groups path) := (goesTo_iff some).2 rfl
  rcases goes with ⟨before, after, split, _, _⟩ | ⟨_, last⟩
  · exact List.IsSuffix.subset ⟨before, split.symm⟩ List.mem_cons_self
  · exact List.mem_of_getLast? last

/-! Imports of a block and new ones. -/

/-- An import that stands in a block, or a new one at an offset. -/
inductive Slot where
  | kept (spec : Node)
  | added (path : String) (offset : Nat)

/-- The line behind an import. -/
def below (source : String) (spec : Node) : Nat := Text.lineEnd source spec.stop + 1

namespace Slot

def path (source : String) : Slot → String
  | kept spec => specPath source spec
  | added path _ => path

def kept? : Slot → Option Node
  | kept spec => some spec
  | added _ _ => none

/-- A new import and where it is put in. -/
def added? : Slot → Option (Nat × String)
  | kept _ => none
  | added path offset => some (offset, path)

def start : Slot → Nat
  | kept spec => spec.start
  | added _ offset => offset

def stop : Slot → Nat
  | kept spec => spec.stop
  | added _ offset => offset

/-- What is put in before a new import. -/
def indent : Slot → String
  | kept _ => ""
  | added _ _ => "\t"

/-- What is put in behind a new import. -/
def ending : Slot → String
  | kept _ => ""
  | added _ _ => "\n"

/-- An import as it is written. -/
def written (source : String) : Slot → String
  | kept spec => spec.text source
  | added path _ => "\"" ++ path ++ "\""

/-- What stands between two imports in the result. -/
def between (source : String) (a b : Slot) : String := a.ending ++ Text.slice source a.stop b.start ++ b.indent

/-- No empty line stands between two imports in the result. -/
def joins (source : String) (a b : Slot) : Bool := !Text.hasGap (between source a b)

/-- The text from an offset on with imports in their order, and what is still to be put in before it. -/
def result (source : String) : String → Nat → List Slot → String
  | pending, done, [] => pending ++ Text.slice source done (Text.size source)
  | pending, done, slot :: slots =>
      pending ++ Text.slice source done slot.start ++ slot.indent ++ slot.written source ++
        result source slot.ending slot.stop slots

/-- Where the line of an import begins. -/
def front (source : String) : Slot → Nat
  | kept spec => Text.lineStart source spec.start
  | added _ offset => offset

/-- Where the text goes on behind the line of an import. -/
def rear (source : String) : Slot → Nat
  | kept spec => below source spec
  | added _ offset => offset

/-- An import with a line of its own that is not the last one, or an offset for a new one. -/
def Fits (source : String) : Slot → Prop
  | kept spec => Text.isBoundary source spec.start = true ∧ spec.start ≤ spec.stop ∧
      Text.isBoundary source spec.stop = true ∧ Text.lineEnd source spec.stop < Text.size source
  | added _ offset => Text.isBoundary source offset = true

/-- One import stands on an earlier line than another; of two new ones at one offset the lesser path comes first. -/
structure Before (source : String) (a b : Slot) : Prop where
  fits : a.Fits source
  fits' : b.Fits source
  order : a.rear source ≤ b.front source
  rising : ∀ spot spot', a.added? = some spot → b.added? = some spot' → spot.1 = spot'.1 → spot.2 < spot'.2

variable {a b c slot : Slot} {offset : Nat} {path : String}

theorem Fits.front (fits : slot.Fits source) : Text.isBoundary source (slot.front source) = true := by
  cases slot with
  | kept spec => exact Text.isBoundary_lineStart fits.1
  | added => exact fits

theorem Fits.front_le (_fits : slot.Fits source) : slot.front source ≤ slot.start := by
  cases slot with
  | kept spec => exact Text.lineStart_le source spec.start
  | added => exact Nat.le_refl _

/-- The line of an import goes on to a line feed. -/
theorem Fits.exists_feed (fits : (kept spec).Fits source) : ∃ before line rest,
    Text.Cut source spec.stop before (line ++ ['\n'] ++ rest) ∧
      Text.Cut source (below source spec) (before ++ line ++ ['\n']) rest ∧ ∀ c ∈ line, (c != '\n') = true := by
  obtain ⟨_, _, sound, more⟩ := fits
  obtain ⟨before, line, others, cut, cut', clear, last⟩ := Text.exists_restOfLine sound
  obtain ⟨rest, rfl⟩ : ∃ rest, others = '\n' :: rest := by
    refine last.resolve_left fun none => ?_
    have size := cut'.size_source
    rw [none, Text.byteCount_nil] at size
    omega
  have one : Text.byteCount ['\n'] = 1 := by decide
  refine ⟨before, line, rest, by rwa [List.append_assoc], ?_, clear⟩
  rw [below, ← one]
  exact cut'.step

theorem Fits.exists_restOfLine (fits : (kept spec).Fits source) :
    Text.isBoundary source (below source spec) = true ∧ ∃ line, Text.IsLine line ∧
      Text.slice source spec.stop (below source spec) = line ++ "\n" := by
  obtain ⟨before, line, rest, cut, next, clear⟩ := fits.exists_feed
  refine ⟨next.isBoundary, String.ofList line, fun c member => ?_, ?_⟩
  · rw [String.toList_ofList] at member
    simpa using clear c member
  · rw [List.append_assoc] at next
    rw [cut.slice_eq next, String.ofList_append]

theorem Fits.stop_le (fits : slot.Fits source) : slot.stop ≤ slot.rear source := by
  cases slot with
  | kept spec => exact (Text.le_lineEnd source spec.stop).trans (Nat.le_succ _)
  | added => exact Nat.le_refl _

theorem Fits.front_lt (fits : (kept spec).Fits source) : (kept spec).front source < (kept spec).rear source :=
  Nat.lt_succ_of_le ((Fits.front_le fits).trans (fits.2.1.trans (Text.le_lineEnd source spec.stop)))

theorem Fits.front_le_rear (fits : slot.Fits source) : slot.front source ≤ slot.rear source := by
  cases slot with
  | kept spec => exact (Fits.front_lt fits).le
  | added => exact Nat.le_refl _

theorem Before.trans (before : Before source a b) (before' : Before source b c) : Before source a c := by
  have wide := before.fits'.front_le_rear
  have order := before.order
  have order' := before'.order
  refine ⟨before.fits, before'.fits', by omega, fun spot spot' new new' same => ?_⟩
  cases a with
  | kept => cases new
  | added path offset =>
      cases c with
      | kept => cases new'
      | added path' offset' =>
          cases new
          cases new'
          cases b with
          | kept spec =>
              have room := Fits.front_lt before.fits'
              change offset ≤ _ at order
              change _ ≤ offset' at order'
              omega
          | added between offset'' =>
              change offset ≤ offset'' at order
              change offset'' ≤ offset' at order'
              have first := before.rising _ _ rfl rfl (by change offset = offset''; omega)
              have second := before'.rising _ _ rfl rfl (by change offset'' = offset'; omega)
              exact lt_trans first second

instance : Trans (Before source) (Before source) (Before source) := ⟨Before.trans⟩

theorem before_of_lt (fits : a.Fits source) (fits' : b.Fits source) (less : a.rear source < b.front source) :
    Before source a b := by
  refine ⟨fits, fits', less.le, fun spot spot' new new' same => absurd same ?_⟩
  cases a with
  | kept => cases new
  | added =>
      cases b with
      | kept => cases new'
      | added =>
          cases new
          cases new'
          exact less.ne

/-- Only the lines between two imports can be empty. -/
theorem hasGap_between (before : Before source a b) : Text.hasGap (between source a b) =
    Text.hasGap ("\n" ++ Text.slice source (a.rear source) (b.front source)) := by
  obtain ⟨fits, fits', order, _⟩ := before
  -- what precedes the lines between the two
  have early : ∃ line, Text.IsLine line ∧ a.ending ++ Text.slice source a.stop (b.front source) =
      line ++ ("\n" ++ Text.slice source (a.rear source) (b.front source)) := by
    cases a with
    | kept spec =>
        obtain ⟨sound, line, single, rest⟩ := fits.exists_restOfLine
        refine ⟨line, single, ?_⟩
        have parts := Text.slice_append fits.2.2.1 sound fits'.front (Fits.stop_le fits) order
        change "" ++ Text.slice source spec.stop _ = line ++ ("\n" ++ Text.slice source (below source spec) _)
        rw [String.empty_append, ← parts, rest, String.append_assoc]
    | added => exact ⟨"", by simp [Text.IsLine], (String.empty_append).symm⟩
  -- what follows them
  have late : ∃ line, Text.IsLine line ∧ Text.slice source a.stop b.start ++ b.indent =
      Text.slice source a.stop (b.front source) ++ line := by
    cases b with
    | kept spec =>
        obtain ⟨front, line, after, cut, cut', clear, _⟩ := Text.exists_line fits'.1
        have starts : Text.isBoundary source a.stop = true := by
          cases a with
          | kept => exact fits.2.2.1
          | added => exact fits
        refine ⟨Text.slice source (Text.lineStart source spec.start) spec.start, fun c member => ?_, ?_⟩
        · rw [cut.slice_eq cut', String.toList_ofList] at member
          simpa using clear c member
        · have parts := Text.slice_append starts fits'.front fits'.1 (fits.stop_le.trans order) (Fits.front_le fits')
          change Text.slice source _ spec.start ++ "" = _
          rw [String.append_empty]
          exact parts.symm
    | added => exact ⟨"\t", by simp [Text.IsLine], rfl⟩
  obtain ⟨line, single, same⟩ := early
  obtain ⟨line', single', same'⟩ := late
  rw [between, String.append_assoc, same', ← String.append_assoc, same, Text.hasGap_append_line single',
    Text.hasGap_line_append single]

/-- Imports with no line between them. -/
theorem joins_of_touching (before : Before source a b) (touching : a.rear source = b.front source) :
    joins source a b = true := by
  rw [joins, hasGap_between before, touching, Text.slice_self]
  rfl

/-- Whether two imports are joined is a matter of the lines between them. -/
theorem joins_congr {a' b' : Slot} (before : Before source a b) (before' : Before source a' b')
    (same : a.rear source = a'.rear source) (same' : b.front source = b'.front source) :
    joins source a b = joins source a' b' := by
  rw [joins, joins, hasGap_between before, hasGap_between before', same, same']

theorem joins_kept (source : String) (a b : Node) : joins source (kept a) (kept b) = ImportEdit.joins source a b := by
  change (!Text.hasGap ("" ++ Text.slice source a.stop b.start ++ "")) = _
  rw [String.empty_append, String.append_empty]
  rfl

end Slot

open Slot

/-! Merging. -/

/-- A group with new paths: each goes before the first import with a greater path, or else last. -/
def merge (source : String) (last : Nat) : List Node → List String → List Slot
  | [], paths => paths.map (added · last)
  | spec :: specs, paths =>
      (paths.filter fun path => decide (path < specPath source spec)).map
          (added · (Text.lineStart source spec.start)) ++
        kept spec :: merge source last specs (paths.filter fun path => !decide (path < specPath source spec))

variable {paths : List String} {path : String} {last offset : Nat} {slot : Slot} {group : List Node}

theorem merge_ne_nil (source : String) (last : Nat) (some : specs ≠ []) (paths : List String) :
    merge source last specs paths ≠ [] := by
  cases specs with
  | nil => exact absurd rfl some
  | cons spec specs => simp [merge]

theorem filterMap_kept?_added (paths : List String) (offset : Nat) :
    (paths.map (added · offset)).filterMap kept? = [] := by
  rw [List.filterMap_map]
  exact List.filterMap_none paths

/-- The imports of the group stay as they are. -/
theorem merge_keeps (source : String) (last : Nat) (specs : List Node) (paths : List String) :
    (merge source last specs paths).filterMap kept? = specs := by
  induction specs generalizing paths with
  | nil => exact filterMap_kept?_added paths last
  | cons spec specs ih =>
      rw [merge, List.filterMap_append, filterMap_kept?_added, List.nil_append,
        List.filterMap_cons_some (f := kept?) rfl, ih]

/-- Paths below a bound come first. -/
theorem filter_append_of_sorted (sorted : paths.Pairwise (· < ·)) (bound : String) :
    paths.filter (fun path => decide (path < bound)) ++ paths.filter (fun path => !decide (path < bound)) = paths := by
  induction paths with
  | nil => rfl
  | cons path paths ih =>
      obtain ⟨least, sorted⟩ := List.pairwise_cons.1 sorted
      by_cases less : path < bound
      · rw [List.filter_cons_of_pos (by simp [less]), List.filter_cons_of_neg (by simp [less]), List.cons_append,
          ih sorted]
      · have none : paths.filter (fun path => decide (path < bound)) = [] := by
          refine List.filter_eq_nil_iff.2 fun other member found => less ?_
          exact (least other member).trans (of_decide_eq_true found)
        have rest := ih sorted
        rw [none, List.nil_append] at rest
        rw [List.filter_cons_of_neg (by simp [less]), none, List.nil_append, List.filter_cons_of_pos (by simp [less]),
          rest]

/-- The new paths are put in, in order. -/
theorem merge_adds (source : String) (last : Nat) (specs : List Node) (sorted : paths.Pairwise (· < ·)) :
    ((merge source last specs paths).filterMap added?).map (·.2) = paths := by
  have new (paths : List String) (offset : Nat) :
      ((paths.map (added · offset)).filterMap added?).map (·.2) = paths := by
    rw [List.filterMap_map, show added? ∘ (added · offset) = some ∘ ((offset, ·) : String → Nat × String) from rfl,
      List.filterMap_eq_map, List.map_map]
    exact List.map_id' paths
  induction specs generalizing paths with
  | nil => exact new paths last
  | cons spec specs ih =>
      rw [merge, List.filterMap_append, List.filterMap_cons_none rfl, List.map_append, new, ih (sorted.filter _)]
      exact filter_append_of_sorted sorted (specPath source spec)

theorem merge_perm (source : String) (last : Nat) (specs : List Node) (paths : List String) :
    ((merge source last specs paths).map (Slot.path source)).Perm (specs.map (specPath source) ++ paths) := by
  induction specs generalizing paths with
  | nil =>
      rw [merge, List.map_map, List.map_nil, List.nil_append]
      exact .of_eq (List.map_id' paths)
  | cons spec specs ih =>
      have parts := List.filter_append_perm (fun path => decide (path < specPath source spec)) paths
      have rest := ih (paths.filter fun path => !decide (path < specPath source spec))
      rw [merge, List.map_append, List.map_cons, List.map_map]
      generalize paths.filter (fun path => decide (path < specPath source spec)) = early at parts
      generalize paths.filter (fun path => !decide (path < specPath source spec)) = later at parts rest
      have same : early.map (Slot.path source ∘ (added · (Text.lineStart source spec.start))) = early :=
        List.map_id' early
      rw [same]
      refine ((rest.cons (specPath source spec)).append_left early).trans ?_
      rw [← List.cons_append, ← List.map_cons]
      exact (List.perm_append_comm_assoc _ _ _).trans (parts.append_left _)

/-- What is in order stays in order. -/
theorem merge_sorted (sorted : (specs.map (specPath source)).Pairwise (· ≤ ·)) (sorted' : paths.Pairwise (· ≤ ·)) :
    ((merge source last specs paths).map (Slot.path source)).Pairwise (· ≤ ·) := by
  induction specs generalizing paths with
  | nil =>
      rw [merge, List.map_map]
      exact (List.map_id' paths).symm ▸ sorted'
  | cons spec specs ih =>
      rw [List.map_cons, List.pairwise_cons] at sorted
      have rest := ih sorted.2 (sorted'.filter fun path => !decide (path < specPath source spec))
      have later : ∀ path ∈ (merge source last specs (paths.filter fun path =>
          !decide (path < specPath source spec))).map (Slot.path source), specPath source spec ≤ path := by
        intro path member
        rcases List.mem_append.1 ((merge_perm _ _ _ _).mem_iff.1 member) with old | new
        · exact sorted.1 path old
        · exact not_lt.1 (of_decide_eq_false (Eq.mp (Bool.not_eq_true' _) (List.mem_filter.1 new).2))
      rw [merge, List.map_append, List.map_map, List.map_cons, List.pairwise_append]
      refine ⟨?_, List.pairwise_cons.2 ⟨later, rest⟩, ?_⟩
      · exact (List.map_id' (paths.filter _)).symm ▸ sorted'.filter _
      · intro early member path member'
        have less : early < specPath source spec := by
          obtain ⟨path, listed, rfl⟩ := List.mem_map.1 member
          exact of_decide_eq_true (List.mem_filter.1 listed).2
        rcases List.mem_cons.1 member' with rfl | member'
        · exact less.le
        · exact less.le.trans (later path member')

/-- Where a path goes in a group: before the line of the first import with a greater path, or else last. -/
def seatIn (source : String) (last : Nat) (specs : List Node) (path : String) : Nat :=
  ((specs.find? fun spec => decide (path < specPath source spec)).map fun spec =>
    Text.lineStart source spec.start).getD last

theorem seatIn_cons (source : String) (last : Nat) (spec : Node) (specs : List Node) (path : String) :
    seatIn source last (spec :: specs) path =
      if path < specPath source spec then Text.lineStart source spec.start else seatIn source last specs path := by
  rw [seatIn, List.find?_cons]
  split
  · rename_i less
    rw [if_pos (of_decide_eq_true less)]
    rfl
  · rename_i greater
    rw [if_neg (of_decide_eq_false greater)]
    rfl

theorem added_mem_merge : added path offset ∈ merge source last specs paths ↔
    path ∈ paths ∧ offset = seatIn source last specs path := by
  induction specs generalizing paths with
  | nil =>
      rw [merge, List.mem_map]
      constructor
      · rintro ⟨other, listed, same⟩
        cases same
        exact ⟨listed, rfl⟩
      · rintro ⟨listed, rfl⟩
        exact ⟨path, listed, rfl⟩
  | cons spec specs ih =>
      have new : added path offset ∈ (paths.filter fun path => decide (path < specPath source spec)).map
          (added · (Text.lineStart source spec.start)) ↔
            path ∈ paths ∧ path < specPath source spec ∧ offset = Text.lineStart source spec.start := by
        rw [List.mem_map]
        constructor
        · rintro ⟨other, listed, same⟩
          cases same
          exact ⟨(List.mem_filter.1 listed).1, of_decide_eq_true (List.mem_filter.1 listed).2, rfl⟩
        · rintro ⟨listed, less, rfl⟩
          exact ⟨path, List.mem_filter.2 ⟨listed, decide_eq_true less⟩, rfl⟩
      have old : added path offset ≠ kept spec := nofun
      rw [merge, List.mem_append, List.mem_cons, new, ih, List.mem_filter, or_iff_right old, seatIn_cons]
      by_cases less : path < specPath source spec
      · simp only [less, true_and, if_true, decide_true, Bool.not_true, Bool.false_eq_true, and_false, false_and,
          or_false]
      · simp only [less, false_and, and_false, false_or, if_false, decide_false, Bool.not_false, and_true]

/-- Where a merged group begins. -/
theorem front_of_mem_head? (member : slot ∈ (merge source last specs paths).head?) :
    slot.front source = (specs.head?.map fun spec => Text.lineStart source spec.start).getD last := by
  cases specs with
  | nil =>
      rw [merge, List.head?_map] at member
      obtain ⟨path, _, rfl⟩ := Option.map_eq_some_iff.1 member
      rfl
  | cons spec specs =>
      rw [merge, List.head?_append, List.head?_map] at member
      rcases Option.or_eq_some_iff.1 member with early | ⟨_, here⟩
      · obtain ⟨path, _, rfl⟩ := Option.map_eq_some_iff.1 early
        rfl
      · cases here
        rfl

/-- Where a merged group ends. -/
theorem rear_of_mem_getLast? (ends : ∀ spec ∈ specs.getLast?, below source spec = last)
    (member : slot ∈ (merge source last specs paths).getLast?) : slot.rear source = last := by
  induction specs generalizing paths with
  | nil =>
      rw [merge, List.getLast?_map] at member
      obtain ⟨path, _, rfl⟩ := Option.map_eq_some_iff.1 member
      rfl
  | cons spec specs ih =>
      rw [merge, List.getLast?_append, List.getLast?_cons, Option.some_or] at member
      cases specs with
      | nil =>
          cases rest : (merge source last [] _).getLast? with
          | none =>
              rw [rest] at member
              cases member
              exact ends spec rfl
          | some other =>
              rw [rest] at member
              cases member
              exact ih (by simp) rest
      | cons spec' specs =>
          obtain ⟨other, final⟩ := Option.ne_none_iff_exists'.1
            (List.getLast?_eq_none_iff.not.2 (merge_ne_nil source last (List.cons_ne_nil spec' specs) _))
          rw [final] at member
          cases member
          exact ih (fun spec member => ends spec (by rwa [List.getLast?_cons_cons])) final

/-- Imports one below the other, without an empty line between them. -/
def Adjoins (source : String) (a b : Slot) : Prop := Before source a b ∧ Slot.joins source a b = true

theorem adjoins_added (sound : Text.isBoundary source offset = true) (sorted : paths.Pairwise (· < ·)) :
    (paths.map (added · offset)).IsChain (Adjoins source) := by
  refine (List.isChain_map _).2 (sorted.isChain.imp fun path path' less => ?_)
  have before : Before source (added path offset) (added path' offset) := by
    refine ⟨sound, sound, Nat.le_refl _, fun spot spot' new new' _ => ?_⟩
    cases new
    cases new'
    exact less
  exact ⟨before, joins_of_touching before rfl⟩

theorem fits_of_mem_merge (fits : ∀ spec ∈ specs, (kept spec).Fits source) (sound : Text.isBoundary source last = true)
    (member : slot ∈ merge source last specs paths) : slot.Fits source := by
  induction specs generalizing paths with
  | nil =>
      obtain ⟨path, _, rfl⟩ := List.mem_map.1 member
      exact sound
  | cons spec specs ih =>
      rw [merge, List.mem_append, List.mem_cons] at member
      rcases member with new | rfl | later
      · obtain ⟨path, _, rfl⟩ := List.mem_map.1 new
        exact Fits.front (fits spec List.mem_cons_self)
      · exact fits spec List.mem_cons_self
      · exact ih (fun other listed => fits other (List.mem_cons_of_mem _ listed)) later

/-- A group stays a group. -/
theorem merge_adjoins (fits : ∀ spec ∈ specs, (kept spec).Fits source) (sound : Text.isBoundary source last = true)
    (chain : specs.IsChain fun a b => Adjoins source (kept a) (kept b))
    (ends : ∀ spec ∈ specs.getLast?, below source spec = last) (sorted : paths.Pairwise (· < ·)) :
    (merge source last specs paths).IsChain (Adjoins source) := by
  induction specs generalizing paths with
  | nil => exact adjoins_added sound sorted
  | cons spec specs ih =>
      obtain ⟨next, chain⟩ := List.isChain_cons.1 chain
      obtain ⟨fit, fits⟩ := List.forall_mem_cons.1 fits
      have begins : Text.isBoundary source (Text.lineStart source spec.start) = true := Fits.front fit
      rw [merge, List.isChain_append]
      refine ⟨adjoins_added begins (sorted.filter _), List.isChain_cons.2 ⟨fun slot first => ?_, ?_⟩,
        fun slot final _ here => ?_⟩
      · -- from an import to what follows it
        have fit' : slot.Fits source := fits_of_mem_merge fits sound (List.mem_of_mem_head? first)
        have place := front_of_mem_head? first
        cases specs with
        | nil =>
            have touching : (kept spec).rear source = slot.front source := (ends spec rfl).trans place.symm
            have before : Before source (kept spec) slot := ⟨fit, fit', touching.le, nofun⟩
            exact ⟨before, joins_of_touching before touching⟩
        | cons other specs =>
            obtain ⟨before, joined⟩ := next other rfl
            have before' : Before source (kept spec) slot := ⟨fit, fit', by rw [place]; exact before.order, nofun⟩
            exact ⟨before', by rwa [joins_congr before' before rfl place]⟩
      · refine ih fits chain (fun spec' member => ends spec' ?_) (sorted.filter _)
        cases specs with
        | nil => cases member
        | cons => rwa [List.getLast?_cons_cons]
      · -- from new imports to the one they go before
        rw [List.head?_cons, Option.mem_some_iff] at here
        subst here
        rw [List.getLast?_map] at final
        obtain ⟨path, _, rfl⟩ := Option.map_eq_some_iff.1 final
        have before : Before source (added path (Text.lineStart source spec.start)) (kept spec) :=
          ⟨begins, fit, Nat.le_refl _, fun _ _ _ contrary => nomatch contrary⟩
        exact ⟨before, joins_of_touching before rfl⟩

end ImportEdit
end TraceWeave
