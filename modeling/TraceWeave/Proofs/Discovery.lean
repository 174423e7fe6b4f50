import Mathlib.Data.List.Nodup
import Mathlib.Data.String.Basic
import TraceWeave.Loader
import TraceWeave.Proofs.Disk
import TraceWeave.Proofs.Outcome
import TraceWeave.Proofs.Sorted
import TraceWeave.Proofs.Text.Trim

/-!
Discovery. A walk that leaves out whole directories finds the files that pass a test each on its own: of the
way that leads to a file no part is left out, and no directory on it is one that is never entered.
-/
namespace TraceWeave

/-- Whether a text can be the name of a file. -/
def IsFileName (name : String) : Prop := name ≠ "" ∧ '/' ∉ name.toList

instance : DecidablePred IsFileName := fun name => inferInstanceAs (Decidable (name ≠ "" ∧ '/' ∉ name.toList))

namespace Item

/-- Directories in which every item has a name, and no two of them the same one. -/
inductive IsTree : Item → Prop
  | file (content : Content) : IsTree (.file content)
  | directory {items : List (String × Item)} (named : ∀ entry ∈ items, IsFileName entry.1)
      (once : (items.map Prod.fst).Nodup) (each : ∀ entry ∈ items, IsTree entry.2) : IsTree (.directory items)

variable {item found : Item} {name : String} {items : List (String × Item)} {way : List String}

theorem mem_of_item? (there : (directory items).item? name = some found) : (name, found) ∈ items := by
  obtain ⟨entry, first, rfl⟩ := Option.map_eq_some_iff.1 there
  obtain rfl : entry.1 = name := by simpa using List.find?_some first
  exact List.mem_of_find?_eq_some first

theorem item?_of_mem (once : (items.map Prod.fst).Nodup) (member : (name, found) ∈ items) :
    (directory items).item? name = some found := by
  have there : ((directory items).item? name).isSome = true := by
    rw [isSome_item?]
    exact List.any_eq_true.2 ⟨_, member, by simp⟩
  obtain ⟨other, there⟩ := Option.isSome_iff_exists.1 there
  have same : (name, other) = (name, found) :=
    List.inj_on_of_nodup_map once (mem_of_item? there) member rfl
  cases same
  exact there

/-- A way through a tree is made of names. -/
theorem IsTree.names (tree : item.IsTree) (leads : item.follow? way = some found) : ∀ name ∈ way, IsFileName name := by
  induction way generalizing item with
  | nil => exact fun _ member => absurd member List.not_mem_nil
  | cons name way ih =>
      obtain ⟨child, there, further⟩ := Option.bind_eq_some_iff.1 leads
      cases tree with
      | file content => cases there
      | directory named once each =>
          have listed := mem_of_item? there
          exact List.forall_mem_cons.2 ⟨named _ listed, ih (each _ listed) further⟩

end Item

namespace Path

variable {name extension : String} {parts parts' : List String}

theorem ofSegments_inj (some : parts ≠ []) (some' : parts' ≠ []) (names : ∀ name ∈ parts, IsFileName name)
    (names' : ∀ name ∈ parts', IsFileName name) (same : ofSegments parts = ofSegments parts') : parts = parts' := by
  have split := congrArg segments same
  rwa [segments_ofSegments some fun name member => (names name member).2,
    segments_ofSegments some' fun name member => (names' name member).2] at split

theorem ofSegments_ne_empty (some : parts ≠ []) (names : ∀ name ∈ parts, IsFileName name) : ofSegments parts ≠ "" := by
  intro empty
  have split := congrArg segments empty
  rw [segments_ofSegments some fun name member => (names name member).2] at split
  exact (names "" (by rw [split]; decide +kernel)).1 rfl

/-- Characters cut at their last dot. -/
theorem lastDot_iff {cs after : List Char} :
    cs.take (cs.length - (cs.reverse.takeWhile (· != '.')).length - 1) ≠ [] ∧
        (cs.reverse.takeWhile (· != '.')).reverse = after ↔
      ∃ stem, stem ≠ [] ∧ cs = stem ++ '.' :: after ∧ '.' ∉ after := by
  constructor
  · rintro ⟨filled, rfl⟩
    have whole := List.takeWhile_append_dropWhile (p := (· != '.')) (l := cs.reverse)
    have clear : ∀ c ∈ cs.reverse.takeWhile (· != '.'), (c != '.') = true := List.all_eq_true.1 List.all_takeWhile
    generalize cs.reverse.takeWhile (· != '.') = taken at *
    cases rest : cs.reverse.dropWhile (· != '.') with
    | nil =>
        rw [rest, List.append_nil] at whole
        simp [whole] at filled
    | cons c stem =>
        obtain rfl : c = '.' := by
          have stops := List.head?_dropWhile_not (· != '.') cs.reverse
          rw [rest] at stops
          simpa using stops
        rw [rest] at whole
        have split : cs = stem.reverse ++ '.' :: taken.reverse := by
          rw [← List.reverse_inj, ← whole]
          simp
        refine ⟨stem.reverse, ?_, split, fun member => ?_⟩
        · rintro empty
          simp [split, empty] at filled
        · simpa using clear '.' (List.mem_reverse.1 member)
  · rintro ⟨stem, filled, rfl, clear⟩
    have taken : (stem ++ '.' :: after).reverse.takeWhile (· != '.') = after.reverse := by
      have each : ∀ c ∈ after.reverse, (c != '.') = true := by
        intro c member
        simp only [bne_iff_ne, ne_eq]
        rintro rfl
        exact clear (List.mem_reverse.1 member)
      rw [List.reverse_append, List.reverse_cons, List.append_assoc, List.takeWhile_append_of_pos each]
      simp
    rw [taken]
    refine ⟨?_, List.reverse_reverse _⟩
    have length : (stem ++ '.' :: after).length - after.reverse.length - 1 = stem.length := by
      simp only [List.length_append, List.length_cons, List.length_reverse]
      omega
    rwa [length, List.take_left]

/-- An extension is what follows the last dot of a name, if something stands before that dot. -/
theorem extension?_eq_some (is : IsFileName name) (filled : extension ≠ "") :
    extension? name = some extension ↔
      ∃ stem, stem ≠ "" ∧ name = stem ++ "." ++ extension ∧ '.' ∉ extension.toList := by
  have sole : segments name = [name] := by
    have split : segments (ofSegments [name]) = [name] := segments_ofSegments (by simp) (by simpa using is.2)
    rwa [ofSegments_single] at split
  have split : split? name = some (name, "") := by
    unfold split?
    rw [sole]
    exact if_neg (by simpa using is.1)
  have cut : (∃ stem, stem ≠ "" ∧ name = stem ++ "." ++ extension ∧ '.' ∉ extension.toList) ↔
      ∃ stem, stem ≠ [] ∧ name.toList = stem ++ '.' :: extension.toList ∧ '.' ∉ extension.toList := by
    constructor
    · rintro ⟨stem, some, rfl, clear⟩
      exact ⟨stem.toList, by simpa using some, by simp, clear⟩
    · rintro ⟨stem, some, split, clear⟩
      refine ⟨String.ofList stem, by simpa using some, ?_, clear⟩
      rw [← String.toList_inj, split]
      simp
  unfold extension? fileName?
  rw [cut, split, Option.bind_some]
  dsimp only
  by_cases up : name = "." ∨ name = ".."
  · rw [if_pos (by simpa using up)]
    refine iff_of_false nofun ?_
    rintro ⟨stem, some, parts, _⟩
    have long : extension.toList ≠ [] := by simpa using filled
    obtain ⟨c, stem, rfl⟩ := List.exists_cons_of_ne_nil some
    obtain ⟨d, rest, last⟩ := List.exists_cons_of_ne_nil long
    have length := congrArg List.length parts
    rw [last] at length
    rcases up with rfl | rfl
    · simp at length
    · simp at length
      omega
  · rw [if_neg (by simpa using up), Option.bind_eq_bind, Option.bind_some, ← lastDot_iff]
    split
    · rename_i empty
      exact iff_of_false nofun fun both => both.1 (List.isEmpty_iff.1 empty)
    · rename_i stem
      rw [Option.some_inj, ← String.toList_inj, String.toList_ofList]
      exact (and_iff_right fun empty => stem (List.isEmpty_iff.2 empty)).symm

end Path

namespace Selection

variable {exclude : List String} {globs : List (List Glob.Token)} {name path : String} {front way : List String}
  {item : Item} {items : List (String × Item)}

theorem below_ofSegments (names : ∀ name ∈ front, IsFileName name) (name : String) :
    below (Path.ofSegments front) name = Path.ofSegments (front ++ [name]) := by
  unfold below
  by_cases top : front = []
  · subst top
    exact (if_pos rfl).trans (Path.ofSegments_single name).symm
  · rw [if_neg (by simpa using Path.ofSegments_ne_empty top names), Path.ofSegments_append top (List.cons_ne_nil _ _),
      Path.ofSegments_single]

theorem walkItems_eq (exclude : List String) (globs : List (List Glob.Token)) (directory : String)
    (items : List (String × Item)) :
    walkItems exclude globs directory items =
      items.flatMap fun entry => walkItem exclude globs (below directory entry.1) entry.1 entry.2 := by
  induction items with
  | nil => rfl
  | cons entry items ih => rw [walkItems, List.flatMap_cons, ih]

/-- Whether a walk that has come to `front` takes the file at the end of a way from there. -/
structure Takes (exclude : List String) (globs : List (List Glob.Token)) (front way : List String) : Prop where
  goFile : ∃ init last, way = init ++ [last] ∧ isGoFile last = true
  entered : ∀ directory ∈ way.dropLast, isSkipped directory = false
  kept : ∀ init last, init ++ [last] <+: way → isExcluded exclude (Path.ofSegments (front ++ init ++ [last])) last = false
  chosen : isSelected globs (Path.ofSegments (front ++ way)) = true

theorem not_takes_nil : ¬ Takes exclude globs front [] := by
  intro takes
  obtain ⟨init, last, split, _⟩ := takes.goFile
  exact absurd split (by simp)

theorem takes_single :
    Takes exclude globs front [name] ↔
      isExcluded exclude (Path.ofSegments (front ++ [name])) name = false ∧ isGoFile name = true ∧
        isSelected globs (Path.ofSegments (front ++ [name])) = true := by
  constructor
  · intro takes
    obtain ⟨init, last, split, goFile⟩ := takes.goFile
    obtain ⟨rfl, rfl⟩ : init = [] ∧ last = name := by
      simpa [List.append_eq_singleton_iff] using split.symm
    exact ⟨by simpa using takes.kept [] last (List.prefix_rfl), goFile, takes.chosen⟩
  · rintro ⟨kept, goFile, chosen⟩
    refine ⟨⟨[], name, rfl, goFile⟩, by simp, fun init last starts => ?_, chosen⟩
    obtain ⟨rfl, rfl⟩ : init = [] ∧ last = name := by
      rcases List.prefix_cons_iff.1 starts with none | ⟨rest, split, short⟩
      · exact absurd none (by simp)
      · rw [List.prefix_nil.1 short] at split
        simpa [List.append_eq_singleton_iff] using split
    simpa using kept

theorem takes_cons {step : String} :
    Takes exclude globs front (name :: step :: way) ↔
      isSkipped name = false ∧ isExcluded exclude (Path.ofSegments (front ++ [name])) name = false ∧
        Takes exclude globs (front ++ [name]) (step :: way) := by
  constructor
  · intro takes
    refine ⟨takes.entered name (by simp), by simpa using takes.kept [] name ⟨step :: way, rfl⟩, ?_⟩
    refine ⟨?_, fun directory member => takes.entered directory (by simp [member]), fun init last starts => ?_, ?_⟩
    · obtain ⟨init, last, split, goFile⟩ := takes.goFile
      obtain ⟨rfl, rest⟩ | ⟨init, rfl, rest⟩ := List.cons_eq_append_iff.1 split
      · exact absurd rest (by simp)
      · exact ⟨init, last, rest, goFile⟩
    · simpa using takes.kept (name :: init) last (by simpa using starts)
    · simpa using takes.chosen
  · rintro ⟨entered, kept, takes⟩
    refine ⟨?_, ?_, ?_, ?_⟩
    · obtain ⟨init, last, split, goFile⟩ := takes.goFile
      exact ⟨name :: init, last, by rw [split, List.cons_append], goFile⟩
    · rw [List.dropLast_cons_of_ne_nil (List.cons_ne_nil _ _)]
      exact List.forall_mem_cons.2 ⟨entered, takes.entered⟩
    · intro init last starts
      cases init with
      | nil =>
          obtain rfl : last = name := by simpa using starts
          simpa using kept
      | cons first init =>
          obtain ⟨rfl, further⟩ := List.cons_prefix_cons.1 starts
          simpa using takes.kept init last further
    · simpa using takes.chosen

/-- A walk through the items of a directory. -/
theorem mem_walkItems_of (names : ∀ name ∈ front, IsFileName name) (once : (items.map Prod.fst).Nodup)
    (each : ∀ entry ∈ items, path ∈ walkItem exclude globs (Path.ofSegments (front ++ [entry.1])) entry.1 entry.2 ↔
      ∃ way content, entry.2.follow? way = some (.file content) ∧ Takes exclude globs front (entry.1 :: way) ∧
        path = Path.ofSegments (front ++ entry.1 :: way)) :
    path ∈ walkItems exclude globs (Path.ofSegments front) items ↔
      ∃ way content, (Item.directory items).follow? way = some (.file content) ∧ Takes exclude globs front way ∧
        path = Path.ofSegments (front ++ way) := by
  rw [walkItems_eq, List.mem_flatMap]
  constructor
  · rintro ⟨entry, listed, member⟩
    rw [below_ofSegments names] at member
    obtain ⟨way, content, leads, takes, is⟩ := (each entry listed).1 member
    refine ⟨entry.1 :: way, content, ?_, takes, is⟩
    rw [Item.follow?_cons, Item.item?_of_mem once listed]
    exact leads
  · rintro ⟨way, content, leads, takes, is⟩
    cases way with
    | nil => exact absurd takes not_takes_nil
    | cons name way =>
        obtain ⟨child, there, further⟩ := Option.bind_eq_some_iff.1 leads
        have listed := Item.mem_of_item? there
        refine ⟨_, listed, ?_⟩
        rw [below_ofSegments names]
        exact (each _ listed).2 ⟨way, content, further, takes, is⟩

/-- A walk takes every file for itself. -/
theorem mem_walkItem (tree : item.IsTree) (names : ∀ n ∈ front ++ [name], IsFileName n) :
    path ∈ walkItem exclude globs (Path.ofSegments (front ++ [name])) name item ↔
      ∃ way content, item.follow? way = some (.file content) ∧ Takes exclude globs front (name :: way) ∧
        path = Path.ofSegments (front ++ name :: way) := by
  induction tree generalizing front name with
  | file content =>
      rw [walkItem]
      constructor
      · intro member
        split at member
        · rename_i passes
          obtain rfl := List.mem_singleton.1 member
          simp only [Bool.and_eq_true, Bool.not_eq_true'] at passes
          exact ⟨[], content, rfl, takes_single.2 ⟨passes.1.1, passes.1.2, passes.2⟩, rfl⟩
        · cases member
      · rintro ⟨way, content', leads, takes, rfl⟩
        cases way with
        | nil =>
            obtain ⟨kept, goFile, chosen⟩ := takes_single.1 takes
            rw [if_pos (by simp [kept, goFile, chosen])]
            exact List.mem_singleton_self _
        | cons step way => cases leads
  | directory named once each ih =>
      rename_i items
      have walked : path ∈ walkItems exclude globs (Path.ofSegments (front ++ [name])) items ↔ _ :=
        mem_walkItems_of names once fun entry listed =>
          ih entry listed (List.forall_mem_append.2 ⟨names, by simpa using named entry listed⟩)
      rw [walkItem]
      constructor
      · intro member
        split at member
        · cases member
        · rename_i enters
          simp only [Bool.or_eq_true, not_or, Bool.not_eq_true] at enters
          obtain ⟨way, content, leads, takes, is⟩ := walked.1 member
          cases way with
          | nil => exact absurd takes not_takes_nil
          | cons step way => 
              refine ⟨step :: way, content, leads, takes_cons.2 ⟨enters.1, enters.2, takes⟩, ?_⟩
              rw [is, List.append_assoc, List.singleton_append]
      · rintro ⟨way, content, leads, takes, rfl⟩
        cases way with
        | nil => cases leads
        | cons step way =>
            obtain ⟨entered, kept, takes⟩ := takes_cons.1 takes
            rw [if_neg (by simp [entered, kept])]
            exact walked.2 ⟨step :: way, content, leads, takes, by simp⟩

/-- Items with different names lead to different files. -/
theorem nodup_walkItems_of (names : ∀ name ∈ front, IsFileName name) (named : ∀ entry ∈ items, IsFileName entry.1)
    (once : (items.map Prod.fst).Nodup) (trees : ∀ entry ∈ items, entry.2.IsTree)
    (each : ∀ entry ∈ items, (walkItem exclude globs (Path.ofSegments (front ++ [entry.1])) entry.1 entry.2).Nodup) :
    (walkItems exclude globs (Path.ofSegments front) items).Nodup := by
  rw [walkItems_eq, List.nodup_flatMap]
  refine ⟨fun entry listed => ?_, (List.pairwise_map.1 once).imp_of_mem fun {a b} first second differ => ?_⟩
  · rw [below_ofSegments names]
    exact each entry listed
  · have ways : ∀ entry ∈ items, ∀ path ∈ walkItem exclude globs (below (Path.ofSegments front) entry.1) entry.1 entry.2,
        ∃ way, (∀ name ∈ front ++ entry.1 :: way, IsFileName name) ∧ path = Path.ofSegments (front ++ entry.1 :: way) := by
      intro entry listed path member
      rw [below_ofSegments names] at member
      have here : ∀ name ∈ front ++ [entry.1], IsFileName name :=
        List.forall_mem_append.2 ⟨names, by simpa using named entry listed⟩
      obtain ⟨way, content, leads, _, is⟩ := (mem_walkItem (trees entry listed) here).1 member
      refine ⟨way, List.forall_mem_append.2 ⟨names, ?_⟩, is⟩
      exact List.forall_mem_cons.2 ⟨named entry listed, (trees entry listed).names leads⟩
    intro path member member'
    obtain ⟨way, sound, is⟩ := ways a first path member
    obtain ⟨way', sound', is'⟩ := ways b second path member'
    have parts := Path.ofSegments_inj (by simp) (by simp) sound sound' (is.symm.trans is')
    exact differ (List.cons.inj (List.append_cancel_left parts)).1

/-- No file is found twice. -/
theorem nodup_walkItem (tree : item.IsTree) (names : ∀ n ∈ front ++ [name], IsFileName n) :
    (walkItem exclude globs (Path.ofSegments (front ++ [name])) name item).Nodup := by
  induction tree generalizing front name with
  | file content =>
      rw [walkItem]
      split
      · exact List.nodup_singleton _
      · exact List.nodup_nil
  | directory named once each ih =>
      rw [walkItem]
      split
      · exact List.nodup_nil
      · refine nodup_walkItems_of names named once each fun entry listed => ih entry listed ?_
        exact List.forall_mem_append.2 ⟨names, by simpa using named entry listed⟩

/-! What a selection means for a single file. -/

/-- What an exclusion leaves out, without `./` before it and slashes behind it. -/
def Strips (exclusion bare : String) : Prop :=
  ∃ (dots slashes : Nat) (rest : List Char), exclusion.toList = (List.replicate dots ['.', '/']).flatten ++ rest ∧
    ¬ ['.', '/'] <+: rest ∧ rest = bare.toList ++ List.replicate slashes '/' ∧ bare.toList.getLast? ≠ some '/'

/-- Whether exclusions leave out an entry: by its name, by its path, or because it lies below a path. -/
def LeavesOut (exclude : List String) (path name : String) : Prop :=
  ∃ exclusion ∈ exclude, ∃ bare, Strips exclusion bare ∧ bare ≠ "" ∧
    (bare = name ∨ path = bare ∨ ∃ inside, path = bare ++ "/" ++ inside)

/-- Directories that are never entered. -/
def IsHidden (name : String) : Prop :=
  name.toList.head? = some '.' ∨ name.toList.head? = some '_' ∨ name ∈ ["vendor", "testdata", "node_modules"]

/-- Whether a selection is meant to find the file at the end of a way. -/
structure Finds (selection : Selection) (way : List String) : Prop where
  goFile : ∃ above stem, way = above ++ [stem ++ ".go"] ∧ stem ≠ ""
  entered : ∀ directory ∈ way.dropLast, ¬ IsHidden directory
  /-- Neither a directory on the way nor the file is left out. -/
  kept : ∀ above name, above ++ [name] <+: way →
    ¬ LeavesOut selection.exclude (Path.ofSegments (above ++ [name])) name
  chosen : selection.patterns = [] ∨ ∃ pattern ∈ selection.patterns, ∃ glob,
    Glob.parse (globText pattern) = .ok glob ∧ Glob.matchesPath glob (Path.ofSegments way) = true

theorem bareExclusion_eq_iff {exclusion bare : String} : bareExclusion exclusion = bare ↔ Strips exclusion bare := by
  unfold bareExclusion Strips
  have repeats : ∀ {rest : String}, Text.dropRepeats "./" exclusion = rest ↔ ∃ dots : Nat,
      exclusion.toList = (List.replicate dots ['.', '/']).flatten ++ rest.toList ∧ ¬ ['.', '/'] <+: rest.toList :=
    Text.dropRepeats_eq_iff (by decide)
  obtain ⟨dots, split, stops⟩ := repeats.1 rfl
  rw [Text.dropEnd_eq_iff]
  constructor
  · rintro ⟨back, parts, slashes, ends⟩
    have same : back = List.replicate back.length '/' := List.eq_replicate_iff.2 ⟨rfl, by simpa using slashes⟩
    refine ⟨dots, back.length, _, split, stops, same ▸ parts, fun last => ?_⟩
    simpa using ends '/' last
  · rintro ⟨dots, slashes, rest, split', stops', parts, ends⟩
    have same : Text.dropRepeats "./" exclusion = String.ofList rest :=
      repeats.2 ⟨dots, by simpa using split', by simpa using stops'⟩
    refine ⟨List.replicate slashes '/', by rw [same, String.toList_ofList, parts], by simp, fun c member => ?_⟩
    simp only [beq_eq_false_iff_ne, ne_eq]
    rintro rfl
    exact ends member

theorem isExcluded_iff : isExcluded exclude path name = true ↔ LeavesOut exclude path name := by
  have below : ∀ bare : String, Text.beginsWith path (bare ++ "/") = true ↔ ∃ inside, path = bare ++ "/" ++ inside := by
    intro bare
    rw [Text.beginsWith, List.isPrefixOf_iff_prefix]
    constructor
    · rintro ⟨inside, split⟩
      exact ⟨String.ofList inside, by rw [← String.toList_inj, ← split]; simp⟩
    · rintro ⟨inside, rfl⟩
      exact ⟨inside.toList, String.toList_append.symm⟩
  unfold isExcluded LeavesOut
  simp only [List.any_eq_true, Bool.and_eq_true, Bool.or_eq_true, bne_iff_ne, beq_iff_eq, below, or_assoc]
  constructor
  · rintro ⟨exclusion, listed, some, matched⟩
    exact ⟨exclusion, listed, _, bareExclusion_eq_iff.1 rfl, some, matched⟩
  · rintro ⟨exclusion, listed, bare, strips, some, matched⟩
    obtain rfl := bareExclusion_eq_iff.2 strips
    exact ⟨exclusion, listed, some, matched⟩

theorem isSkipped_iff : isSkipped name = true ↔ IsHidden name := by
  have first : ∀ c : Char, [c].isPrefixOf name.toList = true ↔ name.toList.head? = some c := by
    intro c
    cases name.toList with
    | nil => simp
    | cons d cs =>
        rw [List.isPrefixOf_cons_cons, List.isPrefixOf_nil_left]
        simp [eq_comm (a := c)]
  unfold isSkipped IsHidden Text.beginsWith
  rw [Bool.or_eq_true, Bool.or_eq_true, or_assoc, List.contains_iff_mem]
  exact or_congr (first '.') (or_congr (first '_') Iff.rfl)

theorem isGoFile_iff (is : IsFileName name) : isGoFile name = true ↔ ∃ stem, name = stem ++ ".go" ∧ stem ≠ "" := by
  have clear : '.' ∉ "go".toList := by decide
  rw [isGoFile, beq_iff_eq, Path.extension?_eq_some is (by decide)]
  simp only [String.append_assoc, clear, not_false_eq_true, and_true]
  exact exists_congr fun stem => and_comm

-- the reading of a pattern is not to be unfolded here
attribute [local irreducible] Glob.parse in
theorem globs_cons (pattern : String) (patterns : List String) :
    Selection.globs (pattern :: patterns) =
      match Glob.parse (globText pattern) with
      | .error _ => .error pattern
      | .ok glob => (Selection.globs patterns).map (glob :: ·) := rfl

/-- Globs of patterns that are all valid. -/
theorem exists_globs {patterns : List String}
    (valid : ∀ pattern ∈ patterns, ∃ glob, Glob.parse (globText pattern) = .ok glob) :
    ∃ globs, Selection.globs patterns = .ok globs ∧
      List.Forall₂ (fun pattern glob => Glob.parse (globText pattern) = .ok glob) patterns globs := by
  induction patterns with
  | nil => exact ⟨[], rfl, .nil⟩
  | cons pattern patterns ih =>
      obtain ⟨⟨glob, parsed⟩, valid⟩ := List.forall_mem_cons.1 valid
      obtain ⟨globs, found, each⟩ := ih valid
      have all : Selection.globs (pattern :: patterns) = .ok (glob :: globs) := by
        rw [globs_cons, parsed, found]
        rfl
      exact ⟨_, all, List.Forall₂.cons parsed each⟩

theorem isSelected_iff {patterns : List String}
    (each : List.Forall₂ (fun pattern glob => Glob.parse (globText pattern) = .ok glob) patterns globs) :
    isSelected globs path = true ↔ patterns = [] ∨ ∃ pattern ∈ patterns, ∃ glob,
      Glob.parse (globText pattern) = .ok glob ∧ Glob.matchesPath glob path = true := by
  have some : globs = [] ↔ patterns = [] := by
    rw [← List.length_eq_zero_iff, ← List.length_eq_zero_iff, each.length_eq]
  have any : globs.any (Glob.matchesPath · path) = true ↔ ∃ pattern ∈ patterns, ∃ glob,
      Glob.parse (globText pattern) = .ok glob ∧ Glob.matchesPath glob path = true := by
    clear some
    induction each with
    | nil => simp
    | cons parsed _ ih => simp [ih, parsed]
  rw [isSelected, Bool.or_eq_true, List.isEmpty_iff, some, any]

theorem takes_iff_finds {selection : Selection} (names : ∀ name ∈ way, IsFileName name)
    (each : List.Forall₂ (fun pattern glob => Glob.parse (globText pattern) = .ok glob) selection.patterns globs) :
    Takes selection.exclude globs [] way ↔ selection.Finds way := by
  have hidden : ∀ name, isSkipped name = false ↔ ¬ IsHidden name := fun name => by
    rw [← isSkipped_iff, Bool.not_eq_true]
  have left : ∀ path name, isExcluded selection.exclude path name = false ↔ ¬ LeavesOut selection.exclude path name :=
    fun path name => by rw [← isExcluded_iff, Bool.not_eq_true]
  constructor
  · intro takes
    obtain ⟨above, last, split, goFile⟩ := takes.goFile
    obtain ⟨stem, rfl, some⟩ := (isGoFile_iff (names last (by simp [split]))).1 goFile
    refine ⟨⟨above, stem, split, some⟩, fun directory member => (hidden _).1 (takes.entered directory member),
      fun above name starts => (left _ _).1 (takes.kept above name starts), (isSelected_iff each).1 takes.chosen⟩
  · intro finds
    obtain ⟨above, stem, split, some⟩ := finds.goFile
    have goFile := (isGoFile_iff (names (stem ++ ".go") (by simp [split]))).2 ⟨stem, rfl, some⟩
    exact ⟨⟨above, _, split, goFile⟩, fun directory member => (hidden _).2 (finds.entered directory member),
      fun above name starts => (left _ _).2 (finds.kept above name starts), (isSelected_iff each).2 finds.chosen⟩

end Selection

section

variable {exclude : List String} {globs : List (List Glob.Token)} {items : List (String × Item)}

theorem Selection.mem_filesBelow (sound : (Item.directory items).IsTree) {path : String} :
    path ∈ filesBelow exclude globs (.directory items) ↔
      ∃ way content, (Item.directory items).follow? way = some (.file content) ∧ Takes exclude globs [] way ∧
        path = Path.ofSegments way := by
  obtain _ | ⟨named, once, trees⟩ := sound
  have walked : path ∈ walkItems exclude globs (Path.ofSegments []) items ↔ _ :=
    mem_walkItems_of (by simp) once fun entry listed =>
      mem_walkItem (trees entry listed) (by simpa using named entry listed)
  exact List.mem_mergeSort.trans walked

theorem Selection.filesBelow_sorted (sound : (Item.directory items).IsTree) :
    (filesBelow exclude globs (.directory items)).Pairwise (· < ·) := by
  obtain _ | ⟨named, once, trees⟩ := sound
  have nodup : (walkItems exclude globs (Path.ofSegments []) items).Nodup :=
    nodup_walkItems_of (by simp) named once trees fun entry listed =>
      nodup_walkItem (trees entry listed) (by simpa using named entry listed)
  have sorted : (filesBelow exclude globs (.directory items)).Pairwise (· ≤ ·) := pairwise_mergeSort_key id _
  exact (sorted.and ((List.mergeSort_perm _ _).nodup_iff.2 nodup)).imp fun both => lt_of_le_of_ne both.1 both.2

end

/-- What is found below a directory, file by file. -/
theorem Loader.discover_finds {disk : Disk} {root : String} {selection : Selection} {tree : Item}
    (here : disk.item? root = some tree) (is : tree.isDirectory = true) (sound : tree.IsTree)
    (valid : ∀ pattern ∈ selection.patterns, ∃ glob, Glob.parse (Selection.globText pattern) = .ok glob) :
    ∃ paths, discover disk root selection = .ok paths ∧ paths.Pairwise (· < ·) ∧
      ∀ path, path ∈ paths ↔ ∃ way content, tree.follow? way = some (.file content) ∧
        path = Path.ofSegments way ∧ selection.Finds way := by
  obtain ⟨globs, read, each⟩ := Selection.exists_globs valid
  obtain ⟨items, rfl⟩ := Item.exists_of_isDirectory is
  have found : discover disk root selection = .ok (Selection.filesBelow selection.exclude globs (.directory items)) := by
    rw [discover, read]
    dsimp only
    rw [discoverWith, here]
  refine ⟨_, found, Selection.filesBelow_sorted sound, fun path => (Selection.mem_filesBelow sound).trans ?_⟩
  constructor
  · rintro ⟨way, content, leads, takes, is⟩
    exact ⟨way, content, leads, is, (Selection.takes_iff_finds (sound.names leads) each).1 takes⟩
  · rintro ⟨way, content, leads, is, finds⟩
    exact ⟨way, content, leads, (Selection.takes_iff_finds (sound.names leads) each).2 finds, is⟩

/-- A directory with code that is generated, vendored or hidden. -/
def serviceTree : Item :=
  .directory [("main.go", .file (.text "package main\n")), ("README.md", .file (.text "")),
    (".git", .directory [("hook.go", .file .binary)]), ("vendor", .directory [("log.go", .file .binary)]),
    ("store", .directory [("store.go", .file (.text "package store\n")), (".go", .file .binary),
      ("deep", .directory [("deep.go", .file (.text "package deep\n"))]),
      ("gen", .directory [("gen.go", .file (.text "package gen\n"))])])]

theorem serviceTree_isTree : serviceTree.IsTree := by
  have sole : ∀ (name : String) (content : Content), IsFileName name → (Item.directory [(name, .file content)]).IsTree :=
    fun name content is => .directory (by simpa using is) (by simp) (by simpa using .file content)
  have store : (Item.directory [("store.go", .file (.text "package store\n")), (".go", .file .binary),
      ("deep", .directory [("deep.go", .file (.text "package deep\n"))]),
      ("gen", .directory [("gen.go", .file (.text "package gen\n"))])]).IsTree := by
    refine .directory (by decide) (by decide) ?_
    simp only [List.forall_mem_cons]
    exact ⟨.file _, .file _, sole _ _ (by decide), sole _ _ (by decide), by simp⟩
  refine .directory (by decide) (by decide) ?_
  simp only [List.forall_mem_cons]
  exact ⟨.file _, .file _, sole _ _ (by decide), sole _ _ (by decide), store, by simp⟩

theorem Loader.discover_finds_serviceTree :
    (Disk.mk serviceTree []).item? "/" = some serviceTree ∧ serviceTree.isDirectory = true ∧ serviceTree.IsTree ∧
      (∀ pattern ∈ ["./store/...", "main.go"], ∃ glob, Glob.parse (Selection.globText pattern) = .ok glob) ∧
      ∃ paths, discover ⟨serviceTree, []⟩ "/" ⟨["./store/...", "main.go"], ["./store/gen/"]⟩ = .ok paths ∧
        paths.Pairwise (· < ·) ∧ ∀ path, path ∈ paths ↔ ∃ way content,
          serviceTree.follow? way = some (.file content) ∧ path = Path.ofSegments way ∧
            (Selection.mk ["./store/...", "main.go"] ["./store/gen/"]).Finds way := by
  have here : (Disk.mk serviceTree []).item? "/" = some serviceTree := by
    have segments : Path.segments "/" = ["", ""] := by decide +kernel
    have absolute : Path.isAbsolute "/" = true := by decide +kernel
    simp [Disk.item?, Disk.way?, segments, absolute, Disk.wayFrom?, Item.follow?, serviceTree, Path.isIdle]
  have valid : ∀ pattern ∈ ["./store/...", "main.go"], ∃ glob, Glob.parse (Selection.globText pattern) = .ok glob := by
    have parsed : ∀ pattern ∈ ["./store/...", "main.go"], (Glob.parse (Selection.globText pattern)).isOk = true := by
      decide +kernel
    exact fun pattern member => exists_of_isOk (parsed pattern member)
  exact ⟨here, rfl, serviceTree_isTree, valid, discover_finds here rfl serviceTree_isTree valid⟩

end TraceWeave
