import TraceWeave.Proofs.Discovery
import TraceWeave.Proofs.Glob

/-!
Package patterns. A pattern asks for a directory, for everything below one or for a file; it is turned into a
glob, and the glob matches what was asked for, whatever the names in the pattern and in the path.
-/
namespace TraceWeave

open Glob (slash bytes IsPlain EndsInGo)

namespace Selection

/-- What a package pattern asks for. The empty list of names is the root. -/
inductive Target where
  | everything
  | below (parts : List String)
  | directory (parts : List String)
  | file (parts : List String)

/-- Whether the file at the end of a way is asked for. -/
def Target.Holds (way : List String) : Target → Prop
  | .everything => True
  | .below parts => parts <+: way.dropLast
  | .directory parts => way.dropLast = parts
  | .file parts => way = parts

/-- Directories and files as patterns name them, without `./` before them. -/
structure IsRelative (parts : List String) : Prop where
  filled : parts ≠ []
  names : ∀ name ∈ parts, IsFileName name
  plain : ∀ name ∈ parts, ∀ c ∈ name.toList, Text.isBlank c = false ∧ IsPlain c
  /-- `./` before a path is no part of it. -/
  first : parts.head? ≠ some "."

/-- How a pattern spells what it asks for, `./` before it apart. -/
inductive Spells : String → Target → Prop
  | nothing : Spells "" (.directory [])
  | dot : Spells "." (.directory [])
  | everything : Spells "..." .everything
  | below {parts : List String} (is : IsRelative parts) : Spells (Path.ofSegments parts ++ "/...") (.below parts)
  | slashed {parts : List String} (is : IsRelative parts) : Spells (Path.ofSegments parts ++ "/") (.directory parts)
  /-- With `...` at its end it would be the pattern for everything below a directory. -/
  | directory {parts : List String} (is : IsRelative parts) (last : parts.getLast? ≠ some "...")
      (other : ∀ stem, Path.ofSegments parts ≠ stem ++ ".go") : Spells (Path.ofSegments parts) (.directory parts)
  | file {parts : List String} {stem : String} (is : IsRelative parts) (named : Path.ofSegments parts = stem ++ ".go") :
      Spells (Path.ofSegments parts) (.file parts)

/-- Whether a pattern asks for something; any number of `./` may stand before it. -/
def Asks (pattern : String) (target : Target) : Prop :=
  ∃ (dots : Nat) (core : String), Spells core target ∧
    pattern.toList = (List.replicate dots ['.', '/']).flatten ++ core.toList

/-- The glob for what is asked for. -/
def Target.glob : Target → String
  | .everything => "**/*.go"
  | .below parts => Path.ofSegments parts ++ "/**/*.go"
  | .directory [] => "*.go"
  | .directory parts => Path.ofSegments parts ++ "/*.go"
  | .file parts => Path.ofSegments parts

variable {pattern core : String} {target : Target} {parts way above : List String} {stem : String}

/-! From patterns to globs. -/

theorem IsRelative.clear (is : IsRelative parts) : ∀ name ∈ parts, '/' ∉ name.toList :=
  fun name member => (is.names name member).2

theorem IsRelative.segments (is : IsRelative parts) : Path.segments (Path.ofSegments parts) = parts :=
  Path.segments_ofSegments is.filled is.clear

/-- A path is made of what its names are made of, and of slashes. -/
theorem forall_ofSegments {test : Char → Prop} (each : ∀ name ∈ parts, ∀ c ∈ name.toList, test c) (between : test '/') :
    ∀ c ∈ (Path.ofSegments parts).toList, test c := by
  induction parts with
  | nil => simp [Path.ofSegments, Text.joinWith]
  | cons name parts ih =>
      obtain ⟨here, each⟩ := List.forall_mem_cons.1 each
      by_cases sole : parts = []
      · subst sole
        rwa [Path.ofSegments_single]
      · rw [← List.singleton_append, Path.ofSegments_append (List.cons_ne_nil _ _) sole, Path.ofSegments_single]
        simp only [String.toList_append, List.forall_mem_append]
        exact ⟨⟨here, by simpa using between⟩, ih each⟩

theorem IsRelative.splitOn (is : IsRelative parts) :
    (Path.ofSegments parts).toList.splitOn '/' = parts.map String.toList := by
  have cut := congrArg (List.map String.toList) is.segments
  rw [Path.segments, Text.splitAt, List.map_map] at cut
  simpa [Function.comp_def] using cut

/-- A path that is named without `./` does not begin with it, whatever stands behind a slash. -/
theorem IsRelative.not_dots (is : IsRelative parts) {behind : List Char}
    (apart : behind = [] ∨ behind.head? = some '/') : ¬ ['.', '/'] <+: (Path.ofSegments parts).toList ++ behind := by
  have whole : ∃ more, ((Path.ofSegments parts).toList ++ behind).splitOn '/' = parts.map String.toList ++ more := by
    rcases apart with rfl | slash
    · exact ⟨[], by rw [List.append_nil, List.append_nil, is.splitOn]⟩
    · obtain ⟨behind, rfl⟩ := List.head?_eq_some_iff.1 slash
      exact ⟨behind.splitOn '/', by rw [List.splitOn_append_cons_self, is.splitOn]⟩
  rintro ⟨rest, split⟩
  obtain ⟨more, whole⟩ := whole
  have start : (['.', '/'] ++ rest).splitOn '/' = [['.']] ++ rest.splitOn '/' :=
    List.splitOn_append_cons_self ['.'] rest
  obtain ⟨name, parts, rfl⟩ := List.exists_cons_of_ne_nil is.filled
  rw [← split, start] at whole
  have same : ".".toList = name.toList := (List.cons.inj whole).1
  exact is.first (congrArg some (String.toList_inj.1 same).symm)

theorem Spells.not_dots (spells : Spells core target) : ¬ ['.', '/'] <+: core.toList := by
  cases spells with
  | nothing => decide
  | dot => decide
  | everything => decide
  | below is => exact String.toList_append ▸ is.not_dots (.inr rfl)
  | slashed is => exact String.toList_append ▸ is.not_dots (.inr rfl)
  | directory is => exact List.append_nil (Path.ofSegments _).toList ▸ is.not_dots (.inl rfl)
  | file is => exact List.append_nil (Path.ofSegments _).toList ▸ is.not_dots (.inl rfl)

theorem Spells.unblank (spells : Spells core target) : ∀ c ∈ core.toList, Text.isBlank c = false := by
  have path : ∀ {parts}, IsRelative parts → ∀ c ∈ (Path.ofSegments parts).toList, Text.isBlank c = false :=
    fun is => forall_ofSegments (fun name member c inside => (is.plain name member c inside).1) (by decide)
  cases spells with
  | nothing => exact Text.forall_mem_of_all (by decide)
  | dot => exact Text.forall_mem_of_all (by decide)
  | everything => exact Text.forall_mem_of_all (by decide)
  | below is =>
      rw [String.toList_append, List.forall_mem_append]
      exact ⟨path is, Text.forall_mem_of_all (by decide)⟩
  | slashed is =>
      rw [String.toList_append, List.forall_mem_append]
      exact ⟨path is, Text.forall_mem_of_all (by decide)⟩
  | directory is => exact path is
  | file is => exact path is

theorem Asks.bare (asks : Asks pattern target) :
    ∃ core, Spells core target ∧ Text.dropRepeats "./" (Text.trim pattern) = core := by
  obtain ⟨dots, core, spells, split⟩ := asks
  have unblank : ∀ c ∈ pattern.toList, Text.isBlank c = false := by
    rw [split]
    refine List.forall_mem_append.2 ⟨fun c member => ?_, spells.unblank⟩
    obtain ⟨part, listed, inside⟩ := List.mem_flatten.1 member
    rw [List.eq_of_mem_replicate listed] at inside
    have unblank : ∀ c ∈ ['.', '/'], Text.isBlank c = false := Text.forall_mem_of_all (by decide)
    exact unblank c inside
  have trimmed : Text.trim pattern = pattern :=
    Text.trim_eq [] [] (by simp) (by simp) (by simp)
      (fun c first => unblank c (List.mem_of_head? first)) fun c last => unblank c (List.mem_of_getLast? last)
  refine ⟨core, spells, ?_⟩
  rw [trimmed]
  exact (Text.dropRepeats_eq_iff (by decide)).2 ⟨dots, split, spells.not_dots⟩

theorem IsRelative.last_ne_slash (is : IsRelative parts) : (Path.ofSegments parts).toList.getLast? ≠ some '/' := by
  intro last
  obtain ⟨front, split⟩ := List.getLast?_eq_some_iff.1 last
  have cut := is.splitOn
  rw [split, List.splitOn_append_cons_self] at cut
  have empty : [] ∈ parts.map String.toList := by
    rw [← cut]
    exact List.mem_append_right _ List.mem_cons_self
  obtain ⟨name, listed, none⟩ := List.mem_map.1 empty
  exact (is.names name listed).1 (String.toList_eq_nil_iff.1 none)

theorem IsRelative.ne_of_head {name : String} (is : IsRelative parts) (clear : '/' ∉ name.toList)
    (other : parts ≠ [name]) : Path.ofSegments parts ≠ name := by
  intro same
  have cut := is.segments
  rw [same, ← Path.ofSegments_single name, Path.segments_ofSegments (by simp) (by simpa using clear)] at cut
  exact other cut.symm

theorem IsRelative.last_of_append {rest : String} (is : IsRelative parts)
    (split : Path.ofSegments parts = rest ++ "/...") : parts.getLast? = some "..." := by
  have chars : (Path.ofSegments parts).toList = rest.toList ++ '/' :: "...".toList := by
    rw [split, String.toList_append]
    rfl
  have cut := is.splitOn
  have sole : "...".toList.splitOn '/' = ["...".toList] := List.splitOn_eq_singleton (by decide)
  rw [chars, List.splitOn_append_cons_self, sole] at cut
  have last := congrArg List.getLast? cut
  rw [List.getLast?_concat, List.getLast?_map] at last
  obtain ⟨name, is, same⟩ := Option.map_eq_some_iff.1 last.symm
  rw [is, String.toList_inj.1 same]

theorem IsRelative.glob_directory (is : IsRelative parts) :
    Path.ofSegments parts ++ "/*.go" = (Target.directory parts).glob := by
  obtain ⟨name, parts, rfl⟩ := List.exists_cons_of_ne_nil is.filled
  rfl

/-- A path ends with a name, so there is no slash to take off. -/
theorem IsRelative.dropEnd_slash (is : IsRelative parts) (slashes : List Char) (each : ∀ c ∈ slashes, c = '/') :
    Text.dropEnd (· == '/') (Path.ofSegments parts ++ String.ofList slashes) = Path.ofSegments parts := by
  refine Text.dropEnd_eq_iff.2 ⟨slashes, by simp, fun c member => beq_of_eq (each c member), fun c last => ?_⟩
  exact beq_eq_false_iff_ne.2 fun same => is.last_ne_slash (same ▸ last)

theorem globText_eq (bare : Text.dropRepeats "./" (Text.trim pattern) = core) (filled : core ≠ "") (dot : core ≠ ".")
    (dots : core ≠ "...") : globText pattern = match Text.before? "/..." core with
      | some directory => directory ++ "/**/*.go"
      | none => if Text.finishesWith core ".go" then core else Text.dropEnd (· == '/') core ++ "/*.go" := by
  unfold globText
  rw [bare]
  dsimp only
  have named : ¬ (core == "" || core == ".") = true := by simp [filled, dot]
  have other : ¬ (core == "...") = true := by simpa using dots
  exact (if_neg named).trans (if_neg other)

theorem ne_of_slash {text : String} (member : '/' ∈ text.toList) : text ≠ "" ∧ text ≠ "." ∧ text ≠ "..." := by
  refine ⟨?_, ?_, ?_⟩ <;> rintro rfl <;> exact absurd member (by decide)

/-- Texts that end differently. -/
theorem append_ne {front back front' back' : String} (some : back ≠ "") (some' : back' ≠ "")
    (other : back.toList.getLast? ≠ back'.toList.getLast?) : front ++ back ≠ front' ++ back' := by
  intro same
  have last := congrArg (·.toList.getLast?) same
  have filled : back.toList ≠ [] := by simpa using some
  have filled' : back'.toList ≠ [] := by simpa using some'
  simp only [String.toList_append, List.getLast?_append, List.getLast?_eq_some_getLast filled,
    List.getLast?_eq_some_getLast filled', Option.some_or] at last
  rw [← List.getLast?_eq_some_getLast filled, ← List.getLast?_eq_some_getLast filled'] at last
  exact other last

theorem globText_below (bare : Text.dropRepeats "./" (Text.trim pattern) = Path.ofSegments parts ++ "/...") :
    globText pattern = Target.glob (.below parts) := by
  have slashed : '/' ∈ (Path.ofSegments parts ++ "/...").toList := by simp
  obtain ⟨filled, dot, dots⟩ := ne_of_slash slashed
  rw [globText_eq bare filled dot dots, Text.before?_append]
  rfl

section

variable (is : IsRelative parts)
include is

theorem globText_slashed (bare : Text.dropRepeats "./" (Text.trim pattern) = Path.ofSegments parts ++ "/") :
    globText pattern = Target.glob (.directory parts) := by
  have slashed : '/' ∈ (Path.ofSegments parts ++ "/").toList := by simp
  obtain ⟨filled, dot, dots⟩ := ne_of_slash slashed
  have below : Text.before? "/..." (Path.ofSegments parts ++ "/") = none :=
    Text.before?_eq_none fun rest => append_ne (by decide) (by decide) (by decide)
  have goFile : ¬ Text.finishesWith (Path.ofSegments parts ++ "/") ".go" = true := by
    rw [Text.finishesWith_iff]
    exact fun ⟨stem, same⟩ => append_ne (by decide) (by decide) (by decide) same
  have unslashed : Text.dropEnd (· == '/') (Path.ofSegments parts ++ "/") = Path.ofSegments parts :=
    is.dropEnd_slash ['/'] (by simp)
  rw [globText_eq bare filled dot dots, below]
  dsimp only
  rw [if_neg goFile, unslashed, is.glob_directory]

theorem globText_directory (bare : Text.dropRepeats "./" (Text.trim pattern) = Path.ofSegments parts)
    (last : parts.getLast? ≠ some "...") (other : ∀ stem, Path.ofSegments parts ≠ stem ++ ".go") :
    globText pattern = Target.glob (.directory parts) := by
  have filled : Path.ofSegments parts ≠ "" := Path.ofSegments_ne_empty is.filled is.names
  have dot : Path.ofSegments parts ≠ "." := is.ne_of_head (by decide) (by rintro rfl; exact is.first rfl)
  have dots : Path.ofSegments parts ≠ "..." := is.ne_of_head (by decide) (by rintro rfl; exact last rfl)
  have below : Text.before? "/..." (Path.ofSegments parts) = none :=
    Text.before?_eq_none fun rest split => last (is.last_of_append split)
  have goFile : ¬ Text.finishesWith (Path.ofSegments parts) ".go" = true := by
    rw [Text.finishesWith_iff]
    exact fun ⟨stem, same⟩ => other stem same
  have unslashed : Text.dropEnd (· == '/') (Path.ofSegments parts) = Path.ofSegments parts := by
    simpa using is.dropEnd_slash [] (by simp)
  rw [globText_eq bare filled dot dots, below]
  dsimp only
  rw [if_neg goFile, unslashed, is.glob_directory]

theorem globText_file (bare : Text.dropRepeats "./" (Text.trim pattern) = Path.ofSegments parts)
    (named : Path.ofSegments parts = stem ++ ".go") : globText pattern = Target.glob (.file parts) := by
  have apart : ∀ front back : String, back ≠ "" → back.toList.getLast? ≠ some 'o' →
      Path.ofSegments parts ≠ front ++ back :=
    fun front back some other => named ▸ append_ne (by decide) some (Ne.symm other)
  have filled : Path.ofSegments parts ≠ "" := Path.ofSegments_ne_empty is.filled is.names
  have dot : Path.ofSegments parts ≠ "." := apart "" "." (by decide) (by decide)
  have dots : Path.ofSegments parts ≠ "..." := apart "" "..." (by decide) (by decide)
  have below : Text.before? "/..." (Path.ofSegments parts) = none :=
    Text.before?_eq_none fun rest => apart rest _ (by decide) (by decide)
  rw [globText_eq bare filled dot dots, below]
  dsimp only
  rw [if_pos (Text.finishesWith_iff.2 ⟨stem, named⟩)]
  rfl

end

/-- A pattern is turned into the glob for what it asks for. -/
theorem Asks.globText_eq (asks : Asks pattern target) : globText pattern = target.glob := by
  obtain ⟨core, spells, bare⟩ := asks.bare
  cases spells with
  | nothing =>
      unfold globText
      rw [bare]
      rfl
  | dot =>
      unfold globText
      rw [bare]
      rfl
  | everything =>
      unfold globText
      rw [bare]
      rfl
  | below is => exact globText_below bare
  | slashed is => exact globText_slashed is bare
  | directory is last other => exact globText_directory is bare last other
  | file is named => exact globText_file is bare named

/-! From globs to files. -/

theorem IsRelative.plainPath (is : IsRelative parts) : ∀ c ∈ (Path.ofSegments parts).toList, IsPlain c :=
  forall_ofSegments (fun name member c inside => (is.plain name member c inside).2) (by decide)

theorem map_bytes_inj : ∀ {parts parts' : List String}, parts.map bytes = parts'.map bytes → parts = parts' :=
  fun same => List.map_injective_iff.2 (fun _ _ => Glob.bytes_inj.1) same

theorem notMem_front {front : List UInt8} (clear : slash ∉ front) : slash ∉ front ++ bytes ".go" := by
  rw [List.mem_append, not_or, Glob.slash_mem_bytes]
  exact ⟨clear, by decide⟩

theorem endsInGo_path (above : List String) (clear : '/' ∉ stem.toList) :
    EndsInGo (bytes (Path.ofSegments (above ++ [stem ++ ".go"]))) := by
  refine ⟨bytes stem, fun member => clear (Glob.slash_mem_bytes.1 member), ?_⟩
  by_cases top : above = []
  · left
    rw [top, List.nil_append, Path.ofSegments_single, Glob.bytes_append]
  · right
    refine ⟨bytes (Path.ofSegments above), ?_⟩
    rw [Path.ofSegments_append top (List.cons_ne_nil _ _), Path.ofSegments_single]
    simp only [Glob.bytes_append, Glob.bytes_slash, List.append_assoc, List.singleton_append]

section

variable (names : ∀ name ∈ above ++ [stem ++ ".go"], IsFileName name)
include names

theorem splitOn_path : (bytes (Path.ofSegments (above ++ [stem ++ ".go"]))).splitOn slash =
    above.map bytes ++ [bytes stem ++ bytes ".go"] := by
  rw [Glob.splitOn_bytes (by simp) fun name member => (names name member).2, List.map_append, List.map_singleton,
    Glob.bytes_append]

theorem slash_notMem_stem : '/' ∉ stem.toList := by
  have clear := (names (stem ++ ".go") (by simp)).2
  rw [String.toList_append, List.mem_append, not_or] at clear
  exact clear.1

/-- The glob for what is asked for matches a file if it is asked for. -/
theorem exists_everything : ∃ glob, Glob.parse (Target.glob .everything) = .ok glob ∧
    Glob.matchesPath glob (Path.ofSegments (above ++ [stem ++ ".go"])) = true := by
  obtain ⟨glob, read, matched⟩ := Glob.exists_leading
  exact ⟨glob, read, (matched _).2 (endsInGo_path above (slash_notMem_stem names))⟩

theorem exists_below (is : IsRelative parts) : ∃ glob, Glob.parse (Target.glob (.below parts)) = .ok glob ∧
    (Glob.matchesPath glob (Path.ofSegments (above ++ [stem ++ ".go"])) = true ↔ parts <+: above) := by
  obtain ⟨glob, read, matched⟩ := Glob.exists_between is.plainPath
  refine ⟨glob, read, (matched _).trans ?_⟩
  constructor
  · rintro ⟨back, split, _⟩
    have cut := splitOn_path names
    rw [split, List.splitOn_append_cons_self, Glob.splitOn_bytes is.filled is.clear] at cut
    -- something is left for the name of the file
    have shorter : (parts.map bytes).length ≤ (above.map bytes).length := by
      have some := List.length_pos_iff.2 (List.splitOn_ne_nil slash back)
      have lengths := congrArg List.length cut
      simp only [List.length_append, List.length_cons, List.length_nil] at lengths
      omega
    obtain ⟨more, same⟩ := List.prefix_of_prefix_length_le ⟨_, cut⟩ (List.prefix_append _ _) shorter
    obtain ⟨front, back, rfl, named, _⟩ := List.map_eq_append_iff.1 same.symm
    exact ⟨back, by rw [map_bytes_inj named]⟩
  · rintro ⟨more, rfl⟩
    refine ⟨_, ?_, endsInGo_path more (slash_notMem_stem names)⟩
    rw [List.append_assoc, Path.ofSegments_append is.filled (by simp)]
    simp only [Glob.bytes_append, Glob.bytes_slash, List.append_assoc, List.singleton_append]

theorem exists_root : ∃ glob, Glob.parse (Target.glob (.directory [])) = .ok glob ∧
    (Glob.matchesPath glob (Path.ofSegments (above ++ [stem ++ ".go"])) = true ↔ above = []) := by
  have plain : ∀ c ∈ "".toList, IsPlain c := by simp
  obtain ⟨glob, read, matched⟩ := Glob.exists_run plain
  refine ⟨glob, read, (matched _).trans ?_⟩
  rw [Glob.bytes_empty]
  simp only [List.nil_append]
  constructor
  · rintro ⟨front, split, clear⟩
    have cut := splitOn_path names
    rw [split, List.splitOn_eq_singleton (notMem_front clear)] at cut
    have lengths := congrArg List.length cut
    rw [List.length_append, List.length_map] at lengths
    exact List.length_eq_zero_iff.1 (by simpa using lengths)
  · rintro rfl
    refine ⟨bytes stem, ?_, mt Glob.slash_mem_bytes.1 (slash_notMem_stem names)⟩
    rw [List.nil_append, Path.ofSegments_single, Glob.bytes_append]

theorem exists_directory (is : IsRelative parts) : ∃ glob, Glob.parse (Target.glob (.directory parts)) = .ok glob ∧
    (Glob.matchesPath glob (Path.ofSegments (above ++ [stem ++ ".go"])) = true ↔ above = parts) := by
  have plain : ∀ c ∈ (Path.ofSegments parts ++ "/").toList, IsPlain c := by
    rw [String.toList_append, List.forall_mem_append]
    exact ⟨is.plainPath, Text.forall_mem_of_all (by decide)⟩
  obtain ⟨glob, read, matched⟩ := Glob.exists_run plain
  rw [String.append_assoc] at read
  refine ⟨glob, is.glob_directory ▸ read, (matched _).trans ?_⟩
  simp only [Glob.bytes_append, Glob.bytes_slash, List.append_assoc, List.singleton_append]
  constructor
  · rintro ⟨front, split, clear⟩
    have cut := splitOn_path names
    rw [split, List.splitOn_append_cons_self, Glob.splitOn_bytes is.filled is.clear,
      List.splitOn_eq_singleton (notMem_front clear)] at cut
    exact (map_bytes_inj (List.append_inj_left' cut rfl)).symm
  · rintro rfl
    refine ⟨bytes stem, ?_, mt Glob.slash_mem_bytes.1 (slash_notMem_stem names)⟩
    rw [Path.ofSegments_append is.filled (List.cons_ne_nil _ _), Path.ofSegments_single]
    simp only [Glob.bytes_append, Glob.bytes_slash, List.append_assoc, List.singleton_append]

theorem exists_file (is : IsRelative parts) : ∃ glob, Glob.parse (Target.glob (.file parts)) = .ok glob ∧
    (Glob.matchesPath glob (Path.ofSegments (above ++ [stem ++ ".go"])) = true ↔ above ++ [stem ++ ".go"] = parts) := by
  obtain ⟨glob, read, matched⟩ := Glob.exists_plain is.plainPath
  refine ⟨glob, read, (matched _).trans ?_⟩
  exact ⟨Path.ofSegments_inj (by simp) is.filled names is.names, congrArg Path.ofSegments⟩

/-- What is asked for is what the glob of a pattern matches. -/
theorem Asks.exists_glob (asks : Asks pattern target) : ∃ glob, Glob.parse (globText pattern) = .ok glob ∧
    (Glob.matchesPath glob (Path.ofSegments (above ++ [stem ++ ".go"])) = true ↔
      target.Holds (above ++ [stem ++ ".go"])) := by
  rw [asks.globText_eq]
  obtain ⟨_, core, spells, _⟩ := asks
  simp only [Target.Holds, List.dropLast_concat]
  cases spells with
  | nothing => exact exists_root names
  | dot => exact exists_root names
  | everything =>
      obtain ⟨glob, read, matched⟩ := exists_everything names
      exact ⟨glob, read, iff_of_true matched trivial⟩
  | below is => exact exists_below names is
  | slashed is => exact exists_directory names is
  | directory is => exact exists_directory names is
  | file is => exact exists_file names is

end

/-- Package patterns select the files they ask for; no pattern at all selects every file. -/
theorem isSelected_iff_asks {patterns : List String} (grammar : ∀ pattern ∈ patterns, ∃ target, Asks pattern target)
    (names : ∀ name ∈ way, IsFileName name) (goFile : ∃ above stem, way = above ++ [stem ++ ".go"]) :
    ∃ globs, Selection.globs patterns = .ok globs ∧ (isSelected globs (Path.ofSegments way) = true ↔
      patterns = [] ∨ ∃ pattern ∈ patterns, ∃ target, Asks pattern target ∧ target.Holds way) := by
  obtain ⟨above, stem, rfl⟩ := goFile
  have valid : ∀ pattern ∈ patterns, ∃ glob, Glob.parse (globText pattern) = .ok glob := by
    intro pattern listed
    obtain ⟨target, asks⟩ := grammar pattern listed
    obtain ⟨glob, read, _⟩ := asks.exists_glob names
    exact ⟨glob, read⟩
  obtain ⟨globs, read, each⟩ := exists_globs valid
  refine ⟨globs, read, (isSelected_iff each).trans (or_congr_right ?_)⟩
  refine exists_congr fun pattern => and_congr_right fun listed => ?_
  constructor
  · rintro ⟨glob, parsed, matched⟩
    obtain ⟨target, asks⟩ := grammar pattern listed
    obtain ⟨glob', parsed', holds⟩ := asks.exists_glob names
    obtain rfl := Except.ok.inj (parsed.symm.trans parsed')
    exact ⟨target, asks, holds.1 matched⟩
  · rintro ⟨target, asks, holds⟩
    obtain ⟨glob, parsed, matched⟩ := asks.exists_glob names
    exact ⟨glob, parsed, matched.2 holds⟩

theorem isSelected_iff_asks_deepFile :
    (∀ pattern ∈ ["./store/...", "cmd/server/", "main.go", "."], ∃ target, Asks pattern target) ∧
      (∀ name ∈ ["store", "deep", "deep.go"], IsFileName name) ∧
      (∃ above stem, ["store", "deep", "deep.go"] = above ++ [stem ++ ".go"]) ∧
      ∃ globs, Selection.globs ["./store/...", "cmd/server/", "main.go", "."] = .ok globs ∧
        (isSelected globs (Path.ofSegments ["store", "deep", "deep.go"]) = true ↔
          ["./store/...", "cmd/server/", "main.go", "."] = [] ∨
            ∃ pattern ∈ ["./store/...", "cmd/server/", "main.go", "."], ∃ target, Asks pattern target ∧
              target.Holds ["store", "deep", "deep.go"]) := by
  have store : IsRelative ["store"] :=
    ⟨by decide, by decide, List.forall_mem_singleton.2 (Text.forall_mem_of_all (by decide)), by decide⟩
  have server : IsRelative ["cmd", "server"] :=
    ⟨by decide, by decide, List.forall_mem_cons.2 ⟨Text.forall_mem_of_all (by decide),
      List.forall_mem_singleton.2 (Text.forall_mem_of_all (by decide))⟩, by decide⟩
  have main : IsRelative ["main.go"] :=
    ⟨by decide, by decide, List.forall_mem_singleton.2 (Text.forall_mem_of_all (by decide)), by decide⟩
  have named : Path.ofSegments ["main.go"] = "main" ++ ".go" := by decide +kernel
  have grammar : ∀ pattern ∈ ["./store/...", "cmd/server/", "main.go", "."], ∃ target, Asks pattern target := by
    simp only [List.forall_mem_cons]
    refine ⟨⟨_, 1, _, .below store, by decide +kernel⟩, ⟨_, 0, _, .slashed server, by decide +kernel⟩,
      ⟨_, 0, _, .file main named, by decide +kernel⟩, ⟨_, 0, _, .dot, rfl⟩, by simp⟩
  have goFile : ∃ above stem, ["store", "deep", "deep.go"] = above ++ [stem ++ ".go"] :=
    ⟨["store", "deep"], "deep", by decide +kernel⟩
  exact ⟨grammar, by decide, goFile, isSelected_iff_asks grammar (by decide) goFile⟩

/-- The empty list of patterns asks for nothing, and every file is selected. -/
theorem noPattern_selectsAll : ¬ ∀ (patterns way : List String), (∀ pattern ∈ patterns, ∃ target, Asks pattern target) →
    (∀ name ∈ way, IsFileName name) → (∃ above stem, way = above ++ [stem ++ ".go"]) →
    ∃ globs, Selection.globs patterns = .ok globs ∧ (isSelected globs (Path.ofSegments way) = true ↔
      ∃ pattern ∈ patterns, ∃ target, Asks pattern target ∧ target.Holds way) := by
  intro claim
  obtain ⟨globs, read, selected⟩ := claim [] ["main.go"] (by simp) (by decide) ⟨[], "main", by decide +kernel⟩
  cases read
  obtain ⟨pattern, listed, _⟩ := selected.1 rfl
  exact List.not_mem_nil listed

end Selection
end TraceWeave
