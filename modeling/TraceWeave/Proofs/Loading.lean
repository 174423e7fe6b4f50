import Mathlib.Data.List.Induction
import Mathlib.Data.List.Sort
import TraceWeave.Proofs.Discovery
import TraceWeave.Proofs.SoleFile

/-!
Loading. Files are gathered by directory and package name, and the packages, once in order, lay out the files
of a program: no file gets lost on this way, and none comes in twice. Where a file cannot be taken in, the
first one is named.
-/
namespace TraceWeave

namespace Program

variable {program : Program} {number index : Nat}

theorem mem_filesOf :
    index ∈ program.filesOf number ↔ ∃ file, program.files[index]? = some file ∧ file.package = number := by
  rw [filesOf, List.mem_filter, List.mem_range, beq_iff_eq, Option.map_eq_some_iff]
  refine and_iff_right_of_imp ?_
  rintro ⟨file, here, _⟩
  exact (List.getElem?_eq_some_iff.1 here).1

/-- Where packages follow each other, the files of all packages are the files of the program, one after the other. -/
theorem filesOf_consecutive (inside : ∀ file ∈ program.files, file.package < program.packages.length)
    (sorted : program.files.Pairwise fun a b => a.package ≤ b.package) :
    (List.range program.packages.length).flatMap program.filesOf = List.range program.files.length := by
  have ordered : ((List.range program.packages.length).flatMap program.filesOf).Pairwise (· < ·) := by
    refine List.pairwise_flatMap.2 ⟨fun number _ => List.Pairwise.filter _ List.pairwise_lt_range, ?_⟩
    refine List.pairwise_lt_range.imp fun {number number'} before index member index' member' => ?_
    obtain ⟨file, here, rfl⟩ := mem_filesOf.1 member
    obtain ⟨file', here', rfl⟩ := mem_filesOf.1 member'
    obtain ⟨bound, rfl⟩ := List.getElem?_eq_some_iff.1 here
    obtain ⟨bound', rfl⟩ := List.getElem?_eq_some_iff.1 here'
    rcases lt_trichotomy index index' with less | rfl | more
    · exact less
    · exact absurd before (lt_irrefl _)
    · exact absurd (List.pairwise_iff_getElem.1 sorted index' index bound' bound more) (not_le.2 before)
  refine ordered.eq_of_mem_iff List.pairwise_lt_range fun index => ?_
  rw [List.mem_flatMap, List.mem_range]
  constructor
  · rintro ⟨number, _, member⟩
    obtain ⟨file, here, _⟩ := mem_filesOf.1 member
    exact (List.getElem?_eq_some_iff.1 here).1
  · intro bound
    have here := List.getElem?_eq_getElem bound
    exact ⟨_, List.mem_range.2 (inside _ (List.getElem_mem bound)), mem_filesOf.2 ⟨_, here, rfl⟩⟩

end Program

namespace Loader

/-! Files with one directory and package name. -/

/-- What the files of a package have in common. -/
def LoadedFile.key (file : LoadedFile) : String × String := (file.directory, file.package)

/-- What the files of a group have in common. -/
def Group.key (group : Group) : String × String := (group.directory, group.package)

variable {files : List LoadedFile} {file : LoadedFile} {groups : List Group} {group : Group}

theorem Group.isOf_iff :
    (group.directory == file.directory && group.package == file.package) = true ↔ group.key = file.key := by
  simp [Group.key, LoadedFile.key]

theorem Group.keys_add (file : LoadedFile) (groups : List Group) :
    (add file groups).map key = if file.key ∈ groups.map key then groups.map key else groups.map key ++ [file.key] := by
  induction groups with
  | nil => rfl
  | cons head groups ih =>
      rw [add]
      by_cases here : head.key = file.key
      · rw [if_pos (isOf_iff.2 here), if_pos (by simp [here])]
        rfl
      · have elsewhere : file.key ∈ (head :: groups).map key ↔ file.key ∈ groups.map key := by
          rw [List.map_cons, List.mem_cons, or_iff_right (Ne.symm here)]
        rw [if_neg (mt isOf_iff.1 here), List.map_cons, ih]
        by_cases known : file.key ∈ groups.map key
        · rw [if_pos known, if_pos (elsewhere.2 known)]
          rfl
        · rw [if_neg known, if_neg (mt elsewhere.1 known)]
          rfl

theorem Group.mem_add (once : (groups.map key).Nodup) (member : group ∈ add file groups) :
    (group ∈ groups ∧ group.key ≠ file.key) ∨
    (group.key = file.key ∧ group.sources = [file.source] ∧ file.key ∉ groups.map key) ∨
    ∃ old ∈ groups, old.key = file.key ∧ group.key = file.key ∧ group.sources = old.sources ++ [file.source] := by
  induction groups with
  | nil =>
      rw [add, List.mem_singleton] at member
      subst member
      exact .inr (.inl ⟨rfl, rfl, List.not_mem_nil⟩)
  | cons head groups ih =>
      rw [List.map_cons, List.nodup_cons] at once
      rw [add] at member
      by_cases here : head.key = file.key
      · rw [if_pos (isOf_iff.2 here)] at member
        rcases List.mem_cons.1 member with rfl | later
        · exact .inr (.inr ⟨head, List.mem_cons_self, here, here, rfl⟩)
        · refine .inl ⟨List.mem_cons_of_mem _ later, fun same => once.1 ?_⟩
          exact List.mem_map.2 ⟨group, later, same.trans here.symm⟩
      · rw [if_neg (mt isOf_iff.1 here)] at member
        rcases List.mem_cons.1 member with rfl | later
        · exact .inl ⟨List.mem_cons_self, here⟩
        · rcases ih once.2 later with ⟨listed, other⟩ | ⟨same, sole, fresh⟩ | ⟨old, listed, found⟩
          · exact .inl ⟨List.mem_cons_of_mem _ listed, other⟩
          · refine .inr (.inl ⟨same, sole, ?_⟩)
            rw [List.map_cons, List.mem_cons, not_or]
            exact ⟨Ne.symm here, fresh⟩
          · exact .inr (.inr ⟨old, List.mem_cons_of_mem _ listed, found⟩)

theorem Group.sources_add (file : LoadedFile) (groups : List Group) :
    ((add file groups).flatMap (·.sources)).Perm (groups.flatMap (·.sources) ++ [file.source]) := by
  induction groups with
  | nil => exact .refl _
  | cons head groups ih =>
      rw [add]
      split
      · simp only [List.flatMap_cons, List.append_assoc]
        exact .append_left _ List.perm_append_comm
      · rw [List.flatMap_cons, List.flatMap_cons, List.append_assoc]
        exact .append_left _ ih

/-- Groups of files: one for each key, with all files of that key in their order. -/
structure Gathers (files : List LoadedFile) (groups : List Group) : Prop where
  once : (groups.map Group.key).Nodup
  keys : ∀ key, key ∈ groups.map Group.key ↔ key ∈ files.map LoadedFile.key
  sources : ∀ group ∈ groups, group.sources = (files.filter (·.key == group.key)).map (·.source)
  whole : (groups.flatMap (·.sources)).Perm (files.map (·.source))

theorem Gathers.add (gathers : Gathers files groups) (file : LoadedFile) :
    Gathers (files ++ [file]) (Group.add file groups) := by
  refine ⟨?_, fun key => ?_, fun group member => ?_, ?_⟩
  · rw [Group.keys_add]
    split
    · exact gathers.once
    · rename_i fresh
      exact List.nodup_append.2 ⟨gathers.once, List.nodup_singleton _, fun key listed other same is =>
        fresh (List.mem_singleton.1 same ▸ is ▸ listed)⟩
  · rw [Group.keys_add, List.map_append, List.mem_append, ← gathers.keys, List.map_singleton, List.mem_singleton]
    split
    · rename_i known
      exact ⟨.inl, fun either => either.elim id fun is => is ▸ known⟩
    · rw [List.mem_append, List.mem_singleton]
  · rw [List.filter_append, List.map_append]
    rcases Group.mem_add gathers.once member with ⟨listed, other⟩ | ⟨same, sole, fresh⟩ | ⟨old, listed, is, same, more⟩
    · rw [gathers.sources group listed, List.filter_cons_of_neg (by simpa using Ne.symm other)]
      simp
    · have none : files.filter (·.key == group.key) = [] := by
        refine List.filter_eq_nil_iff.2 fun other listed is => fresh ?_
        rw [gathers.keys, ← same, ← eq_of_beq is]
        exact List.mem_map_of_mem listed
      rw [sole, none, List.filter_cons_of_pos (by simpa using same.symm)]
      rfl
    · rw [more, gathers.sources old listed, is, ← same, List.filter_cons_of_pos (by simpa using same.symm)]
      rfl
  · rw [List.map_append]
    exact (Group.sources_add file groups).trans (gathers.whole.append_right _)

theorem gathers_foldl_add (files : List LoadedFile) :
    Gathers files (files.foldl (fun groups file => Group.add file groups) []) := by
  induction files using List.reverseRec with
  | nil => exact ⟨List.nodup_nil, by simp, by simp, .refl _⟩
  | append_singleton files file ih =>
      rw [List.foldl_append]
      exact ih.add file

/-! Packages. -/

section

variable {modulePath : Option String} {a b c : Package} {parts : List (Package × List Source)}

/-- The package of a group with its files. -/
def Group.toPart (modulePath : Option String) (group : Group) : Package × List Source :=
  (group.toPackage modulePath, group.sources)

/-- Packages with their files, in the order of a program. -/
def partsOf (modulePath : Option String) (files : List LoadedFile) : List (Package × List Source) :=
  (((files.foldl (fun groups file => Group.add file groups) []).mergeSort Group.goesBefore).map
    (Group.toPart modulePath)).mergeSort fun a b => packageGoesBefore a.1 b.1

/-- Packages laid out one behind the other. -/
def layOut (modulePath : Option String) (parts : List (Package × List Source)) : Program :=
  { modulePath
    packages := parts.map (·.1)
    files := parts.zipIdx.flatMap fun ((_, sources), index) => sources.map fun source => ⟨source, index⟩ }

theorem assemble_eq (modulePath : Option String) (files : List LoadedFile) :
    assemble modulePath files = layOut modulePath (partsOf modulePath files) := rfl

theorem packageGoesBefore_iff :
    packageGoesBefore a b = true ↔ a.importPath < b.importPath ∨ a.importPath = b.importPath ∧ a.name ≤ b.name := by
  simp [packageGoesBefore]

theorem packageGoesBefore_trans (first : packageGoesBefore a b = true) (second : packageGoesBefore b c = true) :
    packageGoesBefore a c = true := by
  rw [packageGoesBefore_iff] at *
  rcases first with first | ⟨same, first⟩
  · rcases second with second | ⟨same, second⟩
    · exact .inl (first.trans second)
    · exact .inl (same ▸ first)
  · rcases second with second | ⟨same', second⟩
    · exact .inl (same ▸ second)
    · exact .inr ⟨same.trans same', first.trans second⟩

theorem packageGoesBefore_total (a b : Package) : (packageGoesBefore a b || packageGoesBefore b a) = true := by
  rw [Bool.or_eq_true, packageGoesBefore_iff, packageGoesBefore_iff]
  rcases lt_trichotomy a.importPath b.importPath with first | same | first
  · exact .inl (.inl first)
  · exact (le_total a.name b.name).imp (fun le => .inr ⟨same, le⟩) fun le => .inr ⟨same.symm, le⟩
  · exact .inr (.inl first)

theorem partsOf_perm (modulePath : Option String) (files : List LoadedFile) :
    (partsOf modulePath files).Perm
      ((files.foldl (fun groups file => Group.add file groups) []).map (Group.toPart modulePath)) :=
  (List.mergeSort_perm _ _).trans ((List.mergeSort_perm _ _).map _)

theorem partsOf_sorted (modulePath : Option String) (files : List LoadedFile) :
    (partsOf modulePath files).Pairwise fun a b => packageGoesBefore a.1 b.1 = true := by
  unfold partsOf
  apply List.pairwise_mergeSort
  · exact fun a b c => packageGoesBefore_trans
  · exact fun a b => packageGoesBefore_total a.1 b.1

/-- What is known of packages with their files. -/
structure ArePartsOf (modulePath : Option String) (files : List LoadedFile) (parts : List (Package × List Source)) :
    Prop where
  once : (parts.map fun part => (part.1.dir, part.1.name)).Nodup
  sources : ∀ part ∈ parts, part.2 = (files.filter (·.key == (part.1.dir, part.1.name))).map (·.source)
  filled : ∀ part ∈ parts, part.2 ≠ []
  whole : (parts.flatMap (·.2)).Perm (files.map (·.source))
  isTest : ∀ part ∈ parts, part.1.isTest = (Text.finishesWith part.1.name "_test" && part.2.all Source.isTest)
  importPath : ∀ part ∈ parts,
    part.1.importPath = importPathOf modulePath part.1.dir ++ if part.1.isTest then "_test" else ""
  order : parts.Pairwise fun a b => packageGoesBefore a.1 b.1 = true

theorem partsOf_areParts (modulePath : Option String) (files : List LoadedFile) :
    ArePartsOf modulePath files (partsOf modulePath files) := by
  have gathers := gathers_foldl_add files
  have perm := partsOf_perm modulePath files
  have each : ∀ part ∈ partsOf modulePath files, ∃ group,
      group ∈ files.foldl (fun groups file => Group.add file groups) [] ∧ group.toPart modulePath = part :=
    fun part member => List.mem_map.1 (perm.mem_iff.1 member)
  refine {
    once := ?once, sources := ?sources, filled := ?filled, whole := ?whole, isTest := ?isTest, importPath := ?importPath
    order := partsOf_sorted _ _ }
  case once =>
    have keys := perm.map fun part => (part.1.dir, part.1.name)
    rw [List.map_map] at keys
    exact keys.nodup_iff.2 gathers.once
  case sources =>
    intro part member
    obtain ⟨group, listed, rfl⟩ := each part member
    exact gathers.sources group listed
  case filled =>
    intro part member empty
    obtain ⟨group, listed, rfl⟩ := each part member
    obtain ⟨file, inside, same⟩ := List.mem_map.1 ((gathers.keys group.key).1 (List.mem_map_of_mem listed))
    have sources := (gathers.sources group listed).symm.trans empty
    rw [List.map_eq_nil_iff, List.filter_eq_nil_iff] at sources
    exact sources file inside (by simpa using same)
  case whole =>
    have sources := perm.flatMap_right (·.2)
    rw [List.flatMap_map] at sources
    exact sources.trans gathers.whole
  case isTest =>
    intro part member
    obtain ⟨group, listed, rfl⟩ := each part member
    rfl
  case importPath =>
    intro part member
    obtain ⟨group, listed, rfl⟩ := each part member
    change (if group.isTest then _ else _) =
      importPathOf modulePath group.directory ++ if group.isTest then "_test" else ""
    split
    · rfl
    · exact String.append_empty.symm

/-! The layout of a program. -/

variable {number index : Nat} {entry : ProgramFile}

theorem mem_layOut : entry ∈ (layOut modulePath parts).files ↔
    ∃ part, parts[entry.package]? = some part ∧ entry.source ∈ part.2 := by
  rw [layOut, List.mem_flatMap]
  constructor
  · rintro ⟨⟨part, index⟩, listed, member⟩
    obtain ⟨source, inside, rfl⟩ := List.mem_map.1 member
    exact ⟨part, List.mem_zipIdx_iff_getElem?.1 listed, inside⟩
  · rintro ⟨part, here, inside⟩
    exact ⟨(part, entry.package), List.mem_zipIdx_iff_getElem?.2 here, List.mem_map.2 ⟨entry.source, inside, rfl⟩⟩

theorem sources_layOut (modulePath : Option String) (parts : List (Package × List Source)) :
    (layOut modulePath parts).files.map (·.source) = parts.flatMap (·.2) := by
  have each : ∀ entry : (Package × List Source) × Nat,
      (entry.1.2.map fun source => ProgramFile.mk source entry.2).map (·.source) = entry.1.2 :=
    fun entry => by rw [List.map_map]; exact List.map_id _
  rw [layOut, List.map_flatMap, List.flatMap_congr fun entry _ => each entry]
  have apart : parts.zipIdx.flatMap (fun entry => entry.1.2) = (parts.zipIdx.map (·.1)).flatMap (·.2) := by
    rw [List.flatMap_map]
  rw [apart, List.zipIdx_map_fst]

theorem package?_layOut {package : Package} :
    (layOut modulePath parts).package? number = some package ↔ ∃ sources, parts[number]? = some (package, sources) := by
  rw [Program.package?, layOut, List.getElem?_map, Option.map_eq_some_iff]
  constructor
  · rintro ⟨⟨package, sources⟩, here, rfl⟩
    exact ⟨sources, here⟩
  · rintro ⟨sources, here⟩
    exact ⟨_, here, rfl⟩

theorem ArePartsOf.placed (areParts : ArePartsOf modulePath files parts) (member : entry ∈ (layOut modulePath parts).files) :
    ∃ package, (layOut modulePath parts).package? entry.package = some package ∧
      ∃ file ∈ files, file.source = entry.source ∧ file.key = (package.dir, package.name) := by
  obtain ⟨⟨package, sources⟩, here, inside⟩ := mem_layOut.1 member
  rw [areParts.sources _ (List.mem_of_getElem? here)] at inside
  obtain ⟨file, chosen, same⟩ := List.mem_map.1 inside
  obtain ⟨listed, key⟩ := List.mem_filter.1 chosen
  exact ⟨package, package?_layOut.2 ⟨_, here⟩, file, listed, same, eq_of_beq key⟩

/-- Each file that is taken in has its place. -/
theorem ArePartsOf.paths (areParts : ArePartsOf modulePath files parts) :
    ((layOut modulePath parts).files.map (·.source.path)).Perm (files.map (·.source.path)) := by
  have whole := areParts.whole.map Source.path
  rwa [← sources_layOut modulePath parts, List.map_map, List.map_map] at whole

/-- The directory and the name of a package tell its number. -/
theorem ArePartsOf.number_inj {package package' : Package} {number' : Nat} (areParts : ArePartsOf modulePath files parts)
    (here : (layOut modulePath parts).package? number = some package)
    (here' : (layOut modulePath parts).package? number' = some package') (directory : package.dir = package'.dir)
    (name : package.name = package'.name) : number = number' := by
  obtain ⟨sources, here⟩ := package?_layOut.1 here
  obtain ⟨sources', here'⟩ := package?_layOut.1 here'
  have inside : number < (parts.map fun part => (part.1.dir, part.1.name)).length := by
    rw [List.length_map]
    exact (List.getElem?_eq_some_iff.1 here).1
  refine (List.getElem?_inj inside areParts.once).1 ?_
  rw [List.getElem?_map, List.getElem?_map, here, here', Option.map_some, Option.map_some, directory, name]

theorem ArePartsOf.exists_file (areParts : ArePartsOf modulePath files parts)
    (inside : number < (layOut modulePath parts).packages.length) :
    ∃ entry ∈ (layOut modulePath parts).files, entry.package = number := by
  rw [layOut, List.length_map] at inside
  have here := List.getElem?_eq_getElem inside
  obtain ⟨source, member⟩ := List.exists_mem_of_ne_nil _ (areParts.filled _ (List.getElem_mem inside))
  exact ⟨⟨source, number⟩, mem_layOut.2 ⟨_, here, member⟩, rfl⟩

/-- Files stand in the order of their packages, and within one package in the order they have there. -/
theorem layOut_pairwise (order : Source → Source → Prop) (sorted : ∀ part ∈ parts, part.2.Pairwise order) :
    (layOut modulePath parts).files.Pairwise fun a b =>
      a.package < b.package ∨ a.package = b.package ∧ order a.source b.source := by
  rw [layOut, List.pairwise_flatMap]
  refine ⟨fun entry listed => ?_, ?_⟩
  · have inside := sorted entry.1 (List.fst_mem_of_mem_zipIdx listed)
    exact List.pairwise_map.2 (inside.imp fun before => .inr ⟨rfl, before⟩)
  · have numbers : (parts.zipIdx.map (·.2)).Pairwise (· < ·) := by
      rw [List.zipIdx_map_snd]
      exact List.pairwise_lt_range' 1
    refine (List.pairwise_map.1 numbers).imp fun before a member b member' => ?_
    obtain ⟨_, _, rfl⟩ := List.mem_map.1 member
    obtain ⟨_, _, rfl⟩ := List.mem_map.1 member'
    exact .inl before

/-- A package has the files whose package it is. -/
theorem ArePartsOf.mem_filesOf {package : Package} (areParts : ArePartsOf modulePath files parts)
    (here : (layOut modulePath parts).package? number = some package) :
    index ∈ (layOut modulePath parts).filesOf number ↔ (layOut modulePath parts).packageOf? index = some package := by
  rw [Program.mem_filesOf, Program.packageOf?, Option.bind_eq_some_iff]
  refine exists_congr fun entry => and_congr_right fun _ => ?_
  constructor
  · rintro rfl
    exact here
  · exact fun same => areParts.number_inj same here rfl rfl

theorem ArePartsOf.isTest_iff {package : Package} (areParts : ArePartsOf modulePath files parts)
    (here : (layOut modulePath parts).package? number = some package) :
    package.isTest = true ↔ (∃ stem, package.name = stem ++ "_test") ∧
      ∀ entry ∈ (layOut modulePath parts).files, entry.package = number →
        ∃ stem, entry.source.path = stem ++ "_test.go" := by
  obtain ⟨sources, there⟩ := package?_layOut.1 here
  rw [areParts.isTest _ (List.mem_of_getElem? there), Bool.and_eq_true, Text.finishesWith_iff, List.all_eq_true]
  refine and_congr_right fun _ => ?_
  constructor
  · rintro each entry member rfl
    obtain ⟨part, there', inside⟩ := mem_layOut.1 member
    obtain rfl := Option.some.inj (there'.symm.trans there)
    exact Text.finishesWith_iff.1 (each _ inside)
  · intro each source inside
    exact Text.finishesWith_iff.2 (each ⟨source, number⟩ (mem_layOut.2 ⟨_, there, inside⟩) rfl)

end

section

variable {disk : Disk} {root path : String} {paths : List String} {file : LoadedFile} {files : List LoadedFile}
  {modulePath : Option String} {failure : LoadFailure}

/-! Reading. -/

/-- What a file is taken in as. -/
structure Loads (disk : Disk) (root path : String) (file : LoadedFile) : Prop where
  read : ∃ text, disk.read (Path.join root path) = .ok text ∧ file.source = .load path text
  named : file.source.packageName? = some file.package
  directory : file.directory = directoryOf path

/-- Why a file cannot be taken in. -/
inductive Fault (disk : Disk) (root path : String) : LoadFailure → Prop
  | unreadable {cause : Disk.ReadError} (unread : disk.read (Path.join root path) = .error cause) :
      Fault disk root path (.unreadable path cause)
  | broken {text : String} {line : Nat} (read : disk.read (Path.join root path) = .ok text)
      (breaks : (Go.Tree.parse text).brokenAt = some line) : Fault disk root path (.brokenSource path line)
  | unnamed {text : String} (read : disk.read (Path.join root path) = .ok text)
      (intact : (Go.Tree.parse text).brokenAt = none) (unnamed : (Source.load path text).packageName? = none) :
      Fault disk root path (.noPackage path)

theorem readFile_loads (loaded : readFile disk root path = .ok file) : Loads disk root path file := by
  unfold readFile at loaded
  split at loaded
  · cases loaded
  · rename_i text read
    unfold ofText at loaded
    dsimp only at loaded
    split at loaded
    · cases loaded
    · split at loaded
      · rename_i package named
        cases loaded
        exact ⟨⟨text, read, rfl⟩, named, rfl⟩
      · cases loaded

theorem map_path_of_mapM (read : paths.mapM (readFile disk root) = .ok files) : files.map (·.source.path) = paths := by
  refine map_of_mapM (fun path file found => ?_) read
  obtain ⟨text, _, same⟩ := (readFile_loads found).read
  rw [same, Source.load]

theorem readFile_eq_error_iff : readFile disk root path = .error failure ↔ Fault disk root path failure := by
  constructor
  · intro failed
    unfold readFile at failed
    split at failed
    · rename_i cause unread
      cases failed
      exact .unreadable unread
    · rename_i text read
      unfold ofText at failed
      dsimp only at failed
      split at failed
      · rename_i line breaks
        cases failed
        exact .broken read breaks
      · rename_i intact
        split at failed
        · cases failed
        · rename_i unnamed
          cases failed
          exact .unnamed read intact unnamed
  · intro fault
    unfold readFile
    cases fault with
    | unreadable unread => rw [unread]
    | broken read breaks =>
        rw [read]
        simp only [ofText, Source.load, breaks]
    | unnamed read intact unnamed =>
        rw [read]
        simp only [ofText]
        rw [unnamed]
        simp only [Source.load, intact]

/-- Every failure to take in a file names it. -/
theorem Fault.names (fault : Fault disk root path failure) : ∃ front back, failure.reason = front ++ path ++ back := by
  cases fault with
  | @unreadable cause unread =>
      refine ⟨"failed to read ", ": " ++ LoadFailure.readMessage cause, ?_⟩
      change "failed to read " ++ path ++ ": " ++ LoadFailure.readMessage cause = _
      rw [String.append_assoc]
  | @broken text line read breaks =>
      refine ⟨"", ":" ++ toString line ++ ": syntax error", ?_⟩
      change path ++ ":" ++ toString line ++ ": syntax error" = _
      rw [String.empty_append, String.append_assoc, String.append_assoc, String.append_assoc]
  | unnamed read intact unnamed =>
      refine ⟨"", ": missing package clause", ?_⟩
      change path ++ ": missing package clause" = _
      rw [String.empty_append]

/-- The program of the files at some paths below a root. -/
structure IsProgramOf (disk : Disk) (root : String) (paths : List String) (program : Program) : Prop where
  modulePath : readModule disk root = .ok program.modulePath
  /-- Each path is that of one file. -/
  once : (program.files.map (·.source.path)).Perm paths
  read : ∀ file ∈ program.files, ∃ text, disk.read (Path.join root file.source.path) = .ok text ∧
    file.source = .load file.source.path text
  placed : ∀ file ∈ program.files, ∃ package, program.package? file.package = some package ∧
    package.dir = directoryOf file.source.path ∧ file.source.packageName? = some package.name
  /-- A package has the files whose package it is. -/
  listed : ∀ number package, program.package? number = some package →
    ∀ index, index ∈ program.filesOf number ↔ program.packageOf? index = some package
  consecutive : (List.range program.packages.length).flatMap program.filesOf = List.range program.files.length
  filled : ∀ number < program.packages.length, program.filesOf number ≠ []
  together : ∀ file ∈ program.files, ∀ other ∈ program.files, file.package = other.package ↔
    (Path.segments file.source.path).dropLast = (Path.segments other.source.path).dropLast ∧
      file.source.packageName? = other.source.packageName?
  pathOrder : program.files.Pairwise fun a b => a.package = b.package → a.source.path < b.source.path
  importPath : ∀ package ∈ program.packages,
    package.importPath = importPathOf program.modulePath package.dir ++ if package.isTest then "_test" else ""
  packageOrder : program.packages.Pairwise fun a b =>
    a.importPath < b.importPath ∨ a.importPath = b.importPath ∧ a.name ≤ b.name
  isTest : ∀ number package, program.package? number = some package → (package.isTest = true ↔
    (∃ stem, package.name = stem ++ "_test") ∧
      ∀ file ∈ program.files, file.package = number → ∃ stem, file.source.path = stem ++ "_test.go")

/-- The directory of a path is known from its text, where none is called `.`. -/
theorem directoryOf_inj {other : String} (named : (Path.segments path).dropLast ≠ ["."])
    (named' : (Path.segments other).dropLast ≠ ["."]) :
    directoryOf path = directoryOf other ↔ (Path.segments path).dropLast = (Path.segments other).dropLast := by
  have spelled : ∀ path, directoryOf path = Path.ofSegments
      (if (Path.segments path).dropLast = [] then ["."] else (Path.segments path).dropLast) := by
    intro path
    unfold directoryOf Path.segments
    split
    · rename_i top
      rw [if_pos top, Path.ofSegments_single]
    · rename_i below
      rw [if_neg below]
      rfl
  have cut : ∀ path, Path.segments (directoryOf path) =
      if (Path.segments path).dropLast = [] then ["."] else (Path.segments path).dropLast := by
    intro path
    rw [spelled, Path.segments_ofSegments]
    · split
      · exact List.cons_ne_nil _ _
      · assumption
    · split
      · decide
      · exact fun name member => Path.slash_notMem ((List.dropLast_sublist _).subset member)
  constructor
  · intro same
    have names := congrArg Path.segments same
    rw [cut, cut] at names
    split at names
    · split at names
      · rename_i top top'
        rw [top, top']
      · exact absurd names.symm named'
    · split at names
      · exact absurd names named
      · exact names
  · intro same
    rw [spelled, spelled, same]

theorem assemble_isProgram (module : readModule disk root = .ok modulePath) (sorted : paths.Pairwise (· < ·))
    (below : ∀ path ∈ paths, (Path.segments path).dropLast ≠ ["."])
    (read : paths.mapM (readFile disk root) = .ok files) : IsProgramOf disk root paths (assemble modulePath files) := by
  have loads : ∀ file ∈ files, Loads disk root file.source.path file := by
    intro file member
    obtain ⟨path, _, found⟩ := exists_of_mem_mapM read member
    have loads := readFile_loads found
    obtain ⟨text, _, same⟩ := loads.read
    rwa [same]
  have names := map_path_of_mapM read
  have parts := partsOf_areParts modulePath files
  rw [assemble_eq]
  generalize partsOf modulePath files = parts' at *
  have placed : ∀ entry ∈ (layOut modulePath parts').files, ∃ package,
      (layOut modulePath parts').package? entry.package = some package ∧
      package.dir = directoryOf entry.source.path ∧ entry.source.packageName? = some package.name := by
    intro entry member
    obtain ⟨package, here, file, listed, source, key⟩ := parts.placed member
    obtain ⟨directory, name⟩ := Prod.mk.inj key
    refine ⟨package, here, ?_, ?_⟩
    · rw [← source, ← directory, (loads file listed).directory]
    · rw [← source, ← name, (loads file listed).named]
  have inOrder : (layOut modulePath parts').files.Pairwise fun a b =>
      a.package < b.package ∨ a.package = b.package ∧ a.source.path < b.source.path := by
    apply layOut_pairwise fun a b => a.path < b.path
    intro part member
    rw [parts.sources part member, List.pairwise_map]
    exact (List.pairwise_map.1 (names ▸ sorted)).filter _
  have once : ((layOut modulePath parts').files.map (·.source.path)).Perm paths := names ▸ parts.paths
  refine {
    modulePath := module
    once, placed, read := ?read, consecutive := ?consecutive, filled := ?filled, together := ?together
    listed := fun _ _ here _ => parts.mem_filesOf here
    pathOrder := inOrder.imp fun before same => before.elim (fun less => absurd same (ne_of_lt less)) And.right
    importPath := ?importPath
    packageOrder := List.pairwise_map.2 (parts.order.imp packageGoesBefore_iff.1)
    isTest := fun _ _ here => parts.isTest_iff here }
  case read =>
    intro entry member
    obtain ⟨_, _, file, listed, source, _⟩ := parts.placed member
    exact source ▸ (loads file listed).read
  case consecutive =>
    apply Program.filesOf_consecutive
    · intro entry member
      obtain ⟨package, here, _⟩ := placed entry member
      exact (List.getElem?_eq_some_iff.1 here).1
    · exact inOrder.imp fun before => before.elim le_of_lt fun same => le_of_eq same.1
  case filled =>
    intro number inside
    obtain ⟨entry, member, same⟩ := parts.exists_file inside
    obtain ⟨index, here⟩ := List.mem_iff_getElem?.1 member
    exact List.ne_nil_of_mem (Program.mem_filesOf.2 ⟨entry, here, same⟩)
  case together =>
    intro entry member other member'
    have named : ∀ entry ∈ (layOut modulePath parts').files, (Path.segments entry.source.path).dropLast ≠ ["."] :=
      fun entry member => below _ (once.mem_iff.1 (List.mem_map_of_mem member))
    obtain ⟨package, here, directory, name⟩ := placed entry member
    obtain ⟨package', here', directory', name'⟩ := placed other member'
    rw [← directoryOf_inj (named entry member) (named other member'), ← directory, ← directory', name, name']
    constructor
    · intro same
      rw [same, here', Option.some_inj] at here
      exact here ▸ ⟨rfl, rfl⟩
    · rintro ⟨directory, name⟩
      exact parts.number_inj here here' directory (Option.some.inj name)
  case importPath =>
    intro package member
    obtain ⟨part, listed, rfl⟩ := List.mem_map.1 member
    exact parts.importPath part listed

end

/-- Where files are found, loading goes on with them. -/
theorem load_of_discover {disk : Disk} {root : String} {selection : Selection} {paths : List String}
    (found : discover disk root selection = .ok paths) : load disk root selection = (do
      let modulePath ← readModule disk root
      let files ← paths.mapM (readFile disk root)
      return assemble modulePath files) := by
  unfold discover at found
  unfold load
  split at found
  · cases found
  · simp only [loadWith, found]
    rfl

/-- A program has the files that are found. -/
theorem exists_discover {disk : Disk} {root : String} {selection : Selection} {program : Program}
    (loaded : load disk root selection = .ok program) :
    ∃ paths, discover disk root selection = .ok paths ∧ (program.files.map (·.source.path)).Perm paths := by
  unfold load at loaded
  unfold discover
  split at loaded
  · cases loaded
  · obtain ⟨modulePath, _, loaded⟩ := exists_of_bind_eq_ok loaded
    obtain ⟨paths, found, loaded⟩ := exists_of_bind_eq_ok loaded
    obtain ⟨files, read, loaded⟩ := exists_of_bind_eq_ok loaded
    cases loaded
    have whole := (partsOf_areParts modulePath files).paths
    rw [map_path_of_mapM read] at whole
    exact ⟨paths, found, whole⟩

/-- What is found stands in order, and in no directory that is called `.`. -/
theorem discover_ordered {disk : Disk} {root : String} {selection : Selection} {paths : List String}
    (sound : ∀ tree, disk.item? root = some tree → tree.IsTree) (found : discover disk root selection = .ok paths) :
    paths.Pairwise (· < ·) ∧ ∀ path ∈ paths, (Path.segments path).dropLast ≠ ["."] := by
  unfold discover at found
  split at found
  · cases found
  · unfold discoverWith at found
    split at found
    · rename_i items here
      cases found
      refine ⟨Selection.filesBelow_sorted (sound _ here), fun path member => ?_⟩
      obtain ⟨way, content, leads, takes, rfl⟩ := (Selection.mem_filesBelow (sound _ here)).1 member
      obtain ⟨above, last, filled, _⟩ := takes.goFile
      have names := (sound _ here).names leads
      rw [Path.segments_ofSegments (by simp [filled]) fun name member => (names name member).2]
      intro dot
      exact absurd (takes.entered "." (by simp [dot])) (by decide)
    · cases found

end Loader
end TraceWeave
