import TraceWeave.Disk.Basic
import TraceWeave.Proofs.Text.Split

/-!
Writing to a disk. After a file is written its path leads to the new text, and at every other place of
the tree there is what was there before.
-/
namespace TraceWeave

namespace Path

variable {path name first : String} {parts init : List String}

theorem slash_notMem {part : String} (member : part ∈ segments path) : '/' ∉ part.toList := by
  obtain ⟨chars, listed, rfl⟩ := List.mem_map.1 member
  rw [String.toList_ofList]
  exact Text.notMem_of_mem_splitOn listed

theorem segments_ne_nil (path : String) : segments path ≠ [] := by
  intro none
  exact List.splitOn_ne_nil '/' path.toList (List.map_eq_nil_iff.1 none)

theorem segments_ofSegments (some : parts ≠ []) (clear : ∀ part ∈ parts, '/' ∉ part.toList) :
    segments (ofSegments parts) = parts :=
  Text.splitAt_joinWith rfl some clear

theorem ofSegments_single (name : String) : ofSegments [name] = name := by
  simp [ofSegments, Text.joinWith]

theorem ofSegments_append {front back : List String} (some : front ≠ []) (some' : back ≠ []) :
    ofSegments (front ++ back) = ofSegments front ++ "/" ++ ofSegments back := by
  obtain ⟨first, back, rfl⟩ := List.exists_cons_of_ne_nil some'
  rw [← String.toList_inj]
  simp only [ofSegments, Text.joinWith, String.toList_append, String.toList_intercalate, List.map_append, List.map_cons]
  induction front with
  | nil => exact absurd rfl some
  | cons name front ih =>
      cases front with
      | nil => simp
      | cons second front => simpa using ih (by simp)

/-- A path from the top has a slash at its start. -/
theorem isAbsolute_iff : isAbsolute path = true ↔ ∃ rest ≠ [], segments path = "" :: rest := by
  unfold isAbsolute Text.beginsWith segments Text.splitAt
  change ['/'].isPrefixOf path.toList = true ↔ _
  cases path.toList with
  | nil => simp
  | cons c cs =>
      rw [List.splitOn_cons_eq_if_modifyHead]
      obtain ⟨head, tail, split⟩ := List.exists_cons_of_ne_nil (List.splitOn_ne_nil '/' cs)
      rw [split]
      by_cases slash : c = '/'
      · simp [slash]
      · simp [slash, Ne.symm slash]

theorem exists_idle (parts : List String) :
    ∃ idle : List String, parts = trimmed parts ++ idle ∧ ∀ part ∈ idle, isIdle part = true := by
  refine ⟨(parts.reverse.takeWhile isIdle).reverse, ?_, ?_⟩
  · have whole := congrArg List.reverse (List.takeWhile_append_dropWhile (p := isIdle) (l := parts.reverse))
    rw [List.reverse_append, List.reverse_reverse] at whole
    exact whole.symm
  · intro part member
    exact List.all_eq_true.1 List.all_takeWhile part (List.mem_reverse.1 member)

theorem trimmed_snoc (init : List String) (plain : isIdle name = false) : trimmed (init ++ [name]) = init ++ [name] := by
  unfold trimmed
  rw [List.reverse_append, List.reverse_singleton, List.singleton_append,
    List.dropWhile_cons_of_neg (by simp [plain]), List.reverse_cons, List.reverse_reverse]

theorem parent?_eq (split : segments path = first :: (init ++ [name])) (plain : isIdle name = false) :
    parent? path =
      some (if first == "" && (trimmed init).isEmpty then "/" else ofSegments (first :: trimmed init)) := by
  unfold parent? split?
  rw [split]
  dsimp only
  rw [trimmed_snoc init plain, List.reverse_append, List.reverse_singleton, List.singleton_append]
  dsimp only
  rw [List.reverse_reverse, Option.map_some]

/-- Unless it is the top of the tree, the directory is spelled by the segments before the name. -/
theorem segments_parent (split : segments path = first :: (init ++ [name]))
    (low : ¬ (first = "" ∧ trimmed init = [])) :
    segments (ofSegments (first :: trimmed init)) = first :: trimmed init ∧
      ofSegments (first :: trimmed init) ≠ "" ∧ isAbsolute (ofSegments (first :: trimmed init)) = isAbsolute path := by
  obtain ⟨idle, whole, _⟩ := exists_idle init
  have spelled : segments (ofSegments (first :: trimmed init)) = first :: trimmed init := by
    refine segments_ofSegments (List.cons_ne_nil _ _) fun part member => ?_
    have listed : part ∈ segments path := by
      rw [split, whole]
      rcases List.mem_cons.1 member with rfl | later
      · exact List.mem_cons_self
      · exact List.mem_cons_of_mem _ (List.mem_append_left _ (List.mem_append_left _ later))
    exact slash_notMem listed
  refine ⟨spelled, ?_, ?_⟩
  · intro empty
    rw [empty] at spelled
    have same : [""] = first :: trimmed init := spelled
    exact low ⟨(List.cons.inj same).1.symm, (List.cons.inj same).2.symm⟩
  · rw [Bool.eq_iff_iff, isAbsolute_iff, isAbsolute_iff, spelled, split]
    constructor
    · rintro ⟨rest, _, same⟩
      cases same
      exact ⟨_, by simp, rfl⟩
    · rintro ⟨rest, _, same⟩
      cases same
      exact ⟨_, fun none => low ⟨rfl, none⟩, rfl⟩

theorem parent?_single (split : segments path = [name]) : (parent? path).getD "" = "" := by
  unfold parent? split?
  rw [split]
  change ((if name == "" then none else some (name, "")).map (·.2)).getD "" = ""
  split <;> rfl

end Path

namespace Item

/-- The content of a file. A directory has none. -/
def content? : Item → Option Content
  | .file content => some content
  | .directory _ => none

variable {item child found : Item} {name other : String} {way : List String}

theorem content?_eq_none : item.content? = none ↔ item.isDirectory = true := by
  cases item <;> simp [content?, isDirectory]

theorem exists_of_isDirectory (is : item.isDirectory = true) : ∃ items, item = .directory items := by
  cases item with
  | file content => cases is
  | directory items => exact ⟨items, rfl⟩

theorem isDirectory_of_item? (there : item.item? name = some found) : item.isDirectory = true := by
  cases item with
  | file content => cases there
  | directory items => rfl

theorem isSome_item? : (item.item? name).isSome = item.items.any (·.1 == name) := by
  rw [item?, Option.isSome_map, List.isSome_find?]

theorem items_set (item child : Item) (name : String) :
    (item.set name child).items = item.items.filter (·.1 != name) ++ [(name, child)] := rfl

theorem item?_set_self (item child : Item) (name : String) : (item.set name child).item? name = some child := by
  have gone : (item.items.filter (·.1 != name)).find? (·.1 == name) = none := by
    simp
  rw [item?, items_set, List.find?_append, gone]
  simp

theorem item?_set_of_ne (differs : other ≠ name) : (item.set name child).item? other = item.item? other := by
  have kept : (item.items.filter (·.1 != name)).find? (·.1 == other) = item.items.find? (·.1 == other) := by
    rw [List.find?_filter]
    refine congrArg (List.find? · item.items) (funext fun pair => ?_)
    by_cases same : pair.1 = other
    · simp [same, differs]
    · simp [same]
  rw [item?, items_set, List.find?_append, kept, List.find?_cons_of_neg (by simpa using Ne.symm differs),
    List.find?_nil, Option.or_none]
  rfl

theorem follow?_cons (item : Item) (name : String) (way : List String) :
    item.follow? (name :: way) = (item.item? name).bind (·.follow? way) := rfl

theorem follow?_append (item : Item) (way more : List String) :
    item.follow? (way ++ more) = (item.follow? way).bind (·.follow? more) := by
  induction way generalizing item with
  | nil => rfl
  | cons name way ih =>
      rw [List.cons_append, follow?_cons, follow?_cons, Option.bind_assoc]
      exact congrArg _ (funext ih)

theorem follow?_put_end (item child : Item) (way : List String) : (item.put child way).follow? way = some child := by
  induction way generalizing item with
  | nil => rfl
  | cons name way ih =>
      rw [put, follow?_cons, item?_set_self]
      exact ih _

theorem follow?_set_of_ne {items : List (String × Item)} {content : Content}
    (free : ∀ old ∈ (Item.directory items).item? name, old.isDirectory = false) (differs : way ≠ [name]) :
    (((Item.directory items).set name (.file content)).follow? way).map content? =
      ((Item.directory items).follow? way).map content? := by
  cases way with
  | nil => rfl
  | cons step rest =>
      rw [follow?_cons, follow?_cons]
      by_cases here : step = name
      · subst here
        obtain ⟨next, more, rfl⟩ : ∃ next more, rest = next :: more :=
          List.exists_cons_of_ne_nil fun last => differs (by rw [last])
        rw [item?_set_self]
        -- neither the file nor what it takes the place of leads further
        cases before : (Item.directory items).item? step with
        | none => rfl
        | some old =>
            cases old with
            | file content' => rfl
            | directory items' => cases free _ before
      · rw [item?_set_of_ne here]

/-- A file that is put in changes nothing else. -/
theorem follow?_put_of_ne {items : List (String × Item)} {content : Content}
    (found : item.follow? way = some (.directory items))
    (free : ∀ old ∈ (Item.directory items).item? name, old.isDirectory = false) {way' : List String}
    (differs : way' ≠ way ++ [name]) :
    ((item.put (.file content) (way ++ [name])).follow? way').map content? = (item.follow? way').map content? := by
  induction way generalizing item way' with
  | nil =>
      cases found
      exact follow?_set_of_ne free differs
  | cons first way ih =>
      rw [follow?_cons] at found
      obtain ⟨next, there, below⟩ := Option.bind_eq_some_iff.1 found
      cases way' with
      | nil =>
          have is := content?_eq_none.2 (isDirectory_of_item? there)
          change some (content? (item.set first _)) = some item.content?
          rw [is]
          rfl
      | cons step rest =>
          rw [List.cons_append, put, follow?_cons, follow?_cons]
          by_cases here : step = first
          · subst here
            rw [item?_set_self, there]
            exact ih below fun same => differs (by rw [same]; rfl)
          · rw [item?_set_of_ne here]

end Item

namespace Disk

/-- What stands at the end of a way: nothing, a directory, or a file with its content. -/
def sight? (disk : Disk) (way : List String) : Option (Option Content) :=
  (disk.top.follow? way).map Item.content?

/-- Where a path starts from. -/
def origin (disk : Disk) (path : String) : List String := if Path.isAbsolute path then [] else disk.here

/-- One file is written. -/
structure Writes (before after : Disk) (path text : String) : Prop where
  here : after.here = before.here
  text : after.read path = .ok text
  /-- At every place but the one that the path leads to there is what was there before. -/
  others : ∃ place, after.way? path = some place ∧ ∀ way ≠ place, after.sight? way = before.sight? way

variable {disk after : Disk} {path name text : String} {way init : List String} {items : List (String × Item)}

theorem wayFrom?_append (disk : Disk) (way segments more : List String) :
    disk.wayFrom? way (segments ++ more) = (disk.wayFrom? way segments).bind (disk.wayFrom? · more) := by
  induction segments generalizing way with
  | nil => rfl
  | cons segment segments ih =>
      rw [List.cons_append, wayFrom?, wayFrom?]
      split
      · split
        · exact ih way
        · split
          · exact ih _
          · split
            · exact ih _
            · rfl
      · rfl

theorem wayFrom?_idle (is : disk.top.follow? way = some (.directory items)) {idle : List String}
    (each : ∀ segment ∈ idle, Path.isIdle segment = true) : disk.wayFrom? way idle = some way := by
  induction idle with
  | nil => rfl
  | cons segment idle ih =>
      obtain ⟨first, each⟩ := List.forall_mem_cons.1 each
      rw [wayFrom?, is]
      dsimp only
      rw [if_pos first]
      exact ih each

theorem wayFrom?_name (is : disk.top.follow? way = some (.directory items)) (plain : Path.isIdle name = false)
    (down : name ≠ "..") (listed : (Item.directory items).item? name ≠ none) :
    disk.wayFrom? way [name] = some (way ++ [name]) := by
  have there : items.any (·.1 == name) = true := by
    have present := Option.isSome_iff_ne_none.2 listed
    rwa [Item.isSome_item?] at present
  rw [wayFrom?, is]
  dsimp only
  rw [if_neg (by simp [plain]), if_neg (by simpa using down), if_pos there]
  rfl

/-- Where directories stay and keep their names, a way that was there is there. -/
theorem wayFrom?_mono (kept : ∀ way items, disk.top.follow? way = some (.directory items) →
      ∃ items', after.top.follow? way = some (.directory items') ∧
        ∀ name, items.any (·.1 == name) = true → items'.any (·.1 == name) = true)
    {start segments : List String} (found : disk.wayFrom? start segments = some way) :
    after.wayFrom? start segments = some way := by
  induction segments generalizing start with
  | nil => exact found
  | cons segment segments ih =>
      rw [wayFrom?] at found ⊢
      split at found
      · rename_i items is
        obtain ⟨items', is', names⟩ := kept start items is
        rw [is']
        dsimp only
        split at found
        · rename_i idle
          rw [if_pos idle]
          exact ih found
        · rename_i busy
          rw [if_neg busy]
          split at found
          · rename_i up
            rw [if_pos up]
            exact ih found
          · rename_i down
            rw [if_neg down]
            split at found
            · rename_i listed
              rw [if_pos (names segment listed)]
              exact ih found
            · cases found
      · cases found

theorem way?_eq (some : path ≠ "") : disk.way? path = disk.wayFrom? (disk.origin path) (Path.segments path) := by
  rw [way?, if_neg (by simpa using some), origin]

theorem wayFrom?_idle_end {start idle : List String} (each : ∀ segment ∈ idle, Path.isIdle segment = true)
    (found : disk.wayFrom? start idle = some way) : way = start := by
  induction idle with
  | nil => exact (Option.some.inj found).symm
  | cons segment idle ih =>
      obtain ⟨first, each⟩ := List.forall_mem_cons.1 each
      rw [wayFrom?] at found
      split at found
      · rw [if_pos first] at found
        exact ih each found
      · cases found

/-- The directory of a path is where all its segments but the last lead. -/
theorem wayFrom?_of_parent (split : Path.segments path = init ++ [name]) (plain : Path.isIdle name = false)
    (found : disk.way? (if (Path.parent? path).getD "" == "" then "." else (Path.parent? path).getD "") = some way)
    (is : disk.top.follow? way = some (.directory items)) :
    disk.wayFrom? (disk.origin path) init = some way := by
  cases init with
  | nil =>
      have relative : Path.isAbsolute path = false := by
        rw [Bool.eq_false_iff, ne_eq, Path.isAbsolute_iff]
        rintro ⟨rest, some, split'⟩
        cases split.symm.trans split'
        exact some rfl
      rw [Path.parent?_single split] at found
      change disk.wayFrom? disk.here ["."] = some way at found
      rw [origin, relative, wayFrom?_idle_end (by simp [Path.isIdle]) found]
      rfl
  | cons first init =>
      obtain ⟨idle, whole, each⟩ := Path.exists_idle init
      rw [Path.parent?_eq split plain, Option.getD_some] at found
      by_cases root : first = "" ∧ Path.trimmed init = []
      · -- the directory is the top of the tree
        obtain ⟨rfl, none⟩ := root
        rw [none] at found
        change disk.wayFrom? [] ["", ""] = some way at found
        have top : way = [] := wayFrom?_idle_end (by simp [Path.isIdle]) found
        subst top
        rw [origin, if_pos (Path.isAbsolute_iff.2 ⟨_, by simp, split⟩)]
        refine wayFrom?_idle is (List.forall_mem_cons.2 ⟨rfl, fun segment member => ?_⟩)
        rw [whole, none] at member
        exact each segment member
      · obtain ⟨segments, filled, same⟩ := Path.segments_parent split root
        have below : ¬ ((first == "" && (Path.trimmed init).isEmpty) = true) := by simpa using root
        simp only [if_neg below] at found
        rw [if_neg (by simpa using filled), way?_eq filled, segments, origin, same] at found
        rw [whole, ← List.cons_append, wayFrom?_append, origin, found]
        exact wayFrom?_idle is each

theorem plain_of_nameProblem? (fine : nameProblem? name = none) : Path.isIdle name = false ∧ name ≠ ".." := by
  unfold nameProblem? at fine
  split at fine
  · cases fine
  · rename_i plain
    split at fine
    · cases fine
    · rename_i down
      exact ⟨by simpa [Path.isIdle] using plain, by simpa using down⟩

/-- A file is written into a directory that is there, and not over a directory. -/
theorem exists_of_write (written : disk.write path text = .ok after) :
    ∃ init name way items, Path.segments path = init ++ [name] ∧ Path.isIdle name = false ∧ name ≠ ".." ∧
      disk.wayFrom? (disk.origin path) init = some way ∧ disk.top.follow? way = some (.directory items) ∧
      (∀ old ∈ (Item.directory items).item? name, old.isDirectory = false) ∧
      after.here = disk.here ∧ after.top = disk.top.put (.file (.text text)) (way ++ [name]) := by
  unfold write at written
  obtain ⟨init, name, split⟩ := (List.eq_nil_or_concat _).resolve_left (Path.segments_ne_nil path)
  rw [List.concat_eq_append] at split
  rw [split, List.getLast?_append, List.getLast?_singleton, Option.some_or, Option.getD_some] at written
  dsimp only at written
  split at written
  · cases written
  · rename_i fine
    obtain ⟨plain, down⟩ := plain_of_nameProblem? fine
    split at written
    · cases written
    · rename_i way directory found
      obtain ⟨way', leads, found⟩ := Option.bind_eq_some_iff.1 found
      obtain ⟨directory', there, same⟩ := Option.bind_eq_some_iff.1 found
      cases same
      split at written
      · cases written
      · rename_i is
        obtain ⟨items, rfl⟩ := Item.exists_of_isDirectory (by simpa using is)
        split at written
        · cases written
        · rename_i free
          cases written
          refine ⟨init, name, way, items, split, plain, down, wayFrom?_of_parent split plain leads there, there, ?_,
            rfl, rfl⟩
          intro old member
          have vacant : ((Item.directory items).item? name).any Item.isDirectory = false := by simpa using free
          rw [Option.mem_def.1 member] at vacant
          exact vacant

/-- Directories stay when a file is put in, with the names in them. -/
theorem put_keeps {content : Content} (is : disk.top.follow? way = some (.directory items))
    (free : ∀ old ∈ (Item.directory items).item? name, old.isDirectory = false)
    (top : after.top = disk.top.put (.file content) (way ++ [name])) {way' : List String}
    {items' : List (String × Item)} (is' : disk.top.follow? way' = some (.directory items')) :
    ∃ items'', after.top.follow? way' = some (.directory items'') ∧
      ∀ other, items'.any (·.1 == other) = true → items''.any (·.1 == other) = true := by
  rw [top]
  have differs : way' ≠ way ++ [name] := by
    rintro rfl
    rw [Item.follow?_append, is, Option.bind_some, Item.follow?_cons] at is'
    obtain ⟨old, member, same⟩ := Option.bind_eq_some_iff.1 is'
    cases same
    cases free _ member
  have sight : ((disk.top.put (.file content) (way ++ [name])).follow? way').map Item.content? =
      some (Item.directory items').content? := by
    rw [Item.follow?_put_of_ne is free differs, is', Option.map_some]
  obtain ⟨found, there, seen⟩ := Option.map_eq_some_iff.1 sight
  obtain ⟨items'', rfl⟩ := Item.exists_of_isDirectory (Item.content?_eq_none.1 seen)
  refine ⟨items'', there, fun other listed => ?_⟩
  have present : (disk.top.follow? (way' ++ [other])).isSome = true := by
    rw [Item.follow?_append, is', Option.bind_some, Item.follow?_cons]
    have was : ((Item.directory items').item? other).isSome = true := Item.isSome_item?.trans listed
    obtain ⟨old, member⟩ := Option.isSome_iff_exists.1 was
    rw [member]
    rfl
  have still : ((disk.top.put (.file content) (way ++ [name])).follow? (way' ++ [other])).isSome = true := by
    by_cases here : way' ++ [other] = way ++ [name]
    · rw [here, Item.follow?_put_end]
      rfl
    · rw [← Option.isSome_map (f := Item.content?), Item.follow?_put_of_ne is free here, Option.isSome_map, present]
  rw [Item.follow?_append, there, Option.bind_some, Item.follow?_cons] at still
  obtain ⟨_, member⟩ := Option.isSome_iff_exists.1 still
  obtain ⟨old, member, _⟩ := Option.bind_eq_some_iff.1 member
  exact Item.isSome_item?.symm.trans (congrArg Option.isSome member)

/-- What writing a file does. -/
theorem write_writes (written : disk.write path text = .ok after) : disk.Writes after path text := by
  obtain ⟨init, name, way, items, split, plain, down, leads, is, free, here, top⟩ := exists_of_write written
  obtain ⟨items', is', _⟩ := put_keeps is free top is
  have last : after.top.follow? (way ++ [name]) = some (.file (.text text)) := top ▸ Item.follow?_put_end _ _ _
  have listed : (Item.directory items').item? name ≠ none := by
    rw [Item.follow?_append, is', Option.bind_some, Item.follow?_cons] at last
    intro missing
    rw [missing] at last
    cases last
  have filled : path ≠ "" := by
    rintro rfl
    have same : [""] = init ++ [name] := split
    obtain ⟨rfl, rfl⟩ : init = [] ∧ name = "" := by
      simpa [List.singleton_eq_append_iff] using same
    cases plain
  have place : after.way? path = some (way ++ [name]) := by
    have still := wayFrom?_mono (fun _ _ => put_keeps is free top) leads
    rw [way?_eq filled, split, wayFrom?_append, origin, here]
    exact (congrArg (Option.bind · _) still).trans (wayFrom?_name is' plain down listed)
  refine ⟨here, ?_, way ++ [name], place, fun way' differs => ?_⟩
  · rw [read, item?, place, Option.bind_some, last]
  · rw [sight?, top, Item.follow?_put_of_ne is free differs, sight?]

end Disk
end TraceWeave
