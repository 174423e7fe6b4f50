import TraceWeave.Proofs.ImportInk
import TraceWeave.Proofs.ImportMerge
import TraceWeave.Proofs.Qualifiers
import TraceWeave.Proofs.Seats

/-!
What a file is like with added imports. In a block with an import on each line they are merged into its groups; any
other block gets them as lines before its parenthesis; a lone import is sorted in with them as a block; and without
imports they come behind the package clause. Each path is added once, and every import that was there stays.
-/
namespace TraceWeave

open Go (Node Token OnLines)
open Go.Node (Annotated)
open Go.Place (Below)

namespace Text

variable {source : String} {offset : Nat} {before after : List Char}

/-- The start of a text and what follows a line feed begin a line. -/
theorem lineStart_of_feed (cut : Cut source offset before after)
    (fed : before = [] ∨ ∃ others, before = others ++ ['\n']) : lineStart source offset = offset := by
  rw [lineStart_eq cut]
  rcases fed with rfl | ⟨others, rfl⟩
  · rfl
  · rw [List.reverse_append, List.reverse_singleton, List.singleton_append, List.takeWhile_cons_of_neg (by simp),
      byteCount_nil, Nat.sub_zero]

theorem lineStart_lineStart (sound : isBoundary source offset = true) :
    lineStart source (lineStart source offset) = lineStart source offset := by
  obtain ⟨front, line, after, cut, _, _, fed⟩ := exists_line sound
  exact lineStart_of_feed cut fed

end Text

namespace ImportEdit

open Slot

variable {source : Source} {list spec : Node} {specs : List Node} {wanted : List String} {edit : Edit}

/-! Blocks of imports. -/

/-- The first block of imports of a file. -/
def block? (root : Node) : Option Node :=
  (root.parts.filter (·.kind == .importDeclaration)).findSome? fun item => item.parts.find? (·.kind == .importSpecList)

/-- The imports of a block. -/
def specsOf (list : Node) : List Node := list.parts.filter (·.kind == .importSpec)

/-- The groups of a block: runs of imports without an empty line between two of them. -/
def groupsOf (source : String) (list : Node) : List (List Node) := (specsOf list).splitBy (ImportEdit.joins source)

theorem groupsOf_ne_nil (source : String) (some : specsOf list ≠ []) : groupsOf source list ≠ [] :=
  List.splitBy_ne_nil.2 some

theorem flatten_groupsOf (source : String) (list : Node) : (groupsOf source list).flatten = specsOf list :=
  List.flatten_splitBy _ _

theorem nil_notMem_groupsOf (source : String) (list : Node) : [] ∉ groupsOf source list := List.nil_notMem_splitBy _ _

/-- A block of imports with its parentheses. -/
structure IsBlock (source : Source) (list : Node) : Prop where
  lines : OnLines source.text list
  annotated : Annotated (Token.Whole source.text) list
  closing : ∃ token ∈ Token.program source.text,
    token.isMark ")" = true ∧ token.stop = list.stop ∧ list.start < token.start

theorem isBlock_of_block? (parsed : source.IsParsed) (found : block? source.root = some list) :
    IsBlock source list := by
  obtain ⟨item, listed, first⟩ := List.exists_of_findSome?_eq_some found
  have kind : list.kind = .importSpecList := by simpa using List.find?_some first
  have inside : ∀ {node part : Node}, part ∈ node.parts → part ∈ node.named := fun part =>
    List.mem_filter.2 ⟨(Edit.mem_parts part).1, (Edit.mem_parts part).2.1⟩
  have below : Below source.rootPlace ((source.rootPlace.inside item).inside list) :=
    (Below.here.inside (inside (List.mem_filter.1 listed).1)).inside (inside (List.mem_of_find?_eq_some first))
  have spells := (Source.IsParsed.laid parsed below).specs kind
  refine ⟨spells.onLines, below.annotated parsed.whole, ?_⟩
  obtain ⟨opening, inner, closing, _, listed, opens, closes, starts, stops, _⟩ := spells
  have member := (Token.program_of_isMark (listed.subset (by simp)) closes).1
  have room := Token.wide_of_program (Token.program_of_isMark (listed.subset List.mem_cons_self) opens).1
  have order := Token.stop_le_of_infix [opening] (inner ++ [closing]) listed opening (by simp) closing (by simp)
  change opening.start = list.start at starts
  exact ⟨closing, member, closes, stops, by omega⟩

/-- The parenthesis of a block. -/
structure IsClose (source : Source) (list : Node) : Prop where
  cut : ∃ before rest, Text.Cut source.text (list.stop - 1) before (')' :: rest)
  whole : Token.Whole source.text (list.stop - 1)
  behind : list.start < list.stop - 1
  parts : ∀ part ∈ list.parts, part.stop ≤ list.stop - 1
  line : ∀ part ∈ list.parts, Text.restIsTrivia source.text part.stop = true →
    Text.lineEnd source.text part.stop < list.stop - 1

theorem IsBlock.close (block : IsBlock source list) : IsClose source list := by
  obtain ⟨token, member, mark, stop, behind⟩ := block.closing
  have listed := (Token.mem_program.1 member).1
  obtain ⟨⟨before, rest, cut⟩, size⟩ := Token.cut_of_isMark (c := ')') listed mark
  have one : Char.utf8Size ')' = 1 := by decide
  have same : list.stop - 1 = token.start := by omega
  obtain ⟨last, member', _, stop', ends⟩ := block.lines.closing
  have room := Token.wide_of_program member'
  have parts : ∀ part ∈ list.parts, part.stop ≤ list.stop - 1 := fun part inside => by
    have bound := ends part inside
    omega
  refine ⟨⟨before, rest, same ▸ cut⟩, same ▸ (Token.whole_of_mem listed).1, by omega, parts,
    fun part inside trivia => ?_⟩
  have shaped := (block.annotated.children part (Edit.mem_parts inside).1).shaped
  have ahead := parts part inside
  have bad : token.kind ≠ .bad := by simp [(Token.isMark_iff.1 mark).1]
  have bound := Token.lineEnd_le_start shaped.stops trivia listed (Token.solid_of_program member)
    (Token.shows_of_program member bad) (Token.wide_of_program member) (by omega)
  -- the line ends with a line feed, and the parenthesis is none
  obtain ⟨_, line, others, _, cut', _, last⟩ := Text.exists_restOfLine shaped.stops.boundary
  refine same ▸ lt_of_le_of_ne bound fun touching => ?_
  rw [touching] at cut'
  rcases last with none | ⟨others, feed⟩
  · cases none ▸ cut.after_eq cut'
  · cases (cut.after_eq cut').trans feed

/-- An import of a block with a line to itself. -/
theorem IsBlock.fits (block : IsBlock source list) (listed : spec ∈ list.parts)
    (own : hasOwnLine source.text spec = true) : (kept spec).Fits source.text ∧
      list.start < Text.lineStart source.text spec.start ∧ below source.text spec ≤ list.stop - 1 := by
  obtain ⟨starts, trivia⟩ := Bool.and_eq_true_iff.1 own
  have close := block.close
  have frame := framed_of_onLines block.lines block.annotated listed
  have shaped := (block.annotated.children spec (Edit.mem_parts listed).1).shaped
  have line := close.line spec listed trivia
  obtain ⟨_, _, cut⟩ := close.cut
  have size := cut.le_size
  have behind := frame.behind
  unfold Edit.front at behind
  rw [if_pos starts] at behind
  exact ⟨⟨shaped.starts.boundary, shaped.chain.le, shaped.stops.boundary, by omega⟩, behind, line⟩

/-- Imports with lines of their own stand one below the other. -/
theorem IsBlock.order (block : IsBlock source list) (own : ∀ spec ∈ specsOf list, hasOwnLine source.text spec = true) :
    (specsOf list).IsChain fun a b => Before source.text (kept a) (kept b) := by
  refine List.Pairwise.isChain ?_
  have apart := (pairwise_of_onLines block.lines block.annotated).filter (·.kind == .importSpec)
  refine apart.imp_of_mem fun {a b} listed listed' less => ?_
  have line := Bool.and_eq_true_iff.1 (own a listed)
  have line' := Bool.and_eq_true_iff.1 (own b listed')
  unfold Edit.rear Edit.front at less
  rw [if_pos line.2, if_pos line'.1] at less
  have fits := (block.fits (List.mem_filter.1 listed).1 (own a listed)).1
  have fits' := (block.fits (List.mem_filter.1 listed').1 (own b listed')).1
  exact ⟨fits, fits', less, nofun⟩

/-! Merging into a block. -/

variable {groups : List (List Node)} {group : List Node} {path text : String} {slots : List (List Slot)}

/-- New imports merged into a group of a block: the group stays as it is, it gets the paths that go to it, and what was
in order stays in order. -/
structure MergesInto (source : String) (groups : List (List Node)) (wanted : List String) (group : List Node)
    (slots : List Slot) : Prop where
  keeps : slots.filterMap kept? = group
  takes : ∀ path, path ∈ (slots.filterMap added?).map (·.2) ↔ path ∈ wanted ∧ GoesTo source groups path group
  sorted : (group.map (specPath source)).Pairwise (· ≤ ·) → (slots.map (Slot.path source)).Pairwise (· ≤ ·)

theorem offsetIn_eq {source : String} (some : group ≠ []) (fits : ∀ spec ∈ group, (kept spec).Fits source)
    (path : String) : offsetIn source group path = seatIn source (lineBehind source group) group path := by
  have last := List.getLast?_eq_some_getLast some
  have more := (fits _ (List.mem_of_getLast? last)).2.2.2
  unfold offsetIn seatIn
  cases group.find? fun spec => decide (path < specPath source spec) with
  | some => rfl
  | none =>
      rw [last, Option.map_none, Option.getD_none, ← lineBehind_eq _ last]
      exact Nat.min_eq_left more

theorem sooner_of_before {source : String} {a b : Slot} {spot spot' : Nat × String} (before : Before source a b)
    (new : a.added? = some spot) (new' : b.added? = some spot') : Sooner spot spot' := by
  have rising := before.rising spot spot' new new'
  have order := before.order
  cases a with
  | kept => cases new
  | added =>
      cases b with
      | kept => cases new'
      | added =>
          cases new
          cases new'
          exact order.lt_or_eq.imp_right fun same => ⟨same, rising same⟩

/-- Where the new imports of merged groups go. -/
theorem mem_added?_mergeEach {source : String} {share : List Node → List String} {spot : Nat × String}
    (some : groups ≠ []) (filled : [] ∉ groups) (fits : ∀ group ∈ groups, ∀ spec ∈ group, (kept spec).Fits source)
    (shares : ∀ group path, path ∈ share group ↔ path ∈ wanted ∧ groupFor source groups path = group) :
    spot ∈ (mergeEach source groups share).flatten.filterMap added? ↔
      spot.2 ∈ wanted ∧ spot.1 = offsetIn source (groupFor source groups spot.2) spot.2 := by
  have listed : spot ∈ (mergeEach source groups share).flatten.filterMap added? ↔
      added spot.2 spot.1 ∈ (mergeEach source groups share).flatten := by
    rw [List.mem_filterMap]
    constructor
    · rintro ⟨slot, member, new⟩
      cases slot with
      | kept => cases new
      | added =>
          cases new
          exact member
    · exact fun member => ⟨_, member, rfl⟩
  have place : ∀ group ∈ groups, (added spot.2 spot.1 ∈ merge source (lineBehind source group) group (share group) ↔
      spot.2 ∈ share group ∧ spot.1 = offsetIn source group spot.2) := fun group member => by
    rw [added_mem_merge, offsetIn_eq (fun none => filled (none ▸ member)) (fits group member)]
  rw [listed, mergeEach, List.mem_flatten]
  constructor
  · rintro ⟨slots, member, inside⟩
    obtain ⟨group, member', rfl⟩ := List.mem_map.1 member
    obtain ⟨shared, offset⟩ := (place group member').1 inside
    obtain ⟨new, rfl⟩ := (shares group spot.2).1 shared
    exact ⟨new, offset⟩
  · rintro ⟨new, offset⟩
    have member := groupFor_mem source some spot.2
    exact ⟨_, List.mem_map_of_mem member, (place _ member).2 ⟨(shares _ _).2 ⟨new, rfl⟩, offset⟩⟩

theorem fits_of_mem_mergeEach {source : String} {share : List Node → List String}
    (fits : ∀ group ∈ groups, ∀ spec ∈ group, (kept spec).Fits source) :
    ∀ slot ∈ (mergeEach source groups share).flatten, slot.Fits source := by
  intro slot member
  obtain ⟨slots, listed, inside⟩ := List.mem_flatten.1 member
  obtain ⟨group, listed', rfl⟩ := List.mem_map.1 listed
  exact fits_of_mem_merge (fits group listed') (isBoundary_lineBehind (fits group listed')) inside

theorem intoBlock_lined {source : String} (some : specsOf list ≠ [])
    (own : ∀ spec ∈ specsOf list, hasOwnLine source spec = true) :
    intoBlock source list wanted = (wanted.foldl (fun anchors path =>
      addAt (offsetIn source (groupFor source (groupsOf source list) path) path) path anchors) []).map fun anchor =>
        Edit.insertAt anchor.1 (lines anchor.2) := by
  have lined : ((specsOf list).isEmpty || !(specsOf list).all (hasOwnLine source)) = false := by
    rw [Bool.or_eq_false_iff, Bool.not_eq_false', List.isEmpty_eq_false_iff, List.all_eq_true]
    exact ⟨some, own⟩
  rw [groupsOf, ← groups_eq_splitBy]
  exact if_neg (Bool.eq_false_iff.1 lined)

/-- What becomes of a block with an import on each line. -/
theorem IsBlock.merges (block : IsBlock source list) (some : specsOf list ≠ [])
    (own : ∀ spec ∈ specsOf list, hasOwnLine source.text spec = true) (sorted : wanted.Pairwise (· < ·))
    (performed : Edit.perform source.text (intoBlock source.text list wanted) = .ok text) :
    ∃ slots : List (List Slot),
      List.Forall₂ (MergesInto source.text (groupsOf source.text list) wanted) (groupsOf source.text list) slots ∧
      ((slots.flatten.filterMap added?).map (·.2)).Perm wanted ∧
      slots.flatten.IsChain (Before source.text) ∧ slots.flatten.splitBy (Slot.joins source.text) = slots ∧
      text = Slot.result source.text "" 0 slots.flatten := by
  classical
  have fits : ∀ spec ∈ specsOf list, (kept spec).Fits source.text := fun spec listed =>
    (block.fits (List.mem_filter.1 listed).1 (own spec listed)).1
  let groups := groupsOf source.text list
  have some' : groups ≠ [] := groupsOf_ne_nil source.text some
  have fits' : ∀ group ∈ groups, ∀ spec ∈ group, (kept spec).Fits source.text := fun group listed spec member =>
    fits spec (flatten_groupsOf source.text list ▸ List.mem_flatten.2 ⟨group, listed, member⟩)
  let share (group : List Node) := wanted.filter fun path => decide (groupFor source.text groups path = group)
  have shares : ∀ group path, path ∈ share group ↔ path ∈ wanted ∧ groupFor source.text groups path = group := by
    simp [share]
  have split : (specsOf list).splitBy (ImportEdit.joins source.text) = groups := rfl
  obtain ⟨chain, grouped⟩ := mergeEach_grouped share split fits (block.order own) fun _ => sorted.filter _
  have anchored := anchored sorted fun path => offsetIn source.text (groupFor source.text groups path) path
  -- both the merged groups and the edits put in the new imports from the first offset to the last
  have sooner : ((mergeEach source.text groups share).flatten.filterMap added?).Pairwise Sooner :=
    List.pairwise_filterMap.2 (chain.pairwise.imp fun before spot new spot' new' => sooner_of_before before new new')
  have places : (mergeEach source.text groups share).flatten.filterMap added? = spots _ :=
    sooner.eq_of_mem_iff anchored.sorted fun spot =>
      (mem_added?_mergeEach some' (nil_notMem_groupsOf _ _) fits' shares).trans (anchored.listed spot).symm
  refine ⟨mergeEach source.text groups share, ?_, ?_, chain, grouped, ?_⟩
  · refine List.forall₂_map_right_iff.2 (List.forall₂_same.2 fun group member => ?_)
    refine ⟨merge_keeps _ _ _ _, fun path => ?_, ?_⟩
    · rw [merge_adds _ _ _ (sorted.filter _), shares, goesTo_iff some']
    · exact fun order => merge_sorted order ((sorted.filter _).imp le_of_lt)
  · rw [places]
    exact anchored.perm (sorted.imp ne_of_lt)
  · have made := (Edit.performFrom_row (Text.isBoundary_zero source.text) performed).2
    have drawn := (result_eq_rendered chain (fits_of_mem_mergeEach fits') (Text.isBoundary_zero source.text)
      (fun _ _ => Nat.zero_le _) "").2
    rw [made, intoBlock_lined some own, inOrder_anchors anchored.keys, rendered_spots _ _ _ anchored.filled, drawn,
      places, String.empty_append]

/-! Layouts. -/

/-- Where the lines go in a block that is not on lines. -/
structure Shut (source : Source) (list : Node) (offset : Nat) (opening : String) : Prop where
  place : offset = list.stop - 1 ∧ opening = "\n" ∨
    offset = Text.lineStart source.text (list.stop - 1) ∧ opening = "" ∧
      Text.startsLine source.text (list.stop - 1) = true
  parts : ∀ part ∈ list.parts, part.stop ≤ offset

/-- What a file is like with new imports. -/
inductive Layout (source : Source) (wanted : List String) (text : String) : Prop
  /-- They are merged into the groups of a block with an import on each line. -/
  | grouped (list : Node) (slots : List (List Slot)) (first : block? source.root = some list) (some : specsOf list ≠ [])
      (own : ∀ spec ∈ specsOf list, hasOwnLine source.text spec = true)
      (each : List.Forall₂ (MergesInto source.text (groupsOf source.text list) wanted) (groupsOf source.text list)
        slots)
      (once : ((slots.flatten.filterMap added?).map (·.2)).Perm wanted)
      (order : slots.flatten.IsChain (Before source.text))
      (groups : slots.flatten.splitBy (Slot.joins source.text) = slots)
      (result : text = Slot.result source.text "" 0 slots.flatten)
  /-- They are lines before the parenthesis of any other block. -/
  | crowded (list : Node) (offset : Nat) (opening : String) (first : block? source.root = some list)
      (shared : specsOf list = [] ∨ ∃ spec ∈ specsOf list, hasOwnLine source.text spec = false)
      (shut : Shut source list offset opening)
      (result : text = Text.slice source.text 0 offset ++ (opening ++ lines wanted) ++
        Text.slice source.text offset (Text.size source.text))
  /-- A lone import becomes a block with them, in order. -/
  | alone (declaration spec : Node) (rows : List (String × String)) (lone : Lone source.root declaration spec)
      (all : rows.Perm (wanted.map (fun path => (path, line path)) ++
        [(specPath source.text spec, "\t" ++ spec.text source.text ++ "\n")]))
      (sorted : rows.Pairwise fun a b => a.1 ≤ b.1)
      (result : text = Text.slice source.text 0 declaration.start ++
        ("import (\n" ++ String.join (rows.map (·.2)) ++ ")") ++
          Text.slice source.text declaration.stop (Text.size source.text))
  /-- They are declared behind the package clause. -/
  | declared (clause : Node) (bare : ∀ part ∈ source.root.parts, part.kind ≠ .importDeclaration)
      (first : source.root.parts.find? (·.kind == .packageClause) = some clause)
      (result : text = Text.slice source.text 0 clause.stop ++ declaration wanted ++
        Text.slice source.text clause.stop (Text.size source.text))

/-- An insertion at the start of a line of a block, or at its parenthesis. -/
structure InBlock (source : Source) (list : Node) (edit : Edit) : Prop where
  point : edit.stop = edit.start
  behind : list.start < edit.start
  place : edit.start = list.stop - 1 ∨
    edit.start < list.stop - 1 ∧ Text.lineStart source.text edit.start = edit.start

/-- The line of the parenthesis, if nothing stands before that, is behind the imports. -/
theorem IsBlock.lineStart_close (block : IsBlock source list)
    (starts : Text.startsLine source.text (list.stop - 1) = true) :
    list.start < Text.lineStart source.text (list.stop - 1) ∧
      ∀ part ∈ list.parts, part.stop ≤ Text.lineStart source.text (list.stop - 1) := by
  have close := block.close
  have sound := close.whole.boundary
  have whole := Token.whole_lineStart close.whole starts
  constructor
  · obtain ⟨opening, _, ⟨before, c, rest, cut, shows⟩, start, _⟩ := block.lines.opening
    have behind := close.behind
    have later := Text.lt_lineStart cut shows sound starts (by omega)
    omega
  · intro part listed
    obtain ⟨token, member, ⟨before, c, rest, cut, shows⟩, _, stop⟩ := (block.lines.worded part listed).ends
    have room := Token.wide_of_program member
    have ahead := close.parts part listed
    have later := Text.lt_lineStart cut shows sound starts (by omega)
    -- the line does not begin inside the last token of the import
    have outside := whole.outside token (Token.mem_program.1 member).1
    omega

theorem lineStart_below {source : String} {spec : Node} (fits : (kept spec).Fits source) :
    Text.lineStart source (below source spec) = below source spec := by
  obtain ⟨before, line, rest, _, next, _⟩ := fits.exists_feed
  exact Text.lineStart_of_feed next (.inr ⟨_, rfl⟩)

/-- Where a path goes in a group of a block. -/
theorem IsBlock.inBlock_seatIn (block : IsBlock source list)
    (own : ∀ spec ∈ specsOf list, hasOwnLine source.text spec = true) (some : group ≠ [])
    (listed : group ⊆ specsOf list) (path text : String) :
    InBlock source list (Edit.insertAt (seatIn source.text (lineBehind source.text group) group path) text) := by
  have fits := fun spec member => block.fits (List.mem_filter.1 (listed member)).1 (own spec (listed member))
  unfold seatIn
  cases found : group.find? fun spec => decide (path < specPath source.text spec) with
  | some spec =>
      have member := List.mem_of_find?_eq_some found
      obtain ⟨fit, behind, ahead⟩ := fits spec member
      have early := Fits.front_lt fit
      change Text.lineStart source.text spec.start < below source.text spec at early
      exact ⟨rfl, behind, .inr ⟨early.trans_le ahead, Text.lineStart_lineStart fit.1⟩⟩
  | none =>
      have last := List.getLast?_eq_some_getLast some
      obtain ⟨fit, behind, ahead⟩ := fits _ (List.mem_of_getLast? last)
      have early := Fits.front_lt fit
      rw [Option.map_none, Option.getD_none, ← lineBehind_eq _ last]
      refine ⟨rfl, behind.trans early, ?_⟩
      exact ahead.eq_or_lt.imp_right fun less => ⟨less, lineStart_below fit⟩

theorem IsBlock.inBlock_lined (block : IsBlock source list) (some : specsOf list ≠ [])
    (own : ∀ spec ∈ specsOf list, hasOwnLine source.text spec = true) (sorted : wanted.Pairwise (· < ·)) :
    ∀ edit ∈ intoBlock source.text list wanted, InBlock source list edit := by
  intro edit planned
  rw [intoBlock_lined some own] at planned
  obtain ⟨anchor, listed, rfl⟩ := List.mem_map.1 planned
  have anchored := anchored sorted fun path =>
    offsetIn source.text (groupFor source.text (groupsOf source.text list) path) path
  obtain ⟨path, inside⟩ := List.exists_mem_of_ne_nil _ (anchored.filled anchor listed)
  have offset := ((anchored.listed (anchor.1, path)).1 (mem_spots.2 ⟨anchor, listed, rfl, inside⟩)).2
  have member := groupFor_mem source.text (groupsOf_ne_nil source.text some) path
  have full : groupFor source.text (groupsOf source.text list) path ≠ [] := fun none =>
    nil_notMem_groupsOf source.text list (none ▸ member)
  have subset : groupFor source.text (groupsOf source.text list) path ⊆ specsOf list := fun spec here =>
    flatten_groupsOf source.text list ▸ List.mem_flatten.2 ⟨_, member, here⟩
  change anchor.1 = offsetIn source.text _ path at offset
  rw [offset, offsetIn_eq full fun spec here =>
    (block.fits (List.mem_filter.1 (subset here)).1 (own spec (subset here))).1]
  exact block.inBlock_seatIn own full subset path _

theorem Shut.inBlock {offset : Nat} {opening : String} (shut : Shut source list offset opening)
    (block : IsBlock source list) (text : String) : InBlock source list (Edit.insertAt offset text) := by
  have close := block.close
  rcases shut.place with ⟨rfl, _⟩ | ⟨rfl, _, starts⟩
  · exact ⟨rfl, close.behind, .inl rfl⟩
  · refine ⟨rfl, (block.lineStart_close starts).1, ?_⟩
    exact (Text.lineStart_le _ _).eq_or_lt.imp_right fun less => ⟨less, Text.lineStart_lineStart close.whole.boundary⟩

theorem IsBlock.exists_shut (block : IsBlock source list) (wanted : List String)
    (shared : specsOf list = [] ∨ ∃ spec ∈ specsOf list, hasOwnLine source.text spec = false) :
    ∃ offset opening, Shut source list offset opening ∧
      intoBlock source.text list wanted = [Edit.insertAt offset (opening ++ ImportEdit.lines wanted)] := by
  have crowded : ((specsOf list).isEmpty || !(specsOf list).all (hasOwnLine source.text)) = true := by
    rw [Bool.or_eq_true, List.isEmpty_iff, Bool.not_eq_true', List.all_eq_false]
    exact shared.imp_right fun ⟨spec, listed, off⟩ => ⟨spec, listed, by simp [off]⟩
  have planned : intoBlock source.text list wanted = if Text.startsLine source.text (list.stop - 1) then
      [Edit.insertAt (Text.lineStart source.text (list.stop - 1)) (ImportEdit.lines wanted)]
    else [Edit.insertAt (list.stop - 1) ("\n" ++ ImportEdit.lines wanted)] := if_pos crowded
  rw [planned]
  split
  · rename_i starts
    exact ⟨_, "", ⟨.inr ⟨rfl, rfl, starts⟩, (block.lineStart_close starts).2⟩, by rw [String.empty_append]⟩
  · exact ⟨_, "\n", ⟨.inl ⟨rfl, rfl⟩, block.close.parts⟩, rfl⟩

/-- What becomes of a block, and where its new lines are put in. -/
theorem IsBlock.layout (block : IsBlock source list) (first : block? source.root = some list)
    (sorted : wanted.Pairwise (· < ·))
    (performed : Edit.perform source.text (intoBlock source.text list wanted) = .ok text) :
    Layout source wanted text ∧ ∀ edit ∈ intoBlock source.text list wanted, InBlock source list edit := by
  by_cases lined : specsOf list ≠ [] ∧ ∀ spec ∈ specsOf list, hasOwnLine source.text spec = true
  · obtain ⟨some, own⟩ := lined
    obtain ⟨slots, each, once, order, groups, result⟩ := block.merges some own sorted performed
    exact ⟨.grouped list slots first some own each once order groups result, block.inBlock_lined some own sorted⟩
  · have shared : specsOf list = [] ∨ ∃ spec ∈ specsOf list, hasOwnLine source.text spec = false := by
      by_contra none
      rw [not_or, not_exists] at none
      refine lined ⟨none.1, fun spec listed => ?_⟩
      exact Bool.of_not_eq_false fun contrary => none.2 spec ⟨listed, contrary⟩
    obtain ⟨offset, opening, shut, planned⟩ := block.exists_shut wanted shared
    rw [planned] at performed ⊢
    exact ⟨.crowded list offset opening first shared shut (Edit.text_of_insertAt performed),
      List.forall_mem_singleton.2 (shut.inBlock block _)⟩

theorem sortedSet_pairwise (texts : List String) : (sortedSet texts).Pairwise (· < ·) :=
  ((pairwise_mergeSort_key id _).and (sortedSet_nodup texts)).imp fun both => lt_of_le_of_ne both.1 both.2

/-! Files. -/

section Files

variable {text : String} {root declaration clause : Node} {others : List Node}

theorem forPaths_of_block (first : block? root = some list) (paths : List String) :
    forPaths text root paths = intoBlock text list paths := by
  unfold forPaths
  dsimp only
  rw [show List.findSome? _ _ = some list from first]

theorem forPaths_of_lone (first : block? root = none)
    (found : root.parts.filter (·.kind == .importDeclaration) = declaration :: others) (paths : List String) :
    forPaths text root paths = intoLone text declaration paths := by
  unfold forPaths
  dsimp only
  rw [show List.findSome? _ _ = none from first, found]

theorem forPaths_of_bare (first : block? root = none) (found : root.parts.filter (·.kind == .importDeclaration) = [])
    (there : root.parts.find? (·.kind == .packageClause) = some clause) (paths : List String) :
    forPaths text root paths = [Edit.insertAt clause.stop (ImportEdit.declaration paths)] := by
  unfold forPaths
  dsimp only
  rw [show List.findSome? _ _ = none from first, found, there]

end Files

/-- The first of the imports of a file without a block. -/
theorem exists_lone {declaration : Node} {others : List Node} (parsed : source.IsParsed)
    (first : block? source.root = none)
    (found : source.root.parts.filter (·.kind == .importDeclaration) = declaration :: others) :
    ∃ spec, Lone source.root declaration spec ∧ declaration.parts.find? (·.kind == .importSpec) = some spec := by
  have listed : declaration ∈ source.root.parts.filter (·.kind == .importDeclaration) := found ▸ List.mem_cons_self
  obtain ⟨part, kind⟩ := List.mem_filter.1 listed
  obtain ⟨_, _, spec, _, _, _, only, _⟩ :=
    (parsed.laidOut.children declaration (Edit.mem_parts part).1).imports (beq_iff_eq.1 kind)
  have lone : Lone source.root declaration spec :=
    lone_of_first parsed found (found ▸ first) (by rw [only]; exact List.mem_singleton_self spec)
  have worded := lone.worded parsed
  refine ⟨spec, lone, ?_⟩
  rw [only, List.find?_cons_of_pos]
  exact beq_iff_eq.2 worded.kind

/-- Imports can be added to every file that has an import or a package clause. Each path is added once, to the file as
it was; what is put into a block goes to the start of a line of it, or to its parenthesis. -/
theorem ofPaths_layout (parsed : source.IsParsed) {paths : List String} (some : paths ≠ [])
    (placed : ∃ part ∈ source.root.parts, part.kind = .importDeclaration ∨ part.kind = .packageClause) :
    ∃ wanted text, wanted.Pairwise (· < ·) ∧ (∀ path, path ∈ wanted ↔ path ∈ paths) ∧
      Edit.perform source.text (ofPaths source.text source.root paths) = .ok text ∧ Layout source wanted text ∧
        ∀ list, block? source.root = .some list →
          ∀ edit ∈ ofPaths source.text source.root paths, InBlock source list edit := by
  obtain ⟨changed, applied⟩ := ofPaths_accepted parsed paths
  have performed := Source.perform_of_apply applied
  refine ⟨sortedSet paths, changed.text, sortedSet_pairwise paths, fun path => mem_sortedSet, performed, ?_⟩
  have form : ofPaths source.text source.root paths = forPaths source.text source.root (sortedSet paths) :=
    if_neg (by simpa using some)
  rw [form] at performed ⊢
  cases first : block? source.root with
  | some list =>
      rw [forPaths_of_block first] at performed ⊢
      obtain ⟨layout, each⟩ := (isBlock_of_block? parsed first).layout first (sortedSet_pairwise paths) performed
      refine ⟨layout, fun other same => ?_⟩
      cases same
      exact each
  | none =>
      refine ⟨?_, nofun⟩
      cases found : source.root.parts.filter (·.kind == .importDeclaration) with
      | cons declaration others =>
          obtain ⟨spec, lone, only⟩ := exists_lone parsed first found
          rw [forPaths_of_lone first found, intoLone, only] at performed
          exact .alone declaration spec _ lone (List.mergeSort_perm _ _) (pairwise_mergeSort_key Prod.fst _)
            (Edit.text_of_replaceNode performed)
      | nil =>
          have bare : ∀ part ∈ source.root.parts, part.kind ≠ .importDeclaration := fun part listed is =>
            List.filter_eq_nil_iff.1 found part listed (beq_iff_eq.2 is)
          obtain ⟨clause, there⟩ : ∃ clause, source.root.parts.find? (·.kind == .packageClause) = .some clause := by
            obtain ⟨part, listed, kind⟩ := placed
            refine Option.isSome_iff_exists.1 (List.find?_isSome.2 ⟨part, listed, ?_⟩)
            exact beq_iff_eq.2 (kind.resolve_left (bare part listed))
          rw [forPaths_of_bare first found there] at performed
          exact .declared clause bare there (Edit.text_of_insertAt performed)

/-- A file with a block of imports. -/
def blockImport : Source := .load "p.go" "package p\nimport (\n\"os\"\n)\n"

theorem ofPaths_layout_blockImport : blockImport.IsParsed ∧ ["fmt", "a.b/c"] ≠ [] ∧
    (∃ part ∈ blockImport.root.parts, part.kind = .importDeclaration ∨ part.kind = .packageClause) ∧
    ∃ wanted text, wanted.Pairwise (· < ·) ∧ (∀ path, path ∈ wanted ↔ path ∈ ["fmt", "a.b/c"]) ∧
      Edit.perform blockImport.text (ofPaths blockImport.text blockImport.root ["fmt", "a.b/c"]) = .ok text ∧
        Layout blockImport wanted text :=
  have parsed : blockImport.IsParsed := Source.isParsed_load _ _
  have placed : ∃ part ∈ blockImport.root.parts, part.kind = .importDeclaration ∨ part.kind = .packageClause := by
    decide +kernel
  have some : ["fmt", "a.b/c"] ≠ [] := List.cons_ne_nil _ _
  have ⟨wanted, text, sorted, same, performed, layout, _⟩ := ofPaths_layout parsed some placed
  ⟨parsed, some, placed, wanted, text, sorted, same, performed, layout⟩

end ImportEdit
end TraceWeave
