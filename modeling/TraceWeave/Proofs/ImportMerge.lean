import TraceWeave.Proofs.Acceptance
import TraceWeave.Proofs.ImportGroups
import TraceWeave.Proofs.Stretch

/-!
How the imports of a block come to be merged. New paths are collected by the offset they go to, and put in from the
first offset to the last; the result is what the merged groups make, one after the other.
-/
namespace TraceWeave

open Go (Node)

namespace ImportEdit

open Slot

/-! Offsets with the paths that go there. -/

/-- New imports, each with where it is put in. -/
def spots (anchors : List (Nat × List String)) : List (Nat × String) :=
  anchors.flatMap fun anchor => anchor.2.map (anchor.1, ·)

/-- At an earlier offset, or at the same one with a lesser path. -/
def Sooner (a b : Nat × String) : Prop := a.1 < b.1 ∨ a.1 = b.1 ∧ a.2 < b.2

instance : Std.Irrefl Sooner := ⟨fun spot => by simp [Sooner]⟩

instance : Std.Antisymm Sooner := ⟨fun a b first second => by
  rcases first with less | ⟨same, less⟩ <;> rcases second with less' | ⟨same', less'⟩
  · omega
  · omega
  · omega
  · exact absurd less' (lt_asymm less)⟩

variable {anchors : List (Nat × List String)} {spot : Nat × String} {offset : Nat} {path : String}

theorem mem_spots : spot ∈ spots anchors ↔ ∃ anchor ∈ anchors, anchor.1 = spot.1 ∧ spot.2 ∈ anchor.2 := by
  rw [spots, List.mem_flatMap]
  refine exists_congr fun anchor => and_congr_right fun _ => ?_
  rw [List.mem_map]
  constructor
  · rintro ⟨path, listed, rfl⟩
    exact ⟨rfl, listed⟩
  · rintro ⟨same, listed⟩
    exact ⟨spot.2, listed, by rw [same]⟩

theorem mem_spots_addAt : spot ∈ spots (addAt offset path anchors) ↔ spot = (offset, path) ∨ spot ∈ spots anchors := by
  induction anchors with
  | nil => simp [addAt, spots]
  | cons head rest ih =>
      obtain ⟨other, paths⟩ := head
      have parts (first : Nat × List String) (others : List (Nat × List String)) :
          spot ∈ spots (first :: others) ↔ spot ∈ first.2.map (first.1, ·) ∨ spot ∈ spots others := by
        rw [spots, List.flatMap_cons, List.mem_append]
        rfl
      unfold addAt
      split
      · rename_i same
        subst same
        rw [parts, parts, List.map_append, List.mem_append, List.map_singleton, List.mem_singleton]
        tauto
      · split
        · rw [parts, List.map_singleton, List.mem_singleton]
        · rw [parts, parts, ih]
          tauto

/-- Offsets in order, each with the paths that go there, in order. -/
structure Anchored (offset : String → Nat) (paths : List String) (anchors : List (Nat × List String)) : Prop where
  keys : anchors.Pairwise fun a b => a.1 < b.1
  filled : ∀ anchor ∈ anchors, anchor.2 ≠ []
  rising : ∀ anchor ∈ anchors, anchor.2.Pairwise (· < ·)
  listed : ∀ spot, spot ∈ spots anchors ↔ spot.2 ∈ paths ∧ spot.1 = offset spot.2

theorem addAt_keys (keys : anchors.Pairwise fun a b => a.1 < b.1) (offset : Nat) (path : String) :
    (addAt offset path anchors).Pairwise fun a b => a.1 < b.1 := by
  induction anchors with
  | nil => exact List.pairwise_singleton _ _
  | cons head rest ih =>
      obtain ⟨other, paths⟩ := head
      obtain ⟨least, keys'⟩ := List.pairwise_cons.1 keys
      unfold addAt
      split
      · exact List.pairwise_cons.2 ⟨least, keys'⟩
      · split
        · rename_i less
          have first : ∀ anchor ∈ (other, paths) :: rest, offset < anchor.1 :=
            List.forall_mem_cons.2 ⟨less, fun anchor member => less.trans (least anchor member)⟩
          exact List.pairwise_cons.2 ⟨first, keys⟩
        · refine List.pairwise_cons.2 ⟨fun anchor member => ?_, ih keys'⟩
          rcases mem_addAt member with new | ⟨old, listed, same⟩
          · change other < anchor.1
            omega
          · exact same ▸ least old listed

theorem addAt_each (good : List String → Prop) (each : ∀ anchor ∈ anchors, good anchor.2) (alone : good [path])
    (more : ∀ anchor ∈ anchors, good (anchor.2 ++ [path])) : ∀ anchor ∈ addAt offset path anchors, good anchor.2 := by
  induction anchors with
  | nil => exact List.forall_mem_singleton.2 alone
  | cons head rest ih =>
      obtain ⟨other, paths⟩ := head
      obtain ⟨first, each'⟩ := List.forall_mem_cons.1 each
      obtain ⟨first', more'⟩ := List.forall_mem_cons.1 more
      unfold addAt
      split
      · exact List.forall_mem_cons.2 ⟨first', each'⟩
      · split
        · exact List.forall_mem_cons.2 ⟨alone, each⟩
        · exact List.forall_mem_cons.2 ⟨first, ih each' more'⟩

/-- A greater path is put to its offset. -/
theorem Anchored.add {place : String → Nat} {paths : List String} (anchored : Anchored place paths anchors)
    (greatest : ∀ other ∈ paths, other < path) :
    Anchored place (paths ++ [path]) (addAt (place path) path anchors) := by
  obtain ⟨keys, filled, rising, listed⟩ := anchored
  have full : ∀ anchor ∈ anchors, anchor.2 ++ [path] ≠ [] := fun _ _ =>
    List.append_ne_nil_of_right_ne_nil _ (List.cons_ne_nil _ _)
  refine ⟨addAt_keys keys _ _, addAt_each (· ≠ []) filled (List.cons_ne_nil _ _) full,
    addAt_each _ rising (List.pairwise_singleton _ _) ?_, ?_⟩
  · refine fun anchor member => List.pairwise_append.2 ⟨rising anchor member, List.pairwise_singleton _ _, ?_⟩
    intro other inside path' new
    rw [List.mem_singleton.1 new]
    exact greatest other ((listed (anchor.1, other)).1 (mem_spots.2 ⟨anchor, member, rfl, inside⟩)).1
  · rintro ⟨offset, other⟩
    rw [mem_spots_addAt, listed, List.mem_append, List.mem_singleton, Prod.mk.injEq, or_and_right, or_comm]
    refine or_congr_right ⟨fun ⟨same, same'⟩ => ⟨same', by rw [same, same']⟩, fun ⟨same, same'⟩ => ⟨?_, same⟩⟩
    change offset = place other at same'
    change other = path at same
    rw [same', same]

theorem anchored {paths : List String} (sorted : paths.Pairwise (· < ·)) (place : String → Nat) :
    Anchored place paths (paths.foldl (fun anchors path => addAt (place path) path anchors) []) := by
  induction paths using List.reverseRec with
  | nil => exact ⟨.nil, by simp, by simp, by simp [spots]⟩
  | append_singleton paths path ih =>
      obtain ⟨before, _, greatest⟩ := List.pairwise_append.1 sorted
      rw [List.foldl_append]
      exact (ih before).add fun other member => greatest other member path (List.mem_singleton_self path)

theorem Anchored.sorted {place : String → Nat} {paths : List String} (anchored : Anchored place paths anchors) :
    (spots anchors).Pairwise Sooner := by
  refine List.pairwise_flatMap.2 ⟨fun anchor member => ?_, anchored.keys.imp fun {a b} less spot here spot' there => ?_⟩
  · exact List.pairwise_map.2 ((anchored.rising anchor member).imp fun less => .inr ⟨rfl, less⟩)
  · obtain ⟨_, _, rfl⟩ := List.mem_map.1 here
    obtain ⟨_, _, rfl⟩ := List.mem_map.1 there
    exact .inl less

/-- Each path goes to one offset. -/
theorem Anchored.perm {place : String → Nat} {paths : List String} (anchored : Anchored place paths anchors)
    (once : paths.Nodup) : ((spots anchors).map (·.2)).Perm paths := by
  have distinct : (spots anchors).Nodup := anchored.sorted.imp ne_of_irrefl
  refine (List.perm_ext_iff_of_nodup (distinct.map_on fun spot member spot' member' same => ?_) once).2 fun path => ?_
  · have offset := ((anchored.listed spot).1 member).2
    have offset' := ((anchored.listed spot').1 member').2
    exact Prod.ext (by rw [offset, offset', same]) same
  · rw [List.mem_map]
    constructor
    · rintro ⟨spot, member, rfl⟩
      exact ((anchored.listed spot).1 member).1
    · exact fun new => ⟨(place path, path), (anchored.listed _).2 ⟨new, rfl⟩, rfl⟩

/-- A new import is put in as a line. -/
def spotEdit (spot : Nat × String) : Edit := Edit.insertAt spot.1 (line spot.2)

/-- Edits at offsets in order are in order. -/
theorem inOrder_anchors (keys : anchors.Pairwise fun a b => a.1 < b.1) :
    Edit.inOrder (anchors.map fun anchor => Edit.insertAt anchor.1 (lines anchor.2)) =
      anchors.map fun anchor => Edit.insertAt anchor.1 (lines anchor.2) :=
  List.mergeSort_of_pairwise (List.pairwise_map.2 (keys.imp fun less => Edit.goesBefore_iff.2 (.inl less)))

/-- Lines that are put in at one offset are put in one by one. -/
theorem rendered_spots (source : String) (stop done : Nat) (filled : ∀ anchor ∈ anchors, anchor.2 ≠ []) :
    Edit.rendered source stop done (anchors.map fun anchor => Edit.insertAt anchor.1 (lines anchor.2)) =
      Edit.rendered source stop done ((spots anchors).map spotEdit) := by
  induction anchors generalizing done with
  | nil => rfl
  | cons anchor anchors ih =>
      obtain ⟨full, filled'⟩ := List.forall_mem_cons.1 filled
      obtain ⟨offset, paths⟩ := anchor
      have row (paths : List String) (edits : List Edit) :
          Edit.rendered source stop offset (paths.map (fun path => spotEdit (offset, path)) ++ edits) =
            lines paths ++ Edit.rendered source stop offset edits := by
        induction paths with
        | nil => exact (String.empty_append).symm
        | cons path paths ih =>
            rw [List.map_cons, List.cons_append, Edit.rendered]
            change Text.slice source offset offset ++ line path ++ Edit.rendered source stop offset _ = _
            rw [ih, Text.slice_self, String.empty_append, lines, lines, List.map_cons, String.join_cons,
              String.append_assoc]
      cases paths with
      | nil => exact absurd rfl full
      | cons path paths =>
          rw [spots, List.flatMap_cons, List.map_append, List.map_map, List.map_cons, List.map_cons, List.cons_append,
            Edit.rendered, Edit.rendered]
          change Text.slice source done offset ++ lines (path :: paths) ++ Edit.rendered source stop offset _ =
            Text.slice source done offset ++ line path ++ Edit.rendered source stop offset
              (paths.map (fun path => spotEdit (offset, path)) ++ (spots anchors).map spotEdit)
          rw [row, ih offset filled', lines, List.map_cons, String.join_cons, ← lines]
          simp only [String.append_assoc]

/-! Merged groups. -/

variable {source : String} {specs : List Node} {slots : List Slot} {group : List Node}

/-- Putting in the new imports of a row is what makes its text. -/
theorem result_eq_rendered {done : Nat} (chain : slots.IsChain (Before source))
    (fits : ∀ slot ∈ slots, slot.Fits source) (sound : Text.isBoundary source done = true)
    (reached : ∀ slot ∈ slots.head?, done ≤ slot.start) (pending : String) :
    Edit.Row source (Text.size source) done ((slots.filterMap added?).map spotEdit) ∧
      result source pending done slots =
        pending ++ Edit.rendered source (Text.size source) done ((slots.filterMap added?).map spotEdit) := by
  induction slots generalizing done pending with
  | nil => exact ⟨.nil sound (Text.isBoundary_size source) (Text.le_size_of_isBoundary sound), rfl⟩
  | cons slot slots ih =>
      obtain ⟨next, chain'⟩ := List.isChain_cons.1 chain
      obtain ⟨fit, fits'⟩ := List.forall_mem_cons.1 fits
      have begun : done ≤ slot.start := reached slot rfl
      have further : ∀ other ∈ slots.head?, slot.stop ≤ other.start := fun other first =>
        ((Fits.stop_le fit).trans (next other first).order).trans (next other first).fits'.front_le
      cases slot with
      | kept spec =>
          obtain ⟨starts, wide, stops, _⟩ := fit
          obtain ⟨row, same⟩ := ih chain' fits' stops further ""
          obtain ⟨back, whole⟩ := row.back sound (begun.trans wide)
          rw [List.filterMap_cons_none rfl]
          refine ⟨back, ?_⟩
          have parts := Text.slice_append sound starts stops begun wide
          change pending ++ Text.slice source done spec.start ++ "" ++ Text.slice source spec.start spec.stop ++
            result source "" spec.stop slots = _
          rw [same, whole, ← parts, String.append_empty, String.empty_append]
          simp only [String.append_assoc]
      | added path offset =>
          obtain ⟨row, same⟩ := ih chain' fits' fit further "\n"
          rw [List.filterMap_cons_some (f := added?) rfl, List.map_cons]
          refine ⟨.cons sound ⟨Nat.le_refl _, fit, fit⟩ begun row, ?_⟩
          change pending ++ Text.slice source done offset ++ "\t" ++ ("\"" ++ path ++ "\"") ++
            result source "\n" offset slots =
              pending ++ (Text.slice source done offset ++ line path ++ Edit.rendered source _ offset _)
          rw [same, line]
          simp only [String.append_assoc]
          rfl

/-- The line behind a group. -/
def lineBehind (source : String) (group : List Node) : Nat := (group.getLast?.map (below source)).getD 0

/-- Groups with new paths. -/
def mergeEach (source : String) (groups : List (List Node)) (share : List Node → List String) : List (List Slot) :=
  groups.map fun group => merge source (lineBehind source group) group (share group)

theorem lineBehind_eq : ∀ spec ∈ group.getLast?, below source spec = lineBehind source group := by
  intro spec last
  rw [lineBehind, last, Option.map_some, Option.getD_some]

theorem isBoundary_lineBehind (fits : ∀ spec ∈ group, (kept spec).Fits source) :
    Text.isBoundary source (lineBehind source group) = true := by
  cases last : group.getLast? with
  | none =>
      rw [lineBehind, last]
      exact Text.isBoundary_zero source
  | some spec =>
      rw [← lineBehind_eq spec last]
      exact (fits spec (List.mem_of_getLast? last)).exists_restOfLine.1

/-- From one group to the next there is an empty line, before and after. -/
theorem merge_apart {early late : List Node} {paths paths' : List String} (ends : early ≠ []) (begins : late ≠ [])
    (fits : ∀ spec ∈ early, (kept spec).Fits source) (fits' : ∀ spec ∈ late, (kept spec).Fits source)
    (before : Before source (kept (early.getLast ends)) (kept (late.head begins)))
    (gap : ImportEdit.joins source (early.getLast ends) (late.head begins) = false) :
    ∀ last ∈ (merge source (lineBehind source early) early paths).getLast?,
      ∀ first ∈ (merge source (lineBehind source late) late paths').head?,
        Before source last first ∧ Slot.joins source last first = false := by
  intro last final first initial
  have rear : last.rear source = (kept (early.getLast ends)).rear source :=
    (rear_of_mem_getLast? lineBehind_eq final).trans (lineBehind_eq _ (List.getLast?_eq_some_getLast ends)).symm
  have front : first.front source = (kept (late.head begins)).front source := by
    have place := front_of_mem_head? initial
    rwa [List.head?_eq_some_head begins] at place
  have apart : last.rear source ≠ first.front source := by
    intro touching
    rw [rear, front] at touching
    have joined := joins_of_touching before touching
    rw [joins_kept, gap] at joined
    cases joined
  have order : last.rear source ≤ first.front source := by
    rw [rear, front]
    exact before.order
  have before' : Before source last first := by
    refine before_of_lt ?_ ?_ (order.lt_of_ne apart)
    · exact fits_of_mem_merge fits (isBoundary_lineBehind fits) (List.mem_of_getLast? final)
    · exact fits_of_mem_merge fits' (isBoundary_lineBehind fits') (List.mem_of_mem_head? initial)
  exact ⟨before', by rw [joins_congr before' before rear front, joins_kept, gap]⟩

/-- Merged groups stand one after the other, and they are the groups of the result. -/
theorem mergeEach_grouped {found : List (List Node)} (share : List Node → List String)
    (split : specs.splitBy (ImportEdit.joins source) = found) (fits : ∀ spec ∈ specs, (kept spec).Fits source)
    (order : specs.IsChain fun a b => Before source (kept a) (kept b))
    (sorted : ∀ group, (share group).Pairwise (· < ·)) :
    (mergeEach source found share).flatten.IsChain (Before source) ∧
      (mergeEach source found share).flatten.splitBy (Slot.joins source) = mergeEach source found share := by
  obtain ⟨rfl, filled, joined, apart⟩ := List.splitBy_eq_iff.1 split
  obtain ⟨inner, outer⟩ := (List.isChain_flatten filled).1 order
  have fits' : ∀ group ∈ found, ∀ spec ∈ group, (kept spec).Fits source := fun group listed spec member =>
    fits spec (List.mem_flatten.2 ⟨group, listed, member⟩)
  have adjoins : ∀ slots ∈ mergeEach source found share, slots.IsChain (Adjoins source) := by
    intro slots listed
    obtain ⟨group, member, rfl⟩ := List.mem_map.1 listed
    refine merge_adjoins (fits' group member) (isBoundary_lineBehind (fits' group member)) ?_ lineBehind_eq
      (sorted group)
    have order' := List.isChain_iff_getElem.1 (inner group member)
    have joined' := List.isChain_iff_getElem.1 (joined group member)
    exact List.isChain_iff_getElem.2 fun i bound => ⟨order' i bound, by rw [joins_kept]; exact joined' i bound⟩
  have filled' : [] ∉ mergeEach source found share := by
    intro contrary
    obtain ⟨group, member, none⟩ := List.mem_map.1 contrary
    exact merge_ne_nil _ _ (fun empty => filled (empty ▸ member)) _ none
  have across : (mergeEach source found share).IsChain fun early late =>
      ∀ last ∈ early.getLast?, ∀ first ∈ late.head?,
        Before source last first ∧ Slot.joins source last first = false := by
    refine (List.isChain_map _).2 (List.isChain_iff_getElem.2 fun i bound => ?_)
    obtain ⟨ends, begins, gap⟩ := List.isChain_iff_getElem.1 apart i bound
    have before := List.isChain_iff_getElem.1 outer i bound _ (List.getLast?_eq_some_getLast ends) _
      (List.head?_eq_some_head begins)
    exact merge_apart ends begins (fits' _ (List.getElem_mem _)) (fits' _ (List.getElem_mem _)) before gap
  constructor
  · refine (List.isChain_flatten filled').2 ⟨fun slots listed => (adjoins slots listed).imp fun _ _ => And.left, ?_⟩
    exact across.imp fun early late both last final first initial => (both last final first initial).1
  · refine List.splitBy_eq_iff.2 ⟨rfl, filled', fun slots listed => (adjoins slots listed).imp fun _ _ => And.right, ?_⟩
    refine across.imp_of_mem_imp fun early late listed listed' both => ?_
    have some : early ≠ [] := fun none => filled' (none ▸ listed)
    have some' : late ≠ [] := fun none => filled' (none ▸ listed')
    exact ⟨some, some', (both _ (List.getLast?_eq_some_getLast some) _ (List.head?_eq_some_head some')).2⟩

end ImportEdit
end TraceWeave
