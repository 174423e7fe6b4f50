import TraceWeave.Proofs.Go.Lexemes
import TraceWeave.Proofs.HandleEdits

/-!
Leaves of a tree, and edits that take their place. An edit that adds a statement, a parameter or an
argument goes to an offset that is not inside any leaf, and leaves do not overlap. So a batch is carried
out if each of its edits is of this sort or stays within a leaf, and none of the leaves comes up twice.
-/
namespace TraceWeave

open Go (Node Place Token Kind)
open Go.Node (Annotated)
open Go.Place (Below Inside)

namespace Go.Place

variable {sound : Nat → Prop} {all : List Token} {top place other : Place}

theorem Below.lexical (below : Below top place) (lexical : Node.Lexical all top.node) : Node.Lexical all place.node := by
  induction below with
  | here => exact lexical
  | inside _ member ih => exact ih.children _ (List.mem_filter.1 member).1

/-- In a place without parts, there is nothing but comments. -/
theorem not_inside_of_bare (annotated : Annotated sound place.node) (bare : place.node.parts = [])
    (solid : other.kind ≠ .comment) : ¬ Inside place other := by
  rintro ⟨child, member, below⟩
  obtain ⟨listed, named⟩ := List.mem_filter.1 member
  have comment : child.kind = .comment := by
    by_contra program
    have part : child ∈ place.node.parts := List.mem_filter.2 ⟨listed, by simp [named, program]⟩
    rw [bare] at part
    cases part
  rw [below.of_comment (annotated.children child listed) comment] at solid
  exact solid comment

end Go.Place

namespace Source

variable {source : Source} {kind : Kind} {leaf place : Place} {offset : Nat}

/-- Offsets in the tree are not inside tokens. -/
theorem IsParsed.whole (parsed : source.IsParsed) : Annotated (Token.Whole source.text) source.rootPlace.node := by
  change Annotated _ source.tree.root
  rw [parsed]
  exact Go.Tree.parse_whole source.text

theorem IsParsed.lexical (parsed : source.IsParsed) (below : Below source.rootPlace place) :
    Node.Lexical ((Token.list source.text).filter Token.isProgram) place.node := by
  refine below.lexical ?_
  change Node.Lexical _ source.tree.root
  rw [parsed]
  exact Go.Tree.parse_lexical source.text

/-- A place of a kind without parts: nothing but comments can be inside. -/
structure IsLeaf (source : Source) (kind : Kind) (place : Place) : Prop where
  below : Below source.rootPlace place
  kind : place.kind = kind
  bare : place.node.parts = []

/-- An offset that is not inside a leaf. -/
def Spares (source : Source) (kind : Kind) (offset : Nat) : Prop :=
  ∀ leaf, source.IsLeaf kind leaf → offset ≤ leaf.start ∨ leaf.stop ≤ offset

/-- Where a leaf can be, seen from another place. -/
theorem IsLeaf.cases (is : source.IsLeaf kind leaf) (parsed : source.IsParsed) (below : Below source.rootPlace place)
    (solid : place.kind ≠ .comment) :
    place = leaf ∨ Inside place leaf ∨ place.stop ≤ leaf.start ∨ leaf.stop ≤ place.start := by
  rcases Place.descendants_cases parsed.annotated below is.below with same | (inside | before) | (inside | after)
  · exact .inl same
  · exact .inr (.inl inside)
  · exact .inr (.inr (.inl before))
  · exact absurd inside (Go.Place.not_inside_of_bare (is.below.annotated parsed.annotated) is.bare solid)
  · exact .inr (.inr (.inr after))

theorem spares_start (parsed : source.IsParsed) (below : Below source.rootPlace place) (solid : place.kind ≠ .comment) :
    source.Spares kind place.start := by
  intro leaf is
  have size : place.start ≤ place.stop := (below.annotated parsed.annotated).le
  rcases is.cases parsed below solid with rfl | inside | before | after
  · exact .inl (Nat.le_refl _)
  · exact .inl (inside.within (below.annotated parsed.annotated)).1
  · exact .inl (Nat.le_trans size before)
  · exact .inr after

theorem spares_stop (parsed : source.IsParsed) (below : Below source.rootPlace place) (solid : place.kind ≠ .comment) :
    source.Spares kind place.stop := by
  intro leaf is
  have size : place.start ≤ place.stop := (below.annotated parsed.annotated).le
  rcases is.cases parsed below solid with rfl | inside | before | after
  · exact .inr (Nat.le_refl _)
  · exact .inr (inside.within (below.annotated parsed.annotated)).2
  · exact .inl before
  · exact .inr (Nat.le_trans after size)

/-- After an opening bracket. -/
theorem spares_opened (parsed : source.IsParsed) (below : Below source.rootPlace place)
    (opens : place.kind.opens = true) (solid : kind ≠ .comment) (other : place.kind ≠ kind) :
    source.Spares kind (place.start + 1) := by
  intro leaf is
  have formed := below.annotated parsed.annotated
  have brackets := formed.shaped.opens opens
  have room : place.start + 1 ≤ place.stop := Nat.le_trans brackets.room (Nat.sub_le _ _)
  have apart : place.kind ≠ .comment := fun contrary => by simp [contrary, Kind.opens] at opens
  rcases is.cases parsed below apart with rfl | inside | before | after
  · exact absurd is.kind other
  · obtain ⟨child, member, inner⟩ := inside
    have listed := (List.mem_filter.1 member).1
    have formed' := formed.children child listed
    have child_solid : child.kind ≠ .comment := by
      intro comment
      rw [inner.of_comment formed' comment] at is
      exact solid (is.kind.symm.trans comment)
    exact .inl (Nat.le_trans (brackets.inside child listed child_solid).1 (inner.within formed').1)
  · exact .inl (Nat.le_trans room before)
  · exact .inr (Nat.le_succ_of_le after)

/-- Kinds whose leaves are known by their tokens. -/
@[simp] abbrev IsInked (kind : Kind) : Prop := kind = .identifier ∨ kind = .block

/-- A leaf begins with a token that shows. -/
theorem IsLeaf.exists_token (is : source.IsLeaf kind leaf) (parsed : source.IsParsed) (inked : IsInked kind) :
    ∃ token ∈ Token.list source.text, token.kind ≠ .comment ∧ token.Shows source.text ∧ token.start < token.stop ∧
      token.start = leaf.start := by
  have lexical := parsed.lexical is.below
  rcases inked with rfl | rfl
  · obtain ⟨_, token, member, word, start, _⟩ := lexical.word is.kind
    have listed := (List.mem_filter.1 member).1
    exact ⟨token, listed, by simp [word], Token.shows_of_word listed word,
      Token.list_wide listed (by simp [word]), start⟩
  · have brackets : leaf.node.kind.brackets? = some ("\x7b", "\x7d") := by
      rw [show leaf.node.kind = .block from is.kind]
      rfl
    obtain ⟨⟨token, member, mark, start⟩, _⟩ := lexical.brackets brackets
    have listed := (List.mem_filter.1 member).1
    obtain ⟨⟨before, rest, cut⟩, stop⟩ := Token.cut_of_isMark (c := '\x7b') listed mark
    refine ⟨token, listed, ?_, ⟨before, _, rest, cut, by decide⟩, ?_, start⟩
    · intro comment
      simp [Token.isMark, comment] at mark
    · have room := Char.utf8Size_pos '\x7b'
      omega

theorem IsLeaf.wide (is : source.IsLeaf kind leaf) (parsed : source.IsParsed) (inked : IsInked kind) :
    leaf.start < leaf.stop := by
  rcases inked with rfl | rfl
  · obtain ⟨_, token, member, word, start, stop⟩ := (parsed.lexical is.below).word is.kind
    have wide := Token.list_wide (List.mem_filter.1 member).1 (by simp [word])
    rw [start, stop] at wide
    exact wide
  · apply (is.below.annotated parsed.annotated).opens_wide
    rw [show leaf.node.kind = .block from is.kind]
    rfl

/-- At the end of the line of a statement. -/
theorem spares_lineEnd (parsed : source.IsParsed) (inked : IsInked kind) (below : Below source.rootPlace place)
    (solid : place.kind ≠ .comment) (trivia : Text.restIsTrivia source.text place.stop = true) :
    source.Spares kind (Text.lineEnd source.text place.stop) := by
  intro leaf is
  rcases spares_stop parsed below solid leaf is with before | after
  · obtain ⟨token, member, program, shows, wide, start⟩ := is.exists_token parsed inked
    have whole := (below.annotated parsed.whole).shaped.stops
    rw [← start] at before ⊢
    exact .inl (Token.lineEnd_le_start whole trivia member program shows wide before)
  · exact .inr (Nat.le_trans after (Nat.le_add_right _ _))

/-- At the start of the line of a statement, which is not the line of a block before it. -/
theorem spares_lineStart (parsed : source.IsParsed) (below : Below source.rootPlace place)
    (solid : place.kind ≠ .comment) (starts : Text.startsLine source.text place.start = true) :
    source.Spares .block (Text.lineStart source.text place.start) := by
  intro leaf is
  rcases spares_start parsed below solid leaf is with before | after
  · exact .inl (Nat.le_trans (Nat.sub_le _ _) before)
  · have brackets : leaf.node.kind.brackets? = some ("\x7b", "\x7d") := by
      rw [show leaf.node.kind = .block from is.kind]
      rfl
    obtain ⟨_, token, member, mark, stop⟩ := (parsed.lexical is.below).brackets brackets
    obtain ⟨⟨upTo, rest, cut⟩, size⟩ := Token.cut_of_isMark (c := '\x7d') (List.mem_filter.1 member).1 mark
    have one : Char.utf8Size '\x7d' = 1 := by decide
    have boundary := (below.annotated parsed.annotated).shaped.starts.boundary
    change leaf.stop ≤ place.node.start at after
    change token.stop = leaf.stop at stop
    have later := Text.lt_lineStart cut (by decide) boundary starts (by omega)
    refine .inr ?_
    change leaf.stop ≤ Text.lineStart source.text place.node.start
    omega

/-! Edits. -/

/-- An edit that inserts a text outside of leaves. -/
structure Beside (source : Source) (kind : Kind) (edit : Edit) : Prop where
  inserts : edit.Inserts source.text
  spares : source.Spares kind edit.start

theorem beside_start (parsed : source.IsParsed) (below : Below source.rootPlace place) (solid : place.kind ≠ .comment)
    (text : String) : source.Beside kind (Edit.insertAt place.start text) :=
  ⟨Edit.inserts_start (below.annotated parsed.annotated) text, spares_start parsed below solid⟩

theorem beside_stop (parsed : source.IsParsed) (below : Below source.rootPlace place) (solid : place.kind ≠ .comment)
    (text : String) : source.Beside kind (Edit.insertAt place.stop text) :=
  ⟨Edit.inserts_stop (below.annotated parsed.annotated) text, spares_stop parsed below solid⟩

theorem beside_opened (parsed : source.IsParsed) (below : Below source.rootPlace place)
    (opens : place.kind.opens = true) (solid : kind ≠ .comment) (other : place.kind ≠ kind) (text : String) :
    source.Beside kind (Edit.insertAt (place.start + 1) text) :=
  ⟨Edit.inserts_opened (below.annotated parsed.annotated) opens text, spares_opened parsed below opens solid other⟩

theorem beside_addToArguments (parsed : source.IsParsed) (below : Below source.rootPlace place)
    (is : place.kind = .argumentList) (index : Nat) (text : String) :
    source.Beside .block (Edit.addToArguments place.node index text) := by
  unfold Edit.addToArguments
  split
  · rename_i element found
    obtain ⟨listed, named, solid⟩ := Edit.mem_parts (List.mem_of_getElem? found)
    exact beside_start parsed (below.inside (List.mem_filter.2 ⟨listed, named⟩)) solid _
  · rename_i element _ last
    obtain ⟨listed, named, solid⟩ := Edit.mem_parts (List.mem_of_getLast? last)
    exact beside_stop parsed (below.inside (List.mem_filter.2 ⟨listed, named⟩)) solid _
  · exact beside_opened parsed below (by rw [is]; rfl) (by simp) (by simp [is]) _

theorem beside_addParameter (parsed : source.IsParsed) (below : Below source.rootPlace place)
    (is : place.kind = .parameterList) (text : String) :
    source.Beside .block (Edit.addParameter place.node text) := by
  have declared : ∀ declaration ∈ place.node.parts.filter (·.kind.isParameter),
      Below source.rootPlace (place.inside declaration) ∧ declaration.kind ≠ .comment := by
    intro declaration member
    obtain ⟨listed, named, solid⟩ := Edit.mem_parts (List.mem_filter.1 member).1
    exact ⟨below.inside (List.mem_filter.2 ⟨listed, named⟩), solid⟩
  unfold Edit.addParameter
  dsimp only
  split
  · rename_i found
    obtain ⟨inside, solid⟩ := declared _ (List.mem_of_find?_eq_some found)
    exact beside_start parsed inside solid _
  · rename_i last
    obtain ⟨inside, solid⟩ := declared _ (List.mem_of_getLast? last)
    exact beside_stop parsed inside solid _
  · exact beside_opened parsed below (by rw [is]; rfl) (by simp) (by simp [is]) _

theorem beside_addAfter (parsed : source.IsParsed) (inked : IsInked kind) (below : Below source.rootPlace place)
    (solid : place.kind ≠ .comment) (text : String) :
    source.Beside kind (Edit.addAfter source.text place.node text) := by
  refine ⟨Edit.inserts_addAfter (below.annotated parsed.annotated) text, ?_⟩
  unfold Edit.addAfter
  dsimp only [Edit.start_insertAt]
  split
  · rename_i trivia
    exact spares_lineEnd parsed inked below solid trivia
  · exact spares_stop parsed below solid

theorem beside_addBefore (parsed : source.IsParsed) (below : Below source.rootPlace place)
    (solid : place.kind ≠ .comment) (text : String) :
    source.Beside .block (Edit.addBefore source.text place.node text) := by
  refine ⟨Edit.inserts_addBefore (below.annotated parsed.annotated) text, ?_⟩
  unfold Edit.addBefore
  dsimp only
  split
  · rename_i starts
    exact spares_lineStart parsed below solid starts
  · exact spares_start parsed below solid

theorem beside_addBeforeFirst (parsed : source.IsParsed) (below : Below source.rootPlace place)
    (solid : place.kind ≠ .comment) (lines : List String) :
    source.Beside .block (Edit.addBeforeFirst source.text place.node lines) := by
  refine ⟨Edit.inserts_addBeforeFirst (below.annotated parsed.annotated) lines, ?_⟩
  unfold Edit.addBeforeFirst
  dsimp only
  split
  · rename_i starts
    exact spares_lineStart parsed below solid starts
  · exact spares_start parsed below solid

/-! Batches. -/

/-- Edits that insert text outside of leaves, or stay within leaves, which are listed in their order. -/
inductive Laid (source : Source) (kind : Kind) : List Edit → List Place → Prop where
  | nil : Laid source kind [] []
  | insert {edit : Edit} {edits : List Edit} {leaves : List Place} (beside : source.Beside kind edit)
      (rest : Laid source kind edits leaves) : Laid source kind (edit :: edits) leaves
  | within {edit : Edit} {edits : List Edit} {leaf : Place} {leaves : List Place} (is : source.IsLeaf kind leaf)
      (spans : edit.Spans source.text) (opened : leaf.start ≤ edit.start) (closed : edit.stop ≤ leaf.stop)
      (rest : Laid source kind edits leaves) : Laid source kind (edit :: edits) (leaf :: leaves)

variable {edit : Edit} {edits edits' : List Edit} {leaves leaves' : List Place}

theorem Laid.append (first : Laid source kind edits leaves) (second : Laid source kind edits' leaves') :
    Laid source kind (edits ++ edits') (leaves ++ leaves') := by
  induction first with
  | nil => exact second
  | insert beside _ ih => exact .insert beside ih
  | within is spans opened closed _ ih => exact .within is spans opened closed ih

theorem Laid.of_beside (each : ∀ edit ∈ edits, source.Beside kind edit) : Laid source kind edits [] := by
  induction edits with
  | nil => exact .nil
  | cons edit edits ih =>
      obtain ⟨beside, each⟩ := List.forall_mem_cons.1 each
      exact .insert beside (ih each)

/-- Lines at the start of a block: before its first statement, or in the block if it has none. -/
theorem laid_addAtStart (parsed : source.IsParsed) (below : Below source.rootPlace place) (is : place.kind = .block)
    (lines : List String) :
    ∃ leaves, Laid source .block [Edit.addAtStart source.text place.node lines] leaves ∧ leaves.Sublist [place] := by
  unfold Edit.addAtStart
  split
  · rename_i first found
    obtain ⟨listed, named, solid⟩ := Edit.mem_parts (List.mem_of_head? found)
    have beside : source.Beside .block (Edit.addBeforeFirst source.text first lines) :=
      beside_addBeforeFirst parsed (below.inside (List.mem_filter.2 ⟨listed, named⟩)) solid lines
    exact ⟨[], .insert beside .nil, List.nil_sublist _⟩
  · rename_i nothing
    have leaf : source.IsLeaf .block place := ⟨below, is, List.head?_eq_none_iff.1 nothing⟩
    have brackets := (below.annotated parsed.annotated).shaped.opens (by rw [show place.node.kind = .block from is]; rfl)
    have room := brackets.room
    have size : place.node.start ≤ place.node.stop := (below.annotated parsed.annotated).le
    refine ⟨[place], ?_, List.Sublist.refl _⟩
    unfold Edit.addToEmpty
    dsimp only
    rw [Nat.max_eq_left room]
    split
    · refine .within leaf ⟨room, brackets.opening.boundary, brackets.closing.boundary⟩ ?_ ?_ .nil
      · exact Nat.le_succ _
      · exact Nat.sub_le _ _
    · refine .within leaf ⟨Nat.le_refl _, brackets.opening.boundary, brackets.opening.boundary⟩ ?_ ?_ .nil
      · exact Nat.le_succ _
      · exact Nat.le_trans room (Nat.sub_le _ _)

theorem Laid.isLeaf (laid : Laid source kind edits leaves) : ∀ leaf ∈ leaves, source.IsLeaf kind leaf := by
  induction laid with
  | nil => simp
  | insert _ _ ih => exact ih
  | within is _ _ _ _ ih => exact List.forall_mem_cons.2 ⟨is, ih⟩

theorem Laid.mem (laid : Laid source kind edits leaves) (member : edit ∈ edits) :
    source.Beside kind edit ∨
      ∃ leaf ∈ leaves, edit.Spans source.text ∧ leaf.start ≤ edit.start ∧ edit.stop ≤ leaf.stop := by
  induction laid with
  | nil => cases member
  | insert beside _ ih =>
      rcases List.mem_cons.1 member with rfl | later
      · exact .inl beside
      · exact ih later
  | within _ spans opened closed _ ih =>
      rcases List.mem_cons.1 member with rfl | later
      · exact .inr ⟨_, List.mem_cons_self, spans, opened, closed⟩
      · rcases ih later with outside | ⟨leaf, listed, inside⟩
        · exact .inl outside
        · exact .inr ⟨leaf, List.mem_cons_of_mem _ listed, inside⟩

/-- Two leaves do not overlap. -/
theorem IsLeaf.apart (parsed : source.IsParsed) (solid : kind ≠ .comment) (is : source.IsLeaf kind leaf)
    (is' : source.IsLeaf kind place) (other : leaf ≠ place) : leaf.stop ≤ place.start ∨ place.stop ≤ leaf.start := by
  have solid' : leaf.kind ≠ .comment := by rw [is.kind]; exact solid
  rcases is'.cases parsed is.below solid' with same | inside | before | after
  · exact absurd same other
  · refine absurd inside (Go.Place.not_inside_of_bare (is.below.annotated parsed.annotated) is.bare ?_)
    rw [is'.kind]
    exact solid
  · exact .inl before
  · exact .inr after

theorem Laid.apart (parsed : source.IsParsed) (solid : kind ≠ .comment) (laid : Laid source kind edits leaves)
    (once : leaves.Nodup) : edits.Pairwise Edit.Apart := by
  induction laid with
  | nil => exact .nil
  | @insert edit _ _ beside rest ih =>
      refine List.pairwise_cons.2 ⟨fun other member => ?_, ih once⟩
      rcases rest.mem member with beside' | ⟨leaf, listed, _, opened, closed⟩
      · exact beside.inserts.apart beside'.inserts
      · have point := beside.inserts.point
        have spared := beside.spares leaf (rest.isLeaf leaf listed)
        unfold Edit.Apart
        omega
  | @within edit _ leaf _ is spans opened closed rest ih =>
      obtain ⟨absent, once⟩ := List.nodup_cons.1 once
      refine List.pairwise_cons.2 ⟨fun other member => ?_, ih once⟩
      rcases rest.mem member with beside | ⟨leaf', listed, _, opened', closed'⟩
      · have point := beside.inserts.point
        have spared := beside.spares leaf is
        unfold Edit.Apart
        omega
      · have clear := is.apart parsed solid (rest.isLeaf leaf' listed) (fun same => absent (same ▸ listed))
        unfold Edit.Apart
        omega

theorem Laid.accepted (parsed : source.IsParsed) (solid : kind ≠ .comment) (laid : Laid source kind edits leaves)
    (once : leaves.Nodup) : ∃ changed, source.apply edits = .ok changed := by
  have spans : ∀ edit ∈ edits, edit.Spans source.text := by
    intro edit member
    rcases laid.mem member with beside | ⟨_, _, spans, _⟩
    · exact beside.inserts.spans
    · exact spans
  obtain ⟨text, performed⟩ := Edit.perform_of_apart spans (laid.apart parsed solid once)
  exact exists_apply performed

end Source
end TraceWeave
