import TraceWeave.Edit.Statement
import TraceWeave.Proofs.Edit
import TraceWeave.Proofs.Go.Places
import TraceWeave.Weave.Insertion

/-!
Edits that add to a list or a block of a tree. All of them go between characters, and one that adds
to a list goes between its brackets, after the elements it is said to follow.
-/
namespace TraceWeave.Edit

open Go (Node Token)
open Go.Node (Annotated Bracketed)

/-- An insertion into a list in brackets, with exactly the first `position` elements before it. -/
structure Joins (edit : Edit) (list : Node) (position : Nat) (text : String) : Prop where
  point : edit.start = edit.stop
  opened : list.start + 1 ≤ edit.start
  closed : edit.stop ≤ list.stop - 1
  reached : position ≤ list.parts.length
  before : ∀ element ∈ list.parts.take position, element.stop ≤ edit.start
  after : ∀ element ∈ list.parts.drop position, edit.stop ≤ element.start
  text : edit.text =
    if list.parts = [] then text else if position < list.parts.length then text ++ ", " else ", " ++ text

variable {sound : Nat → Prop} {source text : String} {list statement block : Node} {index : Nat}

theorem mem_parts {node child : Node} (member : child ∈ node.parts) :
    child ∈ node.children ∧ child.kind.isNamed = true ∧ child.kind ≠ .comment := by
  obtain ⟨listed, kind⟩ := List.mem_filter.1 member
  rw [Bool.and_eq_true, bne_iff_ne] at kind
  exact ⟨listed, kind⟩

theorem parts_pairwise (annotated : Annotated sound list) :
    list.parts.Pairwise fun a b => a.stop ≤ b.start :=
  annotated.shaped.chain.pairwise.filter _

/-- An insertion before an element of a list. -/
theorem joins_before {element : Node} (annotated : Annotated sound list) (brackets : Bracketed sound list)
    (found : list.parts[index]? = some element) : Joins (insertAt element.start (text ++ ", ")) list index text := by
  obtain ⟨bound, same⟩ := List.getElem?_eq_some_iff.1 found
  have whole : list.parts = list.parts.take index ++ element :: list.parts.drop (index + 1) := by
    rw [← same, ← List.drop_eq_getElem_cons bound, List.take_append_drop]
  have member : element ∈ list.parts := List.mem_of_getElem? found
  have order := parts_pairwise annotated
  rw [whole, List.pairwise_append, List.pairwise_cons] at order
  obtain ⟨_, ⟨later, _⟩, earlier⟩ := order
  have inside := brackets.inside element (mem_parts member).1 (mem_parts member).2.2
  have size := (annotated.children element (mem_parts member).1).le
  refine ⟨rfl, inside.1, Nat.le_trans size inside.2, Nat.le_of_lt bound, ?_, ?_, ?_⟩
  · exact fun other listed => earlier other listed element List.mem_cons_self
  · intro other listed
    rw [List.drop_eq_getElem_cons bound, same] at listed
    rcases List.mem_cons.1 listed with rfl | listed
    · exact Nat.le_refl _
    · exact Nat.le_trans size (later other listed)
  · rw [if_neg (List.ne_nil_of_mem member), if_pos bound]
    rfl

/-- An insertion after the last element of a list. -/
theorem joins_last {element : Node} (annotated : Annotated sound list) (brackets : Bracketed sound list)
    (found : list.parts.getLast? = some element) :
    Joins (insertAt element.stop (", " ++ text)) list list.parts.length text := by
  have member : element ∈ list.parts := List.mem_of_getLast? found
  have whole : list.parts = list.parts.dropLast ++ [element] := by
    rw [List.dropLast_append_getLast?]
    exact found
  have order := parts_pairwise annotated
  rw [whole, List.pairwise_append] at order
  have inside := brackets.inside element (mem_parts member).1 (mem_parts member).2.2
  have size := (annotated.children element (mem_parts member).1).le
  refine ⟨rfl, Nat.le_trans inside.1 size, inside.2, Nat.le_refl _, ?_, ?_, ?_⟩
  · intro other listed
    rw [List.take_length, whole] at listed
    rcases List.mem_append.1 listed with earlier | last
    · have before := order.2.2 other earlier element List.mem_cons_self
      exact Nat.le_trans before size
    · cases List.mem_singleton.1 last
      exact Nat.le_refl _
  · simp
  · rw [if_neg (List.ne_nil_of_mem member), if_neg (Nat.lt_irrefl _)]
    rfl

/-- An insertion into a list without elements. -/
theorem joins_empty (brackets : Bracketed sound list) (empty : list.parts = []) :
    Joins (insertAt (list.start + 1) text) list 0 text := by
  refine ⟨rfl, Nat.le_refl _, brackets.room, Nat.zero_le _, ?_, ?_, ?_⟩
  · simp
  · simp [empty]
  · rw [if_pos empty]
    rfl

/-- A new argument goes after as many arguments as it should, or last if there are fewer. -/
theorem addToArguments_joins (annotated : Annotated sound list) (brackets : Bracketed sound list) (index : Nat)
    (text : String) : Joins (addToArguments list index text) list (min index list.parts.length) text := by
  unfold addToArguments
  split
  · rename_i element found
    have bound : index < list.parts.length := (List.getElem?_eq_some_iff.1 found).1
    rw [Nat.min_eq_left (Nat.le_of_lt bound)]
    exact joins_before annotated brackets found
  · rename_i element beyond last
    rw [Nat.min_eq_right (List.getElem?_eq_none_iff.1 beyond)]
    exact joins_last annotated brackets last
  · rename_i _ nothing
    have empty := List.getLast?_eq_none_iff.1 nothing
    rw [empty, List.length_nil, Nat.min_zero]
    exact joins_empty brackets empty

/-! Between characters. -/

variable {node : Node}

theorem inserts_start (annotated : Annotated (Token.Clear source) node) (text : String) :
    Inserts source (insertAt node.start text) := inserts_insertAt text annotated.shaped.starts.boundary

theorem inserts_stop (annotated : Annotated (Token.Clear source) node) (text : String) :
    Inserts source (insertAt node.stop text) := inserts_insertAt text annotated.shaped.stops.boundary

theorem spans_replaceNode (annotated : Annotated (Token.Clear source) node) (text : String) :
    Spans source (replaceNode node text) :=
  ⟨annotated.le, annotated.shaped.starts.boundary, annotated.shaped.stops.boundary⟩

theorem inserts_opened (annotated : Annotated (Token.Clear source) node) (opens : node.kind.opens = true)
    (text : String) : Inserts source (insertAt (node.start + 1) text) :=
  inserts_insertAt text (annotated.shaped.opens opens).opening.boundary

theorem inserts_addToArguments (annotated : Annotated (Token.Clear source) list) (opens : list.kind.opens = true)
    (index : Nat) (text : String) : Inserts source (addToArguments list index text) := by
  unfold addToArguments
  split
  · rename_i found
    exact inserts_start (annotated.children _ (mem_parts (List.mem_of_getElem? found)).1) _
  · rename_i last
    exact inserts_stop (annotated.children _ (mem_parts (List.mem_of_getLast? last)).1) _
  · exact inserts_opened annotated opens _

theorem inserts_addParameter (annotated : Annotated (Token.Clear source) list) (opens : list.kind.opens = true)
    (text : String) : Inserts source (addParameter list text) := by
  have declared : ∀ declaration ∈ list.parts.filter (·.kind.isParameter),
      Annotated (Token.Clear source) declaration := by
    intro declaration member
    exact annotated.children _ (mem_parts (List.mem_filter.1 member).1).1
  unfold addParameter
  dsimp only
  split
  · rename_i found
    exact inserts_start (declared _ (List.mem_of_find?_eq_some found)) _
  · rename_i last
    exact inserts_stop (declared _ (List.mem_of_getLast? last)) _
  · exact inserts_opened annotated opens _

theorem inserts_addAfter (annotated : Annotated (Token.Clear source) statement) (text : String) :
    Inserts source (addAfter source statement text) := by
  unfold addAfter
  refine inserts_insertAt _ ?_
  have stops := annotated.shaped.stops.boundary
  split
  · exact Text.isBoundary_lineEnd stops
  · exact stops

theorem inserts_addBefore (annotated : Annotated (Token.Clear source) statement) (text : String) :
    Inserts source (addBefore source statement text) := by
  have starts := annotated.shaped.starts.boundary
  unfold addBefore
  dsimp only
  split
  · exact inserts_insertAt _ (Text.isBoundary_lineStart starts)
  · exact inserts_insertAt _ starts

theorem inserts_addBeforeFirst (annotated : Annotated (Token.Clear source) statement) (lines : List String) :
    Inserts source (addBeforeFirst source statement lines) := by
  have starts := annotated.shaped.starts.boundary
  unfold addBeforeFirst
  dsimp only
  split
  · exact inserts_insertAt _ (Text.isBoundary_lineStart starts)
  · exact inserts_insertAt _ starts

/-- Lines at the start of a block with statements. -/
theorem inserts_addAtStart (annotated : Annotated (Token.Clear source) block) (busy : block.statements ≠ [])
    (lines : List String) : Inserts source (addAtStart source block lines) := by
  unfold addAtStart
  split
  · rename_i first found
    exact inserts_addBeforeFirst (annotated.children _ (mem_parts (List.mem_of_head? found)).1) lines
  · rename_i nothing
    exact absurd (List.head?_eq_none_iff.1 nothing) busy

end TraceWeave.Edit
