import Mathlib.Data.List.Pairwise
import TraceWeave.Go.Place
import TraceWeave.Proofs.Go.Comments

/-!
Places in a tree. A walk meets every place below its start; of two places it meets, the later one is
inside the earlier one or begins after it ends. So a function literal is known by where it begins.
-/
namespace TraceWeave.Go

namespace Node

variable {sound : Nat → Prop} {first last : Nat} {node : Node} {nodes : List Node}

theorem isSame_refl (node : Node) : node.isSame node = true := by simp [isSame]

theorem isSame_comm (a b : Node) : a.isSame b = b.isSame a := by
  rw [isSame, isSame, Bool.beq_comm, Bool.beq_comm (a := a.start), Bool.beq_comm (a := a.stop)]

theorem Chain.pairwise (chain : Chain first nodes last) : nodes.Pairwise fun a b => a.stop ≤ b.start := by
  induction nodes generalizing first with
  | nil => exact .nil
  | cons node nodes ih =>
      refine List.pairwise_cons.2 ⟨fun other member => ?_, ih chain.2.2⟩
      exact (chain.2.2.mem member).1

theorem Annotated.le (annotated : Annotated sound node) : node.start ≤ node.stop := annotated.shaped.chain.le

/-- A named child of a comment does not exist. -/
theorem Annotated.not_comment (annotated : Annotated sound node) {child : Node} (member : child ∈ node.children) :
    node.kind ≠ .comment := by
  intro contrary
  rw [annotated.leaf contrary] at member
  cases member

/-- A call has its list of arguments. -/
theorem Annotated.argumentList (annotated : Annotated sound node) (call : node.kind = .callExpression) :
    ∃ list, node.child? .arguments = some list ∧ list.kind = .argumentList :=
  annotated.shaped.needed .arguments .argumentList (by simp [call, Kind.needed])

/-- A function literal has its list of parameters. -/
theorem Annotated.literalParameters (annotated : Annotated sound node) (literal : node.kind = .funcLiteral) :
    ∃ list, node.child? .parameters = some list ∧ list.kind = .parameterList :=
  annotated.shaped.needed .parameters .parameterList (by simp [literal, Kind.needed])

/-- A function literal has a body. -/
theorem Annotated.literalBody (annotated : Annotated sound node) (literal : node.kind = .funcLiteral) :
    ∃ body, node.child? .body = some body ∧ body.kind = .block :=
  annotated.shaped.needed .body .block (by simp [literal, Kind.needed])

theorem Annotated.child? (annotated : Annotated sound node) {role : Role} {child : Node}
    (found : node.child? role = some child) : Annotated sound child :=
  annotated.children child (List.mem_of_find?_eq_some found)

/-- Brackets take room. -/
theorem Annotated.opens_wide (annotated : Annotated sound node) (opens : node.kind.opens = true) :
    node.start < node.stop := by
  have := (annotated.shaped.opens opens).room
  omega

/-- A node with a child that takes room takes room itself. -/
theorem Annotated.wide_of_child (annotated : Annotated sound node) {child : Node} (member : child ∈ node.children)
    (wide : child.start < child.stop) : node.start < node.stop := by
  have := annotated.shaped.chain.mem member
  omega

/-- A call takes room. -/
theorem Annotated.call_wide (annotated : Annotated sound node) (call : node.kind = .callExpression) :
    node.start < node.stop := by
  obtain ⟨list, found, kind⟩ := annotated.argumentList call
  exact annotated.wide_of_child (List.mem_of_find?_eq_some found)
    ((annotated.child? found).opens_wide (by rw [kind]; rfl))

/-- A function literal takes room. -/
theorem Annotated.literal_wide (annotated : Annotated sound node) (literal : node.kind = .funcLiteral) :
    node.start < node.stop := by
  obtain ⟨body, found, block⟩ := annotated.literalBody literal
  exact annotated.wide_of_child (List.mem_of_find?_eq_some found)
    ((annotated.child? found).opens_wide (by rw [block]; rfl))

end Node

namespace Place

open Node (Annotated)

/-- A place at or below another one. -/
inductive Below (top : Place) : Place → Prop where
  | here : Below top top
  | inside {place : Place} {child : Node} (below : Below top place) (member : child ∈ place.node.named) :
      Below top (place.inside child)

/-- A place below one of the children of another one. -/
def Inside (outer inner : Place) : Prop := ∃ child ∈ outer.node.named, Below (outer.inside child) inner

variable {sound : Nat → Prop} {top place other : Place} {child : Node} {waiting : List Place}

theorem Below.trans (first : Below top place) (second : Below place other) : Below top other := by
  induction second with
  | here => exact first
  | inside _ member ih => exact ih.inside member

theorem Inside.below (inside : Inside top place) : Below top place := by
  obtain ⟨child, member, below⟩ := inside
  exact (Below.here.inside member).trans below

/-! The walk. -/

theorem mem_visit_of_mem (member : place ∈ waiting) : place ∈ visit waiting := by
  fun_induction visit waiting with
  | case1 => cases member
  | case2 head waiting ih =>
      rcases List.mem_cons.1 member with rfl | later
      · exact List.mem_cons_self
      · exact List.mem_cons_of_mem _ (ih (List.mem_append_right _ later))

theorem inside_mem_visit (met : place ∈ visit waiting) (member : child ∈ place.node.named) :
    place.inside child ∈ visit waiting := by
  fun_induction visit waiting with
  | case1 => cases met
  | case2 head waiting ih =>
      rcases List.mem_cons.1 met with rfl | later
      · refine List.mem_cons_of_mem _ (mem_visit_of_mem (List.mem_append_left _ ?_))
        exact List.mem_map_of_mem member
      · exact List.mem_cons_of_mem _ (ih later)

theorem mem_visit : place ∈ visit waiting ↔ ∃ top ∈ waiting, Below top place := by
  constructor
  · intro met
    fun_induction visit waiting with
    | case1 => cases met
    | case2 head waiting ih =>
        rcases List.mem_cons.1 met with rfl | later
        · exact ⟨place, List.mem_cons_self, .here⟩
        · obtain ⟨top, listed, below⟩ := ih later
          rcases List.mem_append.1 listed with inner | outer
          · obtain ⟨child, member, rfl⟩ := List.mem_map.1 inner
            exact ⟨head, List.mem_cons_self, Inside.below ⟨child, member, below⟩⟩
          · exact ⟨top, List.mem_cons_of_mem _ outer, below⟩
  · rintro ⟨top, listed, below⟩
    induction below with
    | here => exact mem_visit_of_mem listed
    | inside _ member ih => exact inside_mem_visit ih member

theorem mem_descendants : place ∈ top.descendants ↔ Below top place := by
  rw [descendants, mem_visit]
  simp

/-! What holds below a place. -/

theorem Below.annotated (below : Below top place) (annotated : Annotated sound top.node) :
    Annotated sound place.node := by
  induction below with
  | here => exact annotated
  | inside _ member ih => exact ih.children _ (List.mem_filter.1 member).1

theorem Below.within (below : Below top place) (annotated : Annotated sound top.node) :
    top.start ≤ place.start ∧ place.stop ≤ top.stop := by
  induction below with
  | here => exact ⟨Nat.le_refl _, Nat.le_refl _⟩
  | inside below member ih =>
      have bounds := (below.annotated annotated).shaped.chain.mem (List.mem_filter.1 member).1
      exact ⟨Nat.le_trans ih.1 bounds.1, Nat.le_trans bounds.2.2 ih.2⟩

/-- Outwards from a place below the top, the nodes around it are places themselves. -/
theorem Below.parent (below : Below top place) :
    place = top ∨ ∃ node around, place.around = node :: around ∧ place.node ∈ node.named ∧
      Below top ⟨node, around⟩ := by
  cases below with
  | here => exact .inl rfl
  | inside below member => exact .inr ⟨_, _, rfl, member, below⟩

/-- What is around the top is around everything below it. -/
theorem Below.exists_around (below : Below top place) : ∃ inner, place.around = inner ++ top.around := by
  induction below with
  | here => exact ⟨[], rfl⟩
  | @inside place child _ _ ih =>
      obtain ⟨inner, same⟩ := ih
      exact ⟨place.node :: inner, by rw [Place.inside, same, List.cons_append]⟩

theorem Below.exists_outward (below : Below top place) :
    ∃ inner, place.node :: place.around = inner ++ top.node :: top.around := by
  induction below with
  | here => exact ⟨[], rfl⟩
  | @inside place child _ _ ih =>
      obtain ⟨inner, same⟩ := ih
      exact ⟨child :: inner, congrArg (child :: ·) same⟩

theorem not_inside_self (place : Place) : ¬ Inside place place := by
  rintro ⟨child, _, below⟩
  obtain ⟨inner, same⟩ := below.exists_around
  have size := congrArg List.length same
  simp only [Place.inside, List.length_append, List.length_cons] at size
  omega

theorem Inside.within (inside : Inside place other) (annotated : Annotated sound place.node) :
    place.start ≤ other.start ∧ other.stop ≤ place.stop := inside.below.within annotated

/-- Nothing is below a comment. -/
theorem Below.of_comment (below : Below top place) (annotated : Annotated sound top.node)
    (comment : top.kind = .comment) : place = top := by
  induction below with
  | here => rfl
  | inside below member ih =>
      rw [ih] at member
      exact absurd comment (annotated.not_comment (List.mem_filter.1 member).1)

/-- What is inside a literal begins after it. -/
theorem Inside.literal_lt (inside : Inside place other) (annotated : Annotated sound place.node)
    (literal : place.kind = .funcLiteral) (apart : other.kind ≠ .comment) : place.start < other.start := by
  obtain ⟨child, member, below⟩ := inside
  have listed := (List.mem_filter.1 member).1
  have formed : Annotated sound (place.inside child).node := annotated.children child listed
  have solid : child.kind ≠ .comment := by
    intro comment
    rw [below.of_comment formed comment] at apart
    exact apart comment
  exact Nat.lt_of_lt_of_le (annotated.shaped.literal literal child listed solid) (below.within formed).1

/-- What a walk meets later is inside a place or begins after it ends. -/
theorem visit_pairwise (annotated : ∀ place ∈ waiting, Annotated sound place.node)
    (order : waiting.Pairwise fun a b => a.stop ≤ b.start) :
    (visit waiting).Pairwise fun a b => Inside a b ∨ a.stop ≤ b.start := by
  fun_induction visit waiting with
  | case1 => exact .nil
  | case2 head waiting ih =>
      obtain ⟨formed, annotated⟩ := List.forall_mem_cons.1 annotated
      obtain ⟨after, order⟩ := List.pairwise_cons.1 order
      have children : (head.node.named.map head.inside).Pairwise fun a b => a.stop ≤ b.start :=
        List.pairwise_map.2 (formed.shaped.chain.pairwise.filter _)
      refine List.pairwise_cons.2 ⟨?_, ih ?_ ?_⟩
      · intro place met
        obtain ⟨top, listed, below⟩ := mem_visit.1 met
        rcases List.mem_append.1 listed with inner | outer
        · obtain ⟨child, member, rfl⟩ := List.mem_map.1 inner
          exact .inl ⟨child, member, below⟩
        · exact .inr (Nat.le_trans (after top outer) (below.within (annotated top outer)).1)
      · intro place listed
        rcases List.mem_append.1 listed with inner | outer
        · obtain ⟨child, member, rfl⟩ := List.mem_map.1 inner
          exact formed.children child (List.mem_filter.1 member).1
        · exact annotated place outer
      · refine List.pairwise_append.2 ⟨children, order, ?_⟩
        intro inner listed outer later
        obtain ⟨child, member, rfl⟩ := List.mem_map.1 listed
        have bounds := formed.shaped.chain.mem (List.mem_filter.1 member).1
        exact Nat.le_trans bounds.2.2 (after outer later)

theorem descendants_pairwise (annotated : Annotated sound top.node) :
    top.descendants.Pairwise fun a b => Inside a b ∨ a.stop ≤ b.start :=
  visit_pairwise (by simpa using annotated) (List.pairwise_singleton _ _)

/-- Two places of one tree are the same, or one is inside the other or after it. -/
theorem descendants_cases (annotated : Annotated sound top.node) (below : Below top place) (below' : Below top other) :
    place = other ∨ (Inside place other ∨ place.stop ≤ other.start) ∨ (Inside other place ∨ other.stop ≤ place.start) := by
  have order := descendants_pairwise annotated
  have first : top.descendants.Pairwise fun a b =>
      a = b ∨ (Inside a b ∨ a.stop ≤ b.start) ∨ (Inside b a ∨ b.stop ≤ a.start) := order.imp fun met => .inr (.inl met)
  have second : top.descendants.Pairwise fun a b =>
      b = a ∨ (Inside b a ∨ b.stop ≤ a.start) ∨ (Inside a b ∨ a.stop ≤ b.start) := order.imp fun met => .inr (.inr met)
  exact first.forall_of_forall_of_flip (fun _ _ => .inl rfl) second (mem_descendants.2 below) (mem_descendants.2 below')

/-- No literal begins where another one does. -/
theorem literal_unique (annotated : Annotated sound top.node) (below : Below top place) (below' : Below top other)
    (literal : place.kind = .funcLiteral) (literal' : other.kind = .funcLiteral) (same : place.start = other.start) :
    place = other := by
  have formed := below.annotated annotated
  have formed' := below'.annotated annotated
  have wide : place.start < place.stop := formed.literal_wide literal
  have wide' : other.start < other.stop := formed'.literal_wide literal'
  rcases descendants_cases annotated below below' with equal | (inside | after) | (inside | after)
  · exact equal
  · have := inside.literal_lt formed literal (by simp [literal'])
    omega
  · omega
  · have := inside.literal_lt formed' literal' (by simp [literal])
    omega
  · omega

end Place
end TraceWeave.Go
