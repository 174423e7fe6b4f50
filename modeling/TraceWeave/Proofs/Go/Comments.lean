import TraceWeave.Proofs.Go.Items
import TraceWeave.Proofs.Go.Tokens

/-!
Trees of texts. Comments come into a well-formed tree after it has been read; they lie between the
other children, so the tree keeps its shape. Every tree that a text is parsed to is of this kind.
-/
namespace TraceWeave.Go

namespace Node

/-- A tree in which comments are leaves and every node is as it should be. -/
inductive Annotated (sound : Nat → Prop) : Node → Prop where
  | intro {node : Node} (shaped : Shaped sound node) (leaf : node.kind = .comment → node.children = [])
      (children : ∀ child ∈ node.children, Annotated sound child) : Annotated sound node

/-- A comment as a node. -/
structure IsComment (sound : Nat → Prop) (node : Node) : Prop where
  kind : node.kind = .comment
  role : node.role = none
  leaf : node.children = []
  starts : sound node.start
  stops : sound node.stop
  wide : node.start < node.stop

/-- Comments one after the other, with no sound offset inside one of them. -/
structure Comments (sound : Nat → Prop) (comments : List Node) : Prop where
  each : ∀ comment ∈ comments, IsComment sound comment
  order : comments.Pairwise fun first second => first.stop ≤ second.start
  outside : ∀ comment ∈ comments, ∀ offset, sound offset → ¬ (comment.start < offset ∧ offset < comment.stop)

variable {sound : Nat → Prop} {first last : Nat} {node : Node} {nodes comments : List Node}

theorem Annotated.shaped (annotated : Annotated sound node) : Shaped sound node := by
  cases annotated with
  | intro shaped _ _ => exact shaped

theorem Annotated.leaf (annotated : Annotated sound node) : node.kind = .comment → node.children = [] := by
  cases annotated with
  | intro _ leaf _ => exact leaf

theorem Annotated.children (annotated : Annotated sound node) : ∀ child ∈ node.children, Annotated sound child := by
  cases annotated with
  | intro _ _ children => exact children

theorem IsComment.annotated (comment : IsComment sound node) : Annotated sound node := by
  refine .intro ?_ (fun _ => comment.leaf) ?_
  · exact
      { starts := comment.starts
        stops := comment.stops
        chain := by rw [comment.leaf]; exact Nat.le_of_lt comment.wide
        opens := fun contrary => by simp [comment.kind, Kind.opens] at contrary
        needed := fun role kind member => by simp [comment.kind, Kind.needed] at member
        literal := fun contrary => by simp [comment.kind] at contrary
        bodied := fun contrary => by simp [comment.kind, Kind.isFunction] at contrary }
  · rw [comment.leaf]
    simp

theorem Comments.filter (found : Comments sound comments) (test : Node → Bool) :
    Comments sound (comments.filter test) := by
  refine ⟨?_, found.order.filter _, ?_⟩
  · intro comment member
    exact found.each comment (List.mem_filter.1 member).1
  · intro comment member
    exact found.outside comment (List.mem_filter.1 member).1

/-- Ordered nodes between two offsets are a chain. -/
theorem chain_of_pairwise (bound : first ≤ last) (order : nodes.Pairwise fun a b => a.stop ≤ b.start)
    (within : ∀ node ∈ nodes, first ≤ node.start ∧ node.start ≤ node.stop ∧ node.stop ≤ last) :
    Chain first nodes last := by
  induction nodes generalizing first with
  | nil => exact bound
  | cons node nodes ih =>
      obtain ⟨after, order⟩ := List.pairwise_cons.1 order
      obtain ⟨⟨before, size, reach⟩, within⟩ := List.forall_mem_cons.1 within
      refine ⟨before, size, ih reach order ?_⟩
      intro other member
      exact ⟨after other member, (within other member).2⟩

/-! Merging. -/

theorem mem_merge (left right : List Node) : node ∈ merge left right ↔ node ∈ left ∨ node ∈ right := by
  fun_induction merge left right with
  | case1 right => simp
  | case2 left _ => simp
  | case3 a left b right before ih => simp only [List.mem_cons, ih]; tauto
  | case4 a left b right before ih => simp only [List.mem_cons, ih]; tauto

/-- A test that fails on one list only finds what is on the other. -/
theorem find?_merge (left right : List Node) (test : Node → Bool) (fails : ∀ node ∈ right, test node = false) :
    (merge left right).find? test = left.find? test := by
  fun_induction merge left right with
  | case1 right =>
      rw [List.find?_nil, List.find?_eq_none]
      intro node member
      simp [fails node member]
  | case2 left _ => rfl
  | case3 a left b right before ih =>
      rw [List.find?_cons_of_neg (by simp [fails b]), ih fun node member => fails node (by simp [member])]
  | case4 a left b right before ih => rw [List.find?_cons, List.find?_cons, ih fails]

theorem Chain.merge {left right : List Node} (chain : Chain first left last) (chain' : Chain first right last)
    (apart : ∀ a ∈ left, ∀ b ∈ right, a.stop ≤ b.start ∨ b.stop ≤ a.start)
    (wide : ∀ b ∈ right, b.start < b.stop) : Chain first (Node.merge left right) last := by
  fun_induction Node.merge left right generalizing first with
  | case1 right => exact chain'
  | case2 left _ => exact chain
  | case3 a left b right before ih =>
      obtain ⟨bound, size, rest⟩ := chain'
      refine ⟨bound, size, ih ?_ rest ?_ ?_⟩
      · have := apart a (by simp) b (by simp)
        have := chain.2.1
        exact ⟨by omega, chain.2⟩
      · exact fun x member y member' => apart x member y (by simp [member'])
      · exact fun y member => wide y (by simp [member])
  | case4 a left b right before ih =>
      obtain ⟨bound, size, rest⟩ := chain
      refine ⟨bound, size, ih rest ?_ ?_ wide⟩
      · have := apart a (by simp) b (by simp)
        have := wide b (by simp)
        exact ⟨by omega, chain'.2⟩
      · exact fun x member => apart x (by simp [member])

/-! Comments in their places. -/

theorem eachWithComments_eq (comments nodes : List Node) :
    eachWithComments comments nodes = nodes.map fun node => node.withComments (comments.filter node.covers) := by
  induction nodes with
  | nil => rfl
  | cons node nodes ih => rw [eachWithComments, ih, List.map_cons]

/-- Comments that are not inside a child. -/
def ownComments (comments : List Node) (node : Node) : List Node :=
  comments.filter fun comment => !node.children.any (·.covers comment)

theorem withComments_eq (comments : List Node) (node : Node) :
    node.withComments comments = ⟨node.kind, node.role, node.start, node.stop,
      merge (node.children.map fun child => child.withComments (comments.filter child.covers))
        (ownComments comments node)⟩ := by
  cases node
  rw [withComments, eachWithComments_eq]
  rfl

@[simp] theorem kind_withComments (comments : List Node) (node : Node) :
    (node.withComments comments).kind = node.kind := by rw [withComments_eq]

@[simp] theorem role_withComments (comments : List Node) (node : Node) :
    (node.withComments comments).role = node.role := by rw [withComments_eq]

@[simp] theorem start_withComments (comments : List Node) (node : Node) :
    (node.withComments comments).start = node.start := by rw [withComments_eq]

@[simp] theorem stop_withComments (comments : List Node) (node : Node) :
    (node.withComments comments).stop = node.stop := by rw [withComments_eq]

theorem children_withComments (comments : List Node) (node : Node) :
    (node.withComments comments).children =
      merge (node.children.map fun child => child.withComments (comments.filter child.covers))
        (ownComments comments node) := by rw [withComments_eq]

theorem covers_iff {outer inner : Node} :
    outer.covers inner = true ↔ outer.start ≤ inner.start ∧ inner.stop ≤ outer.stop := by
  simp [covers]

theorem Chain.withComments (chain : Chain first nodes last) (place : Node → List Node) :
    Chain first (nodes.map fun node => node.withComments (place node)) last := by
  induction nodes generalizing first with
  | nil => exact chain
  | cons node nodes ih =>
      simp only [List.map_cons, Chain, start_withComments, stop_withComments]
      exact ⟨chain.1, chain.2.1, ih chain.2.2⟩

/-- A comment outside of a node lies before or after it: the ends of the node are not inside the
comment. -/
theorem Comments.apart (found : Comments sound comments) {comment : Node} (member : comment ∈ comments)
    (shaped : Shaped sound node) (uncovered : node.covers comment = false) :
    node.stop ≤ comment.start ∨ comment.stop ≤ node.start := by
  have starts := found.outside comment member _ shaped.starts
  have stops := found.outside comment member _ shaped.stops
  have wide := (found.each comment member).wide
  have size := shaped.chain.le
  have open_ : ¬ (node.start ≤ comment.start ∧ comment.stop ≤ node.stop) := by
    rw [← covers_iff, uncovered]
    simp
  omega

theorem WellFormed.chain_withComments (formed : WellFormed sound node) (found : Comments sound comments)
    (covered : ∀ comment ∈ comments, node.covers comment = true) :
    Chain node.start (node.withComments comments).children node.stop := by
  rw [children_withComments]
  have own := found.filter fun comment => !node.children.any (·.covers comment)
  refine (formed.shaped.chain.withComments _).merge ?_ ?_ fun comment member => (own.each comment member).wide
  · refine chain_of_pairwise formed.le own.order fun comment member => ?_
    have inside := covers_iff.1 (covered comment (List.mem_filter.1 member).1)
    exact ⟨inside.1, Nat.le_of_lt (own.each comment member).wide, inside.2⟩
  · intro child member comment member'
    obtain ⟨original, place, rfl⟩ := List.mem_map.1 member
    obtain ⟨listed, alone⟩ := List.mem_filter.1 member'
    have uncovered : original.covers comment = false := by
      simp only [Bool.not_eq_true', List.any_eq_false, Bool.not_eq_true] at alone
      exact alone original place
    simp only [start_withComments, stop_withComments]
    exact found.apart listed (formed.children original place).shaped uncovered

theorem child?_withComments (found : Comments sound comments) (role : Role) :
    (node.withComments comments).child? role =
      (node.child? role).map fun child => child.withComments (comments.filter child.covers) := by
  rw [child?, children_withComments, find?_merge, List.find?_map]
  · simp only [child?, Function.comp_def, role_withComments]
  · intro comment member
    have plain := (found.each comment (List.mem_filter.1 member).1).role
    simp [plain]

/-- A child that is no comment was there before. -/
theorem Comments.original (found : Comments sound comments) {child : Node}
    (member : child ∈ (node.withComments comments).children) (apart : child.kind ≠ .comment) :
    ∃ original ∈ node.children, child = original.withComments (comments.filter original.covers) := by
  rw [children_withComments, mem_merge] at member
  rcases member with inner | own
  · obtain ⟨original, place, same⟩ := List.mem_map.1 inner
    exact ⟨original, place, same.symm⟩
  · exact absurd (found.each child (List.mem_filter.1 own).1).kind apart

theorem WellFormed.shaped_withComments (formed : WellFormed sound node) (found : Comments sound comments)
    (covered : ∀ comment ∈ comments, node.covers comment = true) : Shaped sound (node.withComments comments) := by
  have shaped := formed.shaped
  refine ⟨?_, ?_, ?_, ?_, ?_, ?_, ?_⟩
  · simpa using shaped.starts
  · simpa using shaped.stops
  · simpa using formed.chain_withComments found covered
  · intro opens
    rw [kind_withComments] at opens
    obtain ⟨opening, closing, room, inside⟩ := shaped.opens opens
    refine ⟨?_, ?_, ?_, ?_⟩
    · simpa using opening
    · simpa using closing
    · simpa using room
    · intro child member apart
      obtain ⟨original, place, rfl⟩ := found.original member apart
      simpa using inside original place (by simpa using apart)
  · intro role kind member
    rw [kind_withComments] at member
    obtain ⟨child, present, right⟩ := shaped.needed role kind member
    refine ⟨child.withComments (comments.filter child.covers), ?_, by simpa using right⟩
    rw [child?_withComments found, present, Option.map_some]
  · intro is child member apart
    rw [kind_withComments] at is
    obtain ⟨original, place, rfl⟩ := found.original member apart
    simpa using shaped.literal is original place (by simpa using apart)
  · intro function child member is
    rw [kind_withComments] at function
    rw [children_withComments, mem_merge] at member
    rcases member with inner | own
    · obtain ⟨original, place, rfl⟩ := List.mem_map.1 inner
      simpa using shaped.bodied function original place (by simpa using is)
    · rw [(found.each child (List.mem_filter.1 own).1).role] at is
      cases is

theorem WellFormed.withComments (formed : WellFormed sound node) (found : Comments sound comments)
    (covered : ∀ comment ∈ comments, node.covers comment = true) : Annotated sound (node.withComments comments) := by
  induction formed generalizing comments with
  | @intro node shaped apart children ih =>
      refine .intro (WellFormed.shaped_withComments (.intro shaped apart children) found covered)
        (fun contrary => absurd (by simpa using contrary) apart) ?_
      intro child member
      rw [children_withComments, mem_merge] at member
      rcases member with inner | own
      · obtain ⟨original, place, rfl⟩ := List.mem_map.1 inner
        exact ih original place (found.filter _) fun comment member => (List.mem_filter.1 member).2
      · exact (found.each child (List.mem_filter.1 own).1).annotated

/-- Without comments nothing has to be placed. -/
theorem WellFormed.annotated (formed : WellFormed sound node) : Annotated sound node := by
  induction formed with
  | intro shaped apart children ih => exact .intro shaped (fun contrary => absurd contrary apart) ih

end Node

namespace Tree

open Node

variable {sound : Nat → Prop} {source : String}

/-- The comments of a text, as nodes. -/
theorem comments_of_list (ends : ∀ token ∈ Token.list source, sound token.start ∧ sound token.stop)
    (outside : ∀ offset, sound offset → Token.Clear source offset) :
    Comments sound (((Token.list source).filter (·.kind == .comment)).map (·.leaf .comment)) := by
  obtain ⟨each, pairs⟩ := Token.ordered_iff.1 (Token.list_ordered source)
  have clear : ∀ node ∈ ((Token.list source).filter (·.kind == .comment)).map (·.leaf .comment),
      ∃ token ∈ Token.list source, token.kind = .comment ∧ node = token.leaf .comment := by
    intro node member
    obtain ⟨token, found, rfl⟩ := List.mem_map.1 member
    obtain ⟨listed, kind⟩ := List.mem_filter.1 found
    exact ⟨token, listed, beq_iff_eq.1 kind, rfl⟩
  refine ⟨?_, ?_, ?_⟩
  · intro node member
    obtain ⟨token, listed, kind, rfl⟩ := clear node member
    obtain ⟨starts, stops⟩ := ends token listed
    exact ⟨rfl, rfl, rfl, starts, stops, Token.list_wide listed (by simp [kind])⟩
  · exact List.pairwise_map.2 (pairs.filter _)
  · intro node member offset is
    obtain ⟨token, listed, kind, rfl⟩ := clear node member
    exact (outside offset is).outside token listed kind

/-- The tree of a text has the right shape over every set of sound offsets to which the ends of the
tokens belong, and no offset inside a comment. -/
theorem parse_annotated_of (starts : sound 0) (stops : sound (Text.size source))
    (ends : ∀ token ∈ Token.list source, sound token.start ∧ sound token.stop)
    (outside : ∀ offset, sound offset → Token.Clear source offset) : Annotated sound (parse source).root := by
  unfold parse
  dsimp only
  rw [List.partition_eq_filter_filter]
  dsimp only
  split
  · rename_i items found
    have row := Grammar.fileItems_row (Grammar.nested_keepsOrder sound (Text.size source) _) _
      (Token.program_ordered ends) found
    have formed : WellFormed sound ⟨.sourceFile, none, 0, Text.size source, items⟩ :=
      (row.widen (Nat.zero_le _) (Nat.le_refl _)).plain rfl starts stops
    dsimp only
    split
    · exact formed.annotated
    · have comments := comments_of_list ends outside
      refine formed.withComments comments fun comment member => ?_
      have stop := (outside _ (comments.each comment member).stops).boundary
      exact covers_iff.2 ⟨Nat.zero_le _, Text.le_size_of_isBoundary stop⟩
  · exact WellFormed.annotated ((row_nil.2 (Nat.zero_le _)).plain rfl starts stops)

/-- Every text has a tree of the right shape over it. -/
theorem parse_annotated (source : String) : Annotated (Token.Clear source) (parse source).root :=
  parse_annotated_of (Token.clear_zero source) (Token.clear_size source) (fun _ member => Token.clear_of_mem member)
    fun _ clear => clear

end Tree
end TraceWeave.Go
