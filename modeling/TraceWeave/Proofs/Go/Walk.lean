import Mathlib.Data.List.Forall2
import Mathlib.Data.List.Nodup
import TraceWeave.Proofs.Go.Places

/-!
Every node once. A way says which named child to take at each level of a tree, and the order of lists puts ways as a
document puts nodes. The walk over waiting places goes all ways of a tree in this order, and so do the statement
sequences of a body: each block is one of them, and each statement of a block has one spot.
-/
namespace TraceWeave.Go

/-- Which named child to take at each level below a node. -/
abbrev Way := List Nat

namespace Node

mutual

/-- Ways to a node and, in order, to the named nodes below it. -/
def ways : Node → List Way
  | ⟨_, _, _, _, children⟩ => [] :: waysFrom 0 children

/-- Ways through the named nodes of a list, where the first of them has a given number. -/
def waysFrom (number : Nat) : List Node → List Way
  | [] => []
  | node :: nodes =>
      if node.kind.isNamed then node.ways.map (number :: ·) ++ waysFrom (number + 1) nodes
      else waysFrom number nodes

end

variable {node : Node} {way : Way}

theorem ways_eq (node : Node) : node.ways = [] :: waysFrom 0 node.children := by
  cases node
  rfl

theorem waysFrom_eq (number : Nat) (nodes : List Node) :
    waysFrom number nodes =
      ((nodes.filter (·.kind.isNamed)).zipIdx number).flatMap fun child => child.1.ways.map (child.2 :: ·) := by
  induction nodes generalizing number with
  | nil => rfl
  | cons node nodes ih =>
      rw [waysFrom, List.filter_cons]
      split
      · rw [List.zipIdx_cons, List.flatMap_cons, ih]
      · exact ih number

theorem preorder_eq (node : Node) : node.preorder = node :: preorderAll node.children := by
  cases node
  rfl

theorem preorderAll_eq (nodes : List Node) :
    preorderAll nodes = (nodes.filter (·.kind.isNamed)).flatMap preorder := by
  induction nodes with
  | nil => rfl
  | cons node nodes ih =>
      rw [preorderAll, List.filter_cons]
      split
      · rw [List.flatMap_cons, ih]
      · exact ih

/-! Ways are in document order. -/

mutual

theorem ways_pairwise : ∀ node : Node, node.ways.Pairwise (· < ·)
  | ⟨_, _, _, _, children⟩ => by
      obtain ⟨order, beyond⟩ := waysFrom_pairwise 0 children
      refine List.pairwise_cons.2 ⟨fun way member => ?_, order⟩
      obtain ⟨_, _, _, rfl⟩ := beyond way member
      exact List.nil_lt_cons _ _

theorem waysFrom_pairwise (number : Nat) : ∀ nodes : List Node, (waysFrom number nodes).Pairwise (· < ·) ∧
    ∀ way ∈ waysFrom number nodes, ∃ first rest, number ≤ first ∧ way = first :: rest
  | [] => ⟨.nil, by simp [waysFrom]⟩
  | node :: nodes => by
      rw [waysFrom]
      split
      · obtain ⟨order, beyond⟩ := waysFrom_pairwise (number + 1) nodes
        refine ⟨List.pairwise_append.2 ⟨?_, order, ?_⟩, ?_⟩
        · exact List.pairwise_map.2 ((ways_pairwise node).imp fun less => List.cons_lt_cons_iff.2 (.inr ⟨rfl, less⟩))
        · intro earlier member later member'
          obtain ⟨way, _, rfl⟩ := List.mem_map.1 member
          obtain ⟨first, rest, bound, rfl⟩ := beyond later member'
          exact List.cons_lt_cons_iff.2 (.inl bound)
        · intro way member
          rcases List.mem_append.1 member with here | later
          · obtain ⟨rest, _, rfl⟩ := List.mem_map.1 here
            exact ⟨number, rest, Nat.le_refl _, rfl⟩
          · obtain ⟨first, rest, bound, rfl⟩ := beyond way later
            exact ⟨first, rest, Nat.le_of_succ_le bound, rfl⟩
      · exact waysFrom_pairwise number nodes

end

/-- A way through a child. -/
theorem cons_mem_ways {number : Nat} :
    number :: way ∈ node.ways ↔ ∃ child, node.named[number]? = some child ∧ way ∈ child.ways := by
  rw [ways_eq, List.mem_cons, waysFrom_eq, List.mem_flatMap]
  constructor
  · rintro (contrary | ⟨⟨child, place⟩, listed, member⟩)
    · cases contrary
    · obtain ⟨rest, inside, same⟩ := List.mem_map.1 member
      cases same
      exact ⟨child, List.mk_mem_zipIdx_iff_getElem?.1 listed, inside⟩
  · rintro ⟨child, found, inside⟩
    exact .inr ⟨(child, number), List.mk_mem_zipIdx_iff_getElem?.2 found, List.mem_map_of_mem inside⟩

/-! Statements of a block. -/

section
variable {block : Node} {number : Nat}

/-- The numbers of the statements of a block among its named children. -/
def statementNumbers (block : Node) : List Nat := (block.named.zipIdx.filter (·.1.kind != .comment)).map (·.2)

theorem statementNumbers_pairwise (block : Node) : block.statementNumbers.Pairwise (· < ·) := by
  have all : (block.named.zipIdx.map (·.2)).Pairwise (· < ·) := by
    rw [List.zipIdx_map_snd]
    exact List.pairwise_lt_range'
  exact List.pairwise_map.2 ((List.pairwise_map.1 all).filter _)

theorem mem_statementNumbers :
    number ∈ block.statementNumbers ↔ ∃ statement, block.named[number]? = some statement ∧ statement.kind ≠ .comment := by
  unfold statementNumbers
  constructor
  · intro member
    obtain ⟨⟨statement, place⟩, listed, rfl⟩ := List.mem_map.1 member
    obtain ⟨listed, solid⟩ := List.mem_filter.1 listed
    exact ⟨statement, List.mk_mem_zipIdx_iff_getElem?.1 listed, by simpa using solid⟩
  · rintro ⟨statement, found, solid⟩
    exact List.mem_map.2 ⟨(statement, number),
      List.mem_filter.2 ⟨List.mk_mem_zipIdx_iff_getElem?.2 found, by simpa using solid⟩, rfl⟩

/-- Nothing stands between neighbours of a list in order. -/
theorem next_of_pairwise {numbers : List Nat} (order : numbers.Pairwise (· < ·)) {spot first second : Nat}
    (here : numbers[spot]? = some first) (behind : numbers[spot + 1]? = some second) :
    first < second ∧ ∀ number ∈ numbers, first < number → second ≤ number := by
  induction numbers generalizing spot with
  | nil => cases here
  | cons head numbers ih =>
      obtain ⟨least, sorted⟩ := List.pairwise_cons.1 order
      rw [List.getElem?_cons_succ] at behind
      cases spot with
      | zero =>
          cases here
          refine ⟨least second (List.mem_of_getElem? behind), fun number member later => ?_⟩
          rcases List.mem_cons.1 member with rfl | member
          · exact absurd later (Nat.lt_irrefl _)
          cases numbers with
          | nil => cases member
          | cons next numbers =>
              cases behind
              rcases List.mem_cons.1 member with rfl | member
              · exact Nat.le_refl _
              · exact Nat.le_of_lt ((List.pairwise_cons.1 sorted).1 number member)
      | succ spot =>
          rw [List.getElem?_cons_succ] at here
          obtain ⟨less, between⟩ := ih sorted here behind
          refine ⟨less, fun number member later => ?_⟩
          rcases List.mem_cons.1 member with rfl | member
          · exact absurd (least first (List.mem_of_getElem? here)) (Nat.lt_asymm later)
          · exact between number member later

/-- The statements of a block are those with these numbers. -/
theorem map_statementNumbers (block : Node) : block.statementNumbers.map (block.named[·]?) = block.parts.map some := by
  have solid : block.parts = (block.named.zipIdx.map (·.1)).filter (·.kind != .comment) := by
    rw [List.zipIdx_map_fst, named, List.filter_filter, parts]
    exact List.filter_congr fun child _ => Bool.and_comm _ _
  rw [solid, List.filter_map, statementNumbers, List.map_map, List.map_map]
  refine List.map_congr_left fun child listed => ?_
  exact List.mk_mem_zipIdx_iff_getElem?.1 (List.mem_filter.1 listed).1

end

end Node

namespace Place

variable {top place block statement : Place} {way : Way} {ways : List Way} {rows : List (List Way)}

/-- The place that a way leads to. -/
def follow? (top : Place) : Way → Option Place
  | [] => some top
  | number :: way => (top.node.named[number]?).bind fun child => (top.inside child).follow? way

theorem follow?_append (top : Place) (way more : Way) :
    top.follow? (way ++ more) = (top.follow? way).bind (·.follow? more) := by
  induction way generalizing top with
  | nil => rfl
  | cons number way ih =>
      rw [List.cons_append, follow?, follow?, Option.bind_assoc]
      exact congrArg _ (funext fun child => ih _)

/-- The ways of a tree are those that lead somewhere. -/
theorem mem_ways : way ∈ top.node.ways ↔ ∃ place, top.follow? way = some place := by
  induction way generalizing top with
  | nil => simp [Node.ways_eq, follow?]
  | cons number way ih =>
      rw [Node.cons_mem_ways]
      constructor
      · rintro ⟨child, found, inside⟩
        obtain ⟨place, leads⟩ := (@ih (top.inside child)).1 inside
        exact ⟨place, by rw [follow?, found]; exact leads⟩
      · rintro ⟨place, leads⟩
        obtain ⟨child, found, leads⟩ := Option.bind_eq_some_iff.1 leads
        exact ⟨child, found, (@ih (top.inside child)).2 ⟨place, leads⟩⟩

/-! The walk. What is met is what the places still waiting have below them, in their order. -/

theorem nodes_visit (waiting : List Place) : (visit waiting).map (·.node) = waiting.flatMap (·.node.preorder) := by
  fun_induction visit waiting with
  | case1 => rfl
  | case2 place waiting ih =>
      rw [List.map_cons, ih, List.flatMap_append, List.flatMap_map, List.flatMap_cons, Node.preorder_eq,
        Node.preorderAll_eq, List.cons_append]
      rfl

/-- The ways of a tree lead through its children. -/
theorem map_follow? (place : Place) : place.node.ways.map place.follow? =
    some place :: (place.node.named.map place.inside).flatMap fun child => child.node.ways.map child.follow? := by
  rw [Node.ways_eq, List.map_cons, Node.waysFrom_eq, List.map_flatMap, List.flatMap_map]
  refine congrArg _ ?_
  conv_rhs => rw [← List.zipIdx_map_fst 0 place.node.named, List.flatMap_map]
  refine List.flatMap_congr fun child listed => ?_
  have found := List.mk_mem_zipIdx_iff_getElem?.1 listed
  rw [List.map_map]
  refine List.map_congr_left fun way _ => ?_
  rw [Function.comp_apply, follow?, Node.named, found]
  rfl

theorem visit_follow? (waiting : List Place) :
    (visit waiting).map some = waiting.flatMap fun place => place.node.ways.map place.follow? := by
  fun_induction visit waiting with
  | case1 => rfl
  | case2 place waiting ih =>
      rw [List.map_cons, ih, List.flatMap_append, List.flatMap_cons, map_follow?]
      rfl

/-- Places by the ways that lead to them: all that pass a test, each once, and in document order. -/
structure Lists (top : Place) (test : Place → Prop) (ways : List Way) (places : List Place) : Prop where
  order : ways.Pairwise (· < ·)
  all : ∀ way, way ∈ ways ↔ ∃ place, top.follow? way = some place ∧ test place
  leads : ways.map top.follow? = places.map some

theorem lists_descendants (top : Place) : Lists top (fun _ => True) top.node.ways top.descendants where
  order := Node.ways_pairwise _
  all way := by simp [mem_ways]
  leads := by rw [descendants, visit_follow?, List.flatMap_singleton]

/-- What passes a test is listed as well. -/
theorem Lists.filter {places : List Place} (lists : Lists top (fun _ => True) ways places) (test : Place → Bool)
    (holds : Place → Prop) (decides : ∀ place, test place = true ↔ holds place) :
    Lists top holds (ways.filter fun way => (top.follow? way).any test) (places.filter test) where
  order := lists.order.filter _
  all way := by
    rw [List.mem_filter, lists.all]
    constructor
    · rintro ⟨⟨place, leads, _⟩, passes⟩
      rw [leads] at passes
      exact ⟨place, leads, (decides place).1 passes⟩
    · rintro ⟨place, leads, passes⟩
      refine ⟨⟨place, leads, trivial⟩, ?_⟩
      rw [leads]
      exact (decides place).2 passes
  leads := by
    have kept := congrArg (List.filter (Option.any test)) lists.leads
    rw [List.filter_map, List.filter_map] at kept
    exact kept

/-! Statement sequences. -/

/-- Ways to the statements of the block that a way leads to: all of them, each once, in document order, and with
only comments between neighbours. -/
structure IsRow (top : Place) (way : Way) (row : List Way) : Prop where
  order : row.Pairwise (· < ·)
  all : ∀ next, next ∈ row ↔ ∃ number statement, next = way ++ [number] ∧ top.follow? next = some statement ∧
    statement.kind ≠ .comment
  beside : ∀ spot first second, row[spot]? = some (way ++ [first]) → row[spot + 1]? = some (way ++ [second]) →
    first < second ∧ ∀ number child, first < number → number < second → top.follow? (way ++ [number]) = some child →
      child.kind = .comment

/-- The ways to the statements of the block that a way leads to. -/
def row (top : Place) (way : Way) : List Way :=
  ((top.follow? way).elim [] (·.node.statementNumbers)).map fun number => way ++ [number]

theorem follow?_child {number : Nat} (leads : top.follow? way = some block) :
    top.follow? (way ++ [number]) = (block.node.named[number]?).map block.inside := by
  rw [follow?_append, leads, Option.bind_some, follow?]
  exact Option.map_eq_bind.symm

theorem append_lt {first second : Nat} (way : Way) (less : first < second) : way ++ [first] < way ++ [second] := by
  induction way with
  | nil => exact List.cons_lt_cons_iff.2 (.inl less)
  | cons number way ih => exact List.cons_lt_cons_iff.2 (.inr ⟨rfl, ih⟩)

theorem isRow_row (leads : top.follow? way = some block) : IsRow top way (top.row way) := by
  have numbers : top.row way = block.node.statementNumbers.map fun number => way ++ [number] := by rw [row, leads]; rfl
  have order := block.node.statementNumbers_pairwise
  rw [numbers]
  refine ⟨List.pairwise_map.2 (order.imp (append_lt way)), fun next => ?_, fun spot first second here behind => ?_⟩
  · constructor
    · intro member
      obtain ⟨number, listed, rfl⟩ := List.mem_map.1 member
      obtain ⟨statement, found, solid⟩ := Node.mem_statementNumbers.1 listed
      exact ⟨number, block.inside statement, rfl, by rw [follow?_child leads, found]; rfl, solid⟩
    · rintro ⟨number, statement, rfl, found, solid⟩
      rw [follow?_child leads, Option.map_eq_some_iff] at found
      obtain ⟨child, found, rfl⟩ := found
      exact List.mem_map_of_mem (Node.mem_statementNumbers.2 ⟨child, found, solid⟩)
  · have at' (spot number : Nat) (found : (block.node.statementNumbers.map fun number => way ++ [number])[spot]? =
        some (way ++ [number])) : block.node.statementNumbers[spot]? = some number := by
      rw [List.getElem?_map, Option.map_eq_some_iff] at found
      obtain ⟨number', found, same⟩ := found
      obtain rfl := List.singleton_inj.1 (List.append_cancel_left same)
      exact found
    have first' := at' spot first here
    have second' := at' (spot + 1) second behind
    obtain ⟨less, between⟩ := Node.next_of_pairwise order first' second'
    refine ⟨less, fun number child early late found => ?_⟩
    by_contra solid
    rw [follow?_child leads, Option.map_eq_some_iff] at found
    obtain ⟨child, found, rfl⟩ := found
    exact absurd late (Nat.not_lt.2 (between number (Node.mem_statementNumbers.2 ⟨child, found, solid⟩) early))

theorem map_row (leads : top.follow? way = some block) : (top.row way).map top.follow? = block.parts.map some := by
  have parts' := congrArg (List.map (Option.map block.inside)) block.node.map_statementNumbers
  rw [List.map_map, List.map_map] at parts'
  rw [row, leads, Option.elim_some, List.map_map, parts, List.map_map]
  refine Eq.trans (List.map_congr_left fun number _ => ?_) parts'
  exact follow?_child leads

/-- A sequence is found by the block that it belongs to. -/
theorem IsRow.way_eq {row : List Way} {way' : Way} {number : Nat} (is : IsRow top way row)
    (member : way' ++ [number] ∈ row) : way' = way := by
  obtain ⟨_, _, same, _⟩ := (is.all _).1 member
  exact (List.append_inj' same rfl).1

/-- Each statement of each block has one spot in the sequences. -/
theorem existsUnique_spot {blocks : List Way} (distinct : blocks.Nodup) (each : List.Forall₂ (IsRow top) blocks rows)
    (listed : way ∈ blocks) {number : Nat} (found : top.follow? (way ++ [number]) = some statement)
    (solid : statement.kind ≠ .comment) :
    ∃! spot : Nat × Nat, (rows[spot.1]?).bind (·[spot.2]?) = some (way ++ [number]) := by
  obtain ⟨long, each⟩ := List.forall₂_iff_get.1 each
  obtain ⟨turn, bound, here⟩ := List.mem_iff_getElem.1 listed
  have is : IsRow top way rows[turn] := here ▸ each turn bound (long ▸ bound)
  obtain ⟨place, bound', there⟩ := List.mem_iff_getElem.1 ((is.all _).2 ⟨number, statement, rfl, found, solid⟩)
  refine ⟨(turn, place), ?_, ?_⟩
  · simp only [List.getElem?_eq_getElem (long ▸ bound), Option.bind_some, List.getElem?_eq_getElem bound', there]
  · rintro ⟨turn', place'⟩ same
    obtain ⟨row, taken, met⟩ := Option.bind_eq_some_iff.1 same
    obtain ⟨inside, rfl⟩ := List.getElem?_eq_some_iff.1 taken
    obtain ⟨inside', met⟩ := List.getElem?_eq_some_iff.1 met
    -- the block of a row is known from any of its ways
    have within : turn' < blocks.length := long ▸ inside
    have is' : IsRow top blocks[turn'] rows[turn'] := each turn' within inside
    have owner := is'.way_eq (met ▸ List.getElem_mem inside')
    obtain rfl : turn' = turn := (List.Nodup.getElem_inj_iff distinct).1 (owner.symm.trans here.symm)
    obtain rfl : place' = place :=
      (List.Nodup.getElem_inj_iff (is.order.imp fun less => ne_of_lt less)).1 (met.trans there.symm)
    rfl

/-- A walk meets what is below a place once and in document order, as the recursion over named children does. The
statement sequences are one for each block, and each statement has one spot in them. -/
theorem walk_meetsOnce (top : Place) :
    top.descendants.map (·.node) = top.node.preorder ∧
    Lists top (fun _ => True) top.node.ways top.descendants ∧
    (∀ source, (ofRoot (Tree.parse source).root).descendants.Pairwise fun earlier later =>
      Inside earlier later ∨ earlier.stop ≤ later.start) ∧
    ∃ (blocks : List Way) (rows : List (List Way)),
      Lists top (·.kind = .block) blocks (top.descendants.filter (·.kind == .block)) ∧
      List.Forall₂ (IsRow top) blocks rows ∧
      rows.map (·.map top.follow?) = top.sequences.map (·.map some) ∧
      ∀ way block number statement, top.follow? way = some block → block.kind = .block →
        top.follow? (way ++ [number]) = some statement → statement.kind ≠ .comment →
        ∃! spot : Nat × Nat, (rows[spot.1]?).bind (·[spot.2]?) = some (way ++ [number]) := by
  have lists := (lists_descendants top).filter (·.kind == .block) (·.kind = .block) fun place => beq_iff_eq
  generalize top.node.ways.filter _ = blocks at lists
  have each : List.Forall₂ (IsRow top) blocks (blocks.map top.row) := by
    refine List.forall₂_map_right_iff.2 (List.forall₂_same.2 fun way listed => ?_)
    obtain ⟨block, leads, _⟩ := (lists.all way).1 listed
    exact isRow_row leads
  refine ⟨?_, lists_descendants top, fun source => ?_, blocks, blocks.map top.row, lists, each, ?_, ?_⟩
  · rw [descendants, nodes_visit, List.flatMap_singleton]
  · exact descendants_pairwise (Tree.parse_annotated source)
  · have blocks' : blocks.map (fun way => (top.row way).map top.follow?) =
        (blocks.map top.follow?).map (Option.elim · [] fun block => block.parts.map some) := by
      rw [List.map_map]
      refine List.map_congr_left fun way listed => ?_
      obtain ⟨block, leads, _⟩ := (lists.all way).1 listed
      rw [map_row leads, Function.comp_apply, leads]
      rfl
    rw [List.map_map, sequences, List.map_map]
    refine blocks'.trans ?_
    rw [lists.leads, List.map_map]
    rfl
  · intro way block number statement leads is found solid
    have distinct : blocks.Nodup := lists.order.imp fun less => ne_of_lt less
    exact existsUnique_spot distinct each ((lists.all way).2 ⟨block, leads, is⟩) found solid

end Place
end TraceWeave.Go
