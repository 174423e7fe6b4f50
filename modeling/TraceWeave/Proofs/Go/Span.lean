import TraceWeave.Go.Grammar.Basic

/-!
Spans of nodes. In a well-formed tree children stand one after the other inside their parent, every
span begins and ends at a sound offset, and nodes that later edits rely on have the children they
need. `sound` is left open: the text decides which offsets it is.
-/
namespace TraceWeave.Go

namespace Kind

/-- Children, by role and kind, without which a node does not occur. -/
def needed : Kind → List (Role × Kind)
  | .callExpression => [(.arguments, .argumentList)]
  | .funcLiteral => [(.parameters, .parameterList), (.body, .block)]
  | .functionDeclaration | .methodDeclaration => [(.parameters, .parameterList)]
  | _ => []

/-- Kinds whose first and last tokens are brackets, between which something can be inserted. -/
def opens : Kind → Bool
  | .argumentList | .parameterList | .block => true
  | _ => false

/-- Kinds of which nothing more is asked than a span. -/
def isPlain (kind : Kind) : Bool :=
  kind.needed.isEmpty && !kind.opens && kind != .funcLiteral && kind != .comment

end Kind

namespace Node

/-- Nodes one after the other between two offsets. -/
def Chain : Nat → List Node → Nat → Prop
  | first, [], last => first ≤ last
  | first, node :: nodes, last => first ≤ node.start ∧ node.start ≤ node.stop ∧ Chain node.stop nodes last

/-- A bracket, the children, comments apart, and another bracket. -/
structure Bracketed (sound : Nat → Prop) (node : Node) : Prop where
  opening : sound (node.start + 1)
  closing : sound (node.stop - 1)
  room : node.start + 1 ≤ node.stop - 1
  inside : ∀ child ∈ node.children, child.kind ≠ .comment →
    node.start + 1 ≤ child.start ∧ child.stop ≤ node.stop - 1

/-- What is asked of a node by itself. -/
structure Shaped (sound : Nat → Prop) (node : Node) : Prop where
  starts : sound node.start
  stops : sound node.stop
  chain : Chain node.start node.children node.stop
  opens : node.kind.opens = true → Bracketed sound node
  needed : ∀ role kind, (role, kind) ∈ node.kind.needed →
    ∃ child, node.child? role = some child ∧ child.kind = kind
  literal : node.kind = .funcLiteral → ∀ child ∈ node.children, child.kind ≠ .comment → node.start < child.start
  bodied : node.kind.isFunction = true → ∀ child ∈ node.children, child.role = some .body → child.kind = .block

/-- Every node of the tree is as it should be, and there are no comments yet. -/
inductive WellFormed (sound : Nat → Prop) : Node → Prop where
  | intro {node : Node} (shaped : Shaped sound node) (apart : node.kind ≠ .comment)
      (children : ∀ child ∈ node.children, WellFormed sound child) : WellFormed sound node

/-- Well-formed trees one after the other between two offsets. -/
structure Row (sound : Nat → Prop) (first : Nat) (nodes : List Node) (last : Nat) : Prop where
  chain : Chain first nodes last
  each : ∀ node ∈ nodes, WellFormed sound node

variable {sound : Nat → Prop} {first middle last : Nat} {node : Node} {nodes more : List Node}

theorem WellFormed.shaped (formed : WellFormed sound node) : Shaped sound node := by
  cases formed with
  | intro shaped _ _ => exact shaped

theorem WellFormed.apart (formed : WellFormed sound node) : node.kind ≠ .comment := by
  cases formed with
  | intro _ apart _ => exact apart

theorem WellFormed.children (formed : WellFormed sound node) :
    ∀ child ∈ node.children, WellFormed sound child := by
  cases formed with
  | intro _ _ children => exact children

theorem Chain.le (chain : Chain first nodes last) : first ≤ last := by
  induction nodes generalizing first with
  | nil => exact chain
  | cons node nodes ih =>
      obtain ⟨before, inside, rest⟩ := chain
      have := ih rest
      omega

theorem Chain.append (chain : Chain first nodes middle) (rest : Chain middle more last) :
    Chain first (nodes ++ more) last := by
  induction nodes generalizing first with
  | nil =>
      have bound : first ≤ middle := chain
      cases more with
      | nil => exact Nat.le_trans bound rest
      | cons node more => exact ⟨Nat.le_trans bound rest.1, rest.2⟩
  | cons node nodes ih => exact ⟨chain.1, chain.2.1, ih chain.2.2⟩

theorem Chain.widen (chain : Chain first nodes last) {first' last' : Nat} (before : first' ≤ first)
    (after : last ≤ last') : Chain first' nodes last' := by
  induction nodes generalizing first first' with
  | nil => exact Nat.le_trans before (Nat.le_trans chain after)
  | cons node nodes ih =>
      exact ⟨Nat.le_trans before chain.1, chain.2.1, ih chain.2.2 (Nat.le_refl _)⟩

/-- Members of a chain lie between its ends. -/
theorem Chain.mem (chain : Chain first nodes last) (member : node ∈ nodes) :
    first ≤ node.start ∧ node.start ≤ node.stop ∧ node.stop ≤ last := by
  induction nodes generalizing first with
  | nil => cases member
  | cons other nodes ih =>
      obtain ⟨before, inside, rest⟩ := chain
      cases member with
      | head => exact ⟨before, inside, rest.le⟩
      | tail _ later =>
          have bounds := ih rest later
          omega

@[grind →] theorem WellFormed.le (formed : WellFormed sound node) : node.start ≤ node.stop := formed.shaped.chain.le

theorem WellFormed.row (formed : WellFormed sound node) : Row sound node.start node.children node.stop :=
  ⟨formed.shaped.chain, formed.children⟩

@[grind →] theorem Row.le (row : Row sound first nodes last) : first ≤ last := row.chain.le

@[grind =] theorem row_nil : Row sound first [] last ↔ first ≤ last :=
  ⟨fun row => row.chain, fun bound => ⟨bound, by simp⟩⟩

@[grind =] theorem row_cons : Row sound first (node :: nodes) last ↔
    first ≤ node.start ∧ WellFormed sound node ∧ Row sound node.stop nodes last := by
  constructor
  · intro row
    exact ⟨row.chain.1, row.each node (by simp), row.chain.2.2, fun other member => row.each other (by simp [member])⟩
  · rintro ⟨before, formed, row⟩
    refine ⟨⟨before, formed.le, row.chain⟩, ?_⟩
    intro other member
    cases member with
    | head => exact formed
    | tail _ later => exact row.each other later

theorem row_singleton : Row sound first [node] last ↔
    first ≤ node.start ∧ WellFormed sound node ∧ node.stop ≤ last := by
  rw [row_cons, row_nil]

theorem Row.append (row : Row sound first nodes middle) (rest : Row sound middle more last) :
    Row sound first (nodes ++ more) last := by
  refine ⟨row.chain.append rest.chain, ?_⟩
  intro node member
  rcases List.mem_append.1 member with here | there
  · exact row.each node here
  · exact rest.each node there

theorem Row.widen (row : Row sound first nodes last) {first' last' : Nat} (before : first' ≤ first)
    (after : last ≤ last') : Row sound first' nodes last' :=
  ⟨row.chain.widen before after, row.each⟩

/-- Roles do not matter for spans. -/
@[simp, grind =] theorem start_withRole (role : Role) (node : Node) : (node.withRole role).start = node.start := rfl

@[simp, grind =] theorem stop_withRole (role : Role) (node : Node) : (node.withRole role).stop = node.stop := rfl

@[simp] theorem kind_withRole (role : Role) (node : Node) : (node.withRole role).kind = node.kind := rfl

@[simp] theorem role_withRole (role : Role) (node : Node) : (node.withRole role).role = some role := rfl

theorem Shaped.withRole (shaped : Shaped sound node) (role : Role) : Shaped sound (node.withRole role) :=
  { starts := shaped.starts
    stops := shaped.stops
    chain := shaped.chain
    opens := fun opens =>
      have ⟨opening, closing, room, inside⟩ := shaped.opens opens
      ⟨opening, closing, room, inside⟩
    needed := shaped.needed
    literal := shaped.literal
    bodied := shaped.bodied }

@[grind ←] theorem WellFormed.withRole (formed : WellFormed sound node) (role : Role) :
    WellFormed sound (node.withRole role) :=
  .intro (formed.shaped.withRole role) formed.apart formed.children

theorem Row.withRole (row : Row sound first [node] last) (role : Role) :
    Row sound first [node.withRole role] last := by
  rw [row_singleton] at row ⊢
  exact ⟨row.1, row.2.1.withRole role, row.2.2⟩

/-- A node moved up to its own ends. -/
theorem Row.tight (row : Row sound first [node] last) : Row sound node.start [node] node.stop :=
  row_singleton.2 ⟨Nat.le_refl _, (row_singleton.1 row).2.1, Nat.le_refl _⟩

theorem Row.from_start (row : Row sound first [node] last) : Row sound node.start [node] last :=
  row_singleton.2 ⟨Nat.le_refl _, (row_singleton.1 row).2⟩

theorem Row.to_stop (row : Row sound first [node] last) : Row sound first [node] node.stop :=
  row_singleton.2 ⟨(row_singleton.1 row).1, (row_singleton.1 row).2.1, Nat.le_refl _⟩

theorem Row.map_withRole (row : Row sound first nodes last) (role : Role) :
    Row sound first (nodes.map (Node.withRole role)) last := by
  induction nodes generalizing first with
  | nil => exact row
  | cons node nodes ih =>
      rw [row_cons] at row
      rw [List.map_cons, row_cons]
      exact ⟨row.1, row.2.1.withRole role, ih row.2.2⟩

/-! Builders. -/

theorem Row.plain {kind : Kind} {role : Option Role} (row : Row sound first nodes last)
    (plain : kind.isPlain = true) (starts : sound first) (stops : sound last) :
    WellFormed sound ⟨kind, role, first, last, nodes⟩ := by
  simp only [Kind.isPlain, Bool.and_eq_true, List.isEmpty_iff, Bool.not_eq_true', bne_iff_ne, ne_eq] at plain
  obtain ⟨⟨⟨needed, opens⟩, literal⟩, comment⟩ := plain
  refine .intro ?_ comment row.each
  exact
    { starts, stops
      chain := row.chain
      opens := fun contrary => absurd contrary (by simp [opens])
      needed := fun role kind member => by simp [needed] at member
      literal := fun contrary => absurd contrary literal
      bodied := fun contrary => absurd contrary (by cases kind <;> simp_all [Kind.isFunction, Kind.needed]) }

theorem Row.build {kind : Kind} (row : Row sound first nodes last) (plain : kind.isPlain = true)
    (starts : sound first) (stops : sound last) : WellFormed sound (.build kind first last nodes) :=
  row.plain plain starts stops

/-- A node of a kind that needs certain children. -/
theorem Row.complete {kind : Kind} (row : Row sound first nodes last) (opens : kind.opens = false)
    (comment : kind ≠ .comment) (starts : sound first) (stops : sound last)
    (needed : ∀ role kind', (role, kind') ∈ kind.needed →
      ∃ child, nodes.find? (fun child => child.role == some role) = some child ∧ child.kind = kind')
    (literal : kind = .funcLiteral → ∀ child ∈ nodes, first < child.start)
    (bodied : kind.isFunction = true → ∀ child ∈ nodes, child.role = some .body → child.kind = .block) :
    WellFormed sound (.build kind first last nodes) := by
  refine .intro ?_ comment row.each
  exact
    { starts, stops, needed, bodied
      chain := row.chain
      opens := fun contrary => absurd contrary (by simp [Node.build, opens])
      literal := fun is child member _ => literal is child member }

/-- A list in brackets. -/
theorem Row.bracketed {kind : Kind} (row : Row sound (first + 1) nodes (last - 1)) (needed : kind.needed = [])
    (literal : kind ≠ .funcLiteral) (comment : kind ≠ .comment) (starts : sound first)
    (opening : sound (first + 1)) (closing : sound (last - 1)) (stops : sound last) :
    WellFormed sound (.build kind first last nodes) := by
  refine .intro ?_ comment row.each
  exact
    { starts, stops
      chain := row.chain.widen (Nat.le_succ _) (Nat.sub_le _ _)
      opens := fun _ => ⟨opening, closing, row.le, fun child member _ =>
        ⟨(row.chain.mem member).1, (row.chain.mem member).2.2⟩⟩
      needed := fun role kind member => by simp [Node.build, needed] at member
      literal := fun contrary => absurd contrary literal
      bodied := fun contrary => absurd contrary (by cases kind <;> simp_all [Node.build, Kind.isFunction, Kind.needed]) }

/-- A row that is not empty ends where its last node does. -/
theorem Row.ending (row : Row sound first (node :: nodes) last) :
    WellFormed sound (nodes.getLastD node) ∧ (nodes.getLastD node).stop ≤ last ∧
      Row sound first (node :: nodes) (nodes.getLastD node).stop := by
  induction nodes generalizing first node with
  | nil =>
      rw [row_singleton] at row
      exact ⟨row.2.1, row.2.2, row_singleton.2 ⟨row.1, row.2.1, Nat.le_refl _⟩⟩
  | cons other nodes ih =>
      obtain ⟨before, formed, rest⟩ := row_cons.1 row
      obtain ⟨final, bound, rest⟩ := ih rest
      rw [List.getLastD_cons]
      exact ⟨final, bound, row_cons.2 ⟨before, formed, rest⟩⟩

theorem Row.spanning {kind : Kind} (row : Row sound first (node :: nodes) last) (plain : kind.isPlain = true) :
    Row sound first [.spanning kind node nodes] last := by
  obtain ⟨final, bound, rest⟩ := row.ending
  obtain ⟨before, formed, _⟩ := row_cons.1 row
  have tight : Row sound node.start (node :: nodes) (nodes.getLastD node).stop :=
    row_cons.2 ⟨Nat.le_refl _, formed, (row_cons.1 rest).2.2⟩
  exact row_singleton.2
    ⟨before, tight.plain plain formed.shaped.starts final.shaped.stops, bound⟩

end Node
end TraceWeave.Go
