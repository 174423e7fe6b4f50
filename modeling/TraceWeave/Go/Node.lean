import TraceWeave.Go.Kind
import TraceWeave.Text.Slice

/-! Syntax trees of Go files: nodes that cover a span of bytes of a text. -/
namespace TraceWeave.Go

/-- A node covers the bytes from `start` up to `stop`; `role` is what it is to its parent. -/
structure Node where
  kind : Kind
  role : Option Role
  start : Nat
  stop : Nat
  children : List Node
deriving Repr, Inhabited

namespace Node

/-- The text a node covers. -/
def text (node : Node) (source : String) : String := Text.slice source node.start node.stop

/-- Whether two nodes of one tree are the same: no two nodes of a tree share kind and span. -/
def isSame (a b : Node) : Bool := a.kind == b.kind && a.start == b.start && a.stop == b.stop

/-- Children that are nodes in their own right, comments apart. -/
def parts (node : Node) : List Node :=
  node.children.filter fun child => child.kind.isNamed && child.kind != .comment

/-- Children that are nodes in their own right, comments included. -/
def named (node : Node) : List Node := node.children.filter (·.kind.isNamed)

/-- The first child with a role. -/
def child? (node : Node) (role : Role) : Option Node :=
  node.children.find? fun child => child.role == some role

/-- Every child with a role, in document order. -/
def childrenAs (node : Node) (role : Role) : List Node :=
  node.children.filter fun child => child.role == some role

/-- Children of a list node, or the node itself where one element stands alone. -/
def items (node : Node) : List Node :=
  if node.kind == .expressionList then node.parts else [node]

mutual

/-- Number of nodes in a tree. -/
def count : Node → Nat
  | ⟨_, _, _, _, children⟩ => countAll children + 1

/-- Number of nodes in a list of trees. -/
def countAll : List Node → Nat
  | [] => 0
  | node :: nodes => node.count + countAll nodes

end

theorem countAll_append (a b : List Node) : countAll (a ++ b) = countAll a + countAll b := by
  induction a with
  | nil => simp [countAll]
  | cons node nodes ih => simp only [List.cons_append, countAll, ih]; omega

theorem countAll_filter_le (test : Node → Bool) (nodes : List Node) :
    countAll (nodes.filter test) ≤ countAll nodes := by
  induction nodes with
  | nil => exact Nat.le_refl _
  | cons node nodes ih =>
      rw [List.filter_cons]
      split
      · simp only [countAll]; omega
      · simp only [countAll]; omega

theorem count_eq (node : Node) : node.count = countAll node.children + 1 := by
  cases node
  rfl

/-- Children that are nodes, the first of them. -/
def first? (node : Node) : Option Node := node.named.head?

theorem count_lt_of_mem {child node : Node} (h : child ∈ node.children) : child.count < node.count := by
  have bound : ∀ nodes : List Node, child ∈ nodes → child.count ≤ countAll nodes := by
    intro nodes member
    induction nodes with
    | nil => cases member
    | cons other nodes ih =>
        rw [countAll]
        cases member with
        | head => omega
        | tail _ later => have := ih later; omega
  have := bound _ h
  rw [count_eq node]
  omega

theorem count_lt_of_child? {node child : Node} {role : Role} (h : node.child? role = some child) :
    child.count < node.count :=
  count_lt_of_mem (List.mem_of_find?_eq_some h)

theorem count_lt_of_first? {node child : Node} (h : node.first? = some child) : child.count < node.count :=
  count_lt_of_mem (List.mem_filter.1 (List.mem_of_head? h)).1

mutual

/-- The node and, in order, the preorders of its named children. -/
def preorder : Node → List Node
  | ⟨kind, role, start, stop, children⟩ =>
      ⟨kind, role, start, stop, children⟩ :: preorderAll children

/-- Preorders of the named nodes of a list, in order. -/
def preorderAll : List Node → List Node
  | [] => []
  | node :: nodes =>
      if node.kind.isNamed then node.preorder ++ preorderAll nodes else preorderAll nodes

end

/-- Statements directly inside a block. -/
def statements (block : Node) : List Node := block.parts

/-- The call made by a simple statement that consists of one call, or assigns one. -/
def soleCall? (statement : Node) : Option Node :=
  match statement.kind with
  | .shortVarDeclaration | .assignmentStatement =>
      match (statement.child? .right).map items with
      | some [only] => if only.kind == .callExpression then some only else none
      | _ => none
  | .expressionStatement =>
      match statement.parts with
      | expression :: _ => if expression.kind == .callExpression then some expression else none
      | [] => none
  | _ => none

/-- Identifiers on the left of an assignment or short declaration. -/
def assignedNames (statement : Node) (source : String) : List String :=
  if statement.kind.isAssignment then
    match statement.child? .left with
    | some left => (left.items.filter (·.kind == .identifier)).map (·.text source)
    | none => []
  else []

/-- Arguments of a call. -/
def callArguments (call : Node) : List Node :=
  match call.child? .arguments with
  | some list => list.parts
  | none => []

/-- Operand and field of a selector whose operand is a bare identifier. -/
def selectorParts? (node : Node) (source : String) : Option (String × String) :=
  if node.kind == .selectorExpression then
    match node.child? .operand, node.child? .field with
    | some operand, some field =>
        if operand.kind == .identifier then some (operand.text source, field.text source) else none
    | _, _ => none
  else none

/-- Operand and field of a call of `operand.field`. -/
def selectorCall? (call : Node) (source : String) : Option (String × String) :=
  (call.child? .function).bind (·.selectorParts? source)

end Node
end TraceWeave.Go
