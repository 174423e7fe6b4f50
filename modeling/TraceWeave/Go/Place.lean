import TraceWeave.Go.Node

/-! Nodes together with the nodes around them, so that a walk can look outwards as well as inwards. -/
namespace TraceWeave.Go

/-- A node of a tree and its ancestors, innermost first. -/
structure Place where
  node : Node
  around : List Node
deriving Repr, Inhabited

namespace Place

/-- The root of a tree. -/
def ofRoot (root : Node) : Place := ⟨root, []⟩

def kind (place : Place) : Kind := place.node.kind

def start (place : Place) : Nat := place.node.start

def stop (place : Place) : Nat := place.node.stop

def text (place : Place) (source : String) : String := place.node.text source

def parent? (place : Place) : Option Place :=
  match place.around with
  | [] => none
  | node :: around => some ⟨node, around⟩

/-- A child of the node at a place. -/
def inside (place : Place) (child : Node) : Place := ⟨child, place.node :: place.around⟩

/-- Children that are nodes in their own right, comments apart. -/
def parts (place : Place) : List Place := place.node.parts.map place.inside

/-- The first child with a role. -/
def child? (place : Place) (role : Role) : Option Place := (place.node.child? role).map place.inside

/-- Number of nodes below a list of places, the places included. -/
def countAll (places : List Place) : Nat := Node.countAll (places.map (·.node))

theorem countAll_children (place : Place) (waiting : List Place) :
    countAll (place.node.named.map place.inside ++ waiting) < countAll (place :: waiting) := by
  have smaller := Node.countAll_filter_le (·.kind.isNamed) place.node.children
  simp only [countAll, List.map_append, List.map_map, Node.countAll_append, List.map_cons, Node.countAll]
  have same : (List.map ((fun x => x.node) ∘ place.inside) place.node.named) = place.node.named := by
    simp [Function.comp_def, inside]
  rw [same, Node.count_eq place.node]
  simp only [Node.named]
  omega

/-- Walk over places still to visit: one is taken, and its children go before the others. -/
def visit : List Place → List Place
  | [] => []
  | place :: waiting => place :: visit (place.node.named.map place.inside ++ waiting)
termination_by waiting => countAll waiting
decreasing_by exact countAll_children place waiting

/-- The place and every place below it, in document order. -/
def descendants (place : Place) : List Place := visit [place]

end Place

/-- The node and every named node below it, in document order. -/
def Node.descendants (node : Node) : List Node := (Place.ofRoot node).descendants.map (·.node)

namespace Place

/-- The statement sequences inside a body: one for each block, outer blocks first. -/
def sequences (body : Place) : List (List Place) :=
  (body.descendants.filter (·.kind == .block)).map parts

end Place
end TraceWeave.Go
