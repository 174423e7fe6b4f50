import TraceWeave.Proofs.FreshNames
import TraceWeave.Proofs.Go.Places
import TraceWeave.Weave.Basic

/-!
Names that are fresh in a function. The supply of a function starts with the names that its file declares and imports,
and with the identifiers that it uses. A name that the function has for a type only is not among them.
-/
namespace TraceWeave

open Go (Node Place)
open Go.Place (Below)

/-- Declarations of names inside a variable, constant or type declaration. -/
def Go.Kind.isSpec (kind : Go.Kind) : Bool := [Go.Kind.varSpec, .constSpec, .typeSpec, .typeAlias].contains kind

/-- A name is declared at the top level of a file. -/
inductive Source.Declares (source : Source) : String → Prop where
  | function {item name : Node} (listed : item ∈ source.root.parts) (kind : item.kind = .functionDeclaration)
      (called : item.child? .name = some name) : Declares source (name.text source.text)
  | spec {item name : Node} {spec : Place} (listed : item ∈ source.root.parts)
      (kind : item.kind = .varDeclaration ∨ item.kind = .constDeclaration ∨ item.kind = .typeDeclaration)
      (below : Below (.ofRoot item) spec) (isSpec : spec.kind.isSpec = true) (called : name ∈ spec.node.childrenAs .name) :
      Declares source (name.text source.text)

/-- A name is seen from a function: its file declares it or imports a package under it, or it is an identifier inside
the function. -/
inductive Source.Sees (source : Source) (imports : Imports) (function : Node) : String → Prop where
  | declared {name : String} (declares : source.Declares name) : Sees source imports function name
  | imported {entry : Import} (listed : entry ∈ imports.entries) (plain : entry.name ≠ "_" ∧ entry.name ≠ ".") :
      Sees source imports function entry.name
  | used {leaf : Place} (below : Below (.ofRoot function) leaf) (kind : leaf.kind = .identifier) :
      Sees source imports function (leaf.text source.text)

variable {source : Source} {imports : Imports} {function : Node} {name : String}

theorem Source.mem_topLevelNames : name ∈ source.topLevelNames ↔ source.Declares name := by
  have specs : ∀ item : Node, name ∈ (item.descendants.filter fun node => node.kind.isSpec).flatMap
        (fun spec => (spec.childrenAs .name).map (·.text source.text)) ↔
      ∃ spec, Below (.ofRoot item) spec ∧ spec.kind.isSpec = true ∧
        ∃ called ∈ spec.node.childrenAs .name, called.text source.text = name := by
    intro item
    simp only [List.mem_flatMap, List.mem_filter, Node.descendants, List.mem_map, Place.mem_descendants]
    constructor
    · rintro ⟨_, ⟨⟨spec, below, rfl⟩, isSpec⟩, called⟩
      exact ⟨spec, below, isSpec, called⟩
    · rintro ⟨spec, below, isSpec, called⟩
      exact ⟨_, ⟨⟨spec, below, rfl⟩, isSpec⟩, called⟩
  unfold topLevelNames
  rw [List.mem_flatMap]
  constructor
  · rintro ⟨item, listed, member⟩
    split at member
    · rename_i kind
      obtain ⟨called, child, rfl⟩ := List.mem_map.1 member
      exact .function listed kind (Option.mem_toList.1 child)
    all_goals first
      | cases member
      | rename_i kind
        obtain ⟨spec, below, isSpec, called, child, rfl⟩ := (specs item).1 member
        exact .spec listed (by simp [kind]) below isSpec child
  · rintro (⟨listed, kind, called⟩ | ⟨listed, kind, below, isSpec, called⟩)
    · refine ⟨_, listed, ?_⟩
      rw [kind]
      simp [called]
    · refine ⟨_, listed, ?_⟩
      have found := (specs _).2 ⟨_, below, isSpec, _, called, rfl⟩
      rcases kind with kind | kind | kind <;> (rw [kind]; exact found)

namespace NameSupply

/-- A supply starts with the names that the function sees. -/
theorem mem_forFunction : name ∈ (forFunction source imports function).taken ↔ source.Sees imports function name := by
  unfold forFunction Imports.names
  simp only [List.mem_append, Source.mem_topLevelNames, List.mem_map, List.mem_filter, Node.descendants,
    Place.mem_descendants, Imports.binds, Bool.and_eq_true, bne_iff_ne, beq_iff_eq]
  constructor
  · rintro ((declares | ⟨entry, ⟨listed, plain⟩, rfl⟩) | ⟨_, ⟨⟨leaf, below, rfl⟩, kind⟩, rfl⟩)
    · exact .declared declares
    · exact .imported listed plain
    · exact .used below kind
  · rintro (declares | ⟨listed, plain⟩ | ⟨below, kind⟩)
    · exact .inl (.inl declares)
    · exact .inl (.inr ⟨_, ⟨listed, plain⟩, rfl⟩)
    · exact .inr ⟨_, ⟨⟨_, below, rfl⟩, kind⟩, rfl⟩

/-- Whatever a supply was asked for before, a name that is fresh in a function is none that the function sees, so that
no variable, function, file-level declaration or import goes by it. A name that the function does not see is fresh,
even if a type in the function goes by it. -/
theorem fresh_forFunction (source : Source) (imports : Imports) (function : Node) (earlier : List NameRequest)
    (base : String) :
    let start := forFunction source imports function
    (∀ name, (Naming.fresh base (start.after earlier)).1 = .ok name → ¬ source.Sees imports function name) ∧
      ((Naming.fresh base start).1 = .ok base ↔ ¬ source.Sees imports function base) := by
  intro start
  have seen : ∀ name, name ∈ start.taken ↔ source.Sees imports function name := fun name => mem_forFunction
  constructor
  · intro name answer sees
    have unknown := (fresh_answers (start.after earlier) base).1 name answer
    exact unknown ((mem_after start earlier).2 (.inl ((seen name).2 sees)))
  · obtain ⟨unknown, free, _⟩ := fresh_answers start base
    rw [← seen base]
    exact ⟨unknown base, free⟩

/-- A function with a type of its own. -/
def typedFunction : Source := .load "p.go" "package p\nfunc f() \x7b\ntype x int\n\x7d\n"

/-- The name of a type in a function is taken for a fresh name of that function. -/
theorem localType_isFresh : ∃ decl ∈ FunctionDecl.all typedFunction, ∃ leaf, Below decl.place leaf ∧
    leaf.kind = .typeIdentifier ∧ leaf.text typedFunction.text = "x" ∧
      (Naming.fresh "x" (forFunction typedFunction ⟨[]⟩ decl.place.node)).1 = .ok "x" := by
  have holds : (FunctionDecl.all typedFunction).any (fun decl =>
      (decl.place.descendants.any fun leaf => leaf.kind == .typeIdentifier && leaf.text typedFunction.text == "x") &&
        !(forFunction typedFunction ⟨[]⟩ decl.place.node).isTaken "x") = true := by decide +kernel
  obtain ⟨decl, listed, test⟩ := List.any_eq_true.1 holds
  obtain ⟨typed, free⟩ := Bool.and_eq_true_iff.1 test
  obtain ⟨leaf, met, is⟩ := List.any_eq_true.1 typed
  simp only [Bool.and_eq_true, beq_iff_eq] at is
  refine ⟨decl, listed, leaf, Place.mem_descendants.1 met, is.1, is.2, ?_⟩
  refine (fresh_answers _ "x").2.1 fun known => ?_
  simp [isTaken, known] at free

end NameSupply
end TraceWeave
