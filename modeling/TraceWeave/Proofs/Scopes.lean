import TraceWeave.Proofs.HandleEdits
import TraceWeave.Proofs.Leaves
import TraceWeave.Resolve.Target

/-!
Which declarations are in force at a place. The resolver walks outwards by offsets; what it finds are the
declarations that stand in a scope around the place before the part of the scope that holds the place. The
kinds of declarations it reads are listed, and so are those that it passes over.
-/
namespace TraceWeave

open Go (Kind Node Place Token)
open Go.Node (Annotated)
open Go.Place (Below)

/-- Some node is spelled like a name. -/
def Mentions (text name : String) (nodes : List Node) : Prop := ∃ node ∈ nodes, node.text text = name

/-- A declaration before `branch` in the innermost scope around it, or in one further out up to the function
declaration. -/
inductive InForce (declares : Node → Node → Prop) : Node → List Node → Prop where
  | earlier {branch scope child : Node} {around before after : List Node} (parts : scope.parts = before ++ branch :: after)
      (member : child ∈ before) (declared : declares scope child) : InForce declares branch (scope :: around)
  | further {branch scope : Node} {around : List Node} (inner : scope.kind.isFunction = false)
      (force : InForce declares scope around) : InForce declares branch (scope :: around)

/-- A declaration is in force at a place. -/
def Go.Place.Sees (place : Place) (declares : Node → Node → Prop) : Prop := InForce declares place.node place.around

namespace LocalName

/-- The specifications of a declaration of variables or constants. -/
def specsOf (node : Node) : List Node :=
  node.parts.flatMap fun child => if child.kind == .varSpecList then child.parts else [child]

/-- A child of a scope declares a name, in one of the ways that the resolver reads. -/
inductive Declares (text name : String) (scope : Node) : Node → Prop where
  | short {node left : Node} (kind : node.kind = .shortVarDeclaration) (side : node.child? .left = some left)
      (named : Mentions text name left.items) : Declares text name scope node
  | spec {node spec : Node} (kind : node.kind = .varDeclaration ∨ node.kind = .constDeclaration)
      (listed : spec ∈ specsOf node) (is : spec.kind = .varSpec ∨ spec.kind = .constSpec)
      (named : Mentions text name (spec.childrenAs .name)) : Declares text name scope node
  /-- The header of a loop. -/
  | clause {node start left : Node} (kind : node.kind = .forClause) (first : node.child? .initializer = some start)
      (is : start.kind = .shortVarDeclaration) (side : start.child? .left = some left)
      (named : Mentions text name left.items) : Declares text name scope node
  /-- What a loop ranges over and what a `select` receives, if it is declared and not assigned. -/
  | received {node left right : Node} (kind : node.kind = .rangeClause ∨ node.kind = .receiveStatement)
      (side : node.child? .left = some left) (value : node.child? .right = some right)
      (defines : Text.contains (Text.slice text left.stop right.start) ":=" = true)
      (named : Mentions text name left.items) : Declares text name scope node
  /-- A parameter, result or receiver. -/
  | parameter {node declaration : Node} (kind : node.kind = .parameterList) (listed : declaration ∈ node.parts)
      (is : declaration.kind.isParameter = true) (named : Mentions text name (declaration.childrenAs .name)) :
      Declares text name scope node
  /-- The name that a type switch gives its value. -/
  | guard {node : Node} (kind : node.kind = .expressionList) (switch : scope.kind = .typeSwitchStatement)
      (named : Mentions text name node.items) : Declares text name scope node

/-- A child of a scope declares a name, in a way that the resolver does not read. -/
inductive Overlooked (text name : String) (scope : Node) : Node → Prop where
  | type {node spec label : Node} (kind : node.kind = .typeDeclaration) (listed : spec ∈ node.parts)
      (labelled : spec.child? .name = some label) (named : label.text text = name) : Overlooked text name scope node
  | typeParameter {node declaration : Node} (kind : node.kind = .typeParameterList) (listed : declaration ∈ node.parts)
      (named : Mentions text name (declaration.childrenAs .name)) : Overlooked text name scope node
  /-- A specification, seen from a later one of the same declaration. -/
  | sibling {node : Node} (is : node.kind = .varSpec ∨ node.kind = .constSpec)
      (named : Mentions text name (node.childrenAs .name)) : Overlooked text name scope node
  /-- A declaration behind a label. -/
  | labeled {node statement : Node} (kind : node.kind = .labeledStatement) (listed : statement ∈ node.parts)
      (declared : Declares text name scope statement) : Overlooked text name scope node

variable {text name : String} {scope node : Node} {nodes : List Node}

theorem mentions_iff : mentions text name nodes = true ↔ Mentions text name nodes := by
  simp [mentions, Mentions]

theorem isSome_position? : (position? text name nodes).isSome = true ↔ Mentions text name nodes := by
  rw [position?, List.findIdx?_isSome]
  exact mentions_iff

theorem isSome_ofShort? : (ofShort? text name node).isSome = true ↔
    ∃ left, node.child? .left = some left ∧ Mentions text name left.items := by
  simp only [← isSome_position?]
  unfold ofShort?
  cases side : node.child? .left with
  | none => simp
  | some left => cases place : position? text name left.items <;> simp [place]

theorem isSome_ofSpec? : (ofSpec? text name node).isSome = true ↔
    (node.kind = .varSpec ∨ node.kind = .constSpec) ∧ Mentions text name (node.childrenAs .name) := by
  rw [← isSome_position?]
  unfold ofSpec?
  split
  · rename_i is
    rw [Bool.or_eq_true, beq_iff_eq, beq_iff_eq] at is
    cases place : position? text name (node.childrenAs .name) <;> simp [is, place]
  · rename_i other
    rw [Bool.or_eq_true, beq_iff_eq, beq_iff_eq] at other
    simp [other]

theorem isSome_ofDeclaration? : (ofDeclaration? text name node).isSome = true ↔
    ∃ spec ∈ specsOf node, (spec.kind = .varSpec ∨ spec.kind = .constSpec) ∧ Mentions text name (spec.childrenAs .name) := by
  rw [ofDeclaration?, List.findSome?_isSome_iff]
  simp only [isSome_ofSpec?]
  rfl

theorem isSome_ofAssigned? : (ofAssigned? text name node).isSome = true ↔
    ∃ left right, node.child? .left = some left ∧ node.child? .right = some right ∧
      Text.contains (Text.slice text left.stop right.start) ":=" = true ∧ Mentions text name left.items := by
  unfold ofAssigned?
  cases node.child? .left with
  | none => simp
  | some left =>
      cases node.child? .right with
      | none => simp
      | some right =>
          simp only [← mentions_iff, ← Bool.and_eq_true, bind, Option.bind, Option.some.injEq]
          split <;> simp_all

theorem isSome_ofParameters? : (ofParameters? text name node).isSome = true ↔
    ∃ declaration ∈ node.parts, declaration.kind.isParameter = true ∧
      Mentions text name (declaration.childrenAs .name) := by
  rw [ofParameters?, Option.isSome_map, List.find?_isSome]
  simp only [Bool.and_eq_true, mentions_iff]

/-- What the resolver reads are the declarations of the list. -/
theorem isSome_declaredBy? : (declaredBy? text name scope node).isSome = true ↔ Declares text name scope node := by
  constructor
  · intro found
    unfold declaredBy? at found
    split at found
    · rename_i kind
      obtain ⟨left, side, named⟩ := isSome_ofShort?.1 found
      exact .short kind side named
    · rename_i kind
      obtain ⟨spec, listed, is, named⟩ := isSome_ofDeclaration?.1 found
      exact .spec (.inl kind) listed is named
    · rename_i kind
      obtain ⟨spec, listed, is, named⟩ := isSome_ofDeclaration?.1 found
      exact .spec (.inr kind) listed is named
    · rename_i kind
      cases first : node.child? .initializer with
      | none => simp [first] at found
      | some start =>
          simp only [first, bind, Option.bind] at found
          split at found
          · rename_i is
            obtain ⟨left, side, named⟩ := isSome_ofShort?.1 found
            exact .clause kind first (beq_iff_eq.1 is) side named
          · cases found
    · rename_i kind
      obtain ⟨left, right, side, value, defines, named⟩ := isSome_ofAssigned?.1 found
      exact .received (.inl kind) side value defines named
    · rename_i kind
      obtain ⟨left, right, side, value, defines, named⟩ := isSome_ofAssigned?.1 found
      exact .received (.inr kind) side value defines named
    · rename_i kind
      obtain ⟨declaration, listed, is, named⟩ := isSome_ofParameters?.1 found
      exact .parameter kind listed is named
    · rename_i kind
      split at found
      · rename_i holds
        rw [Bool.and_eq_true, beq_iff_eq, mentions_iff] at holds
        exact .guard kind holds.1 holds.2
      · cases found
    · cases found
  · intro declares
    cases declares with
    | short kind side named =>
        rw [declaredBy?, kind]
        exact isSome_ofShort?.2 ⟨_, side, named⟩
    | spec kind listed is named =>
        have found := isSome_ofDeclaration?.2 ⟨_, listed, is, named⟩
        rcases kind with kind | kind <;> rwa [declaredBy?, kind]
    | clause kind first is side named =>
        have found := isSome_ofShort?.2 ⟨_, side, named⟩
        rw [declaredBy?, kind]
        simpa [first, is] using found
    | received kind side value defines named =>
        have found := isSome_ofAssigned?.2 ⟨_, _, side, value, defines, named⟩
        rcases kind with kind | kind <;> rwa [declaredBy?, kind]
    | parameter kind listed is named =>
        rw [declaredBy?, kind]
        exact isSome_ofParameters?.2 ⟨_, listed, is, named⟩
    | guard kind switch named =>
        rw [declaredBy?, kind]
        simp [switch, mentions_iff.2 named]

/-! The walk outwards. -/

/-- Whether the walk outwards meets a child that passes a test. -/
def meets (test : Node → Node → Bool) (offset : Nat) : List Node → Bool
  | [] => false
  | scope :: around =>
      (scope.parts.takeWhile fun child => decide (child.stop ≤ offset)).any (test scope) ||
        (!scope.kind.isFunction && meets test offset around)

theorem isSome_among? (offset : Nat) (around : List Node) : (among? text name offset around).isSome =
    meets (fun scope child => (declaredBy? text name scope child).isSome) offset around := by
  induction around with
  | nil => rfl
  | cons scope around ih =>
      have last : (lastBefore? text name offset scope).isSome =
          (scope.parts.takeWhile fun child => decide (child.stop ≤ offset)).any
            fun child => (declaredBy? text name scope child).isSome := by
        rw [Bool.eq_iff_iff, lastBefore?, List.getLast?_isSome, List.any_eq_true, ne_eq, List.filterMap_eq_nil_iff]
        simp [Option.isSome_iff_ne_none]
      rw [among?, meets, ← last, ← ih]
      cases lastBefore? text name offset scope with
      | some found => rfl
      | none => cases scope.kind.isFunction <;> rfl

end LocalName

variable {sound : Nat → Prop} {declares declares' : Node → Node → Prop} {offset : Nat} {top place : Place}

theorem InForce.mono {branch : Node} {around : List Node} (force : InForce declares branch around)
    (more : ∀ scope child, declares scope child → declares' scope child) : InForce declares' branch around := by
  induction force with
  | earlier parts member declared => exact .earlier parts member (more _ _ declared)
  | further inner _ ih => exact .further inner ih

/-- Children that end before an offset are those before the child that holds the offset. -/
theorem takeWhile_parts {scope branch : Node} {before after : List Node} (annotated : Annotated sound scope)
    (parts : scope.parts = before ++ branch :: after) (starts : branch.start ≤ offset) (wide : offset < branch.stop) :
    (scope.parts.takeWhile fun child => decide (child.stop ≤ offset)) = before := by
  have order := Edit.parts_pairwise annotated
  rw [parts, List.pairwise_append] at order
  have ended : ∀ child ∈ before, decide (child.stop ≤ offset) = true := fun child member =>
    decide_eq_true (Nat.le_trans (order.2.2 child member branch List.mem_cons_self) starts)
  have stays : ¬ decide (branch.stop ≤ offset) = true := by simpa using wide
  rw [parts, List.takeWhile_append_of_pos ended, List.takeWhile_cons, if_neg stays, List.append_nil]

/-- The walk meets what stands before the place in the scopes around it. -/
theorem meets_iff {test : Node → Node → Bool} (annotated : Annotated sound top.node) (outermost : top.around = [])
    (below : Below top place) (solid : place.kind ≠ .comment) (starts : place.start ≤ offset) (wide : offset < place.stop) :
    LocalName.meets test offset place.around = true ↔ place.Sees fun scope child => test scope child = true := by
  unfold Go.Place.Sees
  induction below with
  | here =>
      rw [outermost]
      exact ⟨fun contrary => (Bool.false_ne_true contrary).elim, nofun⟩
  | @inside place child below member ih =>
      have formed := below.annotated annotated
      have listed := (List.mem_filter.1 member).1
      have bounds := formed.shaped.chain.mem listed
      have part : child ∈ place.node.parts :=
        List.mem_filter.2 ⟨listed, Bool.and_eq_true_iff.2 ⟨(List.mem_filter.1 member).2, bne_iff_ne.2 solid⟩⟩
      have outer := ih (formed.not_comment listed) (Nat.le_trans bounds.1 starts) (Nat.lt_of_lt_of_le wide bounds.2.2)
      obtain ⟨before, after, parts⟩ := List.append_of_mem part
      change LocalName.meets test offset (place.node :: place.around) = true ↔ InForce _ child (place.node :: place.around)
      rw [LocalName.meets, takeWhile_parts formed parts starts wide, Bool.or_eq_true, Bool.and_eq_true, Bool.not_eq_true',
        outer, List.any_eq_true]
      constructor
      · rintro (⟨earlier, stands, passes⟩ | ⟨inner, force⟩)
        · exact .earlier parts stands passes
        · exact .further inner force
      · intro force
        cases force with
        | earlier parts' stands passes =>
            have same := (takeWhile_parts formed parts starts wide).symm.trans (takeWhile_parts formed parts' starts wide)
            exact .inl ⟨_, same ▸ stands, passes⟩
        | further inner force => exact .inr ⟨inner, force⟩

namespace Source

variable {source : Source}

/-- An identifier takes up room. -/
theorem IsParsed.identifier_wide (parsed : source.IsParsed) (below : Below source.rootPlace place)
    (word : place.kind = .identifier) : place.start < place.stop := by
  obtain ⟨_, token, member, is, start, stop⟩ := (parsed.lexical below).word word
  have wide := Token.list_wide (List.mem_filter.1 member).1 (by simp [is])
  rw [start, stop] at wide
  exact wide

theorem IsParsed.meets_iff (parsed : source.IsParsed) (below : Below source.rootPlace place)
    (word : place.kind = .identifier) (test : Node → Node → Bool) :
    LocalName.meets test place.start place.around = true ↔ place.Sees fun scope child => test scope child = true :=
  TraceWeave.meets_iff parsed.annotated rfl below (by simp [word]) (Nat.le_refl _) (parsed.identifier_wide below word)

/-- The resolver finds a local declaration of a name exactly if one that it reads is in force. -/
theorem IsParsed.isSome_at? (parsed : source.IsParsed) (below : Below source.rootPlace place)
    (word : place.kind = .identifier) (name : String) :
    (LocalName.at? source.text name place).isSome = true ↔ place.Sees (LocalName.Declares source.text name) := by
  rw [LocalName.at?, LocalName.isSome_among?, parsed.meets_iff below word]
  have same : ∀ scope child, (LocalName.declaredBy? source.text name scope child).isSome = true ↔
      LocalName.Declares source.text name scope child := fun _ _ => LocalName.isSome_declaredBy?
  exact ⟨fun force => force.mono fun scope child => (same scope child).1,
    fun force => force.mono fun scope child => (same scope child).2⟩

end Source
end TraceWeave
