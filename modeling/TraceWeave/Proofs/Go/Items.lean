import TraceWeave.Go.Grammar.File
import TraceWeave.Proofs.Go.Statements

/-! The items of a file are well-formed trees, one after the other, at every depth of nesting. -/
namespace TraceWeave.Go
namespace Grammar

open Reader

variable {sound : Nat → Prop} {limit : Nat} {g : Grammar} {tokens : List Token}

theorem reads_importPath : Reads sound limit importPath (Spans sound) := by
  intro tokens ordered
  unfold importPath
  refine Yields.peek fun token is => ?_
  split
  · rename_i kind found
    refine Yields.take ordered fun token' rest₁ is' ordered₁ bound₁ took₁ => ?_
    obtain rfl := is'.symm.trans is
    have plain : kind.isPlain = true := by
      unfold stringKind? at found
      split at found
      all_goals (cases found; try rfl)
    exact Yields.pure ⟨ordered₁, bound₁, Node.Row.withRole (took₁.leaf plain) _⟩
  · exact Yields.stuck

/-- An import begins with the token that was looked at first, be it a name or the path itself. -/
theorem reads_importSpec : Reads sound limit importSpec (Spans sound) := by
  intro tokens ordered
  cases tokens with
  | nil => exact fun _ _ result => nomatch result
  | cons token others =>
      unfold importSpec
      refine Yields.peek fun token' is => ?_
      obtain rfl : token = token' := is
      extract_lets jump
      have joins : ∀ name rest, Reached sound limit (token :: others) (Node.Row sound) name rest →
          Yields rest (jump name) (Reached sound limit (token :: others) (Spans sound)) := by
        rintro name rest₁ ⟨ordered₁, bound₁, row₁⟩
        refine reads_importPath.next ordered₁ fun path rest₂ ordered₂ bound₂ spans₂ => ?_
        refine Yields.pure ⟨ordered₂, by omega, ?_⟩
        exact spans_build rfl ordered.1.starts spans₂.stops (row₁.append spans₂.to_stop) (Nat.le_refl _)
          (Node.row_singleton.1 spans₂).2.2
      clear_value jump
      split
      · refine Yields.take ordered fun token' rest₁ is' ordered₁ bound₁ took₁ => ?_
        obtain rfl : token = token' := is'
        exact Yields.pass (joins _ _ ⟨ordered₁, bound₁, Node.Row.withRole (took₁.leaf rfl) _⟩)
      split
      · refine Yields.take ordered fun token' rest₁ is' ordered₁ bound₁ took₁ => ?_
        obtain rfl : token = token' := is'
        refine Yields.pass (joins _ _ ⟨ordered₁, bound₁, Node.Row.withRole (took₁.leaf ?_) _⟩)
        split <;> rfl
      · exact Yields.pass (joins _ _ ⟨ordered, Nat.le_refl _, Node.row_nil.2 (Nat.le_refl _)⟩)

theorem reads_importDeclaration : Reads sound limit importDeclaration (Spans sound) := by
  intro tokens ordered
  unfold importDeclaration
  refine (reads_keyword _).next ordered fun head rest₁ ordered₁ bound₁ ⟨took₁, _⟩ => ?_
  refine (looks_nextIs _ _).next fun bracket => ?_
  split
  · refine reads_take.next ordered₁ fun opening rest₂ ordered₂ bound₂ took₂ => ?_
    refine (reads_lineList _ reads_importSpec).next ordered₂ fun specs rest₃ ordered₃ bound₃ known₃ => ?_
    refine (reads_mark _).next ordered₃ fun closing rest₄ ordered₄ bound₄ ⟨took₄, _⟩ => ?_
    have list : Spans sound _ (.build .importSpecList opening.start closing.stop specs) _ :=
      spans_between rfl took₂ known₃.row took₄
    have inner := list.to_stop.widen (Nat.le_trans took₁.exact.le took₁.stop) (Nat.le_refl _)
    refine Yields.pure ⟨ordered₄, by omega, ?_⟩
    exact spans_build rfl took₁.exact.starts took₄.exact.stops inner (by grind) (by grind)
  · refine reads_importSpec.next ordered₁ fun spec rest₂ ordered₂ bound₂ spans₂ => ?_
    refine Yields.pure ⟨ordered₂, by omega, ?_⟩
    exact spans_build rfl took₁.exact.starts spans₂.stops (by grind) (by grind) (by grind)

theorem reads_packageClause : Reads sound limit packageClause (Spans sound) := by
  intro tokens ordered
  unfold packageClause
  refine (reads_keyword _).next ordered fun head rest₁ ordered₁ bound₁ ⟨took₁, _⟩ => ?_
  refine reads_word.next ordered₁ fun name rest₂ ordered₂ bound₂ took₂ => ?_
  have leaf : Spans sound _ (name.leaf .packageIdentifier) _ := took₂.leaf rfl
  refine Yields.pure ⟨ordered₂, by omega, ?_⟩
  exact spans_build rfl took₁.exact.starts took₂.exact.stops (by grind) (by grind) (by grind)

/-! Functions. -/

theorem reads_functionBody (keeps : g.KeepsOrder sound limit) :
    Reads sound limit g.functionBody fun before nodes after =>
      Node.Row sound before nodes after ∧ ∀ node ∈ nodes, node.kind = .block := by
  intro tokens ordered
  unfold functionBody
  refine (looks_nextIs _ _).next fun braces => ?_
  split
  · refine keeps.block.next ordered fun body rest₁ ordered₁ bound₁ ⟨spans₁, block⟩ => ?_
    exact Yields.pure ⟨ordered₁, bound₁, spans₁.withRole _, by simpa using block⟩
  · exact Yields.pure ⟨ordered, Nat.le_refl _, Node.row_nil.2 (Nat.le_refl _), by simp⟩

/-- A function has its parameters, whatever stands before and after them. -/
theorem spans_function {kind : Kind} (needed : kind.needed = [(.parameters, .parameterList)])
    (opens : kind.opens = false) (comment : kind ≠ .comment) (literal : kind ≠ .funcLiteral)
    {before middle first last after : Nat} {head : Token} {front back : List Node} {found : Node × List Node}
    (took : Took sound before head middle) (row : Node.Row sound middle front first)
    (roles : ∀ node ∈ front, node.role ≠ some .parameters ∧ node.role ≠ some .body)
    (signed : Signed sound first found last)
    (rest : Node.Row sound last back after ∧ ∀ node ∈ back, node.kind = .block) :
    Spans sound before (.build kind head.start (endOf head.stop (front ++ found.2 ++ back)) (front ++ found.2 ++ back))
      after := by
  obtain ⟨middleRow, list, results, same, role, listed, others⟩ := signed
  obtain ⟨stops, tight, upper⟩ :=
    row_endOf ((row.append middleRow).append rest.1) took.stop took.exact.stops
  refine Node.row_singleton.2 ⟨Nat.le_of_eq took.start.symm, ?_, upper⟩
  refine (tight.widen took.exact.le (Nat.le_refl _)).complete opens comment took.exact.starts stops ?_
    (fun contrary => absurd contrary literal) ?_
  · intro role' kind' member
    simp only [needed, List.mem_singleton, Prod.mk.injEq] at member
    obtain ⟨rfl, rfl⟩ := member
    refine ⟨list, ?_, listed⟩
    have absent : front.find? (fun child => child.role == some .parameters) = none := by
      rw [List.find?_eq_none]
      intro node member
      simpa using (roles node member).1
    rw [same]
    simp [List.find?_append, absent, role]
  · intro _ child member is
    rw [same, List.mem_append, List.mem_append, List.mem_cons] at member
    rcases member with (early | rfl | result) | body
    · exact absurd is (roles child early).2
    · rw [role] at is
      cases is
    · rw [others child result] at is
      cases is
    · exact rest.2 child body

theorem reads_functionDeclaration (keeps : g.KeepsOrder sound limit) :
    Reads sound limit g.functionDeclaration (Spans sound) := by
  intro tokens ordered
  unfold functionDeclaration
  refine (reads_keyword _).next ordered fun head rest₁ ordered₁ bound₁ ⟨took₁, _⟩ => ?_
  refine reads_word.next ordered₁ fun name rest₂ ordered₂ bound₂ took₂ => ?_
  refine (looks_nextIs _ _).next fun bracket => ?_
  extract_lets jump
  have joins : ∀ generic rest, (∀ node ∈ generic, node.role ≠ some .parameters ∧ node.role ≠ some .body) →
      Reached sound limit rest₂ (Node.Row sound) generic rest →
      Yields rest (jump generic) (Reached sound limit tokens (Spans sound)) := by
    rintro generic rest₃ roles ⟨ordered₃, bound₃, row₃⟩
    refine (reads_signature keeps _).next ordered₃ fun found rest₄ ordered₄ bound₄ signed₄ => ?_
    refine (reads_functionBody keeps).next ordered₄ fun body rest₅ ordered₅ bound₅ row₅ => ?_
    have leaf : Spans sound (front limit rest₁) (name.leaf .identifier) (front limit rest₂) := took₂.leaf rfl
    refine Yields.pure ⟨ordered₅, by omega, ?_⟩
    refine spans_function rfl rfl (by simp) (by simp) took₁ ((leaf.withRole .name).append row₃) ?_ signed₄ row₅
    intro node member
    rcases List.mem_cons.1 member with rfl | later
    · simp
    · exact roles node later
  clear_value jump
  split
  · refine (reads_typeParameters keeps).next ordered₂ fun list rest₃ ordered₃ bound₃ spans₃ => ?_
    exact Yields.pass (joins _ _ (by simp) ⟨ordered₃, bound₃, spans₃.withRole _⟩)
  · exact Yields.pass (joins _ _ (by simp) ⟨ordered₂, Nat.le_refl _, Node.row_nil.2 (Nat.le_refl _)⟩)

theorem reads_methodDeclaration (keeps : g.KeepsOrder sound limit) :
    Reads sound limit g.methodDeclaration (Spans sound) := by
  intro tokens ordered
  unfold methodDeclaration
  refine (reads_keyword _).next ordered fun head rest₁ ordered₁ bound₁ ⟨took₁, _⟩ => ?_
  refine (reads_parameters keeps).next ordered₁ fun receiver rest₂ ordered₂ bound₂ ⟨spans₂, _⟩ => ?_
  refine reads_word.next ordered₂ fun name rest₃ ordered₃ bound₃ took₃ => ?_
  refine (reads_signature keeps _).next ordered₃ fun found rest₄ ordered₄ bound₄ signed₄ => ?_
  refine (reads_functionBody keeps).next ordered₄ fun body rest₅ ordered₅ bound₅ row₅ => ?_
  have leaf : Spans sound (front limit rest₂) (name.leaf .fieldIdentifier) (front limit rest₃) := took₃.leaf rfl
  refine Yields.pure ⟨ordered₅, by omega, ?_⟩
  exact spans_function rfl rfl (by simp) (by simp) took₁ ((spans₂.withRole .receiver).append (leaf.withRole .name))
    (by simp) signed₄ row₅

/-! Items and files. -/

theorem reads_fileItem (keeps : g.KeepsOrder sound limit) : Reads sound limit g.fileItem (Spans sound) := by
  intro tokens ordered
  unfold fileItem
  refine looks_peek.next fun token => ?_
  refine looks_peekSecond.next fun second => ?_
  split
  · exact reads_packageClause tokens ordered
  split
  · exact reads_importDeclaration tokens ordered
  split
  · split
    · exact (reads_methodDeclaration keeps).either keeps.statement tokens ordered
    · exact reads_functionDeclaration keeps tokens ordered
  · exact keeps.statement tokens ordered

/-- Each level of nesting keeps order because the one below it does. -/
theorem nested_keepsOrder (sound : Nat → Prop) (limit depth : Nat) : (nested depth).KeepsOrder sound limit := by
  induction depth with
  | zero => exact ⟨fun _ => reads_stuck, fun _ => reads_stuck, reads_stuck, reads_stuck, reads_stuck⟩
  | succ depth ih =>
      exact ⟨reads_typeStep ih, reads_expressionStep ih, reads_literalValueStep ih, reads_blockStep ih,
        reads_statementStep ih⟩

theorem fileItems_row (keeps : g.KeepsOrder sound limit) (rounds : Nat) {items : List Node}
    (ordered : Ordered sound limit tokens) (found : g.fileItems rounds tokens = .ok items) :
    Node.Row sound (front limit tokens) items limit := by
  induction rounds generalizing tokens items with
  | zero =>
      cases found
      exact Node.row_nil.2 ordered.front_le
  | succ rounds ih =>
      unfold fileItems at found
      split at found
      · cases found
        exact Node.row_nil.2 ordered.front_le
      split at found
      · rename_i item rest outcome
        obtain ⟨item', rest₁, first, last⟩ := bind_eq_ok outcome
        obtain ⟨_, rest₂, ended, last⟩ := bind_eq_ok last
        cases last
        obtain ⟨ordered₁, bound₁, spans₁⟩ := reads_fileItem keeps tokens ordered _ _ first
        obtain ⟨ordered₂, bound₂, _⟩ := reads_terminator rest₁ ordered₁ _ _ ended
        cases others : g.fileItems rounds rest with
        | error trouble => rw [others] at found; cases found
        | ok later =>
            rw [others] at found
            cases found
            exact (spans₁.widen (Nat.le_refl _) bound₂).append (ih ordered₂ others)
      · cases found

end Grammar
end TraceWeave.Go
