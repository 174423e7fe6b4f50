import TraceWeave.Go.Grammar.Expressions
import TraceWeave.Proofs.Go.Types

/-! Expressions are read as well-formed trees. Operators are joined inside the span of their operands. -/
namespace TraceWeave.Go
namespace Grammar

open Reader

variable {sound : Nat → Prop} {limit : Nat} {g : Grammar}

/-! Operators. -/

/-- An operator and the operand after it. -/
def Operation (sound : Nat → Prop) (before : Nat) (found : Token × Node) (after : Nat) : Prop :=
  ∃ middle, Took sound before found.1 middle ∧ Spans sound middle found.2 after

theorem Operation.le {before after : Nat} {found : Token × Node} (operation : Operation sound before found after) :
    before ≤ after := by
  obtain ⟨middle, took, spans⟩ := operation
  grind

theorem spans_operatorNode {before after : Nat} {operator : Token} (took : Took sound before operator after) :
    Spans sound before (operatorNode operator) after :=
  Node.Row.withRole (took.leaf rfl) _

theorem spans_binaryNode {before middle start after : Nat} {left : Node} {operator : Token} {right : Node}
    (spans : Spans sound before left middle) (bound : middle ≤ start)
    (operation : Operation sound start (operator, right) after) :
    Spans sound before (binaryNode left operator right) after := by
  obtain ⟨inner, took, spans'⟩ := operation
  have mark := spans_operatorNode took
  exact spans_build rfl spans.starts spans'.stops (by grind) (by grind) (by grind)

theorem spans_joinLevel (level : Nat) {rest : List (Token × Node)} {first : Node} {before middle after : Nat}
    (spans : Spans sound before first middle) (sequence : Sequence (Operation sound) middle rest after) :
    ∃ middle', Spans sound before (joinLevel level first rest).1 middle' ∧
      Sequence (Operation sound) middle' (joinLevel level first rest).2 after := by
  induction rest generalizing first before middle with
  | nil => exact ⟨middle, spans, sequence⟩
  | cons pair rest ih =>
      obtain ⟨operator, operand⟩ := pair
      obtain ⟨start, stop, bound, operation, later⟩ := sequence
      unfold joinLevel
      split
      · exact ih (spans_binaryNode spans bound operation) later
      · obtain ⟨inner, took, spans'⟩ := operation
        obtain ⟨middle', joined, later'⟩ := ih spans' later
        exact ⟨middle, spans, start, middle', bound, ⟨inner, took, joined⟩, later'⟩

theorem spans_joinOperators {rest : List (Token × Node)} {first : Node} {before middle after : Nat}
    (spans : Spans sound before first middle) (sequence : Sequence (Operation sound) middle rest after) :
    Spans sound before (joinOperators first rest) after := by
  have folds : ∀ (levels : List Nat) (found : Node × List (Token × Node)),
      (∃ middle, Spans sound before found.1 middle ∧ Sequence (Operation sound) middle found.2 after) →
      Spans sound before (levels.foldl (fun found level => joinLevel level found.1 found.2) found).1 after := by
    intro levels
    induction levels with
    | nil =>
        rintro ⟨joined, later⟩ ⟨middle, spans, sequence⟩
        exact spans.widen (Nat.le_refl _) (sequence.le fun _ _ _ operation => operation.le)
    | cons level levels ih =>
        rintro ⟨joined, later⟩ ⟨middle, spans, sequence⟩
        exact ih _ (spans_joinLevel level spans sequence)
  exact folds _ (first, rest) ⟨middle, spans, sequence⟩

theorem spans_applyUnary {operators : List Token} {operand : Node} {before middle after : Nat}
    (sequence : Sequence (Took sound) before operators middle) (spans : Spans sound middle operand after) :
    Spans sound before (applyUnary operators operand) after := by
  induction operators generalizing before with
  | nil => exact spans.widen sequence (Nat.le_refl _)
  | cons operator operators ih =>
      obtain ⟨start, stop, bound, took, rest⟩ := sequence
      have inner := ih rest
      have mark := spans_operatorNode took
      change Spans sound before (.build .unaryExpression operator.start (applyUnary operators operand).stop
        [operatorNode operator, (applyUnary operators operand).withRole .operand]) after
      exact spans_build rfl took.exact.starts inner.stops (by grind) (by grind) (by grind)

/-! Expressions read as types. -/

theorem WellFormed.rename {node : Node} (formed : Node.WellFormed sound node) {kind : Kind}
    (plain : kind.isPlain = true) (role : Option Role) :
    Node.WellFormed sound { node with kind, role } :=
  formed.row.plain plain formed.shaped.starts formed.shaped.stops

/-- A name of a type covers what the expression covered. -/
theorem asTypeName?_formed {node name : Node} (found : asTypeName? node = some name)
    (formed : Node.WellFormed sound node) :
    Node.WellFormed sound name ∧ name.start = node.start ∧ name.stop = node.stop := by
  unfold asTypeName? at found
  split at found
  · cases found
    exact ⟨WellFormed.rename formed rfl _, rfl, rfl⟩
  · split at found
    · rename_i operand field parts
      split at found
      · cases found
        have row : Node.Row sound node.start [operand, field] node.stop :=
          ⟨by rw [← parts]; exact formed.shaped.chain, by rw [← parts]; exact formed.children⟩
        obtain ⟨lower, first, rest⟩ := Node.row_cons.1 row
        obtain ⟨bound, second, upper⟩ := Node.row_singleton.1 rest
        refine ⟨Node.Row.plain ?_ rfl formed.shaped.starts formed.shaped.stops, rfl, rfl⟩
        refine Node.row_cons.2 ⟨lower, WellFormed.rename first rfl _, ?_⟩
        exact Node.row_singleton.2 ⟨bound, WellFormed.rename second rfl _, upper⟩
      · cases found
    · cases found
  · cases found

/-! Lists of expressions. -/

theorem reads_expressionList (keeps : g.KeepsOrder sound limit) (mode : Mode) :
    Reads sound limit (g.expressionList mode) (Spans sound) := by
  intro tokens ordered
  unfold expressionList
  refine (reads_separated _ _ (keeps.expression _)).next ordered fun values rest ordered₁ bound₁ known => ?_
  cases values with
  | nil => exact Yields.stuck
  | cons first others => exact Yields.pure ⟨ordered₁, bound₁, known.2.row.spanning rfl⟩

theorem reads_argument (keeps : g.KeepsOrder sound limit) : Reads sound limit g.argument (Spans sound) := by
  intro tokens ordered
  unfold argument
  refine (keeps.expression _).next ordered fun value rest₁ ordered₁ bound₁ spans₁ => ?_
  refine (looks_nextIs _ _).next fun spread => ?_
  split
  · refine reads_take.next ordered₁ fun dots rest₂ ordered₂ bound₂ took₂ => Yields.pure ⟨ordered₂, by omega, ?_⟩
    exact spans_build rfl spans₁.starts took₂.exact.stops (by grind) (by grind) (by grind)
  · exact Yields.pure ⟨ordered₁, bound₁, spans₁⟩

/-- A list in parentheses after a function. -/
abbrev Listed (sound : Nat → Prop) (before : Nat) (node : Node) (after : Nat) : Prop :=
  Spans sound before node after ∧ node.kind = .argumentList

theorem reads_argumentList (keeps : g.KeepsOrder sound limit) : Reads sound limit g.argumentList (Listed sound) := by
  intro tokens ordered
  unfold argumentList
  refine (reads_mark _).next ordered fun opening rest₁ ordered₁ bound₁ opened => ?_
  refine (reads_commaList _ (reads_argument keeps)).next ordered₁ fun arguments rest₂ ordered₂ bound₂ known₂ => ?_
  refine (reads_mark _).next ordered₂ fun closing rest₃ ordered₃ bound₃ closed => ?_
  refine Yields.pure ⟨ordered₃, by omega, ?_, rfl⟩
  exact spans_brackets rfl (by simp) (by simp) opened rfl known₂.row closed rfl

theorem reads_allocationArguments (keeps : g.KeepsOrder sound limit) :
    Reads sound limit g.allocationArguments (Listed sound) := by
  intro tokens ordered
  unfold allocationArguments
  refine (reads_mark _).next ordered fun opening rest₁ ordered₁ bound₁ opened => ?_
  refine Yields.nextIs fun found closed => ?_
  split
  · rename_i next
    refine Yields.take ordered₁ fun closing rest₂ same ordered₂ bound₂ took₂ => ?_
    refine Yields.pure ⟨ordered₂, by omega, ?_, rfl⟩
    have mark := closed next
    rw [same, Token.isMark, Bool.and_eq_true, beq_iff_eq, beq_iff_eq] at mark
    exact spans_brackets rfl (by simp) (by simp) opened rfl (Node.row_nil.2 (Nat.le_refl _)) ⟨took₂, mark.2⟩ rfl
  · refine (keeps.type _).next ordered₁ fun type rest₂ ordered₂ bound₂ spans₂ => ?_
    have more : Reads sound limit (do
        if ← nextIs false "," then
          let _ ← take
          if ← nextIs false ")" then return none
          return some (← g.expression .enclosed)
        else return none) (Finds (Spans sound)) := by
      intro tokens ordered
      refine (looks_nextIs _ _).next fun comma => ?_
      split
      · refine reads_take.next ordered fun comma rest₁ ordered₁ bound₁ took₁ => ?_
        refine (looks_nextIs _ _).next fun closed => ?_
        split
        · exact yields_nothing ordered₁ bound₁
        · exact (keeps.expression _).found ordered₁ bound₁
      · exact yields_nothing ordered (Nat.le_refl _)
    refine (reads_repeating more).next ordered₂ fun others rest₃ ordered₃ bound₃ known₃ => ?_
    refine (reads_mark _).next ordered₃ fun closing rest₄ ordered₄ bound₄ closed => ?_
    refine Yields.pure ⟨ordered₄, by omega, ?_, rfl⟩
    exact spans_brackets rfl (by simp) (by simp) opened rfl (spans₂.append known₃.row) closed rfl

/-! Calls, conversions and literals. -/

/-- A call has its arguments. -/
theorem spans_callNode {before middle middle' after : Nat} {function arguments : Node} {types : List Node}
    (spans : Spans sound before function middle) (between : Node.Row sound middle types middle')
    (listed : Listed sound middle' arguments after) :
    Spans sound before (callNode function types arguments) after := by
  have row := (spans.from_start.withRole .function).append
    ((between.map_withRole .typeArguments).append (listed.1.to_stop.withRole .arguments))
  refine Node.row_singleton.2 ⟨by grind [callNode, Node.build], ?_, by grind [callNode, Node.build]⟩
  refine row.complete rfl (by simp) spans.starts listed.1.stops ?_ (by simp) (by simp [Kind.isFunction])
  intro role kind needed
  simp only [Kind.needed, List.mem_singleton, Prod.mk.injEq] at needed
  obtain ⟨rfl, rfl⟩ := needed
  refine ⟨arguments.withRole .arguments, ?_, listed.2⟩
  have absent : (types.map (Node.withRole .typeArguments)).find? (fun child => child.role == some .arguments) = none := by
    simp [List.find?_eq_none]
  simp [List.find?_append, absent]

theorem spans_conversionNode {before middle start stop after : Nat} {type operand : Node}
    (spans : Spans sound before type middle) (bound : middle ≤ start) (spans' : Spans sound start operand stop)
    (stops : sound stop) (upper : stop ≤ after) : Spans sound before (conversionNode type stop operand) after :=
  spans_build rfl spans.starts stops (by grind) (by grind) upper

/-- What a reader makes of an operand that stands before the tokens. -/
structure Extended (sound : Nat → Prop) (limit before : Nat) (node : Node) (rest : List Token) : Prop where
  ordered : Ordered sound limit rest
  spans : Spans sound before node (front limit rest)

variable {tokens : List Token} {before : Nat} {operand type : Node}

theorem extends_conversion (keeps : g.KeepsOrder sound limit) (ordered : Ordered sound limit tokens)
    (spans : Spans sound before type (front limit tokens)) :
    Yields tokens (g.conversion type) (Extended sound limit before) := by
  unfold conversion
  refine (reads_mark _).next ordered fun opening rest₁ ordered₁ bound₁ ⟨took₁, _⟩ => ?_
  refine (keeps.expression _).next ordered₁ fun value rest₂ ordered₂ bound₂ spans₂ => ?_
  refine (looks_nextIs _ _).next fun comma => ?_
  extract_lets jump
  have joins : ∀ rest, Ordered sound limit rest → front limit rest₂ ≤ front limit rest →
      Yields rest (jump ()) (Extended sound limit before) := by
    intro rest₃ ordered₃ bound₃
    refine (reads_mark _).next ordered₃ fun closing rest₄ ordered₄ bound₄ ⟨took₄, _⟩ => Yields.pure ⟨ordered₄, ?_⟩
    exact spans_conversionNode (spans.widen (Nat.le_refl _) bound₁) (Nat.le_refl _)
      (spans₂.widen (Nat.le_refl _) (by grind)) took₄.exact.stops took₄.stop
  split
  · exact reads_take.next ordered₂ fun comma rest₃ ordered₃ bound₃ _ => joins rest₃ ordered₃ bound₃
  · exact joins rest₂ ordered₂ (Nat.le_refl _)

theorem spans_compositeNode {before middle after : Nat} {type body : Node} (spans : Spans sound before type middle)
    (spans' : Spans sound middle body after) : Spans sound before (compositeNode type body) after :=
  spans_build rfl spans.starts spans'.stops (by grind) (by grind) (by grind)

theorem reads_literalElement (keeps : g.KeepsOrder sound limit) :
    Reads sound limit g.literalElement (Spans sound) := by
  intro tokens ordered
  unfold literalElement
  refine (looks_nextIs _ _).next fun braces => ?_
  extract_lets jump
  have joins : ∀ value rest, Reached sound limit tokens (Spans sound) value rest →
      Yields rest (jump value) (Reached sound limit tokens (Spans sound)) := by
    rintro value rest₁ ⟨ordered₁, bound₁, spans₁⟩
    refine Yields.pure ⟨ordered₁, bound₁, ?_⟩
    exact spans_build rfl spans₁.starts spans₁.stops spans₁.tight (by grind) (by grind)
  split
  · exact Yields.bind ((keeps.literalValue tokens ordered).mono joins)
  · exact Yields.bind ((keeps.expression _ tokens ordered).mono joins)

theorem reads_element (keeps : g.KeepsOrder sound limit) : Reads sound limit g.element (Spans sound) := by
  intro tokens ordered
  unfold element
  refine (reads_literalElement keeps).next ordered fun first rest₁ ordered₁ bound₁ spans₁ => ?_
  refine (looks_nextIs _ _).next fun colon => ?_
  split
  · refine reads_take.next ordered₁ fun colon rest₂ ordered₂ bound₂ took₂ => ?_
    refine (reads_literalElement keeps).next ordered₂ fun second rest₃ ordered₃ bound₃ spans₃ => ?_
    refine Yields.pure ⟨ordered₃, by omega, ?_⟩
    exact spans_build rfl spans₁.starts spans₃.stops (by grind) (by grind) (by grind)
  · exact Yields.pure ⟨ordered₁, bound₁, spans₁⟩

theorem reads_literalValueStep (keeps : g.KeepsOrder sound limit) :
    Reads sound limit g.literalValueStep (Spans sound) := by
  intro tokens ordered
  unfold literalValueStep
  refine (reads_mark _).next ordered fun opening rest₁ ordered₁ bound₁ ⟨took₁, _⟩ => ?_
  refine (reads_commaList _ (reads_element keeps)).next ordered₁ fun elements rest₂ ordered₂ bound₂ known₂ => ?_
  refine (reads_mark _).next ordered₂ fun closing rest₃ ordered₃ bound₃ ⟨took₃, _⟩ => ?_
  exact Yields.pure ⟨ordered₃, by omega, spans_between rfl took₁ known₂.row took₃⟩

theorem reads_typeOperand (keeps : g.KeepsOrder sound limit) : Reads sound limit g.typeOperand (Spans sound) := by
  intro tokens ordered
  unfold typeOperand
  refine ((reads_openArrayType keeps).either (keeps.type _)).next ordered fun type rest₁ ordered₁ bound₁ spans₁ => ?_
  extract_lets mayHaveLiteral
  refine (looks_nextIs _ _).next fun braces => ?_
  split
  · refine keeps.literalValue.next ordered₁ fun body rest₂ ordered₂ bound₂ spans₂ => ?_
    exact Yields.pure ⟨ordered₂, by omega, spans_compositeNode spans₁ spans₂⟩
  · refine (extends_conversion keeps ordered₁ spans₁).mono ?_
    rintro node rest₂ ⟨ordered₂, spans₂⟩
    exact ⟨ordered₂, spans₂.le, spans₂⟩

/-- The children of a literal begin after its keyword. -/
theorem spans_funcLiteral {before middle middle' after : Nat} {head : Token} {found : Node × List Node} {body : Node}
    (took : Took sound before head middle) (is : head.text = "func") (signed : Signed sound middle found middle')
    (spans : Spans sound middle' body after) (block : body.kind = .block) :
    Spans sound before (.build .funcLiteral head.start body.stop (found.2 ++ [body.withRole .body])) after := by
  obtain ⟨row, list, results, same, role, kind, others⟩ := signed
  have longer : head.start < middle := by
    have size := took.exact.size
    rw [is] at size
    have four : Text.size "func" = 4 := rfl
    have bound := took.stop
    omega
  have whole := row.append (spans.to_stop.withRole .body)
  refine Node.row_singleton.2 ⟨Nat.le_of_eq took.start.symm, ?_, (Node.row_singleton.1 spans).2.2⟩
  refine (whole.widen (Nat.le_of_lt longer) (Nat.le_refl _)).complete rfl (by simp) took.exact.starts spans.stops ?_ ?_
    (by simp [Kind.isFunction])
  · intro role' kind' needed
    rw [same]
    simp only [Kind.needed, List.mem_cons, Prod.mk.injEq, List.not_mem_nil, or_false] at needed
    rcases needed with ⟨rfl, rfl⟩ | ⟨rfl, rfl⟩
    · exact ⟨list, by simp [role], kind⟩
    · refine ⟨body.withRole .body, ?_, block⟩
      have absent : results.find? (fun child => child.role == some .body) = none := by
        rw [List.find?_eq_none]
        intro node member
        simp [others node member]
      simp [role, List.find?_append, absent]
  · intro _ child member
    exact Nat.lt_of_lt_of_le longer (whole.chain.mem member).1

theorem reads_functionOperand (keeps : g.KeepsOrder sound limit) :
    Reads sound limit g.functionOperand (Spans sound) := by
  intro tokens ordered
  unfold functionOperand
  refine (reads_keyword _).next ordered fun head rest₁ ordered₁ bound₁ ⟨took₁, is⟩ => ?_
  refine (reads_signature keeps _).next ordered₁ fun found rest₂ ordered₂ bound₂ signed₂ => ?_
  refine (looks_nextIs _ _).next fun braces => ?_
  split
  · refine keeps.block.next ordered₂ fun body rest₃ ordered₃ bound₃ ⟨spans₃, block⟩ => ?_
    exact Yields.pure ⟨ordered₃, by omega, spans_funcLiteral took₁ is signed₂ spans₃ block⟩
  · refine (extends_conversion keeps ordered₂ (spans_headed rfl took₁ signed₂.1)).mono ?_
    rintro node rest₃ ⟨ordered₃, spans₃⟩
    exact ⟨ordered₃, spans₃.le, spans₃⟩

theorem reads_parenthesizedOperand (keeps : g.KeepsOrder sound limit) :
    Reads sound limit g.parenthesizedOperand (Spans sound) := by
  refine Reads.either ?_ ?_
  · intro tokens ordered
    refine (reads_mark _).next ordered fun opening rest₁ ordered₁ bound₁ ⟨took₁, _⟩ => ?_
    refine (keeps.expression _).next ordered₁ fun inner rest₂ ordered₂ bound₂ spans₂ => ?_
    refine (reads_mark _).next ordered₂ fun closing rest₃ ordered₃ bound₃ ⟨took₃, _⟩ => ?_
    exact Yields.pure ⟨ordered₃, by omega, spans_between rfl took₁ spans₂ took₃⟩
  · intro tokens ordered
    refine (reads_parenthesizedType keeps).next ordered fun type rest₁ ordered₁ bound₁ spans₁ => ?_
    refine (extends_conversion keeps ordered₁ spans₁).mono ?_
    rintro node rest₂ ⟨ordered₂, spans₂⟩
    exact ⟨ordered₂, spans₂.le, spans₂⟩

theorem isPlain_of_soleKind? {token : Token} {kind : Kind} (found : soleKind? token = some kind) :
    kind.isPlain = true := by
  unfold soleKind? at found
  split at found
  case h_7 => split at found <;> (cases found; rfl)
  all_goals (cases found; try rfl)

theorem reads_operand (keeps : g.KeepsOrder sound limit) (mode : Mode) :
    Reads sound limit (g.operand mode) (Spans sound) := by
  intro tokens ordered
  unfold operand
  refine Yields.peek fun token is => ?_
  refine looks_peekSecond.next fun second => ?_
  split
  · exact reads_parenthesizedOperand keeps tokens ordered
  split
  · exact reads_functionOperand keeps tokens ordered
  split
  · exact reads_typeOperand keeps tokens ordered
  split
  · refine reads_take.next ordered fun name rest₁ ordered₁ bound₁ took₁ => ?_
    refine (reads_allocationArguments keeps).next ordered₁ fun list rest₂ ordered₂ bound₂ listed₂ => ?_
    refine Yields.pure ⟨ordered₂, by omega, ?_⟩
    exact spans_callNode (took₁.leaf rfl) (Node.row_nil.2 (Nat.le_refl _)) listed₂
  split
  · rename_i kind sole
    refine Yields.take ordered fun token' rest₁ is' ordered₁ bound₁ took₁ => ?_
    obtain rfl := is'.symm.trans is
    exact Yields.pure ⟨ordered₁, bound₁, took₁.leaf (isPlain_of_soleKind? sole)⟩
  · exact Yields.stuck

/-! What follows an operand. -/

theorem extends_selection (keeps : g.KeepsOrder sound limit) (ordered : Ordered sound limit tokens)
    (spans : Spans sound before operand (front limit tokens)) :
    Yields tokens (g.selection operand) (Extended sound limit before) := by
  unfold selection
  refine (reads_mark _).next ordered fun dot rest₁ ordered₁ bound₁ ⟨took₁, _⟩ => ?_
  refine (looks_nextIs _ _).next fun bracket => ?_
  split
  · refine reads_take.next ordered₁ fun opening rest₂ ordered₂ bound₂ took₂ => ?_
    refine (keeps.type _).next ordered₂ fun type rest₃ ordered₃ bound₃ spans₃ => ?_
    refine (reads_mark _).next ordered₃ fun closing rest₄ ordered₄ bound₄ ⟨took₄, _⟩ => Yields.pure ⟨ordered₄, ?_⟩
    exact spans_build rfl spans.starts took₄.exact.stops (by grind) (by grind) (by grind)
  · refine reads_word.next ordered₁ fun field rest₂ ordered₂ bound₂ took₂ => Yields.pure ⟨ordered₂, ?_⟩
    have leaf : Spans sound _ (field.leaf .fieldIdentifier) _ := took₂.leaf rfl
    exact spans_build rfl spans.starts took₂.exact.stops (by grind) (by grind) (by grind)

theorem reads_optionalExpression (keeps : g.KeepsOrder sound limit) (role : Role) :
    Reads sound limit (g.optionalExpression role) (Node.Row sound) := by
  intro tokens ordered
  unfold optionalExpression
  refine (looks_nextIs _ _).next fun colon => ?_
  refine (looks_nextIs _ _).next fun closed => ?_
  split
  · exact Yields.pure ⟨ordered, Nat.le_refl _, Node.row_nil.2 (Nat.le_refl _)⟩
  · refine (keeps.expression _).next ordered fun value rest₁ ordered₁ bound₁ spans₁ => ?_
    exact Yields.pure ⟨ordered₁, bound₁, spans₁.withRole _⟩

theorem extends_indexing (keeps : g.KeepsOrder sound limit) (ordered : Ordered sound limit tokens)
    (spans : Spans sound before operand (front limit tokens)) :
    Yields tokens (g.indexing operand) (Extended sound limit before) := by
  unfold indexing
  refine (reads_mark _).next ordered fun opening rest₁ ordered₁ bound₁ ⟨took₁, _⟩ => ?_
  refine (reads_optionalExpression keeps _).next ordered₁ fun first rest₂ ordered₂ bound₂ row₂ => ?_
  refine (looks_nextIs _ _).next fun colon => ?_
  have start := (spans.from_start.withRole .operand).widen (Nat.le_refl _) bound₁
  split
  · refine reads_take.next ordered₂ fun colon rest₃ ordered₃ bound₃ took₃ => ?_
    refine (reads_optionalExpression keeps _).next ordered₃ fun second rest₄ ordered₄ bound₄ row₄ => ?_
    refine (looks_nextIs _ _).next fun colon' => ?_
    extract_lets jump
    have joins : ∀ third rest, Reached sound limit rest₄ (Node.Row sound) third rest →
        Yields rest (jump third) (Extended sound limit before) := by
      rintro third rest₅ ⟨ordered₅, bound₅, row₅⟩
      refine (reads_mark _).next ordered₅ fun closing rest₆ ordered₆ bound₆ ⟨took₆, _⟩ => Yields.pure ⟨ordered₆, ?_⟩
      have upper : front limit rest₅ ≤ closing.stop := by grind
      have row := ((start.append (row₂.widen (Nat.le_refl _) bound₃)).append row₄).append
        (row₅.widen (Nat.le_refl _) upper)
      exact spans_build rfl spans.starts took₆.exact.stops row (by grind) (by grind)
    split
    · refine reads_take.next ordered₄ fun colon rest₅ ordered₅ bound₅ took₅ => ?_
      refine (keeps.expression _).next ordered₅ fun value rest₆ ordered₆ bound₆ spans₆ => ?_
      refine Yields.pass (joins _ _ ⟨ordered₆, by omega, ?_⟩)
      exact (spans₆.withRole _).widen bound₅ (Nat.le_refl _)
    · exact Yields.pass (joins _ _ ⟨ordered₄, Nat.le_refl _, Node.row_nil.2 (Nat.le_refl _)⟩)
  · refine (reads_mark _).next ordered₂ fun closing rest₃ ordered₃ bound₃ ⟨took₃, _⟩ => ?_
    split
    · rename_i index
      refine Yields.pure ⟨ordered₃, ?_⟩
      exact spans_build rfl spans.starts took₃.exact.stops (by grind) (by grind) (by grind)
    · exact Yields.stuck

/-- Types of a list of type arguments stand where their elements do. -/
theorem row_plainTypes {elements types : List Node} {before after : Nat}
    (found : (elements.mapM fun element => match element.children with
      | [type] => some type
      | _ => none) = some types)
    (row : Node.Row sound before elements after) : Node.Row sound before types after := by
  induction elements generalizing before types with
  | nil =>
      cases found
      exact row
  | cons element elements ih =>
      obtain ⟨lower, formed, rest⟩ := Node.row_cons.1 row
      simp only [List.mapM_cons, Option.bind_eq_bind, Option.bind_eq_some_iff] at found
      obtain ⟨type, sole, others, more, same⟩ := found
      cases same
      split at sole
      · rename_i only parts
        cases sole
        have inner := formed.row
        rw [parts] at inner
        obtain ⟨lower', within, upper⟩ := Node.row_singleton.1 inner
        refine Node.row_cons.2 ⟨Nat.le_trans lower lower', within, ?_⟩
        exact (ih more rest).widen upper (Nat.le_refl _)
      · cases sole

theorem extends_genericCall (keeps : g.KeepsOrder sound limit) {arguments : Node} {middle : Nat}
    (ordered : Ordered sound limit tokens) (spans : Spans sound before operand middle)
    (spans' : Spans sound middle arguments (front limit tokens)) :
    Yields tokens (g.genericCall operand arguments) (Extended sound limit before) := by
  unfold genericCall
  refine (reads_argumentList keeps).next ordered fun list rest₁ ordered₁ bound₁ listed₁ => ?_
  have call := spans_callNode spans spans' listed₁
  split
  · rename_i name value named parts
    split
    · exact Yields.pure ⟨ordered₁, call⟩
    · obtain ⟨formed, starts, stops⟩ := asTypeName?_formed named (Node.row_singleton.1 spans).2.1
      obtain ⟨lower, within, upper⟩ := Node.row_singleton.1 listed₁.1
      have operand := within.row
      rw [parts] at operand
      have type : Spans sound before (.build .genericType name.start arguments.stop
          [name.withRole .type, arguments.withRole .typeArguments]) (front limit tokens) :=
        spans_build rfl formed.shaped.starts spans'.stops (by grind) (by grind) (by grind)
      exact Yields.pure ⟨ordered₁, spans_conversionNode type lower operand listed₁.1.stops upper⟩
  · exact Yields.pure ⟨ordered₁, call⟩

/-- Brackets are tried in several ways, each from the tokens that came first. -/
theorem extends_bracketed (keeps : g.KeepsOrder sound limit) (mode : Mode) (ordered : Ordered sound limit tokens)
    (spans : Spans sound before operand (front limit tokens)) :
    Yields tokens (g.bracketed mode operand) (Extended sound limit before) := by
  unfold bracketed
  refine Yields.get ?_
  have indexing := extends_indexing keeps ordered spans
  refine (reads_typeArguments keeps).attempt.next ordered fun found rest₁ ordered₁ bound₁ known₁ => ?_
  cases found with
  | none =>
      exact extends_indexing keeps ordered₁ (spans.widen (Nat.le_refl _) bound₁)
  | some arguments =>
      have spans₁ := known₁ arguments rfl
      refine (looks_nextIs _ _).next fun call => ?_
      split
      · exact extends_genericCall keeps ordered₁ spans spans₁
      refine (looks_nextIs _ _).next fun literal => ?_
      split
      · exact Yields.set indexing
      rename_i name named
      obtain ⟨formed, starts, stops⟩ := asTypeName?_formed named (Node.row_singleton.1 spans).2.1
      split
      · extract_lets type
        have generic : Spans sound before type (front limit rest₁) :=
          spans_build rfl formed.shaped.starts spans₁.stops (by grind) (by grind) (by grind)
        refine keeps.literalValue.next ordered₁ fun body rest₂ ordered₂ bound₂ spans₂ => ?_
        exact Yields.pure ⟨ordered₂, spans_compositeNode generic spans₂⟩
      · refine Yields.get (Yields.set ?_)
        refine Yields.bind (indexing.attempt.mono ?_)
        rintro found rest₂ ⟨known₂, -⟩
        cases found with
        | some found => exact Yields.pure (known₂ found rfl)
        | none =>
            dsimp only
            split
            · rename_i types plain
              have inner := row_plainTypes plain (Node.row_singleton.1 spans₁).2.1.row
              have after : Node.Row sound name.stop types arguments.stop := inner.widen (by grind) (Nat.le_refl _)
              refine Yields.set (Yields.pure ⟨ordered₁, ?_⟩)
              exact spans_build rfl formed.shaped.starts spans₁.stops (by grind) (by grind) (by grind)
            · exact Yields.stuck

theorem looks_atTypeGuard : Looks atTypeGuard := by
  intro tokens found rest result
  unfold atTypeGuard at result
  split at result
  all_goals
    cases result
    rfl

/-- One more piece, or the operand as it is. -/
theorem extends_suffix (keeps : g.KeepsOrder sound limit) (mode : Mode) (ordered : Ordered sound limit tokens)
    (spans : Spans sound before operand (front limit tokens)) :
    Yields tokens (g.suffix? mode operand) fun found rest => Extended sound limit before (found.getD operand) rest := by
  unfold suffix?
  have unchanged : Yields tokens (pure (none : Option Node)) fun found rest =>
      Extended sound limit before (found.getD operand) rest := Yields.pure ⟨ordered, spans⟩
  refine looks_atTypeGuard.next fun guard => ?_
  split
  · exact unchanged
  refine (looks_nextIs _ _).next fun dot => ?_
  split
  · exact Yields.bind ((extends_selection keeps ordered spans).mono fun node rest longer => Yields.pure longer)
  refine (looks_nextIs _ _).next fun bracket => ?_
  split
  · refine (reads_argumentList keeps).next ordered fun list rest₁ ordered₁ bound₁ listed₁ => ?_
    exact Yields.pure ⟨ordered₁, spans_callNode spans (Node.row_nil.2 (Nat.le_refl _)) listed₁⟩
  refine (looks_nextIs _ _).next fun square => ?_
  split
  · exact Yields.bind ((extends_bracketed keeps mode ordered spans).mono fun node rest longer => Yields.pure longer)
  refine (looks_nextIs _ _).next fun braces => ?_
  split
  · split
    · rename_i type named
      obtain ⟨formed, starts, stops⟩ := asTypeName?_formed named (Node.row_singleton.1 spans).2.1
      have name : Spans sound before type (front limit tokens) := by grind
      refine keeps.literalValue.next ordered fun body rest₁ ordered₁ bound₁ spans₁ => ?_
      exact Yields.pure ⟨ordered₁, spans_compositeNode name spans₁⟩
    · exact unchanged
  · exact unchanged

theorem extends_suffixes (keeps : g.KeepsOrder sound limit) (mode : Mode) (rounds : Nat) {tokens : List Token}
    {operand : Node} (ordered : Ordered sound limit tokens) (spans : Spans sound before operand (front limit tokens)) :
    Yields tokens (g.suffixes mode rounds operand) (Extended sound limit before) := by
  induction rounds generalizing tokens operand with
  | zero => exact Yields.pure ⟨ordered, spans⟩
  | succ rounds ih =>
      unfold suffixes
      refine Yields.bind ((extends_suffix keeps mode ordered spans).mono ?_)
      rintro found rest ⟨ordered₁, spans₁⟩
      cases found with
      | some longer => exact ih ordered₁ spans₁
      | none => exact Yields.pure ⟨ordered₁, spans₁⟩

theorem reads_unary (keeps : g.KeepsOrder sound limit) (mode : Mode) :
    Reads sound limit (g.unary mode) (Spans sound) := by
  intro tokens ordered
  unfold unary
  have more : Reads sound limit (do
      if ← nextOnLine false isUnaryOperator then return some (← take)
      else return none) (Finds (Took sound)) := by
    intro tokens ordered
    refine (looks_nextOnLine _ _).next fun operator => ?_
    split
    · exact reads_take.found ordered (Nat.le_refl _)
    · exact yields_nothing ordered (Nat.le_refl _)
  refine (reads_repeating more).next ordered fun operators rest₁ ordered₁ bound₁ known₁ => ?_
  refine (reads_operand keeps _).next ordered₁ fun operand rest₂ ordered₂ bound₂ spans₂ => ?_
  refine Yields.get ?_
  refine Yields.bind ((extends_suffixes keeps mode _ ordered₂ spans₂).mono ?_)
  rintro longer rest₃ ⟨ordered₃, spans₃⟩
  have whole := spans_applyUnary known₁ spans₃
  exact Yields.pure ⟨ordered₃, whole.le, whole⟩

theorem reads_expressionStep (keeps : g.KeepsOrder sound limit) (mode : Mode) :
    Reads sound limit (g.expressionStep mode) (Spans sound) := by
  intro tokens ordered
  unfold expressionStep
  have more : Reads sound limit (do
      if ← nextOnLine mode.lineEnds (fun token => precedence token != 0) then
        let operator ← take
        return some (operator, ← g.unary mode)
      else return none) (Finds (Operation sound)) := by
    intro tokens ordered
    refine (looks_nextOnLine _ _).next fun operator => ?_
    split
    · refine reads_take.next ordered fun operator rest₁ ordered₁ bound₁ took₁ => ?_
      refine (reads_unary keeps _).next ordered₁ fun operand rest₂ ordered₂ bound₂ spans₂ => ?_
      refine Yields.pure ⟨ordered₂, by omega, ?_⟩
      rintro _ ⟨⟩
      exact ⟨_, _, Nat.le_refl _, ⟨_, took₁, spans₂⟩, Nat.le_refl _⟩
    · exact yields_nothing ordered (Nat.le_refl _)
  refine (reads_unary keeps _).next ordered fun first rest₁ ordered₁ bound₁ spans₁ => ?_
  refine (reads_repeating more).next ordered₁ fun rest rest₂ ordered₂ bound₂ known₂ => ?_
  exact Yields.pure ⟨ordered₂, by omega, spans_joinOperators spans₁ known₂⟩

end Grammar
end TraceWeave.Go
