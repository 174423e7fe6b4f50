import TraceWeave.Proofs.Go.Lexical

/-! Identifiers and brackets in expressions, statements and whole files. -/
namespace TraceWeave.Go

namespace Grammar

open Reader
open Node (Lexical lexical_word lexical_between)

section Expressions

variable {all : List Token}

theorem lexical_operatorNode (token : Token) : Lexical all (operatorNode token) := by simp [operatorNode]

theorem lexical_binaryNode {left right : Node} (operator : Token) (known : Lexical all left) (known' : Lexical all right) :
    Lexical all (binaryNode left operator right) := by
  simp [binaryNode, lexical_operatorNode, known, known']

theorem lexical_joinLevel (level : Nat) {first : Node} {rest : List (Token × Node)} (known : Lexical all first)
    (known' : ∀ pair ∈ rest, Lexical all pair.2) :
    Lexical all (joinLevel level first rest).1 ∧ ∀ pair ∈ (joinLevel level first rest).2, Lexical all pair.2 := by
  induction rest generalizing first with
  | nil => exact ⟨known, by simp [joinLevel]⟩
  | cons pair rest ih =>
      obtain ⟨here, others⟩ := List.forall_mem_cons.1 known'
      rw [joinLevel]
      split
      · exact ih (lexical_binaryNode _ known here) others
      · obtain ⟨joined, later⟩ := ih here others
        exact ⟨known, List.forall_mem_cons.2 ⟨joined, later⟩⟩

theorem lexical_joinOperators {first : Node} {rest : List (Token × Node)} (known : Lexical all first)
    (known' : ∀ pair ∈ rest, Lexical all pair.2) : Lexical all (joinOperators first rest) := by
  suffices ∀ (levels : List Nat) (found : Node × List (Token × Node)), Lexical all found.1 →
      (∀ pair ∈ found.2, Lexical all pair.2) →
      Lexical all (levels.foldl (fun found level => joinLevel level found.1 found.2) found).1 from
    this _ _ known known'
  intro levels
  induction levels with
  | nil => exact fun found known _ => known
  | cons level levels ih =>
      intro found known known'
      obtain ⟨joined, later⟩ := lexical_joinLevel level known known'
      exact ih _ joined later

theorem lexical_applyUnary (operators : List Token) {operand : Node} (known : Lexical all operand) :
    Lexical all (applyUnary operators operand) := by
  induction operators with
  | nil => exact known
  | cons operator operators ih =>
      refine (Node.lexical_build (by simp)).2 ?_
      rw [List.forall_mem_cons, List.forall_mem_singleton, Node.lexical_withRole]
      exact ⟨lexical_operatorNode operator, ih⟩

theorem lexical_asTypeName? {node name : Node} (named : asTypeName? node = some name) (known : Lexical all node) :
    Lexical all name := by
  unfold asTypeName? at named
  split at named
  · cases named
    exact known.become (by simp)
  · split at named
    · rename_i operand field children
      have inside := known.children
      rw [children, List.forall_mem_cons, List.forall_mem_singleton] at inside
      split at named
      · cases named
        refine Node.lexical_of_free (by simp) ?_
        rw [List.forall_mem_cons, List.forall_mem_singleton]
        exact ⟨inside.1.become (by simp), inside.2.become (by simp)⟩
      · cases named
    · cases named
  · cases named

theorem lexical_callNode {function arguments : Node} {types : List Node} (known : Lexical all function)
    (known' : ∀ type ∈ types, Lexical all type) (known'' : Lexical all arguments) :
    Lexical all (callNode function types arguments) := by
  refine (Node.lexical_build (by simp)).2 (List.forall_mem_cons.2 ⟨by simpa using known, ?_⟩)
  refine List.forall_mem_append.2 ⟨?_, by simpa using known''⟩
  intro node member
  obtain ⟨type, listed, rfl⟩ := List.mem_map.1 member
  simpa using known' type listed

theorem lexical_plainTypes? {arguments : Node} {types : List Node} (plain : plainTypes? arguments = some types)
    (known : Lexical all arguments) : ∀ type ∈ types, Lexical all type := by
  have inside := known.children
  unfold plainTypes? at plain
  generalize arguments.children = elements at plain inside
  induction elements generalizing types with
  | nil =>
      cases plain
      simp
  | cons element elements ih =>
      obtain ⟨here, others⟩ := List.forall_mem_cons.1 inside
      rw [List.mapM_cons] at plain
      obtain ⟨type, found, plain⟩ := Option.bind_eq_some_iff.1 plain
      obtain ⟨rest, later, same⟩ := Option.bind_eq_some_iff.1 plain
      cases same
      refine List.forall_mem_cons.2 ⟨?_, ih later others⟩
      split at found
      · rename_i only children
        cases found
        have inner := here.children
        rw [children, List.forall_mem_singleton] at inner
        exact inner
      · cases found

variable {g : Grammar} (lexical : g.IsLexical all)
include lexical

theorem within_expressionList (mode : Mode) : Within all (g.expressionList mode) (Lexical all) := by
  refine (within_separated _ _ (lexical.expression _)).bind fun found known => ?_
  cases found with
  | nil => exact within_stuck
  | cons first rest => exact .pure ((Node.lexical_spanning (by simp)).2 (List.forall_mem_cons.1 known))

theorem within_argument : Within all g.argument (Lexical all) := by
  refine (lexical.expression _).bind fun value known => (looks_nextIs _ _).ask fun dotted => ?_
  split
  · exact within_take.bind fun dots _ => .pure (by simpa using known)
  · exact .pure known

theorem within_argumentList : Within all g.argumentList (Lexical all) := by
  refine (within_mark _).bind fun opening _ => (within_commaList _ (within_argument lexical)).bind fun found known => ?_
  exact (within_mark _).bind fun closing _ => .pure (by simpa using known)

theorem within_allocationArguments : Within all g.allocationArguments (Lexical all) := by
  refine (within_mark _).bind fun opening _ => (looks_nextIs _ _).ask fun empty => ?_
  split
  · exact within_take.bind fun closing _ => .pure (by simp)
  refine (lexical.type _).bind fun type known => ?_
  refine Within.bind (within_repeating (?_ : Within all _ fun found => ∀ value, found = some value → Lexical all value))
    fun rest known' => (within_mark _).bind fun closing _ => .pure ?_
  · refine (looks_nextIs _ _).ask fun more => ?_
    split
    · refine within_take.bind fun _ _ => (looks_nextIs _ _).ask fun last => ?_
      split
      · exact within_none
      · exact (lexical.expression _).found
    · exact within_none
  · exact (Node.lexical_build (by simp)).2 (List.forall_mem_cons.2 ⟨known, known'⟩)

theorem within_conversion {type : Node} (known : Lexical all type) : Within all (g.conversion type) (Lexical all) := by
  unfold conversion
  refine (within_mark _).bind fun _ _ => (lexical.expression _).bind fun operand known' => ?_
  refine (looks_nextIs _ _).ask fun comma => ?_
  have ending : Within all (do
      let closing ← mark ")"
      return conversionNode type closing.stop operand) (Lexical all) :=
    (within_mark _).bind fun closing _ => .pure (by simp [conversionNode, known, known'])
  split
  · exact within_take.bind fun _ _ => ending
  · exact ending

theorem within_literalElement : Within all g.literalElement (Lexical all) := by
  refine (looks_nextIs _ _).ask fun braces => ?_
  split
  · exact lexical.literalValue.bind fun value known => .pure (by simpa using known)
  · exact (lexical.expression _).bind fun value known => .pure (by simpa using known)

theorem within_element : Within all g.element (Lexical all) := by
  refine (within_literalElement lexical).bind fun first known => (looks_nextIs _ _).ask fun keyed => ?_
  split
  · refine within_take.bind fun _ _ => (within_literalElement lexical).bind fun second known' => .pure ?_
    simp [known, known']
  · exact .pure known

theorem within_literalValueStep : Within all g.literalValueStep (Lexical all) := by
  refine (within_mark _).bind fun opening _ => (within_commaList _ (within_element lexical)).bind fun found known => ?_
  exact (within_mark _).bind fun closing _ => .pure (by simpa using known)

omit lexical in
theorem lexical_compositeNode {type body : Node} (known : Lexical all type) (known' : Lexical all body) :
    Lexical all (compositeNode type body) := by
  simp [compositeNode, known, known']

theorem within_typeOperand : Within all g.typeOperand (Lexical all) := by
  unfold typeOperand
  refine ((within_openArrayType lexical).either (lexical.type _)).bind fun type known => ?_
  extract_lets literal
  refine (looks_nextIs _ _).ask fun braces => ?_
  split
  · exact lexical.literalValue.bind fun body known' => .pure (lexical_compositeNode known known')
  · exact within_conversion lexical known

theorem within_functionOperand : Within all g.functionOperand (Lexical all) := by
  refine (within_keyword _).bind fun head _ => (within_signature lexical _).bind fun found known => ?_
  refine (looks_nextIs _ _).ask fun braces => ?_
  split
  · refine lexical.block.bind fun body known' => .pure ((Node.lexical_build (by simp)).2 ?_)
    exact List.forall_mem_append.2 ⟨known, by simpa using known'⟩
  · exact within_conversion lexical ((Node.lexical_build (by simp)).2 known)

theorem within_parenthesizedOperand : Within all g.parenthesizedOperand (Lexical all) := by
  refine Within.either ?_ ((within_parenthesizedType lexical).bind fun type known => within_conversion lexical known)
  refine (within_mark _).bind fun opening _ => (lexical.expression _).bind fun inner known => ?_
  exact (within_mark _).bind fun closing _ => .pure (by simpa using known)

omit lexical in
/-- A token that is an expression by itself. -/
theorem lexical_sole {token : Token} {kind : Kind} (sole : soleKind? token = some kind) (member : token ∈ all) :
    Lexical all (token.leaf kind) := by
  by_cases identifier : kind = .identifier
  · subst identifier
    refine lexical_word member ?_
    unfold soleKind? at sole
    split at sole <;> first | assumption | cases sole
  · refine Node.lexical_leaf ⟨identifier, ?_, ?_⟩ token
    all_goals
      rintro rfl
      unfold soleKind? at sole
      split at sole <;> first | cases sole | (split at sole <;> cases sole)

theorem within_operand (mode : Mode) : Within all (g.operand mode) (Lexical all) := by
  unfold operand
  refine within_peek fun token tokens inside head => looks_peekSecond.next fun second => ?_
  split
  · exact within_parenthesizedOperand lexical tokens inside
  split
  · exact within_functionOperand lexical tokens inside
  split
  · exact within_typeOperand lexical tokens inside
  split
  · rename_i allocates
    refine yields_take inside head fun member => (within_allocationArguments lexical).bind fun arguments known => .pure ?_
    refine lexical_callNode (lexical_word member ?_) (by simp) known
    simp only [Token.isWord, Bool.and_eq_true, Bool.or_eq_true, beq_iff_eq] at allocates
    exact allocates.1.1.elim (·.1) (·.1)
  split
  · rename_i kind sole
    exact yields_take inside head fun member => .pure (lexical_sole sole member)
  · exact within_stuck tokens inside

theorem within_selection {operand : Node} (known : Lexical all operand) :
    Within all (g.selection operand) (Lexical all) := by
  refine (within_mark _).bind fun _ _ => (looks_nextIs _ _).ask fun asserts => ?_
  split
  · refine within_take.bind fun _ _ => (lexical.type _).bind fun type known' => ?_
    exact (within_mark _).bind fun closing _ => .pure (by simp [known, known'])
  · exact within_word.bind fun field _ => .pure (by simp [known])

theorem within_optionalExpression (role : Role) :
    Within all (g.optionalExpression role) fun nodes => ∀ node ∈ nodes, Lexical all node := by
  unfold optionalExpression
  refine (looks_nextIs _ _).ask fun colon => ?_
  have expression : Within all (do return [(← g.expression .enclosed).withRole role])
      fun nodes => ∀ node ∈ nodes, Lexical all node :=
    (lexical.expression _).bind fun found known => .pure (by simpa using known)
  refine (looks_nextIs _ _).ask fun bracket => ?_
  split
  · exact .pure (by simp)
  · exact expression

theorem within_indexing {operand : Node} (known : Lexical all operand) :
    Within all (g.indexing operand) (Lexical all) := by
  unfold indexing
  refine (within_mark _).bind fun _ _ => (within_optionalExpression lexical _).bind fun first known₁ => ?_
  refine (looks_nextIs _ _).ask fun slices => ?_
  split
  · refine within_take.bind fun _ _ => (within_optionalExpression lexical _).bind fun second known₂ => ?_
    refine (looks_nextIs _ _).ask fun capped => ?_
    extract_lets jump
    have joins : ∀ third : List Node, (∀ node ∈ third, Lexical all node) → Within all (jump third) (Lexical all) := by
      intro third known₃
      refine (within_mark _).bind fun closing _ => .pure ((Node.lexical_build (by simp)).2 ?_)
      refine List.forall_mem_cons.2 ⟨by simpa using known, ?_⟩
      exact List.forall_mem_append.2 ⟨List.forall_mem_append.2 ⟨known₁, known₂⟩, known₃⟩
    split
    · exact within_take.bind fun _ _ => (lexical.expression _).bind fun found known₃ => .pass (joins _ (by simpa using known₃))
    · exact .pass (joins _ (by simp))
  · refine (within_mark _).bind fun closing _ => ?_
    split
    · rename_i index
      rw [List.forall_mem_singleton] at known₁
      exact .pure (by simp [known, known₁])
    · exact within_stuck

theorem within_genericCall {operand types : Node} (known : Lexical all operand) (known' : Lexical all types) :
    Within all (g.genericCall operand types) (Lexical all) := by
  unfold genericCall
  refine (within_argumentList lexical).bind fun arguments known'' => ?_
  have call : Lexical all (callNode operand [types] arguments) := lexical_callNode known (by simpa using known') known''
  split
  · rename_i name value named children
    split
    · exact .pure call
    · have inside := known''.children
      rw [children, List.forall_mem_singleton] at inside
      refine .pure ?_
      simp [conversionNode, lexical_asTypeName? named known, known', inside]
  · exact .pure call

theorem within_bracketed (mode : Mode) {operand : Node} (known : Lexical all operand) :
    Within all (g.bracketed mode operand) (Lexical all) := by
  intro tokens inside
  unfold bracketed
  refine Yields.get ?_
  have indexing := within_indexing lexical known tokens inside
  refine Yields.bind (((within_typeArguments lexical).attempt tokens inside).mono ?_)
  rintro found rest ⟨inside', known'⟩
  cases found with
  | none => exact within_indexing lexical known rest inside'
  | some arguments =>
      have known' := known' arguments rfl
      refine (looks_nextIs _ _).next fun call => ?_
      split
      · exact within_genericCall lexical known known' rest inside'
      refine (looks_nextIs _ _).next fun literal => ?_
      split
      · exact Yields.set indexing
      rename_i name named
      have known'' := lexical_asTypeName? named known
      split
      · refine (lexical.literalValue.bind fun body known₃ => ?_) rest inside'
        exact .pure (lexical_compositeNode (by simp [known', known'']) known₃)
      · refine Yields.get (Yields.set (Yields.bind (indexing.attempt.mono ?_)))
        rintro found rest₂ ⟨known₂, -⟩
        cases found with
        | some found => exact Yields.pure (known₂ found rfl)
        | none =>
            dsimp only
            split
            · rename_i types plain
              refine Yields.set (Yields.pure ⟨inside', (Node.lexical_build (by simp)).2 ?_⟩)
              exact List.forall_mem_cons.2 ⟨by simpa using known'', lexical_plainTypes? plain known'⟩
            · exact Yields.stuck

theorem within_suffix? (mode : Mode) {operand : Node} (known : Lexical all operand) :
    Within all (g.suffix? mode operand) fun found => ∀ value, found = some value → Lexical all value := by
  unfold suffix?
  refine looks_atTypeGuard.ask fun guarded => ?_
  split
  · exact within_none
  refine (looks_nextIs _ _).ask fun dot => ?_
  split
  · exact (within_selection lexical known).found
  refine (looks_nextIs _ _).ask fun parenthesis => ?_
  split
  · refine (within_argumentList lexical).bind fun arguments known' => .pure ?_
    rintro _ ⟨⟩
    exact lexical_callNode known (by simp) known'
  refine (looks_nextIs _ _).ask fun bracket => ?_
  split
  · exact (within_bracketed lexical mode known).found
  refine (looks_nextIs _ _).ask fun braces => ?_
  split
  · split
    · rename_i type named
      refine lexical.literalValue.bind fun body known' => .pure ?_
      rintro _ ⟨⟩
      exact lexical_compositeNode (lexical_asTypeName? named known) known'
    · exact within_none
  · exact within_none

theorem within_suffixes (mode : Mode) (rounds : Nat) {operand : Node} (known : Lexical all operand) :
    Within all (g.suffixes mode rounds operand) (Lexical all) := by
  induction rounds generalizing operand with
  | zero => exact .pure known
  | succ rounds ih =>
      unfold suffixes
      refine (within_suffix? lexical mode known).bind fun found known' => ?_
      cases found with
      | some longer => exact ih (known' longer rfl)
      | none => exact .pure known

theorem within_unary (mode : Mode) : Within all (g.unary mode) (Lexical all) := by
  unfold unary
  refine Within.bind (within_repeating (?_ : Within all _ fun found => ∀ value, found = some value → value ∈ all))
    fun operators _ => (within_operand lexical mode).bind fun operand known => ?_
  · refine (looks_nextOnLine _ _).ask fun more => ?_
    split
    · exact within_take.found
    · exact within_none
  · intro tokens inside
    refine Yields.get ?_
    refine ((within_suffixes lexical mode _ known).bind fun longer known' => ?_) tokens inside
    exact .pure (lexical_applyUnary operators known')

theorem within_expressionStep (mode : Mode) : Within all (g.expressionStep mode) (Lexical all) := by
  unfold expressionStep
  refine (within_unary lexical mode).bind fun first known => ?_
  refine Within.bind (within_repeating (?_ : Within all _ fun found => ∀ value : Token × Node, found = some value → Lexical all value.2))
    fun rest known' => .pure (lexical_joinOperators known known')
  refine (looks_nextOnLine _ _).ask fun more => ?_
  split
  · refine within_take.bind fun operator _ => (within_unary lexical mode).bind fun operand known' => .pure ?_
    rintro _ ⟨⟩
    exact known'
  · exact within_none

end Expressions

section Statements

variable {all : List Token} {g : Grammar} (lexical : g.IsLexical all)
include lexical

theorem within_simpleRest (mode right : Mode) {left : Node} (known : Lexical all left) :
    Within all (g.simpleRest mode right left) (Lexical all) := by
  unfold simpleRest
  refine looks_peek.ask fun token => ?_
  extract_lets here
  split
  · refine within_take.bind fun _ _ => (within_expressionList lexical right).bind fun values known' => .pure ?_
    simp [known, known']
  split
  · refine within_take.bind fun _ _ => (within_expressionList lexical right).bind fun values known' => .pure ?_
    simp [known, known', lexical_operatorNode]
  split
  · rename_i only children
    have inside := known.children
    rw [children, List.forall_mem_singleton] at inside
    split
    · exact within_take.bind fun _ _ => .pure (by simpa using inside)
    split
    · exact within_take.bind fun _ _ => .pure (by simpa using inside)
    split
    · exact within_take.bind fun _ _ => (lexical.expression right).bind fun value known' => .pure (by simp [inside, known'])
    · exact .pure (by simpa using inside)
  · exact within_stuck

theorem within_simpleStatement (mode right : Mode) : Within all (g.simpleStatement mode right) (Lexical all) :=
  (within_expressionList lexical mode).bind fun _ known => within_simpleRest lexical mode right known

theorem within_statementList (ends : Token → Bool) :
    Within all (g.statementList ends) fun nodes => ∀ node ∈ nodes, Lexical all node := by
  unfold statementList
  refine looks_peek.ask fun token => ?_
  split
  · exact .pure (by simp)
  refine lexical.statement.bind fun first known => ?_
  refine Within.bind (within_repeating (?_ : Within all _ fun found => ∀ value, found = some value → Lexical all value))
    fun rest known' => .pure (List.forall_mem_cons.2 ⟨known, known'⟩)
  refine looks_peek.ask fun token => ?_
  split
  · exact within_none
  refine within_terminator.bind fun _ _ => looks_peek.ask fun token => ?_
  split
  · exact within_none
  · exact lexical.statement.found

theorem within_blockStep : Within all g.blockStep (Lexical all) := by
  refine (within_mark _).bind fun opening opens => (within_statementList lexical _).bind fun statements known => ?_
  exact (within_mark _).bind fun closing closes => .pure (lexical_between rfl opens closes known)

omit lexical in
theorem within_soleExpression {statement : Node} (known : Lexical all statement) :
    Within all (soleExpression statement) (Lexical all) := by
  unfold soleExpression
  split
  · rename_i expression _ children
    have inside := known.children
    rw [children, List.forall_mem_singleton] at inside
    exact .pure inside
  · exact within_stuck

theorem within_ifStatement : Within all g.ifStatement (Lexical all) := by
  unfold ifStatement
  refine (within_keyword _).bind fun head _ => (within_simpleStatement lexical _ _).bind fun first known => ?_
  refine (looks_nextIs _ _).ask fun initialized => ?_
  extract_lets jump
  have joins : ∀ found : List Node × Node, (∀ node ∈ found.1, Lexical all node) ∧ Lexical all found.2 →
      Within all (jump found) (Lexical all) := by
    rintro ⟨initializer, condition⟩ ⟨known₁, known₂⟩
    refine lexical.block.bind fun consequence known₃ => (looks_nextOnLine _ _).ask fun otherwise => ?_
    extract_lets jump' jump''
    have joins' : ∀ alternative : List Node, (∀ node ∈ alternative, Lexical all node) →
        Within all (jump' alternative) (Lexical all) := by
      intro alternative known₄
      refine .pure ((Node.lexical_build (by simp)).2 ?_)
      refine List.forall_mem_append.2 ⟨List.forall_mem_append.2 ⟨known₁, ?_⟩, known₄⟩
      simp [known₂, known₃]
    clear_value jump'
    have joins'' : ∀ other : Node, Lexical all other → Within all (jump'' other) (Lexical all) :=
      fun other known₄ => .pass (joins' _ (by simpa using known₄))
    split
    · refine within_take.bind fun _ _ => looks_peek.ask fun token => ?_
      split
      · exact lexical.statement.bind joins''
      · exact lexical.block.bind joins''
    · exact .pass (joins' _ (by simp))
  clear_value jump
  split
  · refine within_take.bind fun _ _ => (lexical.expression _).bind fun condition known' => .pass (joins _ ?_)
    exact ⟨by simpa using known, known'⟩
  · exact (within_soleExpression known).bind fun condition known' => .pass (joins _ ⟨by simp, known'⟩)

theorem within_rangeClause (start : Nat) {left : List Node} (known : ∀ node ∈ left, Lexical all node) :
    Within all (g.rangeClause start left) (Lexical all) := by
  refine (within_keyword _).bind fun _ _ => (lexical.expression _).bind fun right known' => .pure ?_
  exact (Node.lexical_build (by simp)).2 (List.forall_mem_append.2 ⟨known, by simpa using known'⟩)

theorem within_forClause (start : Nat) {initializer : List Node} (known : ∀ node ∈ initializer, Lexical all node) :
    Within all (g.forClause start initializer) (Lexical all) := by
  unfold forClause
  refine (within_mark _).bind fun _ _ => (looks_nextIs _ _).ask fun open_ => ?_
  extract_lets jump
  have joins : ∀ condition : List Node, (∀ node ∈ condition, Lexical all node) → Within all (jump condition) (Lexical all) := by
    intro condition known₁
    refine (within_mark _).bind fun second _ => (looks_nextIs _ _).ask fun last => ?_
    extract_lets jump'
    have joins' : ∀ update : List Node, (∀ node ∈ update, Lexical all node) → Within all (jump' update) (Lexical all) := by
      intro update known₂
      refine .pure ((Node.lexical_build (by simp)).2 ?_)
      exact List.forall_mem_append.2 ⟨List.forall_mem_append.2 ⟨known, known₁⟩, known₂⟩
    split
    · exact .pass (joins' _ (by simp))
    · exact (within_simpleStatement lexical _ _).bind fun update known₂ => .pass (joins' _ (by simpa using known₂))
  split
  · exact .pass (joins _ (by simp))
  · exact (lexical.expression _).bind fun condition known₁ => .pass (joins _ (by simpa using known₁))

theorem within_forHead : Within all g.forHead fun nodes => ∀ node ∈ nodes, Lexical all node := by
  have single : ∀ {reader : Reader Node}, Within all reader (Lexical all) →
      Within all (do return [← reader]) fun nodes => ∀ node ∈ nodes, Lexical all node :=
    fun within => within.bind fun node known => .pure (by simpa using known)
  unfold forHead
  refine looks_peek.ask fun token => ?_
  split
  · exact .pure (by simp)
  split
  · exact single (within_forClause lexical _ (by simp))
  split
  · exact single (within_rangeClause lexical _ (by simp))
  refine (within_expressionList lexical _).bind fun left known => looks_peek.ask fun assign => ?_
  refine looks_peekSecond.ask fun second => ?_
  split
  · exact within_take.bind fun _ _ => single (within_rangeClause lexical _ (by simpa using known))
  · refine (within_simpleRest lexical _ _ known).bind fun first known' => (looks_nextIs _ _).ask fun three => ?_
    split
    · exact single (within_forClause lexical _ (by simpa using known'))
    · exact single (within_soleExpression known')

theorem within_forStatement : Within all g.forStatement (Lexical all) := by
  refine (within_keyword _).bind fun head _ => (within_forHead lexical).bind fun clause known => ?_
  refine lexical.block.bind fun body known' => .pure ((Node.lexical_build (by simp)).2 ?_)
  exact List.forall_mem_append.2 ⟨known, by simpa using known'⟩

theorem within_clauseRest {kind : Kind} (free : kind.IsFree) (start : Nat) {head : List Node}
    (known : ∀ node ∈ head, Lexical all node) : Within all (g.clauseRest kind start head) (Lexical all) := by
  refine (within_mark _).bind fun colon _ => (within_statementList lexical _).bind fun statements known' => .pure ?_
  exact (Node.lexical_build free).2 (List.forall_mem_append.2 ⟨known, known'⟩)

theorem within_clause {kind : Kind} (free : kind.IsFree) {head : Reader (List Node)}
    (within : Within all head fun nodes => ∀ node ∈ nodes, Lexical all node) :
    Within all (g.clause kind head) fun found => ∀ value, found = some value → Lexical all value := by
  unfold clause
  refine looks_peek.ask fun token => ?_
  split
  · exact within_take.bind fun _ _ => within.bind fun children known => (within_clauseRest lexical free _ known).found
  split
  · exact within_take.bind fun _ _ => (within_clauseRest lexical (by simp) _ (by simp)).found
  · exact within_none

theorem within_clauses {kind : Kind} (free : kind.IsFree) {head : Reader (List Node)}
    (within : Within all head fun nodes => ∀ node ∈ nodes, Lexical all node) :
    Within all (g.clauses kind head) fun found => ∀ node ∈ found.1, Lexical all node := by
  refine (within_mark _).bind fun _ _ => (within_repeating (within_clause lexical free within)).bind fun found known => ?_
  exact (within_mark _).bind fun closing _ => .pure known

theorem within_expressionSwitch (start : Nat) {head : List Node} (known : ∀ node ∈ head, Lexical all node) :
    Within all (g.expressionSwitch start head) (Lexical all) := by
  refine (within_clauses lexical (by simp) ?_).bind fun found known' => .pure ?_
  · exact (within_expressionList lexical _).bind fun values known => .pure (by simpa using known)
  · exact (Node.lexical_build (by simp)).2 (List.forall_mem_append.2 ⟨known, known'⟩)

theorem within_typeSwitch (start : Nat) {initializer : List Node} (known : ∀ node ∈ initializer, Lexical all node)
    {subject : Node} (known' : Lexical all subject) : Within all (g.typeSwitch start initializer subject) (Lexical all) := by
  unfold typeSwitch
  refine within_take.bind fun _ _ => within_take.bind fun _ _ => within_take.bind fun _ _ => within_take.bind fun _ _ => ?_
  extract_lets jump
  have joins : ∀ head : List Node, (∀ node ∈ head, Lexical all node) → Within all (jump head) (Lexical all) := by
    intro head known₁
    refine (within_clauses lexical (by simp) ?_).bind fun found known₂ => .pure ?_
    · refine (within_separated _ _ (lexical.type _)).bind fun types known₂ => .pure ?_
      intro node member
      obtain ⟨type, listed, rfl⟩ := List.mem_map.1 member
      simpa using known₂ type listed
    · exact (Node.lexical_build (by simp)).2
        (List.forall_mem_append.2 ⟨List.forall_mem_append.2 ⟨known, known₁⟩, known₂⟩)
  have inside := known'.children
  split
  · rename_i value _ children
    rw [children, List.forall_mem_singleton] at inside
    exact .pass (joins _ (by simpa using inside))
  · rename_i names values _ children
    rw [children, List.forall_mem_cons, List.forall_mem_singleton] at inside
    have inner := inside.2.children
    split
    · rename_i value children'
      rw [children', List.forall_mem_singleton] at inner
      exact .pass (joins _ (by simp [inside.1, inner]))
    · exact within_stuck.bind fun _ (contrary : False) => contrary.elim
  · exact within_stuck.bind fun _ (contrary : False) => contrary.elim

theorem within_switchStatement : Within all g.switchStatement (Lexical all) := by
  unfold switchStatement
  refine (within_keyword _).bind fun head _ => ?_
  extract_lets mode
  refine (looks_nextIs _ _).ask fun bare => ?_
  split
  · exact within_expressionSwitch lexical _ (by simp)
  refine (within_simpleStatement lexical _ _).bind fun first known => looks_atTypeGuard.ask fun guarded => ?_
  split
  · exact within_typeSwitch lexical _ (by simp) known
  refine (looks_nextIs _ _).ask fun initialized => ?_
  split
  · refine within_take.bind fun _ _ => ?_
    extract_lets initializer
    have known₁ : ∀ node ∈ initializer, Lexical all node := by simpa [initializer] using known
    refine (looks_nextIs _ _).ask fun bare => ?_
    split
    · exact within_expressionSwitch lexical _ known₁
    refine (within_simpleStatement lexical _ _).bind fun second known₂ => looks_atTypeGuard.ask fun guarded => ?_
    split
    · exact within_typeSwitch lexical _ known₁ known₂
    · refine (within_soleExpression known₂).bind fun value known₃ => within_expressionSwitch lexical _ ?_
      exact List.forall_mem_append.2 ⟨known₁, by simpa using known₃⟩
  · exact (within_soleExpression known).bind fun value known' => within_expressionSwitch lexical _ (by simpa using known')

theorem within_communication : Within all g.communication fun nodes => ∀ node ∈ nodes, Lexical all node := by
  unfold communication
  refine (within_expressionList lexical _).bind fun left known => looks_peek.ask fun token => ?_
  split
  · exact within_take.bind fun _ _ => (lexical.expression _).bind fun right known' => .pure (by simp [known, known'])
  split
  · rename_i only children
    have inside := known.children
    rw [children, List.forall_mem_singleton] at inside
    split
    · exact within_take.bind fun _ _ => (lexical.expression _).bind fun value known' => .pure (by simp [inside, known'])
    · exact .pure (by simpa using inside)
  · exact within_stuck

theorem within_selectStatement : Within all g.selectStatement (Lexical all) := by
  refine (within_keyword _).bind fun head _ => ?_
  refine (within_clauses lexical (by simp) (within_communication lexical)).bind fun found known => .pure ?_
  exact (Node.lexical_build (by simp)).2 known

theorem within_initialValues : Within all g.initialValues fun nodes => ∀ node ∈ nodes, Lexical all node := by
  unfold initialValues
  refine (looks_nextIs _ _).ask fun given => ?_
  split
  · exact within_take.bind fun _ _ => (within_expressionList lexical _).bind fun values known => .pure (by simpa using known)
  · exact .pure (by simp)

theorem within_varSpec : Within all g.varSpec (Lexical all) := by
  unfold varSpec
  refine (within_separated _ _ within_word).bind fun names known => ?_
  extract_lets named jump
  have known₁ : ∀ node ∈ named, Lexical all node := lexical_names known .name
  refine (looks_nextIs _ _).ask fun given => ?_
  have joins : ∀ children : List Node, (∀ node ∈ children, Lexical all node) → Within all (jump children) (Lexical all) := by
    intro children known₂
    have whole : ∀ node ∈ named ++ children, Lexical all node := List.forall_mem_append.2 ⟨known₁, known₂⟩
    simp only [jump]
    split
    · rename_i first rest same
      rw [same, List.forall_mem_cons] at whole
      exact .pure ((Node.lexical_spanning (by simp)).2 whole)
    · exact within_stuck
  split
  · exact (within_initialValues lexical).bind joins
  · refine (lexical.type _).bind fun type known₂ => (within_initialValues lexical).bind fun values known₃ => .pass ?_
    exact joins _ (List.forall_mem_cons.2 ⟨by simpa using known₂, known₃⟩)

omit lexical in
theorem within_constNames : Within all constNames fun nodes => ∀ node ∈ nodes, Lexical all node := by
  unfold constNames
  have named : ∀ {name : Token}, name ∈ all ∧ name.kind = .word → Lexical all ((name.leaf .identifier).withRole .name) :=
    fun known => (Node.lexical_withRole _).2 (lexical_word known.1 known.2)
  refine within_word.bind fun first known => ?_
  refine Within.bind (within_repeating (?_ : Within all _ fun found => ∀ value : List Node, found = some value →
    ∀ node ∈ value, Lexical all node)) fun rest known' => .pure ?_
  · refine (looks_nextIs _ _).ask fun more => ?_
    split
    · refine within_take.bind fun comma _ => within_word.bind fun name known' => .pure ?_
      rintro _ ⟨⟩
      rw [List.forall_mem_cons, List.forall_mem_singleton]
      exact ⟨by simp, named known'⟩
    · exact within_none
  · refine List.forall_mem_cons.2 ⟨named known, fun node member => ?_⟩
    obtain ⟨nodes, listed, member⟩ := List.mem_flatten.1 member
    exact known' nodes listed node member

theorem within_constSpec : Within all g.constSpec (Lexical all) := by
  unfold constSpec
  refine within_constNames.bind fun names known => (looks_nextIs _ _).ask fun given => ?_
  refine (looks_nextOnLine _ _).ask fun typed => ?_
  extract_lets jump
  have joins : ∀ children : List Node, (∀ node ∈ children, Lexical all node) → Within all (jump children) (Lexical all) := by
    intro children known'
    have whole : ∀ node ∈ names ++ children, Lexical all node := List.forall_mem_append.2 ⟨known, known'⟩
    simp only [jump]
    split
    · rename_i first rest same
      rw [same, List.forall_mem_cons] at whole
      exact .pure ((Node.lexical_spanning (by simp)).2 whole)
    · exact within_stuck
  split
  · exact (within_initialValues lexical).bind joins
  split
  · refine (lexical.type _).bind fun type known₁ => (within_initialValues lexical).bind fun values known₂ => ?_
    split
    · exact within_stuck.bind fun _ (contrary : False) => contrary.elim
    · exact .pass (joins _ (List.forall_mem_cons.2 ⟨by simpa using known₁, known₂⟩))
  · exact .pass (joins _ (by simp))

theorem within_typeSpecRest (name : Token) {parameters : List Node} (known : ∀ node ∈ parameters, Lexical all node) :
    Within all (g.typeSpecRest name parameters) (Lexical all) := by
  unfold typeSpecRest
  extract_lets head jump
  refine (looks_nextIs _ _).ask fun equals => ?_
  have joins : ∀ kind : Kind, kind.IsFree → Within all (jump kind) (Lexical all) := by
    intro kind free
    refine (lexical.type _).bind fun type known' => .pure ((Node.lexical_build free).2 ?_)
    exact List.forall_mem_append.2 ⟨List.forall_mem_cons.2 ⟨by simp, known⟩, by simpa using known'⟩
  split
  · exact within_take.bind fun _ _ => .pass (joins _ (by simp))
  · exact .pass (joins _ (by simp))

theorem within_typeSpec : Within all g.typeSpec (Lexical all) := by
  unfold typeSpec
  refine within_word.bind fun name _ => (looks_nextIs _ _).ask fun bracket => ?_
  have plain := within_typeSpecRest lexical name (List.forall_mem_nil _)
  split
  · refine Within.either ?_ plain
    exact (within_typeParameters lexical).bind fun parameters known => within_typeSpecRest lexical name (by simpa using known)
  · exact plain

omit lexical in
theorem within_specifications {spec : Reader Node} (within : Within all spec (Lexical all)) :
    Within all (specifications spec) fun found => ∀ node ∈ found.1, Lexical all node := by
  unfold specifications
  refine (looks_nextIs _ _).ask fun grouped => ?_
  split
  · refine within_take.bind fun opening _ => (within_closedLineList _ within).bind fun found known => ?_
    exact (within_mark _).bind fun closing _ => .pure known
  · exact within.bind fun node known => .pure (by simpa using known)

omit lexical in
theorem lexical_declarationNode {kind : Kind} (free : kind.IsFree) (head : Token) {found : List Node × Option (Nat × Nat)}
    (known : ∀ node ∈ found.1, Lexical all node) : Lexical all (declarationNode kind head found) := by
  unfold declarationNode
  split
  · exact (Node.lexical_build free).2 known
  · exact (Node.lexical_build free).2 known

theorem within_constDeclaration : Within all g.constDeclaration (Lexical all) :=
  (within_keyword _).bind fun head _ => (within_specifications (within_constSpec lexical)).bind fun _ known =>
    .pure (lexical_declarationNode (by simp) head known)

theorem within_typeDeclaration : Within all g.typeDeclaration (Lexical all) :=
  (within_keyword _).bind fun head _ => (within_specifications (within_typeSpec lexical)).bind fun _ known =>
    .pure (lexical_declarationNode (by simp) head known)

theorem within_varDeclaration : Within all g.varDeclaration (Lexical all) := by
  refine (within_keyword _).bind fun head _ => (within_specifications (within_varSpec lexical)).bind fun found known => ?_
  split
  · exact .pure (by simpa using known)
  · exact .pure (lexical_declarationNode (by simp) head known)

omit lexical in
theorem within_jump {kind : Kind} (free : kind.IsFree) (labelNeeded : Bool) :
    Within all (jump kind labelNeeded) (Lexical all) := by
  unfold jump
  refine within_take.bind fun head _ => (looks_nextOnLine _ _).ask fun labeled => ?_
  split
  · exact within_take.bind fun label _ => .pure ((Node.lexical_build free).2 (by simp))
  split
  · exact within_stuck
  · exact .pure (Node.lexical_leaf free head)

theorem within_returnStatement : Within all g.returnStatement (Lexical all) := by
  unfold returnStatement
  refine (within_keyword _).bind fun head _ => looks_peek.ask fun token => looks_atTerminator.ask fun ends => ?_
  split
  · exact .pure (by simp)
  · exact (within_expressionList lexical _).bind fun values known => .pure (by simpa using known)

theorem within_launch {kind : Kind} (free : kind.IsFree) : Within all (g.launch kind) (Lexical all) :=
  within_take.bind fun _ _ => (lexical.expression _).bind fun _ known =>
    .pure ((Node.lexical_build free).2 (by simpa using known))

theorem within_labeledStatement : Within all g.labeledStatement (Lexical all) := by
  unfold labeledStatement
  refine within_word.bind fun label _ => (within_mark _).bind fun colon _ => ?_
  extract_lets name
  have known : Lexical all name := by simp [name]
  refine looks_peek.ask fun token => ?_
  split
  · exact .pure (by simpa using known)
  · exact lexical.statement.bind fun statement known' => .pure (by simp [known, known'])

theorem within_statementStep : Within all g.statementStep (Lexical all) := by
  unfold statementStep
  refine looks_peek.ask fun token => looks_peekSecond.ask fun second => ?_
  split
  · exact lexical.block
  split
  · exact within_take.bind fun _ _ => .pure (by simp)
  split
  · exact within_simpleStatement lexical _ _
  split
  · exact within_constDeclaration lexical
  · exact within_typeDeclaration lexical
  · exact within_varDeclaration lexical
  · exact within_returnStatement lexical
  · exact within_launch lexical (by simp)
  · exact within_launch lexical (by simp)
  · exact within_ifStatement lexical
  · exact within_forStatement lexical
  · exact within_switchStatement lexical
  · exact within_selectStatement lexical
  · exact within_take.bind fun _ _ => .pure (by simp)
  · exact within_jump (by simp) _
  · exact within_jump (by simp) _
  · exact within_jump (by simp) _
  · split
    · exact within_labeledStatement lexical
    · exact within_simpleStatement lexical _ _

end Statements

section Files

variable {all : List Token}

theorem within_importPath : Within all importPath (Lexical all) := by
  unfold importPath
  refine looks_peek.ask fun token => ?_
  split
  · rename_i kind string
    refine within_take.bind fun _ _ => .pure ?_
    have free : kind.IsFree := by
      unfold stringKind? at string
      split at string <;> cases string <;> simp
    simp [Node.lexical_leaf free]
  · exact within_stuck

theorem within_importSpec : Within all importSpec (Lexical all) := by
  unfold importSpec
  refine looks_peek.ask fun token => ?_
  extract_lets jump
  have joins : ∀ name : List Node, (∀ node ∈ name, Lexical all node) → Within all (jump name) (Lexical all) := by
    intro name known
    refine within_importPath.bind fun path known' => .pure ((Node.lexical_build (by simp)).2 ?_)
    exact List.forall_mem_append.2 ⟨known, by simpa using known'⟩
  split
  · exact within_take.bind fun _ _ => .pass (joins _ (by simp))
  split
  · refine within_take.bind fun _ _ => .pass (joins _ ?_)
    split
    · simp
    · simp
  · exact .pass (joins _ (by simp))

theorem within_importDeclaration : Within all importDeclaration (Lexical all) := by
  unfold importDeclaration
  refine (within_keyword _).bind fun head _ tokens inside => Yields.nextIs fun grouped bracket => ?_
  split
  · rename_i yes
    refine yields_take inside rfl fun member => ?_
    refine (within_lineList _ within_importSpec).bind fun specs known => (within_mark _).bind fun closing closes => ?_
    refine .pure ((Node.lexical_build (by simp)).2 (List.forall_mem_singleton.2 ?_))
    exact lexical_between rfl ⟨member, bracket yes⟩ closes known
  · exact (within_importSpec.bind fun spec known => .pure (by simpa using known)) tokens inside

theorem within_packageClause : Within all packageClause (Lexical all) :=
  (within_keyword _).bind fun _ _ => within_word.bind fun _ _ => .pure (by simp)

variable {g : Grammar} (lexical : g.IsLexical all)
include lexical

theorem within_functionBody : Within all g.functionBody fun nodes => ∀ node ∈ nodes, Lexical all node := by
  unfold functionBody
  refine (looks_nextIs _ _).ask fun braces => ?_
  split
  · exact lexical.block.bind fun body known => .pure (by simpa using known)
  · exact .pure (by simp)

theorem within_functionDeclaration : Within all g.functionDeclaration (Lexical all) := by
  unfold functionDeclaration
  refine (within_keyword _).bind fun head _ => within_word.bind fun name known => (looks_nextIs _ _).ask fun bracket => ?_
  extract_lets jump
  have joins : ∀ generic : List Node, (∀ node ∈ generic, Lexical all node) → Within all (jump generic) (Lexical all) := by
    intro generic known₁
    refine (within_signature lexical _).bind fun found known₂ => (within_functionBody lexical).bind fun body known₃ => ?_
    refine .pure ((Node.lexical_build (by simp)).2 (List.forall_mem_cons.2 ⟨?_, ?_⟩))
    · exact (Node.lexical_withRole _).2 (lexical_word known.1 known.2)
    · exact List.forall_mem_append.2 ⟨List.forall_mem_append.2 ⟨known₁, known₂⟩, known₃⟩
  split
  · exact (within_typeParameters lexical).bind fun list known₁ => .pass (joins _ (by simpa using known₁))
  · exact .pass (joins _ (by simp))

theorem within_methodDeclaration : Within all g.methodDeclaration (Lexical all) := by
  refine (within_keyword _).bind fun head _ => (within_parameters lexical).bind fun receiver known => ?_
  refine within_word.bind fun name _ => (within_signature lexical _).bind fun found known₁ => ?_
  refine (within_functionBody lexical).bind fun body known₂ => .pure ((Node.lexical_build (by simp)).2 ?_)
  refine List.forall_mem_cons.2 ⟨by simpa using known, List.forall_mem_cons.2 ⟨by simp, ?_⟩⟩
  exact List.forall_mem_append.2 ⟨known₁, known₂⟩

theorem within_fileItem : Within all g.fileItem (Lexical all) := by
  unfold fileItem
  refine looks_peek.ask fun token => looks_peekSecond.ask fun second => ?_
  split
  · exact within_packageClause
  split
  · exact within_importDeclaration
  split
  · split
    · exact (within_methodDeclaration lexical).either lexical.statement
    · exact within_functionDeclaration lexical
  · exact lexical.statement

theorem lexical_fileItems (rounds : Nat) {tokens : List Token} {items : List Node} (inside : tokens ⊆ all)
    (found : g.fileItems rounds tokens = .ok items) : ∀ item ∈ items, Lexical all item := by
  induction rounds generalizing tokens items with
  | zero =>
      cases found
      simp
  | succ rounds ih =>
      unfold fileItems at found
      split at found
      · cases found
        simp
      split at found
      · rename_i item rest outcome
        have read : Within all (do
            let item ← g.fileItem
            terminator
            return item) (Lexical all) :=
          (within_fileItem lexical).bind fun item known => within_terminator.bind fun _ _ => .pure known
        obtain ⟨inside', known⟩ := read tokens inside item rest outcome
        cases others : g.fileItems rounds rest with
        | error trouble => rw [others] at found; cases found
        | ok later =>
            rw [others] at found
            cases found
            exact List.forall_mem_cons.2 ⟨known, ih inside' others⟩
      · cases found

omit lexical in
theorem nested_isLexical (all : List Token) (depth : Nat) : (nested depth).IsLexical all := by
  induction depth with
  | zero => exact ⟨fun _ => within_stuck, fun _ => within_stuck, within_stuck, within_stuck, within_stuck⟩
  | succ depth ih =>
      exact ⟨within_typeStep ih, within_expressionStep ih, within_literalValueStep ih, within_blockStep ih,
        within_statementStep ih⟩

end Files

end Grammar

namespace Node

/-- Comments come into a tree as leaves of their own. -/
theorem Lexical.withComments {all : List Token} {node : Node} {comments : List Node} (lexical : Lexical all node)
    (only : ∀ comment ∈ comments, comment.kind = .comment ∧ comment.children = []) :
    Lexical all (node.withComments comments) := by
  induction lexical generalizing comments with
  | @intro node word brackets children ih =>
      refine .intro (fun identifier => ?_) (fun opening closing kind => ?_) (fun child member => ?_)
      · rw [kind_withComments] at identifier
        obtain ⟨empty, token, listed, is, starts, stops⟩ := word identifier
        refine ⟨List.eq_nil_iff_forall_not_mem.2 fun child member => ?_, token, listed, is, by simpa using starts,
          by simpa using stops⟩
        obtain ⟨present, named⟩ := List.mem_filter.1 member
        rw [children_withComments, mem_merge] at present
        rcases present with inner | own
        · obtain ⟨original, place, rfl⟩ := List.mem_map.1 inner
          have part : original ∈ node.parts := List.mem_filter.2 ⟨place, by simpa using named⟩
          rw [empty] at part
          cases part
        · simp [(only child (List.mem_filter.1 own).1).1] at named
      · rw [kind_withComments] at kind
        simpa using brackets opening closing kind
      · rw [children_withComments, mem_merge] at member
        rcases member with inner | own
        · obtain ⟨original, place, rfl⟩ := List.mem_map.1 inner
          exact ih original place fun comment listed => only comment (List.mem_filter.1 listed).1
        · obtain ⟨kind, leaf⟩ := only child (List.mem_filter.1 own).1
          refine .intro (fun contrary => ?_) (fun opening closing contrary => ?_) (fun inner contrary => ?_)
          · rw [kind] at contrary
            cases contrary
          · rw [kind] at contrary
            cases contrary
          · rw [leaf] at contrary
            cases contrary

end Node

/-- In the tree of a text, identifiers are words and brackets are marks of the text. -/
theorem Tree.parse_lexical (source : String) :
    Node.Lexical ((Token.list source).filter Token.isProgram) (parse source).root := by
  unfold parse
  dsimp only
  rw [List.partition_eq_filter_filter]
  dsimp only
  split
  · rename_i items found
    have known := Grammar.lexical_fileItems (Grammar.nested_isLexical _ _) _ (List.Subset.refl _) found
    have lexical : Node.Lexical ((Token.list source).filter Token.isProgram)
        ⟨.sourceFile, none, 0, Text.size source, items⟩ := Node.lexical_of_free (by simp) known
    dsimp only
    split
    · exact lexical
    · refine lexical.withComments fun comment member => ?_
      obtain ⟨token, _, rfl⟩ := List.mem_map.1 member
      exact ⟨rfl, rfl⟩
  · exact Node.lexical_of_free (by simp) (by simp)

end TraceWeave.Go
