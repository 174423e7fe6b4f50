import TraceWeave.Proofs.Go.LayoutPhrases

/-! Lists among the tokens of statements and declarations. Statements stand in braces, where commas have a place. -/
namespace TraceWeave.Go
namespace Grammar

open Reader
open Node (Laid Phrase NoList phrase_build)
open Token (Keeps keeps_nil keeps_brackets plain_of_word plain_of_isMark)

/-- Nodes that are all laid out. -/
@[simp] abbrev LaidAll (all : List Token) (nodes : List Node) : Prop := ∀ node ∈ nodes, Laid all node

variable {all : List Token}

/-- A mark by itself that is no bracket. -/
theorem keeps_mark {token : Token} {text : String} (mark : token.isMark text = true)
    (plain : text ∉ Symbol.openingMarks ++ Symbol.closingMarks ++ [","]) : Keeps 1 [token] :=
  (plain_of_isMark mark plain).keeps (keeps_nil _)

theorem keeps_word {token : Token} (word : token.kind = .word) : Keeps 1 [token] :=
  (plain_of_word word).keeps (keeps_nil _)

theorem kind_of_isWord {token : Token} {text : String} (word : token.isWord text = true) : token.kind = .word := by
  rw [Token.isWord, Bool.and_eq_true, beq_iff_eq] at word
  exact word.1

theorem laid_named (names : List Token) {kind : Kind} (free : NoList kind) (role : Role) :
    LaidAll all (names.map fun name => (name.leaf kind).withRole role) := by
  intro node member
  obtain ⟨name, _, rfl⟩ := List.mem_map.1 member
  exact (Node.laid_withRole role).2 (Node.laid_leaf free name)

theorem stays_soleExpression {statement : Node} (known : Laid all statement) :
    Takes all (soleExpression statement) (Stay (Laid all)) := by
  unfold soleExpression
  split
  · rename_i expression _ children
    have inside := known.children
    rw [children, List.forall_mem_singleton] at inside
    exact stays_pure inside
  · exact takes_stuck

variable {g : Grammar} (lays : g.LaysOut all)
include lays

theorem stays_simpleRest (mode right : Mode) {left : Node} (known : Laid all left) :
    Takes all (g.simpleRest mode right left) (Stay (Laid all)) := by
  unfold simpleRest
  refine takes_peek fun token => ?_
  extract_lets here
  split
  · rename_i is
    refine sees_pass (keeps_mark (Bool.and_eq_true _ _ ▸ is).2 (by decide)) ?_
    exact (stays_expressionList lays right).next fun values known' => stays_pure (by simp [known, known'])
  split
  · rename_i is
    obtain ⟨text, listed, mark⟩ := List.any_eq_true.1 (Bool.and_eq_true _ _ ▸ is).2
    have apart : ∀ text ∈ ["=", "+=", "-=", "*=", "/=", "%=", "&=", "|=", "^=", "<<=", ">>=", "&^="],
        text ∉ Symbol.openingMarks ++ Symbol.closingMarks ++ [","] := by decide
    refine sees_pass (keeps_mark mark (apart text listed)) ?_
    refine (stays_expressionList lays right).next fun values known' => stays_pure ?_
    simp [known, known', laid_operatorNode]
  split
  · rename_i only children
    have inside := known.children
    rw [children, List.forall_mem_singleton] at inside
    split
    · rename_i is
      exact sees_pass (keeps_mark (Bool.and_eq_true _ _ ▸ is).2 (by decide)) (stays_pure (by simpa using inside))
    split
    · rename_i is
      exact sees_pass (keeps_mark (Bool.and_eq_true _ _ ▸ is).2 (by decide)) (stays_pure (by simpa using inside))
    split
    · rename_i is
      refine sees_pass (keeps_mark (Bool.and_eq_true _ _ ▸ is).2 (by decide)) ?_
      exact (lays.expression right).stays.next fun value known' => stays_pure (by simp [inside, known'])
    · exact stays_pure (by simpa using inside)
  · exact takes_stuck

theorem stays_simpleStatement (mode right : Mode) : Takes all (g.simpleStatement mode right) (Stay (Laid all)) :=
  (stays_expressionList lays mode).next fun _ known => stays_simpleRest lays mode right known

theorem takes_statementList (ends : Token → Bool) : Takes all (g.statementList ends) fun used statements =>
    ∃ runs, Token.Ruled runs used ∧ List.Forall₂ (Node.Line all) runs statements := by
  refine looks_peek.asks fun token => ?_
  split
  · exact .pure ⟨[], .none, .nil⟩
  refine lays.statement.bind fun run first taken => ?_
  have step := takes_advance looks_peek ends lays.statement fun _ _ line => ⟨line.keeps, line.ne_nil⟩
  refine (takes_repeating step).last fun used others later => ?_
  obtain ⟨runs, ruled, each⟩ := later.ruled taken
  exact ⟨_, ruled, each⟩

theorem stays_statementList (ends : Token → Bool) : Takes all (g.statementList ends) (Stay (LaidAll all)) := by
  refine (takes_statementList lays ends).mono ?_
  rintro used statements ⟨runs, ruled, each⟩
  obtain ⟨keeps, rest⟩ := (List.forall₂_and_left runs statements).1 (each.imp fun _ _ line => ⟨line.keeps, line.laid⟩)
  exact ⟨ruled.keeps keeps, forall_of_forall₂ rest fun _ _ holds => holds⟩

theorem takes_blockStep : Takes all g.blockStep (Phrase all) := by
  have lines : Takes all g.blockStep fun used block => ∃ opening inner closing runs statements,
      used = opening :: (inner ++ [closing]) ∧ opening.isMark "\x7b" = true ∧ closing.isMark "\x7d" = true ∧
        Token.Ruled runs inner ∧ List.Forall₂ (Node.Line all) runs statements ∧
          block = .build .block opening.start closing.stop statements := by
    refine (takes_mark _).token fun opening opens => (takes_statementList lays _).bind fun inner statements found => ?_
    obtain ⟨runs, ruled, each⟩ := found
    refine (takes_mark _).token fun closing closes => .pure ?_
    exact ⟨opening, inner, closing, runs, statements, rfl, opens, closes, ruled, each, rfl⟩
  refine lines.listed.mono ?_
  rintro used block ⟨listed, opening, inner, closing, runs, statements, rfl, opens, closes, ruled, each, rfl⟩
  have keeps : ∀ run ∈ runs, Keeps 1 run :=
    ((List.forall₂_and_left runs statements).1 (each.imp fun _ _ line => ⟨line.keeps, line.laid⟩)).1
  exact
    { keeps := keeps_brackets opens closes (by decide) (ruled.keeps keeps) (keeps_nil _)
      starts := rfl
      stops := by simp [Node.build]
      part := rfl
      laid := .intro nofun nofun (fun _ => Node.spellsLines_of_each listed opens closes ruled each) nofun nofun
        (forall_of_forall₂ each fun _ _ line => line.laid) }

theorem stays_ifStatement : Takes all g.ifStatement (Stay (Laid all)) := by
  unfold ifStatement
  refine (stays_keyword _).next fun head _ => (stays_simpleStatement lays _ _).next fun first known => ?_
  refine takes_nextIs fun token initialized is => ?_
  extract_lets jump
  have joins : ∀ found : List Node × Node, LaidAll all found.1 ∧ Laid all found.2 →
      Takes all (jump found) (Stay (Laid all)) := by
    rintro ⟨initializer, condition⟩ ⟨known₁, known₂⟩
    refine lays.block.stays.next fun consequence known₃ => takes_nextOnLine fun token otherwise is => ?_
    extract_lets jump' jump''
    have joins' : ∀ alternative : List Node, LaidAll all alternative → Takes all (jump' alternative) (Stay (Laid all)) := by
      intro alternative known₄
      refine stays_pure ((Node.laid_build (by simp)).2 ?_)
      refine List.forall_mem_append.2 ⟨List.forall_mem_append.2 ⟨known₁, ?_⟩, known₄⟩
      simp [known₂, known₃]
    clear_value jump'
    have joins'' : ∀ other : Node, Laid all other → Takes all (jump'' other) (Stay (Laid all)) :=
      fun other known₄ => .pass (joins' _ (by simpa using known₄))
    split
    · rename_i yes
      refine sees_pass (keeps_word (kind_of_isWord (is yes))) (looks_peek.asks fun token => ?_)
      split
      · exact lays.statement.line.next joins''
      · exact lays.block.stays.next joins''
    · exact .pass (joins' _ (by simp)).here
  clear_value jump
  split
  · rename_i yes
    refine sees_pass (keeps_mark (is yes) (by decide)) ?_
    refine (lays.expression _).stays.next fun condition known' => .pass (joins _ ?_)
    exact ⟨by simpa using known, known'⟩
  · refine TakesFrom.here ((stays_soleExpression known).next fun condition known' => .pass (joins _ ?_))
    exact ⟨by simp, known'⟩

theorem stays_rangeClause (start : Nat) {left : List Node} (known : LaidAll all left) :
    Takes all (g.rangeClause start left) (Stay (Laid all)) := by
  refine (stays_keyword _).next fun _ _ => (lays.expression _).stays.next fun right known' => stays_pure ?_
  exact (Node.laid_build (by simp)).2 (List.forall_mem_append.2 ⟨known, by simpa using known'⟩)

theorem stays_forClause (start : Nat) {initializer : List Node} (known : LaidAll all initializer) :
    Takes all (g.forClause start initializer) (Stay (Laid all)) := by
  unfold forClause
  refine (stays_mark _ (by decide)).next fun _ _ => (looks_nextIs _ _).asks fun open_ => ?_
  extract_lets jump
  have joins : ∀ condition : List Node, LaidAll all condition → Takes all (jump condition) (Stay (Laid all)) := by
    intro condition known₁
    refine (stays_mark _ (by decide)).next fun second _ => (looks_nextIs _ _).asks fun last => ?_
    extract_lets jump'
    have joins' : ∀ update : List Node, LaidAll all update → Takes all (jump' update) (Stay (Laid all)) := by
      intro update known₂
      refine stays_pure ((Node.laid_build (by simp)).2 ?_)
      exact List.forall_mem_append.2 ⟨List.forall_mem_append.2 ⟨known, known₁⟩, known₂⟩
    split
    · exact .pass (joins' _ (by simp))
    · exact (stays_simpleStatement lays _ _).next fun update known₂ => .pass (joins' _ (by simpa using known₂))
  split
  · exact .pass (joins _ (by simp))
  · exact (lays.expression _).stays.next fun condition known₁ => .pass (joins _ (by simpa using known₁))

theorem stays_forHead : Takes all g.forHead (Stay (LaidAll all)) := by
  have single : ∀ {reader : Reader Node}, Takes all reader (Stay (Laid all)) →
      Takes all (do return [← reader]) (Stay (LaidAll all)) :=
    fun stays => stays.next fun node known => stays_pure (by simpa using known)
  unfold forHead
  refine looks_peek.asks fun token => ?_
  split
  · exact stays_pure (by simp)
  split
  · exact single (stays_forClause lays _ (by simp))
  split
  · exact single (stays_rangeClause lays _ (by simp))
  refine (stays_expressionList lays _).next fun left known => takes_peek fun assign => ?_
  refine looks_peekSecond.asks fun second => ?_
  split
  · rename_i is
    rw [Bool.and_eq_true, Bool.or_eq_true] at is
    refine sees_pass ?_ (single (stays_rangeClause lays _ (by simpa using known)))
    exact is.1.elim (fun mark => keeps_mark mark (by decide)) fun mark => keeps_mark mark (by decide)
  · refine TakesFrom.here ((stays_simpleRest lays _ _ known).next fun first known' => (looks_nextIs _ _).asks fun three => ?_)
    split
    · exact single (stays_forClause lays _ (by simpa using known'))
    · exact single (stays_soleExpression known')

theorem stays_forStatement : Takes all g.forStatement (Stay (Laid all)) := by
  refine (stays_keyword _).next fun head _ => (stays_forHead lays).next fun clause known => ?_
  refine lays.block.stays.next fun body known' => stays_pure ((Node.laid_build (by simp)).2 ?_)
  exact List.forall_mem_append.2 ⟨known, by simpa using known'⟩

theorem stays_clauseRest {kind : Kind} (free : NoList kind) (start : Nat) {head : List Node} (known : LaidAll all head) :
    Takes all (g.clauseRest kind start head) (Stay (Laid all)) := by
  refine (stays_mark _ (by decide)).next fun colon _ => (stays_statementList lays _).next fun statements known' => stays_pure ?_
  exact (Node.laid_build free).2 (List.forall_mem_append.2 ⟨known, known'⟩)

theorem stays_clause {kind : Kind} (free : NoList kind) {head : Reader (List Node)}
    (stays : Takes all head (Stay (LaidAll all))) :
    Takes all (g.clause kind head) (Stay fun found => ∀ value, found = some value → Laid all value) := by
  unfold clause
  refine takes_peek fun token => ?_
  split
  · rename_i word
    refine sees_pass (keeps_word (kind_of_isWord word)) ?_
    exact stays.next fun children known => (stays_clauseRest lays free _ known).found
  split
  · rename_i word
    exact sees_pass (keeps_word (kind_of_isWord word)) (stays_clauseRest lays (by simp) _ (by simp)).found
  · exact stays_none

theorem stays_clauses {kind : Kind} (free : NoList kind) {head : Reader (List Node)}
    (stays : Takes all head (Stay (LaidAll all))) :
    Takes all (g.clauses kind head) (Stay fun found => LaidAll all found.1) := by
  refine (takes_mark _).token fun opening opens => ?_
  refine (stays_repeating _ (stays_clause lays free stays)).closing fun used found closing keeps known closes => .pure ?_
  exact ⟨keeps_brackets opens closes (by decide) keeps (keeps_nil _), known⟩

theorem stays_expressionSwitch (start : Nat) {head : List Node} (known : LaidAll all head) :
    Takes all (g.expressionSwitch start head) (Stay (Laid all)) := by
  refine (stays_clauses lays (by simp) ?_).next fun found known' => stays_pure ?_
  · exact (stays_expressionList lays _).next fun values known => stays_pure (by simpa using known)
  · exact (Node.laid_build (by simp)).2 (List.forall_mem_append.2 ⟨known, known'⟩)

omit lays in
/-- Tokens that begin with the guard of a type switch. -/
def AtGuard (tokens : List Token) : Prop :=
  ∃ dot opening word closing rest, tokens = dot :: opening :: word :: closing :: rest ∧ dot.isMark "." = true ∧
    opening.isMark "(" = true ∧ word.isWord "type" = true ∧ closing.isMark ")" = true

omit lays in
theorem takes_atTypeGuard {β : Type} {later : Bool → Reader β} {goal : List Token → β → Prop}
    (next : ∀ found, TakesFrom all (fun tokens => found = true → AtGuard tokens) (later found) goal) :
    Takes all (atTypeGuard >>= later) goal := by
  intro tokens inside _
  refine Yields.bind ?_
  intro found rest result
  unfold atTypeGuard at result
  split at result
  · rename_i dot opening word closing others
    cases result
    refine next _ _ inside fun yes => ?_
    simp only [Bool.and_eq_true] at yes
    exact ⟨dot, opening, word, closing, others, rfl, yes.1.1.1, yes.1.1.2, yes.1.2, yes.2⟩
  · cases result
    exact next _ _ inside fun contrary => by cases contrary

omit lays in
/-- Pass the guard of a type switch. -/
theorem sees_guard {β : Type} {reader : Reader β} {post : β → Prop} (next : Takes all reader (Stay post)) :
    TakesFrom all AtGuard (take >>= fun _ => take >>= fun _ => take >>= fun _ => take >>= fun _ => reader) (Stay post) := by
  rintro tokens inside ⟨dot, opening, word, closing, rest, rfl, dots, opens, is, closes⟩
  have behind : rest <:+ all := (List.suffix_append [dot, opening, word, closing] rest).trans inside
  have keeps : Keeps 1 (dot :: opening :: ([word] ++ [closing])) :=
    (plain_of_isMark dots (by decide)).keeps
      (keeps_brackets opens closes (by decide) (keeps_word (kind_of_isWord is)) (keeps_nil _))
  intro found rest' result
  obtain ⟨used, rfl, known⟩ := next rest behind trivial found rest' result
  exact ⟨[dot, opening, word, closing] ++ used, rfl, keeps.append known.1, known.2⟩

theorem sees_typeSwitch (start : Nat) {initializer : List Node} (known : LaidAll all initializer) {subject : Node}
    (known' : Laid all subject) : TakesFrom all AtGuard (g.typeSwitch start initializer subject) (Stay (Laid all)) := by
  unfold typeSwitch
  refine sees_guard ?_
  extract_lets jump
  have joins : ∀ head : List Node, LaidAll all head → Takes all (jump head) (Stay (Laid all)) := by
    intro head known₁
    refine (stays_clauses lays (by simp) ?_).next fun found known₂ => stays_pure ?_
    · refine (stays_separated _ _ (by decide) (lays.type _).stays).next fun types known₂ => stays_pure ?_
      intro node member
      obtain ⟨type, listed, rfl⟩ := List.mem_map.1 member
      simpa using known₂ type listed
    · exact (Node.laid_build (by simp)).2 (List.forall_mem_append.2 ⟨List.forall_mem_append.2 ⟨known, known₁⟩, known₂⟩)
  have inside := known'.children
  split
  · rename_i value _ children
    rw [children, List.forall_mem_singleton] at inside
    exact .pass (joins _ (by simpa using inside))
  · rename_i names values _ children
    rw [children, List.forall_mem_cons, List.forall_mem_singleton] at inside
    have inner := inside.2.children
    split
    · rename_i value children'
      rw [children', List.forall_mem_singleton] at inner
      exact .pass (joins _ (by simp [inside.1, inner]))
    · exact takes_stuck.bind fun _ _ (contrary : False) => contrary.elim
  · exact takes_stuck.bind fun _ _ (contrary : False) => contrary.elim

theorem stays_switchStatement : Takes all g.switchStatement (Stay (Laid all)) := by
  have guarded : ∀ {found : Bool} {reader : Reader Node}, TakesFrom all AtGuard reader (Stay (Laid all)) → found = true →
      TakesFrom all (fun tokens => found = true → AtGuard tokens) reader (Stay (Laid all)) :=
    fun takes yes tokens inside at_ => takes tokens inside (at_ yes)
  unfold switchStatement
  refine (stays_keyword _).next fun head _ => ?_
  extract_lets mode
  refine (looks_nextIs _ _).asks fun bare => ?_
  split
  · exact stays_expressionSwitch lays _ (by simp)
  refine (stays_simpleStatement lays _ _).next fun first known => takes_atTypeGuard fun found => ?_
  split
  · rename_i yes
    exact guarded (sees_typeSwitch lays _ (by simp) known) yes
  refine TakesFrom.here (takes_nextIs fun token initialized is => ?_)
  split
  · rename_i yes
    refine sees_pass (keeps_mark (is yes) (by decide)) ?_
    extract_lets initializer
    have known₁ : LaidAll all initializer := by simpa [initializer] using known
    refine (looks_nextIs _ _).asks fun bare => ?_
    split
    · exact stays_expressionSwitch lays _ known₁
    refine (stays_simpleStatement lays _ _).next fun second known₂ => takes_atTypeGuard fun found => ?_
    split
    · rename_i yes
      exact guarded (sees_typeSwitch lays _ known₁ known₂) yes
    · refine TakesFrom.here ((stays_soleExpression known₂).next fun value known₃ => stays_expressionSwitch lays _ ?_)
      exact List.forall_mem_append.2 ⟨known₁, by simpa using known₃⟩
  · refine TakesFrom.here ((stays_soleExpression known).next fun value known' => ?_)
    exact stays_expressionSwitch lays _ (by simpa using known')

theorem stays_communication : Takes all g.communication (Stay (LaidAll all)) := by
  unfold communication
  refine (stays_expressionList lays _).next fun left known => takes_peek fun token => ?_
  split
  · rename_i is
    rw [Bool.or_eq_true] at is
    refine sees_pass (is.elim (fun mark => keeps_mark mark (by decide)) fun mark => keeps_mark mark (by decide)) ?_
    exact (lays.expression _).stays.next fun right known' => stays_pure (by simp [known, known'])
  split
  · rename_i only children
    have inside := known.children
    rw [children, List.forall_mem_singleton] at inside
    split
    · rename_i is
      refine sees_pass (keeps_mark is (by decide)) ?_
      exact (lays.expression _).stays.next fun value known' => stays_pure (by simp [inside, known'])
    · exact stays_pure (by simp [inside])
  · exact takes_stuck

theorem stays_selectStatement : Takes all g.selectStatement (Stay (Laid all)) := by
  refine (stays_keyword _).next fun head _ => ?_
  refine (stays_clauses lays (by simp) (stays_communication lays)).next fun found known => stays_pure ?_
  exact (Node.laid_build (by simp)).2 known

theorem stays_initialValues : Takes all g.initialValues (Stay (LaidAll all)) := by
  unfold initialValues
  refine takes_nextIs fun token given is => ?_
  split
  · rename_i yes
    refine sees_pass (keeps_mark (is yes) (by decide)) ?_
    exact (stays_expressionList lays _).next fun values known => stays_pure (by simpa using known)
  · exact stays_pure (by simp)

theorem stays_varSpec : Takes all g.varSpec (Stay (Laid all)) := by
  unfold varSpec
  refine (stays_separated _ _ (by decide) stays_word).next fun names _ => ?_
  extract_lets named jump
  have known₁ : LaidAll all named := laid_named names (by simp) .name
  refine (looks_nextIs _ _).asks fun given => ?_
  have joins : ∀ children : List Node, LaidAll all children → Takes all (jump children) (Stay (Laid all)) := by
    intro children known₂
    have whole : LaidAll all (named ++ children) := List.forall_mem_append.2 ⟨known₁, known₂⟩
    simp only [jump]
    split
    · rename_i first rest same
      rw [same, LaidAll, List.forall_mem_cons] at whole
      exact stays_pure ((Node.laid_spanning (by simp)).2 whole)
    · exact takes_stuck
  split
  · exact (stays_initialValues lays).next joins
  · refine (lays.type _).stays.next fun type known₂ => (stays_initialValues lays).next fun values known₃ => .pass ?_
    exact joins _ (List.forall_mem_cons.2 ⟨by simpa using known₂, known₃⟩)

omit lays in
theorem stays_constNames : Takes all constNames (Stay (LaidAll all)) := by
  unfold constNames
  refine stays_word.next fun first _ => ?_
  refine (stays_repeating (LaidAll all) ?_).next fun rest known => stays_pure ?_
  · refine takes_nextIs fun token more is => ?_
    split
    · rename_i yes
      refine sees_pass (Token.keeps_comma (is yes) (keeps_nil _)) (stays_word.next fun name _ => stays_pure ?_)
      rintro _ ⟨⟩
      simp
    · exact stays_none
  · refine List.forall_mem_cons.2 ⟨by simp, fun node member => ?_⟩
    obtain ⟨nodes, listed, member⟩ := List.mem_flatten.1 member
    exact known nodes listed node member

theorem stays_constSpec : Takes all g.constSpec (Stay (Laid all)) := by
  unfold constSpec
  refine stays_constNames.next fun names known => (looks_nextIs _ _).asks fun given => ?_
  refine (looks_nextOnLine _ _).asks fun typed => ?_
  extract_lets jump
  have joins : ∀ children : List Node, LaidAll all children → Takes all (jump children) (Stay (Laid all)) := by
    intro children known'
    have whole : LaidAll all (names ++ children) := List.forall_mem_append.2 ⟨known, known'⟩
    simp only [jump]
    split
    · rename_i first rest same
      rw [same, LaidAll, List.forall_mem_cons] at whole
      exact stays_pure ((Node.laid_spanning (by simp)).2 whole)
    · exact takes_stuck
  split
  · exact (stays_initialValues lays).next joins
  split
  · refine (lays.type _).stays.next fun type known₁ => (stays_initialValues lays).next fun values known₂ => ?_
    split
    · exact takes_stuck.bind fun _ _ (contrary : False) => contrary.elim
    · exact .pass (joins _ (List.forall_mem_cons.2 ⟨by simpa using known₁, known₂⟩))
  · exact .pass (joins _ (by simp))

theorem stays_typeSpecRest (name : Token) {parameters : List Node} (known : LaidAll all parameters) :
    Takes all (g.typeSpecRest name parameters) (Stay (Laid all)) := by
  unfold typeSpecRest
  extract_lets head jump
  refine takes_nextIs fun token equals is => ?_
  have joins : ∀ kind : Kind, NoList kind → Takes all (jump kind) (Stay (Laid all)) := by
    intro kind free
    refine (lays.type _).stays.next fun type known' => stays_pure ((Node.laid_build free).2 ?_)
    exact List.forall_mem_append.2 ⟨List.forall_mem_cons.2 ⟨by simp, known⟩, by simpa using known'⟩
  split
  · rename_i yes
    exact sees_pass (keeps_mark (is yes) (by decide)) (.pass (joins _ (by simp)))
  · exact .pass (joins _ (by simp)).here

theorem stays_typeSpec : Takes all g.typeSpec (Stay (Laid all)) := by
  unfold typeSpec
  refine stays_word.next fun name _ => (looks_nextIs _ _).asks fun bracket => ?_
  have plain := stays_typeSpecRest lays name (List.forall_mem_nil _)
  split
  · refine TakesFrom.either ?_ plain
    exact (stays_typeParameters lays).next fun parameters known => stays_typeSpecRest lays name (by simpa using known)
  · exact plain

omit lays in
theorem stays_specifications {spec : Reader Node} (stays : Takes all spec (Stay (Laid all))) :
    Takes all (specifications spec) (Stay fun found => LaidAll all found.1) := by
  unfold specifications
  refine takes_nextIs fun opening grouped is => ?_
  split
  · rename_i yes
    refine sees_take ((stays_closedLineList _ stays).closing fun used found closing keeps known closes => .pure ?_)
    exact ⟨keeps_brackets (is yes) closes (by decide) keeps (keeps_nil _), known⟩
  · exact (stays.next fun node known => stays_pure (by simpa using known)).here

omit lays in
theorem laid_declarationNode {kind : Kind} (free : NoList kind) (head : Token) {found : List Node × Option (Nat × Nat)}
    (known : LaidAll all found.1) : Laid all (declarationNode kind head found) := by
  unfold declarationNode
  split
  · exact (Node.laid_build free).2 known
  · exact (Node.laid_build free).2 known

theorem stays_constDeclaration : Takes all g.constDeclaration (Stay (Laid all)) :=
  (stays_keyword _).next fun head _ => (stays_specifications (stays_constSpec lays)).next fun _ known =>
    stays_pure (laid_declarationNode (by simp) head known)

theorem stays_typeDeclaration : Takes all g.typeDeclaration (Stay (Laid all)) :=
  (stays_keyword _).next fun head _ => (stays_specifications (stays_typeSpec lays)).next fun _ known =>
    stays_pure (laid_declarationNode (by simp) head known)

theorem stays_varDeclaration : Takes all g.varDeclaration (Stay (Laid all)) := by
  refine (stays_keyword _).next fun head _ => (stays_specifications (stays_varSpec lays)).next fun found known => ?_
  split
  · exact stays_pure (by simpa using known)
  · exact stays_pure (laid_declarationNode (by simp) head known)

omit lays in
theorem sees_jump {kind : Kind} (free : NoList kind) (labelNeeded : Bool) {token : Token} (word : token.kind = .word) :
    Sees all token (jump kind labelNeeded) (Stay (Laid all)) := by
  unfold jump
  refine sees_pass (keeps_word word) (takes_nextOnLine fun label labeled is => ?_)
  split
  · rename_i yes
    exact sees_pass (keeps_word (beq_iff_eq.1 (is yes))) (stays_pure ((Node.laid_build free).2 (by simp)))
  split
  · exact takes_stuck
  · exact stays_pure (Node.laid_leaf free token)

theorem stays_returnStatement : Takes all g.returnStatement (Stay (Laid all)) := by
  unfold returnStatement
  refine (stays_keyword _).next fun head _ => looks_peek.asks fun token => looks_atTerminator.asks fun ends => ?_
  split
  · exact stays_pure (by simp)
  · exact (stays_expressionList lays _).next fun values known => stays_pure (by simpa using known)

theorem sees_launch {kind : Kind} (free : NoList kind) {token : Token} (word : token.kind = .word) :
    Sees all token (g.launch kind) (Stay (Laid all)) :=
  sees_pass (keeps_word word) ((lays.expression _).stays.next fun _ known =>
    stays_pure ((Node.laid_build free).2 (by simpa using known)))

theorem stays_labeledStatement : Takes all g.labeledStatement (Stay (Laid all)) := by
  unfold labeledStatement
  refine stays_word.next fun label _ => (stays_mark _ (by decide)).next fun colon _ => ?_
  extract_lets name
  have known : Laid all name := by simp [name]
  refine looks_peek.asks fun token => ?_
  split
  · exact stays_pure (by simpa using known)
  · exact lays.statement.line.next fun statement known' => stays_pure (by simp [known, known'])

theorem stays_statementStep : Takes all g.statementStep (Stay (Laid all)) := by
  unfold statementStep
  refine takes_peek fun token => looks_peekSecond.asks fun second => ?_
  split
  · exact lays.block.stays.here
  split
  · rename_i mark
    exact sees_pass (keeps_mark mark (by decide)) (stays_pure (by simp))
  split
  · exact (stays_simpleStatement lays _ _).here
  rename_i other
  have word : token.kind = .word := by simpa using other
  split
  · exact (stays_constDeclaration lays).here
  · exact (stays_typeDeclaration lays).here
  · exact (stays_varDeclaration lays).here
  · exact (stays_returnStatement lays).here
  · exact sees_launch lays (by simp) word
  · exact sees_launch lays (by simp) word
  · exact (stays_ifStatement lays).here
  · exact (stays_forStatement lays).here
  · exact (stays_switchStatement lays).here
  · exact (stays_selectStatement lays).here
  · exact sees_pass (keeps_word word) (stays_pure (by simp))
  · exact sees_jump (by simp) _ word
  · exact sees_jump (by simp) _ word
  · exact sees_jump (by simp) _ word
  · split
    · exact (stays_labeledStatement lays).here
    · exact (stays_simpleStatement lays _ _).here

end Grammar
end TraceWeave.Go
