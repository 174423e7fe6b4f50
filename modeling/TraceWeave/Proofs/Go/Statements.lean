import TraceWeave.Go.Grammar.Statements
import TraceWeave.Proofs.Go.Expressions

/-! Statements, and the declarations among them, are read as well-formed trees. -/
namespace TraceWeave.Go
namespace Grammar

open Reader

variable {sound : Nat → Prop} {limit : Nat} {g : Grammar} {tokens : List Token} {before : Nat} {left : Node}

/-- The only child of a node lies inside it. -/
theorem Spans.only {after : Nat} {node only : Node} (spans : Spans sound before node after)
    (parts : node.children = [only]) : Spans sound before only after := by
  obtain ⟨lower, formed, upper⟩ := Node.row_singleton.1 spans
  have row := formed.row
  rw [parts] at row
  exact row.widen lower upper

theorem extends_simpleRest (keeps : g.KeepsOrder sound limit) (mode right : Mode) (ordered : Ordered sound limit tokens)
    (spans : Spans sound before left (front limit tokens)) :
    Yields tokens (g.simpleRest mode right left) (Extended sound limit before) := by
  unfold simpleRest
  refine Yields.peek fun token is => ?_
  extract_lets here
  split
  · refine reads_take.next ordered fun mark rest₁ ordered₁ bound₁ took₁ => ?_
    refine (reads_expressionList keeps _).next ordered₁ fun values rest₂ ordered₂ bound₂ spans₂ => ?_
    refine Yields.pure ⟨ordered₂, ?_⟩
    exact spans_build rfl spans.starts spans₂.stops (by grind) (by grind) (by grind)
  split
  · refine Yields.take ordered fun token' rest₁ is' ordered₁ bound₁ took₁ => ?_
    obtain rfl := is'.symm.trans is
    refine (reads_expressionList keeps _).next ordered₁ fun values rest₂ ordered₂ bound₂ spans₂ => ?_
    have operator := spans_operatorNode took₁
    refine Yields.pure ⟨ordered₂, ?_⟩
    exact spans_build rfl spans.starts spans₂.stops (by grind) (by grind) (by grind)
  split
  · rename_i only parts
    have spans := Spans.only spans parts
    split
    · refine Yields.take ordered fun token' rest₁ is' ordered₁ bound₁ took₁ => Yields.pure ⟨ordered₁, ?_⟩
      obtain rfl := is'.symm.trans is
      exact spans_build rfl spans.starts took₁.exact.stops (by grind) (by grind) (by grind)
    split
    · refine Yields.take ordered fun token' rest₁ is' ordered₁ bound₁ took₁ => Yields.pure ⟨ordered₁, ?_⟩
      obtain rfl := is'.symm.trans is
      exact spans_build rfl spans.starts took₁.exact.stops (by grind) (by grind) (by grind)
    split
    · refine reads_take.next ordered fun mark rest₁ ordered₁ bound₁ took₁ => ?_
      refine (keeps.expression _).next ordered₁ fun value rest₂ ordered₂ bound₂ spans₂ => ?_
      refine Yields.pure ⟨ordered₂, ?_⟩
      exact spans_build rfl spans.starts spans₂.stops (by grind) (by grind) (by grind)
    · refine Yields.pure ⟨ordered, ?_⟩
      exact spans_build rfl spans.starts spans.stops (by grind) (by grind) (by grind)
  · exact Yields.stuck

theorem reads_simpleStatement (keeps : g.KeepsOrder sound limit) (mode right : Mode) :
    Reads sound limit (g.simpleStatement mode right) (Spans sound) := by
  intro tokens ordered
  unfold simpleStatement
  refine (reads_expressionList keeps _).next ordered fun left rest₁ ordered₁ bound₁ spans₁ => ?_
  refine (extends_simpleRest keeps mode right ordered₁ spans₁).mono ?_
  rintro node rest₂ ⟨ordered₂, spans₂⟩
  exact ⟨ordered₂, spans₂.le, spans₂⟩

theorem reads_statementList (keeps : g.KeepsOrder sound limit) (ends : Token → Bool) :
    Reads sound limit (g.statementList ends) (Node.Row sound) := by
  intro tokens ordered
  unfold statementList
  have more : Reads sound limit (do
      if ends (← peek) then return none
      terminator
      if ends (← peek) then return none
      return some (← g.statement)) (Finds (Spans sound)) := by
    intro tokens ordered
    refine looks_peek.next fun token => ?_
    split
    · exact yields_nothing ordered (Nat.le_refl _)
    · refine reads_terminator.next ordered fun _ rest₁ ordered₁ bound₁ _ => ?_
      refine looks_peek.next fun token => ?_
      split
      · exact yields_nothing ordered₁ bound₁
      · exact keeps.statement.found ordered₁ bound₁
  refine looks_peek.next fun token => ?_
  split
  · exact Yields.pure ⟨ordered, Nat.le_refl _, Node.row_nil.2 (Nat.le_refl _)⟩
  · refine keeps.statement.next ordered fun first rest₁ ordered₁ bound₁ spans₁ => ?_
    refine (reads_repeating more).next ordered₁ fun others rest₂ ordered₂ bound₂ known₂ => ?_
    exact Yields.pure ⟨ordered₂, by omega, spans₁.append known₂.row⟩

theorem reads_blockStep (keeps : g.KeepsOrder sound limit) :
    Reads sound limit g.blockStep fun before node after => Spans sound before node after ∧ node.kind = .block := by
  intro tokens ordered
  unfold blockStep
  refine (reads_mark _).next ordered fun opening rest₁ ordered₁ bound₁ opened => ?_
  refine (reads_statementList keeps _).next ordered₁ fun statements rest₂ ordered₂ bound₂ row₂ => ?_
  refine (reads_mark _).next ordered₂ fun closing rest₃ ordered₃ bound₃ closed => ?_
  refine Yields.pure ⟨ordered₃, by omega, ?_, rfl⟩
  exact spans_brackets rfl (by simp) (by simp) opened rfl row₂ closed rfl

theorem extends_soleExpression (ordered : Ordered sound limit tokens)
    (spans : Spans sound before left (front limit tokens)) :
    Yields tokens (soleExpression left) (Extended sound limit before) := by
  unfold soleExpression
  split
  · rename_i expression _ parts
    exact Yields.pure ⟨ordered, Spans.only spans parts⟩
  · exact Yields.stuck

/-! Branches and loops. -/

theorem reads_ifStatement (keeps : g.KeepsOrder sound limit) : Reads sound limit g.ifStatement (Spans sound) := by
  intro tokens ordered
  unfold ifStatement
  refine (reads_keyword _).next ordered fun head rest₁ ordered₁ bound₁ ⟨took₁, _⟩ => ?_
  refine (reads_simpleStatement keeps _ _).next ordered₁ fun first rest₂ ordered₂ bound₂ spans₂ => ?_
  refine (looks_nextIs _ _).next fun semicolon => ?_
  extract_lets jump
  -- The initializer and the condition have been read.
  have joins : ∀ found rest middle, Ordered sound limit rest →
      Node.Row sound (front limit rest₁) found.1 middle → Spans sound middle found.2 (front limit rest) →
      Yields rest (jump found) (Reached sound limit tokens (Spans sound)) := by
    rintro ⟨initializer, condition⟩ rest₃ middle ordered₃ row₃ spans₃
    refine keeps.block.next ordered₃ fun consequence rest₄ ordered₄ bound₄ ⟨spans₄, _⟩ => ?_
    refine (looks_nextOnLine _ _).next fun otherwise => ?_
    extract_lets jump' jump''
    have joins' : ∀ alternative rest, Reached sound limit rest₄ (Node.Row sound) alternative rest →
        Yields rest (jump' alternative) (Reached sound limit tokens (Spans sound)) := by
      rintro alternative rest₅ ⟨ordered₅, bound₅, row₅⟩
      have row := (row₃.append ((spans₃.withRole .condition).append (spans₄.withRole .consequence))).append row₅
      have total := row.le
      exact Yields.pure ⟨ordered₅, by omega, spans_headed rfl took₁ row⟩
    clear_value jump'
    split
    · refine reads_take.next ordered₄ fun word rest₅ ordered₅ bound₅ took₅ => ?_
      refine looks_peek.next fun token => ?_
      have joins'' : ∀ other rest, Reached sound limit rest₅ (Spans sound) other rest →
          Yields rest (jump'' other) (Reached sound limit tokens (Spans sound)) := by
        rintro other rest₆ ⟨ordered₆, bound₆, spans₆⟩
        refine Yields.pass (joins' _ _ ⟨ordered₆, by omega, ?_⟩)
        exact (spans₆.withRole _).widen bound₅ (Nat.le_refl _)
      split
      · exact Yields.bind ((keeps.statement rest₅ ordered₅).mono joins'')
      · refine Yields.bind ((keeps.block rest₅ ordered₅).mono ?_)
        rintro other rest₆ ⟨ordered₆, bound₆, spans₆, _⟩
        exact joins'' other rest₆ ⟨ordered₆, bound₆, spans₆⟩
    · exact Yields.pass (joins' _ _ ⟨ordered₄, Nat.le_refl _, Node.row_nil.2 (Nat.le_refl _)⟩)
  clear_value jump
  split
  · refine reads_take.next ordered₂ fun mark rest₃ ordered₃ bound₃ took₃ => ?_
    refine (keeps.expression _).next ordered₃ fun condition rest₄ ordered₄ bound₄ spans₄ => ?_
    refine Yields.pass (joins _ _ (front limit rest₃) ordered₄ ?_ spans₄)
    exact (spans₂.withRole _).widen (Nat.le_refl _) bound₃
  · refine Yields.bind ((extends_soleExpression ordered₂ spans₂).mono ?_)
    rintro condition rest₃ ⟨ordered₃, spans₃⟩
    exact Yields.pass (joins _ _ _ ordered₃ (Node.row_nil.2 (Nat.le_refl _)) spans₃)

/-- A clause that began before the tokens with some children. -/
structure Begun (sound : Nat → Prop) (limit before start : Nat) (nodes : List Node) (tokens : List Token) : Prop where
  ordered : Ordered sound limit tokens
  lower : before ≤ start
  starts : sound start
  row : Node.Row sound start nodes (front limit tokens)

variable {start : Nat} {nodes : List Node}

/-- A clause that begins with the token that was looked at. -/
theorem Begun.ofToken {token : Token} {rest : List Token} (ordered : Ordered sound limit (token :: rest)) :
    Begun sound limit token.start token.start [] (token :: rest) :=
  ⟨ordered, Nat.le_refl _, ordered.1.starts, Node.row_nil.2 (Nat.le_refl _)⟩

theorem extends_rangeClause (keeps : g.KeepsOrder sound limit) (begun : Begun sound limit before start nodes tokens) :
    Yields tokens (g.rangeClause start nodes) (Extended sound limit before) := by
  obtain ⟨ordered, lower, starts, row⟩ := begun
  unfold rangeClause
  refine (reads_keyword _).next ordered fun word rest₁ ordered₁ bound₁ ⟨took₁, _⟩ => ?_
  refine (keeps.expression _).next ordered₁ fun right rest₂ ordered₂ bound₂ spans₂ => Yields.pure ⟨ordered₂, ?_⟩
  have whole := (row.widen (Nat.le_refl _) bound₁).append (spans₂.to_stop.withRole .right)
  exact spans_build rfl starts spans₂.stops whole lower (by grind)

theorem extends_forClause (keeps : g.KeepsOrder sound limit) (begun : Begun sound limit before start nodes tokens) :
    Yields tokens (g.forClause start nodes) (Extended sound limit before) := by
  obtain ⟨ordered, lower, starts, row⟩ := begun
  unfold forClause
  refine (reads_mark _).next ordered fun first rest₁ ordered₁ bound₁ ⟨took₁, _⟩ => ?_
  refine (looks_nextIs _ _).next fun empty => ?_
  extract_lets jump
  have joins : ∀ condition rest, Reached sound limit rest₁ (Node.Row sound) condition rest →
      Yields rest (jump condition) (Extended sound limit before) := by
    rintro condition rest₂ ⟨ordered₂, bound₂, row₂⟩
    refine (reads_mark _).next ordered₂ fun second rest₃ ordered₃ bound₃ ⟨took₃, _⟩ => ?_
    refine (looks_nextIs _ _).next fun empty' => ?_
    extract_lets jump'
    have joins' : ∀ update rest, Reached sound limit rest₃ (Node.Row sound) update rest →
        Yields rest (jump' update) (Extended sound limit before) := by
      rintro update rest₄ ⟨ordered₄, bound₄, row₄⟩
      obtain ⟨stops, tight, upper⟩ := row_endOf row₄ took₃.stop took₃.exact.stops
      have whole := ((row.widen (Nat.le_refl _) bound₁).append row₂).append (tight.widen (by grind) (Nat.le_refl _))
      exact Yields.pure ⟨ordered₄, spans_build rfl starts stops whole lower upper⟩
    clear_value jump'
    split
    · exact Yields.pass (joins' _ _ ⟨ordered₃, Nat.le_refl _, Node.row_nil.2 (Nat.le_refl _)⟩)
    · refine (reads_simpleStatement keeps _ _).next ordered₃ fun update rest₄ ordered₄ bound₄ spans₄ => ?_
      exact Yields.pass (joins' _ _ ⟨ordered₄, bound₄, spans₄.withRole _⟩)
  clear_value jump
  split
  · exact Yields.pass (joins _ _ ⟨ordered₁, Nat.le_refl _, Node.row_nil.2 (Nat.le_refl _)⟩)
  · refine (keeps.expression _).next ordered₁ fun condition rest₂ ordered₂ bound₂ spans₂ => ?_
    exact Yields.pass (joins _ _ ⟨ordered₂, bound₂, spans₂.withRole _⟩)

theorem reads_forHead (keeps : g.KeepsOrder sound limit) : Reads sound limit g.forHead (Node.Row sound) := by
  intro tokens ordered
  unfold forHead
  refine Yields.peek fun token is => ?_
  have alone : ∀ node rest, Extended sound limit (front limit tokens) node rest →
      Yields rest (pure [node]) (Reached sound limit tokens (Node.Row sound)) := by
    rintro node rest ⟨ordered, spans⟩
    exact Yields.pure ⟨ordered, spans.le, spans⟩
  split
  · exact Yields.pure ⟨ordered, Nat.le_refl _, Node.row_nil.2 (Nat.le_refl _)⟩
  split
  · cases tokens with
    | nil => exact Yields.bind (yields_nil rfl)
    | cons first others =>
        obtain rfl : first = token := is
        exact Yields.bind ((extends_forClause keeps (.ofToken ordered)).mono alone)
  split
  · cases tokens with
    | nil => exact Yields.bind (yields_nil rfl)
    | cons first others =>
        obtain rfl : first = token := is
        exact Yields.bind ((extends_rangeClause keeps (.ofToken ordered)).mono alone)
  · refine (reads_expressionList keeps _).next ordered fun left rest₁ ordered₁ bound₁ spans₁ => ?_
    refine looks_peek.next fun assign => ?_
    refine looks_peekSecond.next fun second => ?_
    split
    · refine reads_take.next ordered₁ fun mark rest₂ ordered₂ bound₂ took₂ => ?_
      have begun : Begun sound limit (front limit tokens) left.start [left.withRole .left] rest₂ :=
        ⟨ordered₂, (Node.row_singleton.1 spans₁).1, spans₁.starts,
          (spans₁.from_start.withRole _).widen (Nat.le_refl _) bound₂⟩
      exact Yields.bind ((extends_rangeClause keeps begun).mono alone)
    · refine Yields.bind ((extends_simpleRest keeps _ _ ordered₁ spans₁).mono ?_)
      rintro first rest₂ ⟨ordered₂, spans₂⟩
      refine (looks_nextIs _ _).next fun semicolon => ?_
      split
      · have begun : Begun sound limit (front limit tokens) first.start [first.withRole .initializer] rest₂ :=
          ⟨ordered₂, (Node.row_singleton.1 spans₂).1, spans₂.starts, spans₂.from_start.withRole _⟩
        exact Yields.bind ((extends_forClause keeps begun).mono alone)
      · exact Yields.bind ((extends_soleExpression ordered₂ spans₂).mono alone)

theorem reads_forStatement (keeps : g.KeepsOrder sound limit) : Reads sound limit g.forStatement (Spans sound) := by
  intro tokens ordered
  unfold forStatement
  refine (reads_keyword _).next ordered fun head rest₁ ordered₁ bound₁ ⟨took₁, _⟩ => ?_
  refine (reads_forHead keeps).next ordered₁ fun clause rest₂ ordered₂ bound₂ row₂ => ?_
  refine keeps.block.next ordered₂ fun body rest₃ ordered₃ bound₃ ⟨spans₃, _⟩ => ?_
  have whole := (row₂.append (spans₃.to_stop.withRole .body)).widen (Nat.le_trans took₁.exact.le took₁.stop) (Nat.le_refl _)
  exact Yields.pure ⟨ordered₃, by omega, spans_build rfl took₁.exact.starts spans₃.stops whole (by grind) (by grind)⟩

/-! Clauses of switches and selects. -/

theorem extends_clauseRest (keeps : g.KeepsOrder sound limit) {kind : Kind} (plain : kind.isPlain = true)
    (begun : Begun sound limit before start nodes tokens) :
    Yields tokens (g.clauseRest kind start nodes) (Extended sound limit before) := by
  obtain ⟨ordered, lower, starts, row⟩ := begun
  unfold clauseRest
  refine (reads_mark _).next ordered fun colon rest₁ ordered₁ bound₁ ⟨took₁, _⟩ => ?_
  refine (reads_statementList keeps _).next ordered₁ fun statements rest₂ ordered₂ bound₂ row₂ => ?_
  obtain ⟨stops, tight, upper⟩ := row_endOf row₂ took₁.stop took₁.exact.stops
  have whole := row.append (tight.widen (by grind) (Nat.le_refl _))
  exact Yields.pure ⟨ordered₂, spans_build plain starts stops whole lower upper⟩

theorem reads_clause (keeps : g.KeepsOrder sound limit) {kind : Kind} (plain : kind.isPlain = true)
    {head : Reader (List Node)} (heads : Reads sound limit head (Node.Row sound)) :
    Reads sound limit (g.clause kind head) (Finds (Spans sound)) := by
  intro tokens ordered
  unfold clause
  refine Yields.peek fun token is => ?_
  have found : ∀ node rest, Extended sound limit (front limit tokens) node rest →
      Yields rest (pure (some node)) (Reached sound limit tokens (Finds (Spans sound))) := by
    rintro node rest ⟨ordered, spans⟩
    refine Yields.pure ⟨ordered, spans.le, ?_⟩
    rintro _ ⟨⟩
    exact ⟨_, _, Nat.le_refl _, spans, Nat.le_refl _⟩
  split
  · refine Yields.take ordered fun token' rest₁ is' ordered₁ bound₁ took₁ => ?_
    obtain rfl := is'.symm.trans is
    refine heads.next ordered₁ fun children rest₂ ordered₂ bound₂ row₂ => ?_
    have begun : Begun sound limit (front limit tokens) token'.start children rest₂ :=
      ⟨ordered₂, Nat.le_of_eq took₁.start.symm, took₁.exact.starts,
        row₂.widen (Nat.le_trans took₁.exact.le took₁.stop) (Nat.le_refl _)⟩
    exact Yields.bind ((extends_clauseRest keeps plain begun).mono found)
  split
  · refine Yields.take ordered fun token' rest₁ is' ordered₁ bound₁ took₁ => ?_
    obtain rfl := is'.symm.trans is
    have begun : Begun sound limit (front limit tokens) token'.start [] rest₁ :=
      ⟨ordered₁, Nat.le_of_eq took₁.start.symm, took₁.exact.starts, Node.row_nil.2 (by grind)⟩
    exact Yields.bind ((extends_clauseRest keeps rfl begun).mono found)
  · exact yields_nothing ordered (Nat.le_refl _)

/-- Clauses and the end of their braces. -/
def Braced (sound : Nat → Prop) (before : Nat) (found : List Node × Nat) (after : Nat) : Prop :=
  Node.Row sound before found.1 found.2 ∧ sound found.2 ∧ found.2 ≤ after

theorem reads_clauses (keeps : g.KeepsOrder sound limit) {kind : Kind} (plain : kind.isPlain = true)
    {head : Reader (List Node)} (heads : Reads sound limit head (Node.Row sound)) :
    Reads sound limit (g.clauses kind head) (Braced sound) := by
  intro tokens ordered
  unfold clauses
  refine (reads_mark _).next ordered fun opening rest₁ ordered₁ bound₁ ⟨took₁, _⟩ => ?_
  refine (reads_repeating (reads_clause keeps plain heads)).next ordered₁ fun found rest₂ ordered₂ bound₂ known₂ => ?_
  refine (reads_mark _).next ordered₂ fun closing rest₃ ordered₃ bound₃ ⟨took₃, _⟩ => ?_
  refine Yields.pure ⟨ordered₃, by omega, known₂.row.widen bound₁ ?_, took₃.exact.stops, took₃.stop⟩
  exact Nat.le_trans (Nat.le_of_eq took₃.start.symm) took₃.exact.le

/-- A statement whose clauses follow what it began with. -/
theorem Begun.braced {kind : Kind} (plain : kind.isPlain = true) {found : List Node × Nat} {after : Nat}
    (begun : Begun sound limit before start nodes tokens) (braced : Braced sound (front limit tokens) found after) :
    Spans sound before (.build kind start found.2 (nodes ++ found.1)) after :=
  spans_build plain begun.starts braced.2.1 (begun.row.append braced.1) begun.lower braced.2.2

theorem extends_expressionSwitch (keeps : g.KeepsOrder sound limit)
    (begun : Begun sound limit before start nodes tokens) :
    Yields tokens (g.expressionSwitch start nodes) (Extended sound limit before) := by
  unfold expressionSwitch
  have heads : Reads sound limit (do
      return [(← g.expressionList .enclosed).withRole .value]) (Node.Row sound) := by
    intro tokens ordered
    refine (reads_expressionList keeps _).next ordered fun values rest₁ ordered₁ bound₁ spans₁ => ?_
    exact Yields.pure ⟨ordered₁, bound₁, spans₁.withRole _⟩
  refine (reads_clauses keeps rfl heads).next begun.ordered fun found rest₁ ordered₁ bound₁ braced₁ => ?_
  exact Yields.pure ⟨ordered₁, begun.braced rfl braced₁⟩

/-- The subject of a type switch, without the statement around it. -/
theorem extends_typeSwitch (keeps : g.KeepsOrder sound limit) {subject : Node} {middle : Nat}
    (ordered : Ordered sound limit tokens) (lower : before ≤ start) (starts : sound start)
    (row : Node.Row sound start nodes middle) (spans : Spans sound middle subject (front limit tokens)) :
    Yields tokens (g.typeSwitch start nodes subject) (Extended sound limit before) := by
  unfold typeSwitch
  refine reads_take.next ordered fun _ rest₁ ordered₁ bound₁ _ => ?_
  refine reads_take.next ordered₁ fun _ rest₂ ordered₂ bound₂ _ => ?_
  refine reads_take.next ordered₂ fun _ rest₃ ordered₃ bound₃ _ => ?_
  refine reads_take.next ordered₃ fun _ rest₄ ordered₄ bound₄ _ => ?_
  extract_lets jump
  have joins : ∀ head, Node.Row sound middle head (front limit tokens) →
      Yields rest₄ (jump head) (Extended sound limit before) := by
    intro head row'
    have begun : Begun sound limit before start (nodes ++ head) rest₄ :=
      ⟨ordered₄, lower, starts, row.append (row'.widen (Nat.le_refl _) (by omega))⟩
    have heads : Reads sound limit (do
        return (← separated false "," (g.type false)).map (Node.withRole .type)) (Node.Row sound) := by
      intro tokens ordered
      refine (reads_separated _ _ (keeps.type _)).next ordered fun types rest₁ ordered₁ bound₁ known₁ => ?_
      exact Yields.pure ⟨ordered₁, bound₁, known₁.2.row.map_withRole _⟩
    refine (reads_clauses keeps rfl heads).next ordered₄ fun found rest₅ ordered₅ bound₅ braced₅ => ?_
    exact Yields.pure ⟨ordered₅, begun.braced rfl braced₅⟩
  clear_value jump
  split
  · rename_i value _ parts
    exact Yields.pass (joins _ ((Spans.only spans parts).withRole _))
  · rename_i names values _ parts
    obtain ⟨bound, formed, upper⟩ := Node.row_singleton.1 spans
    have inner := formed.row
    rw [parts] at inner
    obtain ⟨bound', formed', rest⟩ := Node.row_cons.1 inner
    split
    · rename_i value parts'
      refine Yields.pass (joins _ ?_)
      refine Node.row_cons.2 ⟨Nat.le_trans bound bound', formed'.withRole _, ?_⟩
      exact (Node.Row.withRole (Spans.only rest parts') _).widen (Nat.le_refl _) upper
    · exact Yields.bind Yields.stuck
  · exact Yields.bind Yields.stuck

theorem reads_switchStatement (keeps : g.KeepsOrder sound limit) :
    Reads sound limit g.switchStatement (Spans sound) := by
  intro tokens ordered
  have ends : ∀ node rest, Extended sound limit (front limit tokens) node rest →
      Reached sound limit tokens (Spans sound) node rest := by
    rintro node rest ⟨ordered, spans⟩
    exact ⟨ordered, spans.le, spans⟩
  unfold switchStatement
  refine (reads_keyword _).next ordered fun head rest₁ ordered₁ bound₁ ⟨took₁, _⟩ => ?_
  have lower := Nat.le_of_eq took₁.start.symm
  have starts := took₁.exact.starts
  have width := Nat.le_trans took₁.exact.le took₁.stop
  extract_lets mode
  refine (looks_nextIs _ _).next fun braces => ?_
  split
  · exact (extends_expressionSwitch keeps ⟨ordered₁, lower, starts, Node.row_nil.2 width⟩).mono ends
  refine (reads_simpleStatement keeps _ _).next ordered₁ fun first rest₂ ordered₂ bound₂ spans₂ => ?_
  refine looks_atTypeGuard.next fun guard => ?_
  split
  · exact (extends_typeSwitch keeps ordered₂ lower starts (Node.row_nil.2 width) spans₂).mono ends
  refine (looks_nextIs _ _).next fun semicolon => ?_
  split
  · refine reads_take.next ordered₂ fun mark rest₃ ordered₃ bound₃ took₃ => ?_
    extract_lets initializer
    have row : Node.Row sound head.start initializer (front limit rest₃) := (spans₂.withRole _).widen width bound₃
    refine (looks_nextIs _ _).next fun braces' => ?_
    split
    · exact (extends_expressionSwitch keeps ⟨ordered₃, lower, starts, row⟩).mono ends
    refine (reads_simpleStatement keeps _ _).next ordered₃ fun second rest₄ ordered₄ bound₄ spans₄ => ?_
    refine looks_atTypeGuard.next fun guard' => ?_
    split
    · exact (extends_typeSwitch keeps ordered₄ lower starts row spans₄).mono ends
    · refine Yields.bind ((extends_soleExpression ordered₄ spans₄).mono ?_)
      rintro value rest₅ ⟨ordered₅, spans₅⟩
      exact (extends_expressionSwitch keeps ⟨ordered₅, lower, starts, row.append (spans₅.withRole _)⟩).mono ends
  · refine Yields.bind ((extends_soleExpression ordered₂ spans₂).mono ?_)
    rintro value rest₃ ⟨ordered₃, spans₃⟩
    exact (extends_expressionSwitch keeps
      ⟨ordered₃, lower, starts, (spans₃.withRole _).widen width (Nat.le_refl _)⟩).mono ends

theorem reads_communication (keeps : g.KeepsOrder sound limit) :
    Reads sound limit g.communication (Node.Row sound) := by
  intro tokens ordered
  unfold communication
  refine (reads_expressionList keeps _).next ordered fun left rest₁ ordered₁ bound₁ spans₁ => ?_
  refine looks_peek.next fun token => ?_
  split
  · refine reads_take.next ordered₁ fun mark rest₂ ordered₂ bound₂ took₂ => ?_
    refine (keeps.expression _).next ordered₂ fun right rest₃ ordered₃ bound₃ spans₃ => ?_
    refine Yields.pure ⟨ordered₃, by omega, Node.Row.withRole ?_ _⟩
    exact spans_build rfl spans₁.starts spans₃.stops (by grind) (by grind) (by grind)
  split
  · rename_i only parts
    have spans := Spans.only spans₁ parts
    split
    · refine reads_take.next ordered₁ fun mark rest₂ ordered₂ bound₂ took₂ => ?_
      refine (keeps.expression _).next ordered₂ fun value rest₃ ordered₃ bound₃ spans₃ => ?_
      refine Yields.pure ⟨ordered₃, by omega, Node.Row.withRole ?_ _⟩
      exact spans_build rfl spans.starts spans₃.stops (by grind) (by grind) (by grind)
    · refine Yields.pure ⟨ordered₁, bound₁, Node.Row.withRole ?_ _⟩
      exact spans_build rfl spans.starts spans.stops (by grind) (by grind) (by grind)
  · exact Yields.stuck

theorem reads_selectStatement (keeps : g.KeepsOrder sound limit) :
    Reads sound limit g.selectStatement (Spans sound) := by
  intro tokens ordered
  unfold selectStatement
  refine (reads_keyword _).next ordered fun head rest₁ ordered₁ bound₁ ⟨took₁, _⟩ => ?_
  refine (reads_clauses keeps rfl (reads_communication keeps)).next ordered₁
    fun found rest₂ ordered₂ bound₂ braced₂ => ?_
  have begun : Begun sound limit (front limit tokens) head.start [] rest₁ :=
    ⟨ordered₁, Nat.le_of_eq took₁.start.symm, took₁.exact.starts, Node.row_nil.2 (by grind)⟩
  exact Yields.pure ⟨ordered₂, by omega, begun.braced rfl braced₂⟩

/-! Declarations. -/

theorem reads_initialValues (keeps : g.KeepsOrder sound limit) :
    Reads sound limit g.initialValues (Node.Row sound) := by
  intro tokens ordered
  unfold initialValues
  refine (looks_nextIs _ _).next fun equals => ?_
  split
  · refine reads_take.next ordered fun mark rest₁ ordered₁ bound₁ took₁ => ?_
    refine (reads_expressionList keeps _).next ordered₁ fun values rest₂ ordered₂ bound₂ spans₂ => ?_
    exact Yields.pure ⟨ordered₂, by omega, (spans₂.withRole _).widen bound₁ (Nat.le_refl _)⟩
  · exact Yields.pure ⟨ordered, Nat.le_refl _, Node.row_nil.2 (Nat.le_refl _)⟩

/-- A specification spans its names, type and values. -/
theorem yields_spec {kind : Kind} (plain : kind.isPlain = true) {start : List Token}
    (ordered : Ordered sound limit tokens) (row : Node.Row sound (front limit start) nodes (front limit tokens)) :
    Yields tokens (match nodes with
      | first :: rest => return .spanning kind first rest
      | [] => Reader.stuck) (Reached sound limit start (Spans sound)) := by
  cases nodes with
  | nil => exact Yields.stuck
  | cons first others => exact Yields.pure ⟨ordered, row.le, row.spanning plain⟩

theorem reads_varSpec (keeps : g.KeepsOrder sound limit) : Reads sound limit g.varSpec (Spans sound) := by
  intro tokens ordered
  unfold varSpec
  refine (reads_separated _ _ reads_word).next ordered fun names rest₁ ordered₁ bound₁ known₁ => ?_
  extract_lets named jump
  have row : Node.Row sound (front limit tokens) named (front limit rest₁) := known₁.2.leaves rfl _
  refine (looks_nextIs _ _).next fun equals => ?_
  have joins : ∀ children rest, Reached sound limit rest₁ (Node.Row sound) children rest →
      Yields rest (jump children) (Reached sound limit tokens (Spans sound)) := by
    rintro children rest₂ ⟨ordered₂, bound₂, row₂⟩
    exact yields_spec rfl ordered₂ (row.append row₂)
  clear_value jump
  split
  · exact Yields.bind ((reads_initialValues keeps rest₁ ordered₁).mono joins)
  · refine (keeps.type _).next ordered₁ fun type rest₂ ordered₂ bound₂ spans₂ => ?_
    refine (reads_initialValues keeps).next ordered₂ fun values rest₃ ordered₃ bound₃ row₃ => ?_
    exact Yields.pass (joins _ _ ⟨ordered₃, by omega, (spans₂.withRole _).append row₃⟩)

theorem reads_constNames : Reads sound limit constNames (Node.Row sound) := by
  intro tokens ordered
  unfold constNames
  have more : Reads sound limit (do
      if ← nextIs true "," then
        let comma ← take
        let name ← word
        return some [(comma.leaf .token).withRole .name, (name.leaf .identifier).withRole .name]
      else return none) (Finds (Node.Row sound)) := by
    intro tokens ordered
    refine (looks_nextIs _ _).next fun comma => ?_
    split
    · refine reads_take.next ordered fun comma rest₁ ordered₁ bound₁ took₁ => ?_
      refine reads_word.next ordered₁ fun name rest₂ ordered₂ bound₂ took₂ => ?_
      refine Yields.pure ⟨ordered₂, by omega, ?_⟩
      rintro _ ⟨⟩
      refine ⟨_, _, Nat.le_refl _, ?_, Nat.le_refl _⟩
      exact Node.Row.append (Node.Row.withRole (took₁.leaf rfl) _) (Node.Row.withRole (took₂.leaf rfl) _)
    · exact yields_nothing ordered (Nat.le_refl _)
  refine reads_word.next ordered fun first rest₁ ordered₁ bound₁ took₁ => ?_
  refine (reads_repeating more).next ordered₁ fun others rest₂ ordered₂ bound₂ known₂ => ?_
  refine Yields.pure ⟨ordered₂, by omega, ?_⟩
  exact Node.Row.append (Node.Row.withRole (took₁.leaf rfl) _) known₂.flatten

theorem reads_constSpec (keeps : g.KeepsOrder sound limit) : Reads sound limit g.constSpec (Spans sound) := by
  intro tokens ordered
  unfold constSpec
  refine reads_constNames.next ordered fun names rest₁ ordered₁ bound₁ row₁ => ?_
  refine (looks_nextIs _ _).next fun equals => ?_
  refine (looks_nextOnLine _ _).next fun typed => ?_
  extract_lets jump
  have joins : ∀ children rest, Reached sound limit rest₁ (Node.Row sound) children rest →
      Yields rest (jump children) (Reached sound limit tokens (Spans sound)) := by
    rintro children rest₂ ⟨ordered₂, bound₂, row₂⟩
    exact yields_spec rfl ordered₂ (row₁.append row₂)
  clear_value jump
  split
  · exact Yields.bind ((reads_initialValues keeps rest₁ ordered₁).mono joins)
  split
  · refine (keeps.type _).next ordered₁ fun type rest₂ ordered₂ bound₂ spans₂ => ?_
    refine (reads_initialValues keeps).next ordered₂ fun values rest₃ ordered₃ bound₃ row₃ => ?_
    split
    · exact Yields.bind Yields.stuck
    · exact Yields.pass (joins _ _ ⟨ordered₃, by omega, (spans₂.withRole _).append row₃⟩)
  · exact Yields.pass (joins _ _ ⟨ordered₁, Nat.le_refl _, Node.row_nil.2 (Nat.le_refl _)⟩)

theorem reads_typeSpecRest (keeps : g.KeepsOrder sound limit) {name : Token} {parameters : List Node} {middle : Nat}
    {tokens : List Token} (ordered : Ordered sound limit tokens) (took : Took sound before name middle)
    (row : Node.Row sound middle parameters (front limit tokens)) :
    Yields tokens (g.typeSpecRest name parameters) (Extended sound limit before) := by
  unfold typeSpecRest
  extract_lets head jump
  have heads : Node.Row sound name.start head (front limit tokens) := by
    have leaf : Spans sound before (name.leaf .typeIdentifier) middle := took.leaf rfl
    exact (leaf.from_start.withRole .name).append row
  refine (looks_nextIs _ _).next fun equals => ?_
  have joins : ∀ kind rest, kind.isPlain = true → Ordered sound limit rest →
      front limit tokens ≤ front limit rest → Yields rest (jump kind) (Extended sound limit before) := by
    intro kind rest₁ plain ordered₁ bound₁
    refine (keeps.type _).next ordered₁ fun type rest₂ ordered₂ bound₂ spans₂ => Yields.pure ⟨ordered₂, ?_⟩
    have whole := (heads.widen (Nat.le_refl _) bound₁).append (spans₂.to_stop.withRole .type)
    exact spans_build plain took.exact.starts spans₂.stops whole (by grind) (by grind)
  clear_value jump
  split
  · refine reads_take.next ordered fun mark rest₁ ordered₁ bound₁ took₁ => ?_
    exact Yields.pass (joins _ _ rfl ordered₁ bound₁)
  · exact Yields.pass (joins _ _ rfl ordered (Nat.le_refl _))

theorem reads_typeSpec (keeps : g.KeepsOrder sound limit) : Reads sound limit g.typeSpec (Spans sound) := by
  intro tokens ordered
  have ends : ∀ node rest, Extended sound limit (front limit tokens) node rest →
      Reached sound limit tokens (Spans sound) node rest := by
    rintro node rest ⟨ordered, spans⟩
    exact ⟨ordered, spans.le, spans⟩
  unfold typeSpec
  refine reads_word.next ordered fun name rest₁ ordered₁ bound₁ took₁ => ?_
  have plain := (reads_typeSpecRest keeps ordered₁ took₁ (Node.row_nil.2 (Nat.le_refl _))).mono ends
  refine (looks_nextIs _ _).next fun bracket => ?_
  split
  · refine Yields.either ?_ plain
    refine (reads_typeParameters keeps).next ordered₁ fun parameters rest₂ ordered₂ bound₂ spans₂ => ?_
    exact (reads_typeSpecRest keeps ordered₂ took₁ (spans₂.withRole _)).mono ends
  · exact plain

/-- Specifications, with the span of the parentheses around them if there are any. -/
def Specified (sound : Nat → Prop) (before : Nat) (found : List Node × Option (Nat × Nat)) (after : Nat) : Prop :=
  match found.2 with
  | some (start, stop) => before ≤ start ∧ sound start ∧ sound stop ∧ Node.Row sound start found.1 stop ∧ stop ≤ after
  | none => Node.Row sound before found.1 after

theorem reads_specifications {spec : Reader Node} (reads : Reads sound limit spec (Spans sound)) :
    Reads sound limit (specifications spec) (Specified sound) := by
  intro tokens ordered
  unfold specifications
  refine (looks_nextIs _ _).next fun bracket => ?_
  split
  · refine reads_take.next ordered fun opening rest₁ ordered₁ bound₁ took₁ => ?_
    refine (reads_closedLineList _ reads).next ordered₁ fun found rest₂ ordered₂ bound₂ known₂ => ?_
    refine (reads_mark _).next ordered₂ fun closing rest₃ ordered₃ bound₃ ⟨took₃, _⟩ => ?_
    refine Yields.pure ⟨ordered₃, by omega, ?_⟩
    exact ⟨Nat.le_of_eq took₁.start.symm, took₁.exact.starts, took₃.exact.stops,
      known₂.row.widen (by grind) (by grind), took₃.stop⟩
  · exact reads.next ordered fun found rest₁ ordered₁ bound₁ spans₁ => Yields.pure ⟨ordered₁, bound₁, spans₁⟩

theorem spans_declarationNode {kind : Kind} (plain : kind.isPlain = true) {middle after : Nat} {head : Token}
    {found : List Node × Option (Nat × Nat)} (took : Took sound before head middle)
    (specified : Specified sound middle found after) :
    Spans sound before (declarationNode kind head found) after := by
  obtain ⟨specs, parentheses⟩ := found
  cases parentheses with
  | none => exact spans_headed plain took specified
  | some span =>
      obtain ⟨lower, _, stops, row, upper⟩ := specified
      exact spans_build plain took.exact.starts stops (row.widen (by grind) (Nat.le_refl _))
        (Nat.le_of_eq took.start.symm) upper

theorem reads_constDeclaration (keeps : g.KeepsOrder sound limit) :
    Reads sound limit g.constDeclaration (Spans sound) := by
  intro tokens ordered
  unfold constDeclaration
  refine (reads_keyword _).next ordered fun head rest₁ ordered₁ bound₁ ⟨took₁, _⟩ => ?_
  refine (reads_specifications (reads_constSpec keeps)).next ordered₁ fun found rest₂ ordered₂ bound₂ specified => ?_
  exact Yields.pure ⟨ordered₂, by omega, spans_declarationNode rfl took₁ specified⟩

theorem reads_typeDeclaration (keeps : g.KeepsOrder sound limit) :
    Reads sound limit g.typeDeclaration (Spans sound) := by
  intro tokens ordered
  unfold typeDeclaration
  refine (reads_keyword _).next ordered fun head rest₁ ordered₁ bound₁ ⟨took₁, _⟩ => ?_
  refine (reads_specifications (reads_typeSpec keeps)).next ordered₁ fun found rest₂ ordered₂ bound₂ specified => ?_
  exact Yields.pure ⟨ordered₂, by omega, spans_declarationNode rfl took₁ specified⟩

theorem reads_varDeclaration (keeps : g.KeepsOrder sound limit) :
    Reads sound limit g.varDeclaration (Spans sound) := by
  intro tokens ordered
  unfold varDeclaration
  refine (reads_keyword _).next ordered fun head rest₁ ordered₁ bound₁ ⟨took₁, _⟩ => ?_
  refine (reads_specifications (reads_varSpec keeps)).next ordered₁ fun found rest₂ ordered₂ bound₂ specified => ?_
  split
  · rename_i specs start stop
    obtain ⟨lower, starts, stops, row, upper⟩ := specified
    have list : Spans sound start (.build .varSpecList start stop specs) stop :=
      spans_build rfl starts stops row (Nat.le_refl _) (Nat.le_refl _)
    refine Yields.pure ⟨ordered₂, by omega, ?_⟩
    exact spans_build rfl took₁.exact.starts stops (list.widen (by grind) (Nat.le_refl _)) (by grind) upper
  · exact Yields.pure ⟨ordered₂, by omega, spans_declarationNode rfl took₁ specified⟩

/-! Jumps and other statements. -/

theorem reads_jump {kind : Kind} (plain : kind.isPlain = true) (labelNeeded : Bool) :
    Reads sound limit (jump kind labelNeeded) (Spans sound) := by
  intro tokens ordered
  unfold jump
  refine reads_take.next ordered fun head rest₁ ordered₁ bound₁ took₁ => ?_
  refine (looks_nextOnLine _ _).next fun labeled => ?_
  split
  · refine reads_take.next ordered₁ fun label rest₂ ordered₂ bound₂ took₂ => ?_
    have leaf : Spans sound _ (label.leaf .labelName) _ := took₂.leaf rfl
    refine Yields.pure ⟨ordered₂, by omega, ?_⟩
    exact spans_build plain took₁.exact.starts took₂.exact.stops (by grind) (by grind) (by grind)
  split
  · exact Yields.stuck
  · exact Yields.pure ⟨ordered₁, bound₁, took₁.leaf plain⟩

theorem reads_returnStatement (keeps : g.KeepsOrder sound limit) :
    Reads sound limit g.returnStatement (Spans sound) := by
  intro tokens ordered
  unfold returnStatement
  refine (reads_keyword _).next ordered fun head rest₁ ordered₁ bound₁ ⟨took₁, _⟩ => ?_
  refine looks_peek.next fun token => ?_
  refine looks_atTerminator.next fun ended => ?_
  split
  · exact Yields.pure ⟨ordered₁, bound₁, took₁.leaf rfl⟩
  · refine (reads_expressionList keeps _).next ordered₁ fun values rest₂ ordered₂ bound₂ spans₂ => ?_
    refine Yields.pure ⟨ordered₂, by omega, ?_⟩
    exact spans_build rfl took₁.exact.starts spans₂.stops (by grind) (by grind) (by grind)

theorem reads_launch (keeps : g.KeepsOrder sound limit) {kind : Kind} (plain : kind.isPlain = true) :
    Reads sound limit (g.launch kind) (Spans sound) := by
  intro tokens ordered
  unfold launch
  refine reads_take.next ordered fun head rest₁ ordered₁ bound₁ took₁ => ?_
  refine (keeps.expression _).next ordered₁ fun call rest₂ ordered₂ bound₂ spans₂ => ?_
  refine Yields.pure ⟨ordered₂, by omega, ?_⟩
  exact spans_build plain took₁.exact.starts spans₂.stops (by grind) (by grind) (by grind)

theorem reads_labeledStatement (keeps : g.KeepsOrder sound limit) :
    Reads sound limit g.labeledStatement (Spans sound) := by
  intro tokens ordered
  unfold labeledStatement
  refine reads_word.next ordered fun label rest₁ ordered₁ bound₁ took₁ => ?_
  refine (reads_mark _).next ordered₁ fun colon rest₂ ordered₂ bound₂ ⟨took₂, _⟩ => ?_
  have leaf : Spans sound _ (label.leaf .labelName) _ := took₁.leaf rfl
  extract_lets name
  refine looks_peek.next fun token => ?_
  split
  · refine Yields.pure ⟨ordered₂, by omega, ?_⟩
    exact spans_build rfl took₁.exact.starts took₂.exact.stops (by grind) (by grind) (by grind)
  · refine keeps.statement.next ordered₂ fun statement rest₃ ordered₃ bound₃ spans₃ => ?_
    refine Yields.pure ⟨ordered₃, by omega, ?_⟩
    exact spans_build rfl took₁.exact.starts spans₃.stops (by grind) (by grind) (by grind)

theorem reads_statementStep (keeps : g.KeepsOrder sound limit) : Reads sound limit g.statementStep (Spans sound) := by
  intro tokens ordered
  unfold statementStep
  refine Yields.peek fun token is => ?_
  refine looks_peekSecond.next fun second => ?_
  have word : ∀ {kind : Kind}, kind.isPlain = true → Yields tokens (take >>= fun _ => pure (token.leaf kind))
      (Reached sound limit tokens (Spans sound)) := by
    intro kind plain
    refine Yields.take ordered fun token' rest₁ is' ordered₁ bound₁ took₁ => ?_
    obtain rfl := is'.symm.trans is
    exact Yields.pure ⟨ordered₁, bound₁, took₁.leaf plain⟩
  have simple := reads_simpleStatement keeps .statement .statement tokens ordered
  split
  · refine (keeps.block tokens ordered).mono ?_
    rintro node rest ⟨ordered₁, bound₁, spans₁, _⟩
    exact ⟨ordered₁, bound₁, spans₁⟩
  split
  · exact word rfl
  split
  · exact simple
  split
  · exact reads_constDeclaration keeps tokens ordered
  · exact reads_typeDeclaration keeps tokens ordered
  · exact reads_varDeclaration keeps tokens ordered
  · exact reads_returnStatement keeps tokens ordered
  · exact reads_launch keeps rfl tokens ordered
  · exact reads_launch keeps rfl tokens ordered
  · exact reads_ifStatement keeps tokens ordered
  · exact reads_forStatement keeps tokens ordered
  · exact reads_switchStatement keeps tokens ordered
  · exact reads_selectStatement keeps tokens ordered
  · exact word rfl
  · exact reads_jump rfl _ tokens ordered
  · exact reads_jump rfl _ tokens ordered
  · exact reads_jump rfl _ tokens ordered
  · split
    · exact reads_labeledStatement keeps tokens ordered
    · exact simple

end Grammar
end TraceWeave.Go
