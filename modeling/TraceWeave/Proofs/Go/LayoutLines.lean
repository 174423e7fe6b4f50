import TraceWeave.Proofs.Go.LayoutStatements

/-!
Where statements begin and end. A statement begins with the first token that is taken for it and ends with the last
one, whatever it is; so nothing but what ends a line stands between two statements.
-/
namespace TraceWeave.Go

namespace Reader

open Token (startOf? stopOf?)

variable {all : List Token} {α β : Type} {reader : Reader α} {later : α → Reader β} {known : List Token → Prop}
  {spec spec' : List Token → α → Prop} {post : α → Prop} {stop : β → Nat} {final : β → Prop}

/-- Two accounts of what a reader takes. -/
theorem TakesFrom.both (takes : TakesFrom all known reader spec) (takes' : TakesFrom all known reader spec') :
    TakesFrom all known reader fun used found => spec used found ∧ spec' used found := by
  intro tokens inside is found rest result
  obtain ⟨used, split, holds⟩ := takes tokens inside is found rest result
  obtain ⟨used', split', holds'⟩ := takes' tokens inside is found rest result
  obtain rfl : used = used' := List.append_cancel_right (split.symm.trans split')
  exact ⟨used, split, holds, holds'⟩

/-- What was found ends with the last token. -/
def Ends (stop : α → Nat) (post : α → Prop) (used : List Token) (found : α) : Prop :=
  stopOf? used = some (stop found) ∧ post found

theorem Ends.after {used : List Token} {found : β} (ends : Ends stop final used found) (before : List Token) :
    Ends stop final (before ++ used) found := by
  refine ⟨?_, ends.2⟩
  rw [Token.stopOf?_append, ends.1]
  rfl

/-- What is taken first does not matter for the end. -/
theorem TakesFrom.skip (first : TakesFrom all known reader (Stay post))
    (next : ∀ found, post found → Takes all (later found) (Ends stop final)) :
    TakesFrom all known (reader >>= later) (Ends stop final) :=
  first.bind fun used found taken => (next found taken.2).mono fun _ _ ends => ends.after used

theorem sees_skip {token : Token} {later : Token → Reader β} (next : Takes all (later token) (Ends stop final)) :
    Sees all token (take >>= later) (Ends stop final) :=
  sees_take (next.mono fun _ _ ends => ends.after [token])

end Reader

namespace Grammar

open Reader
open Node (Laid Phrase Bounds)
open Token (startOf? stopOf?)

/-- Neither a token of the parent nor a comment. -/
def IsPart (node : Node) : Prop := (node.kind.isNamed && node.kind != .comment) = true

/-- A part of its parent that begins and ends with the tokens taken. -/
def Bounded (used : List Token) (node : Node) : Prop := Bounds used node ∧ IsPart node

/-- The end of a statement that begins at an offset. -/
abbrev Closes (start : Nat) : List Token → Node → Prop := Ends Node.stop fun node => node.start = start ∧ IsPart node

/-- Nodes of which the last one ends with the last token, if there are any. -/
def Tail (used : List Token) (nodes : List Node) : Prop :=
  used = [] ∧ nodes = [] ∨ ∃ last, nodes.getLast? = some last ∧ stopOf? used = some last.stop

/-- A list that is no longer than its only element. -/
def Sole (list : Node) : Prop := ∀ only, list.children = [only] → only.start = list.start ∧ only.stop = list.stop

variable {all used used' : List Token} {nodes nodes' : List Node} {node : Node} {head : Token}

theorem Bounded.of_closes (closes : Closes head.start used node) : Bounded (head :: used) node := by
  obtain ⟨stops, starts, part⟩ := closes
  refine ⟨⟨?_, ?_⟩, part⟩
  · rw [Token.startOf?_cons, starts]
  · rw [Token.stopOf?_cons, stops]
    rfl

theorem bounded_of_phrase (phrase : Phrase all used node) : Bounded used node := ⟨⟨phrase.starts, phrase.stops⟩, phrase.part⟩

theorem Tail.append (tail : Tail used nodes) (tail' : Tail used' nodes') : Tail (used ++ used') (nodes ++ nodes') := by
  rcases tail' with ⟨rfl, rfl⟩ | ⟨last, listed, stops⟩
  · simpa using tail
  · refine .inr ⟨last, ?_, ?_⟩
    · rw [List.getLast?_append, listed]
      rfl
    · rw [Token.stopOf?_append, stops]
      rfl

theorem tail_single (stops : stopOf? used = some node.stop) : Tail used [node] := .inr ⟨node, rfl, stops⟩

/-- A node that spans others ends where the last of them does. -/
theorem Tail.spanning {kind : Kind} {first : Node} {rest : List Node} (tail : Tail used (first :: rest)) :
    stopOf? used = some (Node.spanning kind first rest).stop := by
  rcases tail with ⟨_, contrary⟩ | ⟨last, listed, stops⟩
  · cases contrary
  · have same : last = rest.getLastD first := by
      rw [List.getLast?_cons, ← List.getLastD_eq_getLast?] at listed
      exact (Option.some.inj listed).symm
    rw [stops, same]
    rfl

theorem Tail.endOf {before : Nat} (tail : Tail used nodes) (some : nodes ≠ []) :
    stopOf? used = Option.some (Grammar.endOf before nodes) := by
  rcases tail with ⟨_, none⟩ | ⟨last, listed, stops⟩
  · exact absurd none some
  · rw [stops, Grammar.endOf, listed]

/-! Lists with marks between. -/

/-- Elements with marks between begin with the first and end with the last. -/
theorem takes_separated {α : Type} (start stop : α → Nat) (lineEnds : Bool) (text : String) {element : Reader α}
    (takes : Takes all element fun used found => startOf? used = some (start found) ∧ stopOf? used = some (stop found)) :
    Takes all (separated lineEnds text element) fun used found => ∃ first rest, found = first :: rest ∧
      startOf? used = some (start first) ∧ stopOf? used = some (stop (rest.getLastD first)) := by
  refine takes.bind fun used first taken => ?_
  have step : Takes all (do
      if ← nextIs lineEnds text then
        let _ ← mark text
        return some (← element)
      else return none) fun used found =>
        (found = none → used = []) ∧ ∀ value, found = some value → stopOf? used = some (stop value) := by
    refine (looks_nextIs _ _).asks fun more => ?_
    split
    · refine (takes_mark text).token fun mark _ => takes.last fun used value taken => ⟨by simp, ?_⟩
      rintro _ ⟨⟩
      rw [Token.stopOf?_cons, taken.2]
      rfl
    · exact .pure ⟨fun _ => rfl, by simp⟩
  refine (takes_repeating step).last fun used' rest run => ⟨first, rest, rfl, ?_, ?_⟩
  · rw [Token.startOf?_append, taken.1]
    rfl
  · have stops := taken.2
    clear taken
    induction run generalizing used first with
    | stop => simpa using stops
    | done ended =>
        rw [ended.1 rfl, List.append_nil]
        exact stops
    | more taken _ ih =>
        rw [← List.append_assoc, List.getLastD_cons]
        refine ih _ _ ?_
        rw [Token.stopOf?_append, taken.2 _ rfl]
        rfl

variable {g : Grammar} (lays : g.LaysOut all)
include lays

theorem takes_expressionList (mode : Mode) :
    Takes all (g.expressionList mode) fun used list => Bounded used list ∧ Sole list := by
  have each := takes_separated Node.start Node.stop mode.lineEnds "," ((lays.expression mode).mono fun _ _ phrase =>
    ⟨phrase.starts, phrase.stops⟩)
  refine each.bind ?_
  rintro used _ ⟨first, rest, rfl, starts, stops⟩
  refine .pure ⟨⟨⟨?_, ?_⟩, rfl⟩, fun only sole => ?_⟩
  · rw [List.append_nil]
    exact starts
  · rw [List.append_nil]
    exact stops
  · cases sole
    exact ⟨rfl, rfl⟩

/-! Simple statements. -/

theorem takes_simpleRest (mode right : Mode) {before : List Token} {left : Node} (bounded : Bounded before left)
    (sole : Sole left) : Takes all (g.simpleRest mode right left) fun used node => Bounded (before ++ used) node := by
  have from_ : ∀ {used node}, Closes left.start used node → Bounded (before ++ used) node := by
    rintro used node ⟨stops, starts, part⟩
    refine ⟨⟨?_, ?_⟩, part⟩
    · rw [Token.startOf?_append, bounded.1.starts, starts]
      rfl
    · rw [Token.stopOf?_append, stops]
      rfl
  unfold simpleRest
  refine takes_peek fun token => ?_
  extract_lets here
  split
  · refine (sees_skip ?_).mono fun _ _ => from_
    exact (takes_expressionList lays right).last fun _ _ taken => ⟨taken.1.1.stops, rfl, rfl⟩
  split
  · refine (sees_skip ?_).mono fun _ _ => from_
    exact (takes_expressionList lays right).last fun _ _ taken => ⟨taken.1.1.stops, rfl, rfl⟩
  split
  · rename_i only children
    obtain ⟨starts, stops⟩ := sole only children
    split
    · exact sees_take (.pure (from_ ⟨rfl, starts, rfl⟩))
    split
    · exact sees_take (.pure (from_ ⟨rfl, starts, rfl⟩))
    split
    · refine (sees_skip ?_).mono fun _ _ => from_
      exact (lays.expression right).last fun _ _ phrase => ⟨phrase.stops, starts, rfl⟩
    · refine .pure ⟨⟨?_, ?_⟩, rfl⟩
      · rw [List.append_nil, bounded.1.starts, ← starts]
        rfl
      · rw [List.append_nil, bounded.1.stops, ← stops]
        rfl
  · exact takes_stuck

theorem takes_simpleStatement (mode right : Mode) : Takes all (g.simpleStatement mode right) Bounded :=
  (takes_expressionList lays mode).bind fun _ _ taken => takes_simpleRest lays mode right taken.1 taken.2

/-! Statements with blocks. -/

theorem takes_ifStatement : Takes all g.ifStatement Bounded := by
  unfold ifStatement
  refine (takes_keyword _).token fun head _ => TakesFrom.mono ?_ fun _ _ => Bounded.of_closes
  refine (stays_simpleStatement lays _ _).skip fun first known => takes_nextIs fun token initialized is => ?_
  extract_lets jump
  have joins : ∀ found : List Node × Node, Takes all (jump found) (Closes head.start) := by
    rintro ⟨initializer, condition⟩
    refine lays.block.bind fun used consequence known₃ => takes_nextOnLine fun token otherwise is => ?_
    extract_lets jump' jump''
    have joins' : ∀ used' alternative, Tail used' alternative →
        Takes all (jump' alternative) fun rest => Closes head.start (used ++ (used' ++ rest)) := by
      intro used' alternative tail
      have whole : Tail (used ++ used')
          (initializer ++ [condition.withRole .condition, consequence.withRole .consequence] ++ alternative) :=
        Tail.append (.inr ⟨consequence.withRole .consequence, by simp, known₃.stops⟩) tail
      refine .pure ⟨?_, rfl, rfl⟩
      rw [List.append_nil]
      exact whole.endOf (by simp)
    clear_value jump'
    have joins'' : ∀ used' other, Bounds used' other →
        Takes all (jump'' other) fun rest => Closes head.start (used ++ (token :: used' ++ rest)) := by
      intro used' other bounds
      refine .pass (joins' (token :: used') _ (tail_single ?_))
      rw [Token.stopOf?_cons, bounds.stops]
      rfl
    split
    · refine sees_take (looks_peek.asks fun word => ?_)
      split
      · exact lays.statement.bind fun used' other line => joins'' used' other line.toBounds
      · exact lays.block.bind fun used' other phrase => joins'' used' other ⟨phrase.starts, phrase.stops⟩
    · exact TakesFrom.here (.pass (joins' [] [] (.inl ⟨rfl, rfl⟩)))
  clear_value jump
  split
  · exact sees_skip ((lays.expression _).stays.skip fun condition known' => .pass (joins _))
  · exact TakesFrom.here ((stays_soleExpression known).skip fun condition known' => .pass (joins _))

theorem takes_forStatement : Takes all g.forStatement Bounded := by
  refine (takes_keyword _).token fun head _ => TakesFrom.mono ?_ fun _ _ => Bounded.of_closes
  exact (stays_forHead lays).skip fun clause _ => lays.block.last fun used body known => ⟨known.stops, rfl, rfl⟩

theorem takes_clauses {kind : Kind} (free : Node.NoList kind) {head : Reader (List Node)}
    (stays : Takes all head (Stay (LaidAll all))) :
    Takes all (g.clauses kind head) (Ends Prod.snd fun _ => True) := by
  refine (takes_mark _).token fun opening opens => ?_
  refine TakesFrom.mono ?_ fun _ _ ends => Ends.after ends [opening]
  refine (stays_repeating (Laid all) (stays_clause lays free stays)).skip fun found _ => ?_
  exact (takes_mark _).token fun closing _ => .pure ⟨rfl, trivial⟩

theorem takes_expressionSwitch (start : Nat) (head : List Node) :
    Takes all (g.expressionSwitch start head) (Closes start) := by
  refine (takes_clauses lays (by simp) ?_).last fun used found ends => ⟨ends.1, rfl, rfl⟩
  exact (stays_expressionList lays _).next fun values known => stays_pure (by simpa using known)

omit lays in
/-- Pass the guard of a type switch. -/
theorem skip_guard {β : Type} {reader : Reader β} {stop : β → Nat} {final : β → Prop}
    (next : Takes all reader (Ends stop final)) :
    TakesFrom all AtGuard (take >>= fun _ => take >>= fun _ => take >>= fun _ => take >>= fun _ => reader)
      (Ends stop final) := by
  rintro tokens inside ⟨dot, opening, word, closing, rest, rfl, _⟩
  have behind : rest <:+ all := (List.suffix_append [dot, opening, word, closing] rest).trans inside
  intro found rest' result
  obtain ⟨used, rfl, ends⟩ := next rest behind trivial found rest' result
  exact ⟨[dot, opening, word, closing] ++ used, rfl, ends.after _⟩

theorem ends_typeSwitch (start : Nat) (initializer : List Node) (subject : Node) :
    TakesFrom all AtGuard (g.typeSwitch start initializer subject) (Closes start) := by
  unfold typeSwitch
  refine skip_guard ?_
  extract_lets jump
  have joins : ∀ head : List Node, Takes all (jump head) (Closes start) := by
    intro head
    refine (takes_clauses lays (by simp) ?_).last fun used found ends => ⟨ends.1, rfl, rfl⟩
    refine (stays_separated _ _ (by decide) (lays.type _).stays).next fun types known₂ => stays_pure ?_
    intro node member
    obtain ⟨type, listed, rfl⟩ := List.mem_map.1 member
    simpa using known₂ type listed
  split
  · exact .pass (joins _)
  · split
    · exact .pass (joins _)
    · exact takes_stuck.bind fun _ _ (contrary : False) => contrary.elim
  · exact takes_stuck.bind fun _ _ (contrary : False) => contrary.elim

theorem takes_switchStatement : Takes all g.switchStatement Bounded := by
  unfold switchStatement
  refine (takes_keyword _).token fun head _ => TakesFrom.mono ?_ fun _ _ => Bounded.of_closes
  have guarded : ∀ {found : Bool} {reader : Reader Node}, TakesFrom all AtGuard reader (Closes head.start) →
      found = true → TakesFrom all (fun tokens => found = true → AtGuard tokens) reader (Closes head.start) :=
    fun takes yes tokens inside at_ => takes tokens inside (at_ yes)
  extract_lets mode
  refine (looks_nextIs _ _).asks fun bare => ?_
  split
  · exact takes_expressionSwitch lays _ _
  refine (stays_simpleStatement lays _ _).skip fun first known => takes_atTypeGuard fun found => ?_
  split
  · rename_i yes
    exact guarded (ends_typeSwitch lays _ _ _) yes
  refine TakesFrom.here (takes_nextIs fun token initialized is => ?_)
  split
  · refine sees_skip ?_
    extract_lets initializer
    refine (looks_nextIs _ _).asks fun bare => ?_
    split
    · exact takes_expressionSwitch lays _ _
    refine (stays_simpleStatement lays _ _).skip fun second known₂ => takes_atTypeGuard fun found => ?_
    split
    · rename_i yes
      exact guarded (ends_typeSwitch lays _ _ _) yes
    · exact TakesFrom.here ((stays_soleExpression known₂).skip fun value _ => takes_expressionSwitch lays _ _)
  · exact TakesFrom.here ((stays_soleExpression known).skip fun value _ => takes_expressionSwitch lays _ _)

theorem takes_selectStatement : Takes all g.selectStatement Bounded := by
  refine (takes_keyword _).token fun head _ => TakesFrom.mono ?_ fun _ _ => Bounded.of_closes
  exact (takes_clauses lays (by simp) (stays_communication lays)).last fun used found ends => ⟨ends.1, rfl, rfl⟩

/-! Declarations. -/

theorem takes_initialValues : Takes all g.initialValues Tail := by
  unfold initialValues
  refine takes_nextIs fun token given is => ?_
  split
  · refine sees_take ((takes_expressionList lays _).last fun used values taken => tail_single ?_)
    rw [Token.stopOf?_cons, taken.1.1.stops]
    rfl
  · exact .pure (.inl ⟨rfl, rfl⟩)

omit lays in
/-- A node that spans a row of nodes. -/
theorem takes_spanning {kind : Kind} {nodes : List Node} (tail : Tail used nodes) :
    Takes all (match nodes with
      | first :: rest => pure (Node.spanning kind first rest)
      | [] => stuck) fun used' node => stopOf? (used ++ used') = some node.stop := by
  split
  · refine .pure ?_
    rw [List.append_nil]
    exact tail.spanning
  · exact takes_stuck

/-- Names and what follows them in one node. -/
abbrev EndsSpec (used : List Token) (node : Node) : Prop := stopOf? used = some node.stop

theorem takes_varSpec : Takes all g.varSpec EndsSpec := by
  unfold varSpec
  have names := takes_separated Token.start Token.stop false "," ((@takes_word all).mono fun used name taken =>
    ⟨by rw [taken.1]; rfl, by rw [taken.1]; rfl⟩)
  refine names.bind ?_
  rintro used _ ⟨first, rest, rfl, _, stops⟩
  extract_lets named jump
  have tail : Tail used named := by
    refine .inr ⟨((rest.getLastD first).leaf .identifier).withRole .name, ?_, stops⟩
    rw [List.getLast?_map, List.getLast?_cons, List.getLastD_eq_getLast?]
    rfl
  have joins : ∀ used' children, Tail used' children → Takes all (jump children) fun rest => EndsSpec (used ++ (used' ++ rest)) := by
    intro used' children tail'
    refine (takes_spanning (tail.append tail')).mono fun rest node stops => ?_
    rwa [List.append_assoc] at stops
  clear_value jump
  refine (looks_nextIs _ _).asks fun given => ?_
  split
  · exact (takes_initialValues lays).bind joins
  · refine (lays.type _).bind fun used₁ type phrase => (takes_initialValues lays).bind fun used₂ values tail₂ => .pass ?_
    have type' : Tail used₁ [type.withRole .type] := tail_single phrase.stops
    refine (joins _ _ (type'.append tail₂)).mono fun rest node stops => ?_
    rwa [List.append_assoc] at stops

omit lays in
theorem takes_constNames : Takes all constNames Tail := by
  unfold constNames
  refine takes_word.token fun first _ => ?_
  have step : Takes all (do
      if ← nextIs true "," then
        let comma ← take
        let name ← word
        return some [(comma.leaf .token).withRole .name, (name.leaf .identifier).withRole .name]
      else return none) fun used found => (found = none → used = []) ∧ ∀ nodes, found = some nodes → Tail used nodes := by
    refine takes_nextIs fun token more is => ?_
    split
    · refine sees_take (takes_word.token fun name _ => .pure ⟨by simp, ?_⟩)
      rintro _ ⟨⟩
      exact .inr ⟨_, rfl, rfl⟩
    · exact .pure ⟨fun _ => rfl, by simp⟩
  refine (takes_repeating step).last fun used rest run => ?_
  have names : Tail used rest.flatten := by
    induction run with
    | stop => exact .inl ⟨rfl, rfl⟩
    | done ended => exact .inl ⟨ended.1 rfl, rfl⟩
    | more taken _ ih => exact (taken.2 _ rfl).append ih
  have begins : Tail [first] [(first.leaf .identifier).withRole .name] := tail_single rfl
  exact begins.append names

theorem takes_constSpec : Takes all g.constSpec EndsSpec := by
  unfold constSpec
  refine takes_constNames.bind fun used names tail => (looks_nextIs _ _).asks fun given => ?_
  refine (looks_nextOnLine _ _).asks fun typed => ?_
  extract_lets jump
  have joins : ∀ used' children, Tail used' children → Takes all (jump children) fun rest => EndsSpec (used ++ (used' ++ rest)) := by
    intro used' children tail'
    refine (takes_spanning (tail.append tail')).mono fun rest node stops => ?_
    rwa [List.append_assoc] at stops
  clear_value jump
  split
  · exact (takes_initialValues lays).bind joins
  split
  · refine (lays.type _).bind fun used₁ type phrase => (takes_initialValues lays).bind fun used₂ values tail₂ => ?_
    have type' : Tail used₁ [type.withRole .type] := tail_single phrase.stops
    split
    · exact takes_stuck.bind fun _ _ (contrary : False) => contrary.elim
    · refine .pass ?_
      refine (joins _ _ (type'.append tail₂)).mono fun rest node stops => ?_
      rwa [List.append_assoc] at stops
  · exact .pass (joins [] [] (.inl ⟨rfl, rfl⟩))

theorem takes_typeSpecRest (name : Token) (parameters : List Node) :
    Takes all (g.typeSpecRest name parameters) (Ends Node.stop fun _ => True) := by
  unfold typeSpecRest
  extract_lets head jump
  refine takes_nextIs fun token equals is => ?_
  have joins : ∀ kind : Kind, Takes all (jump kind) (Ends Node.stop fun _ => True) := fun kind =>
    (lays.type _).last fun used type phrase => ⟨phrase.stops, trivial⟩
  clear_value jump
  split
  · exact sees_skip (.pass (joins _))
  · exact TakesFrom.here (.pass (joins _))

theorem takes_typeSpec : Takes all g.typeSpec EndsSpec := by
  have ends : Takes all g.typeSpec (Ends Node.stop fun _ => True) := by
    refine stays_word.skip fun name _ => (looks_nextIs _ _).asks fun bracket => ?_
    have plain := takes_typeSpecRest lays name []
    split
    · refine TakesFrom.either ?_ plain
      exact (stays_typeParameters lays).skip fun parameters _ => takes_typeSpecRest lays name _
    · exact plain
  exact ends.mono fun _ _ found => found.1

omit lays in
/-- Specifications end with a parenthesis, or there is one and ends itself. -/
theorem takes_specifications {spec : Reader Node} (stays : Takes all spec (Stay (Laid all))) (takes : Takes all spec EndsSpec) :
    Takes all (specifications spec) fun used found => (∃ start stop, found.2 = some (start, stop) ∧ stopOf? used = some stop) ∨
      found.2 = none ∧ ∃ node, found.1 = [node] ∧ stopOf? used = some node.stop := by
  unfold specifications
  refine takes_nextIs fun opening grouped is => ?_
  split
  · refine sees_take ((stays_closedLineList ")" stays).bind fun used found _ => (takes_mark _).token fun closing _ => .pure ?_)
    exact .inl ⟨_, _, rfl, by simp⟩
  · exact TakesFrom.here (takes.last fun used node stops => .inr ⟨rfl, node, rfl, stops⟩)

omit lays in
theorem closes_declarationNode {kind : Kind} (part : (kind.isNamed && kind != .comment) = true)
    {found : List Node × Option (Nat × Nat)}
    (ends : (∃ start stop, found.2 = some (start, stop) ∧ stopOf? used = some stop) ∨
      found.2 = none ∧ ∃ node, found.1 = [node] ∧ stopOf? used = some node.stop) :
    Closes head.start used (declarationNode kind head found) := by
  unfold declarationNode
  rcases ends with ⟨start, stop, grouped, stops⟩ | ⟨alone, node, same, stops⟩
  · rw [grouped]
    exact ⟨stops, rfl, part⟩
  · rw [alone, same]
    exact ⟨stops, rfl, part⟩

theorem takes_constDeclaration : Takes all g.constDeclaration Bounded := by
  refine (takes_keyword _).token fun head _ => TakesFrom.mono ?_ fun _ _ => Bounded.of_closes
  exact (takes_specifications (stays_constSpec lays) (takes_constSpec lays)).last fun _ _ ends =>
    closes_declarationNode rfl ends

theorem takes_typeDeclaration : Takes all g.typeDeclaration Bounded := by
  refine (takes_keyword _).token fun head _ => TakesFrom.mono ?_ fun _ _ => Bounded.of_closes
  exact (takes_specifications (stays_typeSpec lays) (takes_typeSpec lays)).last fun _ _ ends =>
    closes_declarationNode rfl ends

theorem takes_varDeclaration : Takes all g.varDeclaration Bounded := by
  refine (takes_keyword _).token fun head _ => TakesFrom.mono ?_ fun _ _ => Bounded.of_closes
  refine (takes_specifications (stays_varSpec lays) (takes_varSpec lays)).bind fun used found ends => ?_
  split
  · rename_i specs start stop
    rcases ends with ⟨_, _, ⟨⟩, stops⟩ | ⟨contrary, _⟩
    · refine .pure ⟨?_, rfl, rfl⟩
      rw [List.append_nil]
      exact stops
    · cases contrary
  · exact .pure (by simpa using closes_declarationNode rfl ends)

/-! Statements that begin with a word. -/

omit lays in
theorem sees_jumpBounds {kind : Kind} (part : (kind.isNamed && kind != .comment) = true) (labelNeeded : Bool)
    {token : Token} : Sees all token (jump kind labelNeeded) Bounded := by
  unfold jump
  refine sees_take (takes_nextOnLine fun label labeled is => ?_)
  split
  · exact sees_take (.pure ⟨⟨rfl, rfl⟩, part⟩)
  split
  · exact takes_stuck
  · exact .pure ⟨⟨rfl, rfl⟩, part⟩

theorem takes_returnStatement : Takes all g.returnStatement Bounded := by
  unfold returnStatement
  refine (takes_keyword _).token fun head _ => looks_peek.asks fun token => looks_atTerminator.asks fun ends => ?_
  split
  · exact .pure ⟨⟨rfl, rfl⟩, rfl⟩
  · exact (takes_expressionList lays _).last fun used values taken => .of_closes ⟨taken.1.1.stops, rfl, rfl⟩

theorem sees_launchBounds {kind : Kind} (part : (kind.isNamed && kind != .comment) = true) {token : Token} :
    Sees all token (g.launch kind) Bounded :=
  sees_take ((lays.expression _).last fun _ _ phrase => .of_closes ⟨phrase.stops, rfl, part⟩)

theorem takes_labeledStatement : Takes all g.labeledStatement Bounded := by
  unfold labeledStatement
  refine takes_word.token fun label _ => (takes_mark _).token fun colon _ => ?_
  extract_lets name
  refine looks_peek.asks fun token => ?_
  split
  · exact .pure ⟨⟨rfl, rfl⟩, rfl⟩
  · refine lays.statement.last fun used statement line => .of_closes ⟨?_, rfl, rfl⟩
    rw [Token.stopOf?_cons, line.stops]
    rfl

theorem takes_statementStep : Takes all g.statementStep (Node.Line all) := by
  have bounded : Takes all g.statementStep Bounded := by
    unfold statementStep
    refine takes_peek fun token => looks_peekSecond.asks fun second => ?_
    split
    · exact TakesFrom.here (lays.block.mono fun _ _ => bounded_of_phrase)
    split
    · exact sees_take (.pure ⟨⟨rfl, rfl⟩, rfl⟩)
    split
    · exact (takes_simpleStatement lays _ _).here
    split
    · exact (takes_constDeclaration lays).here
    · exact (takes_typeDeclaration lays).here
    · exact (takes_varDeclaration lays).here
    · exact (takes_returnStatement lays).here
    · exact sees_launchBounds lays rfl
    · exact sees_launchBounds lays rfl
    · exact (takes_ifStatement lays).here
    · exact (takes_forStatement lays).here
    · exact (takes_switchStatement lays).here
    · exact (takes_selectStatement lays).here
    · exact sees_take (.pure ⟨⟨rfl, rfl⟩, rfl⟩)
    · exact sees_jumpBounds rfl _
    · exact sees_jumpBounds rfl _
    · exact sees_jumpBounds rfl _
    · split
      · exact (takes_labeledStatement lays).here
      · exact (takes_simpleStatement lays _ _).here
  refine ((stays_statementStep lays).both bounded).mono ?_
  rintro used node ⟨⟨keeps, laid⟩, bounds, part⟩
  exact { bounds with keeps, part, laid }

end Grammar
end TraceWeave.Go
