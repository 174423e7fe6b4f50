import TraceWeave.Proofs.Go.LayoutTypes

/-! Argument lists among the tokens, and the expressions around them. -/
namespace TraceWeave.Go
namespace Grammar

open Reader
open Node (Laid Phrase Covers NoList phrase_build)
open Token (Keeps startOf? stopOf? keeps_nil keeps_brackets plain_of_word plain_of_isMark plain_of_kind)

variable {all used used' : List Token}

/-- What follows an operand goes on from where the operand begins. -/
theorem phrase_after {kind : Kind} {operand : Node} {stop : Nat} {nodes : List Node} (known : Phrase all used operand)
    (free : NoList kind) (part : (kind.isNamed && kind != .comment) = true) (keeps : Keeps 0 used')
    (stops : stopOf? used' = some stop) (children : ∀ child ∈ nodes, Laid all child) :
    Phrase all (used ++ used') (.build kind operand.start stop nodes) :=
  phrase_build free part (known.keeps.append keeps) (by simp [known.starts]) (by simp [stops]) children

/-! Operators. -/

theorem plain_of_precedence {operator : Token} (tight : precedence operator ≠ 0) : operator.Plain := by
  unfold precedence at tight
  split at tight
  · exact absurd rfl tight
  rename_i kind
  have mark : operator.isMark operator.text = true := by simpa [Token.isMark] using kind
  refine plain_of_isMark mark fun special => tight ?_
  simp only [Symbol.openingMarks, Symbol.closingMarks, List.cons_append, List.nil_append, List.mem_cons, List.not_mem_nil,
    or_false] at special
  rcases special with text | text | text | text | text | text | text
  all_goals
    rw [text]
    rfl

theorem precedence_le (operator : Token) : precedence operator ≤ 5 := by
  unfold precedence
  repeat' split
  all_goals decide

theorem laid_operatorNode (token : Token) : Laid all (operatorNode token) := by simp [operatorNode]

theorem phrase_binaryNode {left right : Node} {operator : Token} (known : Phrase all used left)
    (tight : precedence operator ≠ 0) (known' : Phrase all used' right) :
    Phrase all (used ++ operator :: used') (binaryNode left operator right) :=
  phrase_after known (by simp) rfl ((plain_of_precedence tight).keeps known'.keeps) (by simp [known'.stops])
    (by simp [laid_operatorNode, known.laid, known'.laid])

/-- Operands with operators between them, as they were read. -/
inductive Strung (all : List Token) : List Token → Node → List (Token × Node) → Prop
  | last {used : List Token} {first : Node} (phrase : Phrase all used first) : Strung all used first []
  | more {used used' : List Token} {first next : Node} {operator : Token} {rest : List (Token × Node)}
      (phrase : Phrase all used first) (tight : precedence operator ≠ 0) (later : Strung all used' next rest) :
      Strung all (used ++ operator :: used') first ((operator, next) :: rest)

variable {first operand : Node} {operator : Token} {rest : List (Token × Node)}

theorem Strung.tight (strung : Strung all used first rest) : ∀ pair ∈ rest, precedence pair.1 ≠ 0 := by
  induction strung with
  | last phrase => simp
  | more phrase tight later ih => exact List.forall_mem_cons.2 ⟨tight, ih⟩

/-- Join the first operator. -/
theorem Strung.join (phrase : Phrase all used first) (tight : precedence operator ≠ 0) (later : Strung all used' operand rest) :
    Strung all (used ++ operator :: used') (binaryNode first operator operand) rest := by
  cases later with
  | last phrase' => exact .last (phrase_binaryNode phrase tight phrase')
  | more phrase' tight' later =>
      have longer := Strung.more (phrase_binaryNode phrase tight phrase') tight' later
      rwa [List.append_assoc, List.cons_append] at longer

/-- Joining a level keeps the operands together and leaves no operator of that level. -/
theorem strung_joinLevel (level : Nat) (strung : Strung all used first rest) :
    Strung all used (joinLevel level first rest).1 (joinLevel level first rest).2 ∧
      ∀ pair ∈ (joinLevel level first rest).2, precedence pair.1 ≠ level ∧ ∃ other ∈ rest, other.1 = pair.1 := by
  induction rest generalizing used first with
  | nil => exact ⟨strung, by simp [joinLevel]⟩
  | cons pair rest ih =>
      cases strung with
      | @more _ _ _ operand operator _ phrase tight later =>
          rw [joinLevel]
          split
          · obtain ⟨strung, apart⟩ := ih (Strung.join phrase tight later)
            refine ⟨strung, fun pair member => ⟨(apart pair member).1, ?_⟩⟩
            obtain ⟨other, listed, same⟩ := (apart pair member).2
            exact ⟨other, List.mem_cons_of_mem _ listed, same⟩
          · rename_i different
            obtain ⟨strung, apart⟩ := ih later
            refine ⟨.more phrase tight strung, List.forall_mem_cons.2 ⟨⟨by simpa using different, _, List.mem_cons_self, rfl⟩, ?_⟩⟩
            intro pair member
            obtain ⟨other, listed, same⟩ := (apart pair member).2
            exact ⟨(apart pair member).1, other, List.mem_cons_of_mem _ listed, same⟩

theorem phrase_joinOperators (strung : Strung all used first rest) : Phrase all used (joinOperators first rest) := by
  have levels : ∀ (levels : List Nat) (found : Node × List (Token × Node)), Strung all used found.1 found.2 →
      Strung all used (levels.foldl (fun found level => joinLevel level found.1 found.2) found).1
          (levels.foldl (fun found level => joinLevel level found.1 found.2) found).2 ∧
        ∀ pair ∈ (levels.foldl (fun found level => joinLevel level found.1 found.2) found).2,
          precedence pair.1 ∉ levels ∧ ∃ other ∈ found.2, other.1 = pair.1 := by
    intro levels
    induction levels with
    | nil => exact fun found strung => ⟨strung, fun pair member => ⟨by simp, pair, member, rfl⟩⟩
    | cons level levels ih =>
        intro found strung
        obtain ⟨strung, apart⟩ := strung_joinLevel level strung
        obtain ⟨strung, apart'⟩ := ih _ strung
        refine ⟨strung, fun pair member => ?_⟩
        obtain ⟨outside, other, listed, same⟩ := apart' pair member
        obtain ⟨different, original⟩ := apart other listed
        refine ⟨?_, same ▸ original⟩
        rw [List.mem_cons, not_or]
        exact ⟨same ▸ different, outside⟩
  obtain ⟨strung, apart⟩ := levels [5, 4, 3, 2, 1] (first, rest) strung
  -- every operator has one of the five levels, so none is left
  have none : ([5, 4, 3, 2, 1].foldl (fun (found : Node × List (Token × Node)) level =>
      joinLevel level found.1 found.2) (first, rest)).2 = [] := by
    refine List.eq_nil_iff_forall_not_mem.2 fun pair member => ?_
    have outside := (apart pair member).1
    have tight := strung.tight pair member
    have bound := precedence_le pair.1
    simp only [List.mem_cons, List.not_mem_nil, or_false, not_or] at outside
    omega
  rw [none] at strung
  cases strung with
  | last phrase => exact phrase

theorem phrase_applyUnary {operators : List Token} (plain : ∀ operator ∈ operators, operator.Plain)
    (known : Phrase all used operand) : Phrase all (operators ++ used) (applyUnary operators operand) := by
  induction operators with
  | nil => exact known
  | cons operator operators ih =>
      obtain ⟨here, later⟩ := List.forall_mem_cons.1 plain
      have inner := ih later
      refine phrase_build (by simp) rfl (here.keeps inner.keeps) rfl ?_ ?_
      · rw [List.cons_append, Token.stopOf?_cons, inner.stops]
        rfl
      · rw [List.forall_mem_cons, List.forall_mem_singleton, Node.laid_withRole]
        exact ⟨laid_operatorNode operator, inner.laid⟩

theorem phrase_asTypeName? {node name : Node} (named : asTypeName? node = some name) (known : Phrase all used node) :
    Phrase all used name := by
  unfold asTypeName? at named
  split at named
  · cases named
    exact { known with part := rfl, laid := known.laid.become (by simp) }
  · split at named
    · rename_i operand field children
      have inside := known.laid.children
      rw [children, List.forall_mem_cons, List.forall_mem_singleton] at inside
      split at named
      · cases named
        refine { known with part := rfl, laid := Node.laid_of_noList (by simp) ?_ }
        rw [List.forall_mem_cons, List.forall_mem_singleton]
        exact ⟨inside.1.become (by simp), inside.2.become (by simp)⟩
      · cases named
    · cases named
  · cases named

theorem laid_plainTypes? {arguments : Node} {types : List Node} (plain : plainTypes? arguments = some types)
    (known : Laid all arguments) : ∀ type ∈ types, Laid all type := by
  have inside := known.children
  unfold plainTypes? at plain
  generalize arguments.children = elements at plain inside
  induction elements generalizing types with
  | nil =>
      cases plain
      simp
  | cons element elements ih =>
      obtain ⟨here, others⟩ := List.forall_mem_cons.1 inside
      rw [List.mapM_cons] at plain
      obtain ⟨type, found, plain⟩ := Option.bind_eq_some_iff.1 plain
      obtain ⟨rest, later, same⟩ := Option.bind_eq_some_iff.1 plain
      cases same
      refine List.forall_mem_cons.2 ⟨?_, ih later others⟩
      split at found
      · rename_i only children
        cases found
        have inner := here.children
        rw [children, List.forall_mem_singleton] at inner
        exact inner
      · cases found

/-! Lists of arguments. -/

/-- Arguments in parentheses, with commas between them. -/
theorem phrase_argumentList {opening closing : Token} {inner : List Token} {runs : List (List Token)}
    {arguments : List Node} (listed : opening :: (inner ++ [closing]) <:+: all) (opens : opening.isMark "(" = true)
    (closes : closing.isMark ")" = true) (lined : Token.Lined runs inner) (each : List.Forall₂ (Phrase all) runs arguments) :
    Phrase all (opening :: (inner ++ [closing])) (.build .argumentList opening.start closing.stop arguments) := by
  have keeps := ((List.forall₂_and_left runs arguments).1 (each.imp fun _ _ known => ⟨known.keeps, known⟩)).1
  have known := forall_of_forall₂ each fun (_ : List Token) argument phrase =>
    (⟨phrase.part, phrase.laid⟩ : _ ∧ Laid all argument)
  refine
    { keeps := keeps_brackets opens closes (by decide) (lined.keeps fun run member => (keeps run member).inner) (keeps_nil _)
      starts := rfl
      stops := by simp [Node.build]
      part := rfl
      laid := .intro (fun _ => ?_) nofun nofun nofun nofun fun node member => (known node member).2 }
  refine ⟨opening, inner, closing, runs, ⟨listed, opens, closes, rfl, rfl⟩, lined, ?_⟩
  have parts : (Node.build .argumentList opening.start closing.stop arguments).parts = arguments :=
    List.filter_eq_self.2 fun node member => (known node member).1
  rw [parts]
  exact each.imp fun _ _ phrase => phrase.toCovers

variable {g : Grammar} (lays : g.LaysOut all)
include lays

theorem stays_expressionList (mode : Mode) : Takes all (g.expressionList mode) (Stay (Laid all)) := by
  refine (stays_separated _ _ (by decide) (lays.expression _).stays).next fun found known => ?_
  cases found with
  | nil => exact takes_stuck
  | cons first rest => exact stays_pure ((Node.laid_spanning (by simp)).2 (List.forall_mem_cons.1 known))

theorem takes_argument : Takes all g.argument (Phrase all) := by
  refine (lays.expression _).bind fun used value known => takes_nextIs fun dots dotted is => ?_
  split
  · rename_i yes
    refine sees_take (.pure (phrase_after known (by simp) rfl ?_ rfl (by simpa using known.laid)))
    exact (plain_of_isMark (is yes) (by decide)).keeps (keeps_nil _)
  · exact .pure (by simpa using known)

theorem takes_argumentList : Takes all g.argumentList (Phrase all) := by
  suffices whole : Takes all g.argumentList fun used list => used <:+: all → Phrase all used list from
    whole.listed.mono fun _ _ taken => taken.2 taken.1
  refine (takes_mark _).token fun opening opens => (takes_commaList _ (takes_argument lays)).bind fun used found known => ?_
  obtain ⟨runs, lined, each⟩ := known
  exact (takes_mark _).token fun closing closes => .pure fun listed => phrase_argumentList listed opens closes lined each

theorem takes_allocationArguments : Takes all g.allocationArguments (Phrase all) := by
  suffices whole : Takes all g.allocationArguments fun used list => used <:+: all → Phrase all used list from
    whole.listed.mono fun _ _ taken => taken.2 taken.1
  refine (takes_mark _).token fun opening opens => takes_nextIs fun closing empty is => ?_
  split
  · rename_i yes
    exact sees_take (.pure fun listed => phrase_argumentList listed opens (is yes) .none .nil)
  refine TakesFrom.here ((lays.type _).bind fun run type known => ?_)
  have more : Takes all (do
      if ← nextIs false "," then
        let _ ← take
        if ← nextIs false ")" then return none
        return some (← g.expression .enclosed)
      else return none) (Continues (Phrase all)) := by
    refine takes_nextIs fun comma found mark => ?_
    split
    · rename_i yes
      refine sees_take ((looks_nextIs _ _).asks fun last => ?_)
      split
      · exact .pure (.comma (mark yes))
      · exact (lays.expression _).last fun run value taken => .more (mark yes) taken
    · exact .pure .stop
  refine (takes_repeating more).bind fun used others later => (takes_mark _).token fun closing closes => .pure ?_
  obtain ⟨runs, lined, each⟩ := later.lined known
  rw [← List.append_assoc]
  exact fun listed => phrase_argumentList listed opens closes lined each

/-! Operands. -/

omit lays in
theorem phrase_callNode {function arguments : Node} {types : List Node} (known : Phrase all used function)
    (known' : ∀ type ∈ types, Laid all type) (keeps : Keeps 0 used') (stops : stopOf? used' = some arguments.stop)
    (laid : Laid all arguments) : Phrase all (used ++ used') (callNode function types arguments) := by
  refine phrase_after known (by simp) rfl keeps stops (List.forall_mem_cons.2 ⟨by simpa using known.laid, ?_⟩)
  refine List.forall_mem_append.2 ⟨?_, by simpa using laid⟩
  intro node member
  obtain ⟨type, listed, rfl⟩ := List.mem_map.1 member
  simpa using known' type listed

omit lays in
theorem phrase_compositeNode {type body : Node} (known : Phrase all used type) (known' : Phrase all used' body) :
    Phrase all (used ++ used') (compositeNode type body) :=
  phrase_after known (by simp) rfl known'.keeps known'.stops (by simp [known.laid, known'.laid])

theorem takes_conversion {type : Node} (known : Phrase all used type) :
    Takes all (g.conversion type) fun used' => Phrase all (used ++ used') := by
  unfold conversion
  refine (takes_mark _).token fun opening opens => (lays.expression _).bind fun inner operand known' => ?_
  refine takes_nextIs fun token comma is => ?_
  have ending : ∀ inner, Keeps 1 inner → Takes all (do
      let closing ← mark ")"
      return conversionNode type closing.stop operand) fun used' => Phrase all (used ++ opening :: (inner ++ used')) := by
    intro inner keeps
    refine (takes_mark _).token fun closing closes => .pure ?_
    exact phrase_after known (by simp) rfl (keeps_brackets opens closes (by decide) keeps (keeps_nil _)) (by simp)
      (by simp [known.laid, known'.laid])
  split
  · rename_i yes
    refine sees_take ((ending (inner ++ [token]) ?_).mono fun _ _ phrase => by simpa using phrase)
    exact known'.keeps.inner.append (Token.keeps_comma (is yes) (keeps_nil _))
  · exact (ending inner known'.keeps.inner).here

theorem stays_literalElement : Takes all g.literalElement (Stay (Laid all)) := by
  refine (looks_nextIs _ _).asks fun braces => ?_
  split
  · exact lays.literalValue.stays.next fun value known => stays_pure (by simpa using known)
  · exact (lays.expression _).stays.next fun value known => stays_pure (by simpa using known)

theorem stays_element : Takes all g.element (Stay (Laid all)) := by
  refine (stays_literalElement lays).next fun first known => takes_nextIs fun token keyed is => ?_
  split
  · rename_i yes
    refine sees_pass ((plain_of_isMark (is yes) (by decide)).keeps (keeps_nil _)) ?_
    exact (stays_literalElement lays).next fun second known' => stays_pure (by simp [known, known'])
  · exact stays_pure known

theorem takes_literalValueStep : Takes all g.literalValueStep (Phrase all) := by
  refine (takes_mark _).token fun opening opens => ?_
  refine (stays_commaList _ (stays_element lays)).closing fun used found closing keeps known closes => .pure ?_
  exact phrase_build (by simp) rfl (keeps_brackets opens closes (by decide) keeps (keeps_nil _)) rfl (by simp) known

theorem takes_typeOperand : Takes all g.typeOperand (Phrase all) := by
  unfold typeOperand
  refine ((takes_openArrayType lays).either (lays.type _)).bind fun used type known => ?_
  extract_lets literal
  refine (looks_nextIs _ _).asks fun braces => ?_
  split
  · exact lays.literalValue.last fun used' body known' => phrase_compositeNode known known'
  · exact takes_conversion lays known

theorem takes_functionOperand : Takes all g.functionOperand (Phrase all) := by
  refine (takes_keyword _).token fun head word => (takes_signature lays _).bind fun used found known => ?_
  have keeps : Keeps 0 (head :: used) := (plain_of_word word).keeps known.keeps
  refine (looks_nextIs _ _).asks fun braces => ?_
  split
  · refine lays.block.last fun used' body known' => ?_
    refine phrase_build (by simp) rfl (keeps.append known'.keeps) rfl (by simp [known'.stops]) ?_
    exact List.forall_mem_append.2 ⟨known.laid, by simpa using known'.laid⟩
  · have type : Phrase all (head :: used) (.build .functionType head.start (endOf head.stop found.2) found.2) :=
      phrase_build (by simp) rfl keeps rfl (by simpa using known.stops _) known.laid
    exact takes_conversion lays type

theorem takes_parenthesizedOperand : Takes all g.parenthesizedOperand (Phrase all) := by
  refine TakesFrom.either ?_ ((takes_parenthesizedType lays).bind fun used type known => takes_conversion lays known)
  refine (takes_mark _).token fun opening opens => ?_
  refine (lays.expression _).stays.closing fun used inner closing keeps known closes => .pure ?_
  exact phrase_build (by simp) rfl (keeps_brackets opens closes (by decide) keeps (keeps_nil _)) rfl (by simp)
    (by simpa using known)

omit lays in
/-- A token that is an expression by itself. -/
theorem phrase_sole {token : Token} {kind : Kind} (sole : soleKind? token = some kind) :
    Phrase all [token] (token.leaf kind) := by
  have known : token.kind ≠ .mark ∧ token.kind ∉ [TokenKind.bad, .comment, .eof] ∧ NoList kind ∧
      (kind.isNamed && kind != .comment) = true := by
    unfold soleKind? at sole
    split at sole
    all_goals rename_i is
    all_goals first | (split at sole <;> cases sole <;> simp [is] <;> decide) | (cases sole <;> simp [is] <;> decide)
  exact
    { keeps := (plain_of_kind known.1 known.2.1).keeps (keeps_nil _)
      starts := rfl
      stops := rfl
      part := known.2.2.2
      laid := Node.laid_leaf known.2.2.1 token }

theorem takes_operand (mode : Mode) : Takes all (g.operand mode) (Phrase all) := by
  unfold operand
  refine takes_peek fun token => looks_peekSecond.asks fun second => ?_
  split
  · exact (takes_parenthesizedOperand lays).here
  split
  · exact (takes_functionOperand lays).here
  split
  · exact (takes_typeOperand lays).here
  split
  · rename_i allocates
    have word : token.kind = .word := by
      simp only [Token.isWord, Bool.and_eq_true, Bool.or_eq_true, beq_iff_eq] at allocates
      exact allocates.1.1.elim (·.1) (·.1)
    have name : Phrase all [token] (token.leaf .identifier) :=
      phrase_build (by simp) rfl ((plain_of_word word).keeps (keeps_nil _)) rfl rfl (by simp)
    refine sees_take ((takes_allocationArguments lays).last fun used arguments known => ?_)
    exact phrase_callNode name (by simp) known.keeps known.stops known.laid
  split
  · rename_i kind sole
    exact sees_take (.pure (phrase_sole sole))
  · exact takes_stuck

/-! What follows an operand. -/

theorem takes_selection (known : Phrase all used operand) :
    Takes all (g.selection operand) fun used' => Phrase all (used ++ used') := by
  refine (takes_mark _).token fun dot mark => takes_nextIs fun opening asserts is => ?_
  have plain : dot.Plain := plain_of_isMark mark (by decide)
  split
  · rename_i yes
    refine sees_take ((lays.type _).stays.closing fun inner type closing keeps laid closes => .pure ?_)
    refine phrase_after known (by simp) rfl ?_ (by simp) (by simp [known.laid, laid])
    exact plain.keeps (keeps_brackets (is yes) closes (by decide) keeps (keeps_nil _))
  · refine TakesFrom.here (takes_word.token fun field word => .pure ?_)
    exact phrase_after known (by simp) rfl (plain.keeps ((plain_of_word word).keeps (keeps_nil _))) rfl (by simp [known.laid])

theorem stays_optionalExpression (role : Role) :
    Takes all (g.optionalExpression role) (Stay fun nodes => ∀ node ∈ nodes, Laid all node) := by
  unfold optionalExpression
  refine (looks_nextIs _ _).asks fun colon => (looks_nextIs _ _).asks fun bracket => ?_
  split
  · exact stays_pure (by simp)
  · exact (lays.expression _).stays.next fun found known => stays_pure (by simpa using known)

theorem takes_indexing (known : Phrase all used operand) :
    Takes all (g.indexing operand) fun used' => Phrase all (used ++ used') := by
  unfold indexing
  refine (takes_mark _).token fun opening opens => (stays_optionalExpression lays _).bind fun inner first known₁ => ?_
  have whole : ∀ {kind : Kind} {inner : List Token} {closing : Token} {nodes : List Node}, NoList kind →
      (kind.isNamed && kind != .comment) = true → Keeps 1 inner → closing.isMark "]" = true →
      (∀ node ∈ nodes, Laid all node) → Phrase all (used ++ opening :: (inner ++ closing :: []))
        (.build kind operand.start closing.stop (operand.withRole .operand :: nodes)) := by
    intro kind inner closing nodes free part keeps closes laid
    refine phrase_after known free part (keeps_brackets opens closes (by decide) keeps (keeps_nil _)) (by simp) ?_
    exact List.forall_mem_cons.2 ⟨by simpa using known.laid, laid⟩
  refine takes_nextIs fun colon slices is => ?_
  split
  · rename_i yes
    have passed : ∀ token : Token, token.isMark ":" = true → Keeps 1 [token] := fun token mark =>
      (plain_of_isMark mark (by decide)).keeps (keeps_nil _)
    refine sees_take ((stays_optionalExpression lays _).bind fun inner' second known₂ => ?_)
    refine takes_nextIs fun colon' capped is' => ?_
    extract_lets jump
    have joins : ∀ inner'' third, Keeps 1 inner'' → (∀ node ∈ third, Laid all node) → Takes all (jump third) fun used' =>
        Phrase all (used ++ opening :: (inner ++ colon :: (inner' ++ (inner'' ++ used')))) := by
      intro inner'' third keeps known₃
      refine (takes_mark _).token fun closing closes => .pure ?_
      have keeps' := known₁.1.append ((passed _ (is yes)).append (known₂.1.append keeps))
      have phrase : Phrase all _ (.build .sliceExpression operand.start closing.stop _) := whole (by simp) rfl keeps' closes
        (List.forall_mem_append.2 ⟨List.forall_mem_append.2 ⟨known₁.2, known₂.2⟩, known₃⟩)
      simpa using phrase
    split
    · rename_i more
      rw [Bool.and_eq_true] at more
      refine sees_take ((lays.expression _).bind fun inner'' found known₃ => .pass ?_)
      refine (joins (colon' :: inner'') _ ?_ ?_).mono fun _ _ phrase => by simpa using phrase
      · exact (passed _ (is' more.1)).append known₃.keeps.inner
      · simpa using known₃.laid
    · exact .pass (joins [] [] (keeps_nil _) (by simp)).here
  · refine TakesFrom.here ((takes_mark _).token fun closing closes => ?_)
    split
    · have known₂ := List.forall_mem_singleton.1 known₁.2
      exact .pure (whole (by simp) rfl known₁.1 closes (by simpa using known₂))
    · exact takes_stuck

theorem takes_genericCall {types : Node} (known : Phrase all used operand) (known' : Phrase all used' types) :
    Takes all (g.genericCall operand types) fun later => Phrase all (used ++ (used' ++ later)) := by
  unfold genericCall
  refine (takes_argumentList lays).bind fun later arguments known'' => ?_
  have keeps := known'.keeps.append known''.keeps
  have stops : stopOf? (used' ++ later) = some arguments.stop := by simp [known''.stops]
  have call : Phrase all (used ++ (used' ++ (later ++ []))) (callNode operand [types] arguments) := by
    rw [List.append_nil]
    exact phrase_callNode known (by simpa using known'.laid) keeps stops known''.laid
  split
  · rename_i name value named children
    split
    · exact .pure call
    · have inside := known''.laid.children
      rw [children, List.forall_mem_singleton] at inside
      have typeName := phrase_asTypeName? named known
      refine .pure ?_
      rw [List.append_nil]
      show Phrase all _ (.build .typeConversionExpression name.start arguments.stop _)
      exact phrase_after typeName (by simp) rfl keeps stops (by simp [typeName.laid, known'.laid, inside])
  · exact .pure call

theorem takes_bracketed (mode : Mode) (known : Phrase all used operand) :
    Takes all (g.bracketed mode operand) fun used' => Phrase all (used ++ used') := by
  intro tokens inside _
  unfold bracketed
  refine Yields.get ?_
  have indexing := takes_indexing lays known tokens inside trivial
  refine Yields.bind (((takes_typeArguments lays).attempt tokens inside trivial).mono ?_)
  rintro found rest ⟨used', rfl, taken⟩
  have inside' : rest <:+ all := (List.suffix_append _ _).trans inside
  cases found with
  | none =>
      obtain rfl := taken.2 rfl
      exact takes_indexing lays known rest inside' trivial
  | some arguments =>
      have known' := taken.1 arguments rfl
      refine (looks_nextIs _ _).next fun call => ?_
      split
      · exact (takes_genericCall lays known known').behind inside
      refine (looks_nextIs _ _).next fun literal => ?_
      split
      · exact Yields.set indexing
      rename_i name named
      have typeName := phrase_asTypeName? named known
      split
      · refine TakesFrom.behind (lays.literalValue.last fun later body known'' => ?_) inside
        rw [← List.append_assoc]
        refine phrase_compositeNode ?_ known''
        exact phrase_after typeName (by simp) rfl known'.keeps known'.stops (by simp [typeName.laid, known'.laid])
      · refine Yields.get (Yields.set (Yields.bind (indexing.attempt.mono ?_)))
        rintro found rest' ⟨taken', -⟩
        cases found with
        | some found => exact Yields.pure (taken' found rfl)
        | none =>
            dsimp only
            split
            · rename_i types plain
              refine Yields.set (Yields.pure ⟨used', rfl, ?_⟩)
              refine phrase_after typeName (by simp) rfl known'.keeps known'.stops ?_
              exact List.forall_mem_cons.2 ⟨by simpa using typeName.laid, laid_plainTypes? plain known'.laid⟩
            · exact Yields.stuck

theorem takes_suffix? (mode : Mode) (known : Phrase all used operand) :
    Takes all (g.suffix? mode operand) fun used' found =>
      (∀ value, found = some value → Phrase all (used ++ used') value) ∧ (found = none → used' = []) := by
  have longer : ∀ {reader : Reader Node}, Takes all reader (fun used' => Phrase all (used ++ used')) →
      Takes all (do return some (← reader)) fun used' found =>
        (∀ value, found = some value → Phrase all (used ++ used') value) ∧ (found = none → used' = []) :=
    fun takes => takes.last fun used' value phrase => ⟨by rintro _ ⟨⟩; exact phrase, by simp⟩
  have nothing : Takes all (Pure.pure none : Reader (Option Node)) fun used' found =>
      (∀ value, found = some value → Phrase all (used ++ used') value) ∧ (found = none → used' = []) :=
    .pure ⟨by simp, fun _ => rfl⟩
  unfold suffix?
  refine looks_atTypeGuard.asks fun guarded => ?_
  split
  · exact nothing
  refine (looks_nextIs _ _).asks fun dot => ?_
  split
  · exact longer (takes_selection lays known)
  refine (looks_nextIs _ _).asks fun parenthesis => ?_
  split
  · refine (takes_argumentList lays).last fun used' arguments known' => ⟨?_, by simp⟩
    rintro _ ⟨⟩
    exact phrase_callNode known (by simp) known'.keeps known'.stops known'.laid
  refine (looks_nextIs _ _).asks fun bracket => ?_
  split
  · exact longer (takes_bracketed lays mode known)
  refine (looks_nextIs _ _).asks fun braces => ?_
  split
  · split
    · rename_i type named
      refine lays.literalValue.last fun used' body known' => ⟨?_, by simp⟩
      rintro _ ⟨⟩
      exact phrase_compositeNode (phrase_asTypeName? named known) known'
    · exact nothing
  · exact nothing

theorem takes_suffixes (mode : Mode) (rounds : Nat) (known : Phrase all used operand) :
    Takes all (g.suffixes mode rounds operand) fun used' => Phrase all (used ++ used') := by
  induction rounds generalizing used operand with
  | zero => exact .pure (by simpa using known)
  | succ rounds ih =>
      unfold suffixes
      refine (takes_suffix? lays mode known).bind fun used' found known' => ?_
      cases found with
      | some longer => exact (ih (known'.1 longer rfl)).mono fun _ _ phrase => by simpa using phrase
      | none =>
          obtain rfl := known'.2 rfl
          exact .pure (by simpa using known)

theorem takes_unary (mode : Mode) : Takes all (g.unary mode) (Phrase all) := by
  unfold unary
  have step : Takes all (do
      if ← nextOnLine false isUnaryOperator then return some (← take)
      else return none) fun used found => used = found.toList ∧ ∀ token ∈ found, token.Plain := by
    refine takes_nextOnLine fun token more is => ?_
    split
    · rename_i yes
      refine sees_take (.pure ⟨rfl, ?_⟩)
      rintro _ ⟨⟩
      obtain ⟨text, listed, mark⟩ := List.any_eq_true.1 (is yes)
      have apart : ∀ text ∈ ["+", "-", "!", "^", "*", "&", "<-"],
          text ∉ Symbol.openingMarks ++ Symbol.closingMarks ++ [","] := by decide
      exact plain_of_isMark mark (apart text listed)
    · exact .pure ⟨rfl, by simp⟩
  refine (takes_repeating step).bind fun used operators run => (takes_operand lays mode).bind fun used' operand known => ?_
  have operated : used = operators ∧ ∀ operator ∈ operators, operator.Plain := by
    clear known
    induction run with
    | stop => simp
    | done taken => exact ⟨taken.1, by simp⟩
    | more taken _ ih =>
        obtain ⟨rfl, plain⟩ := taken
        exact ⟨congrArg _ ih.1, List.forall_mem_cons.2 ⟨plain _ rfl, ih.2⟩⟩
  obtain ⟨rfl, plain⟩ := operated
  intro tokens inside _
  refine Yields.get ?_
  refine ((takes_suffixes lays mode _ known).last fun later longer known' => ?_) tokens inside trivial
  exact phrase_applyUnary plain known'

theorem takes_expressionStep (mode : Mode) : Takes all (g.expressionStep mode) (Phrase all) := by
  unfold expressionStep
  have step : Takes all (do
      if ← nextOnLine mode.lineEnds (fun token => precedence token != 0) then
        let operator ← take
        return some (operator, ← g.unary mode)
      else return none) fun used (found : Option (Token × Node)) => (found = none → used = []) ∧
        ∀ pair, found = some pair → ∃ used', used = pair.1 :: used' ∧ precedence pair.1 ≠ 0 ∧ Phrase all used' pair.2 := by
    refine takes_nextOnLine fun token more is => ?_
    split
    · rename_i yes
      refine sees_take ((takes_unary lays mode).last fun used operand known => ⟨by simp, ?_⟩)
      rintro _ ⟨⟩
      exact ⟨used, rfl, bne_iff_ne.1 (is yes), known⟩
    · exact .pure ⟨fun _ => rfl, by simp⟩
  refine (takes_unary lays mode).bind fun used first known => (takes_repeating step).last fun used' rest run => ?_
  refine phrase_joinOperators ?_
  induction run generalizing used first with
  | stop => simpa using .last known
  | done taken => simpa [taken.1 rfl] using .last known
  | more taken _ ih =>
      obtain ⟨later, rfl, tight, known'⟩ := taken.2 _ rfl
      exact .more known tight (ih later _ known')

end Grammar
end TraceWeave.Go
