import TraceWeave.Proofs.Go.Span

/-!
Readers and the offsets they pass. Tokens in order begin at sound offsets one after the other;
`front` is where the next one begins. A reader is described by what holds between the front before
it and the front after it.
-/
namespace TraceWeave.Go

/-- The span of a token is that of its text, between sound offsets. -/
structure Token.Exact (sound : Nat → Prop) (token : Token) : Prop where
  starts : sound token.start
  stops : sound token.stop
  size : token.stop = token.start + Text.size token.text

@[grind →] theorem Token.Exact.le {sound : Nat → Prop} {token : Token} (exact : token.Exact sound) : token.start ≤ token.stop := by
  rw [exact.size]
  exact Nat.le_add_right _ _

/-- A token as a leaf. -/
theorem Token.Exact.leaf {sound : Nat → Prop} {token : Token} (exact : token.Exact sound) {kind : Kind}
    (plain : kind.isPlain = true) : Node.WellFormed sound (token.leaf kind) :=
  Node.Row.plain (Node.row_nil.2 exact.le) plain exact.starts exact.stops

@[simp, grind =] theorem Token.start_leaf (token : Token) (kind : Kind) : (token.leaf kind).start = token.start := rfl

@[simp, grind =] theorem Token.stop_leaf (token : Token) (kind : Kind) : (token.leaf kind).stop = token.stop := rfl

/-- Where the next token begins, the end of the text if there is none. -/
def front (limit : Nat) : List Token → Nat
  | [] => limit
  | token :: _ => token.start

/-- Tokens one after the other, each with the span of its text. -/
def Ordered (sound : Nat → Prop) (limit : Nat) : List Token → Prop
  | [] => True
  | token :: tokens => token.Exact sound ∧ token.stop ≤ front limit tokens ∧ Ordered sound limit tokens

theorem Ordered.front_le {sound : Nat → Prop} {limit : Nat} {tokens : List Token}
    (ordered : Ordered sound limit tokens) : front limit tokens ≤ limit := by
  induction tokens with
  | nil => exact Nat.le_refl _
  | cons token tokens ih =>
      obtain ⟨exact, bound, rest⟩ := ordered
      exact Nat.le_trans exact.le (Nat.le_trans bound (ih rest))

namespace Reader

/-- What holds of every result of a reader at the given tokens. -/
def Yields {α : Type} (tokens : List Token) (reader : Reader α) (post : α → List Token → Prop) : Prop :=
  ∀ found rest, reader tokens = .ok (found, rest) → post found rest

/-- A result with the tokens left after it, in terms of the offsets before and after it. -/
structure Reached {α : Type} (sound : Nat → Prop) (limit : Nat) (tokens : List Token)
    (spec : Nat → α → Nat → Prop) (found : α) (rest : List Token) : Prop where
  ordered : Ordered sound limit rest
  bound : front limit tokens ≤ front limit rest
  holds : spec (front limit tokens) found (front limit rest)

/-- What holds of every result wherever tokens are in order. -/
def Reads {α : Type} (sound : Nat → Prop) (limit : Nat) (reader : Reader α)
    (spec : Nat → α → Nat → Prop) : Prop :=
  ∀ tokens, Ordered sound limit tokens → Yields tokens reader (Reached sound limit tokens spec)

/-- A reader that takes nothing. -/
def Looks {α : Type} (reader : Reader α) : Prop :=
  ∀ tokens found rest, reader tokens = .ok (found, rest) → rest = tokens

variable {sound : Nat → Prop} {limit : Nat} {α β : Type} {tokens : List Token} {reader : Reader α}
  {spec spec' : Nat → α → Nat → Prop} {post : α → List Token → Prop}
  {later : α → Reader β} {goal : β → List Token → Prop}

theorem bind_eq_ok {found : β} {rest : List Token} (result : (reader >>= later) tokens = .ok (found, rest)) :
    ∃ first middle, reader tokens = .ok (first, middle) ∧ later first middle = .ok (found, rest) := by
  change (reader tokens).bind (fun outcome => later outcome.1 outcome.2) = .ok (found, rest) at result
  cases outcome : reader tokens with
  | error left => rw [outcome] at result; cases result
  | ok value =>
      rw [outcome] at result
      exact ⟨value.1, value.2, rfl, result⟩

theorem Yields.bind (first : Yields tokens reader fun found rest => Yields rest (later found) goal) :
    Yields tokens (reader >>= later) goal := by
  intro found rest result
  obtain ⟨value, middle, start, finish⟩ := bind_eq_ok result
  exact first value middle start found rest finish

theorem Yields.pure {value : α} (holds : post value tokens) : Yields tokens (pure value) post := by
  intro found rest result
  cases result
  exact holds

theorem Yields.pass {value : α} (rest : Yields tokens (later value) goal) :
    Yields tokens (Pure.pure value >>= later) goal :=
  Yields.bind (Yields.pure rest)

theorem Yields.stuck : Yields tokens (Reader.stuck : Reader α) post := by
  intro found rest result
  cases result

theorem Yields.mono {post' : α → List Token → Prop} (first : Yields tokens reader post)
    (holds : ∀ found rest, post found rest → post' found rest) : Yields tokens reader post' :=
  fun found rest result => holds found rest (first found rest result)

theorem Yields.peek {later : Token → Reader β}
    (rest : ∀ token, tokens.headD default = token → Yields tokens (later token) goal) :
    Yields tokens (Reader.peek >>= later) goal := by
  refine Yields.bind ?_
  intro found same result
  cases result
  exact rest _ rfl

/-- A reader that needs a token has nothing to read at the end. -/
theorem yields_nil {left : Nat} (fails : reader [] = .error left) : Yields [] (reader >>= later) goal := by
  intro found rest result
  obtain ⟨_, _, result, _⟩ := bind_eq_ok result
  rw [fails] at result
  cases result

theorem Yields.get {later : List Token → Reader β} (rest : Yields tokens (later tokens) goal) :
    Yields tokens (MonadState.get >>= later) goal := by
  refine Yields.bind ?_
  intro found same result
  cases result
  exact rest

theorem Yields.set {earlier : List Token} {later : PUnit → Reader β} (rest : Yields earlier (later ⟨⟩) goal) :
    Yields tokens (MonadStateOf.set earlier >>= later) goal := by
  refine Yields.bind ?_
  intro found same result
  cases result
  exact rest

theorem Looks.next (looks : Looks reader) (rest : ∀ found, Yields tokens (later found) goal) :
    Yields tokens (reader >>= later) goal := by
  refine Yields.bind ?_
  intro found same result
  obtain rfl := looks tokens found same result
  exact rest found

theorem looks_peek : Looks peek := by
  intro tokens found rest result
  cases result
  rfl

theorem looks_peekSecond : Looks peekSecond := by
  intro tokens found rest result
  cases result
  rfl

theorem looks_nextOnLine (lineEnds : Bool) (test : Token → Bool) : Looks (nextOnLine lineEnds test) := by
  intro tokens found rest result
  cases result
  rfl

theorem looks_nextIs (lineEnds : Bool) (text : String) : Looks (nextIs lineEnds text) :=
  looks_nextOnLine lineEnds _

/-- A look at the next token, for readers that take it afterwards. -/
theorem Yields.nextIs {lineEnds : Bool} {text : String} {later : Bool → Reader β}
    (rest : ∀ found, (found = true → (tokens.headD default).isMark text = true) → Yields tokens (later found) goal) :
    Yields tokens (Reader.nextIs lineEnds text >>= later) goal := by
  refine Yields.bind ?_
  intro found same result
  cases result
  exact rest _ fun next => (Bool.and_eq_true _ _ ▸ next).2

theorem looks_atTerminator : Looks atTerminator := by
  intro tokens found rest result
  cases result
  rfl

/-- Go on after a reader. -/
theorem Reads.next (reads : Reads sound limit reader spec) (ordered : Ordered sound limit tokens)
    (rest : ∀ found middle, Ordered sound limit middle → front limit tokens ≤ front limit middle →
      spec (front limit tokens) found (front limit middle) → Yields middle (later found) goal) :
    Yields tokens (reader >>= later) goal :=
  Yields.bind fun found middle result =>
    have ⟨after, bound, holds⟩ := reads tokens ordered found middle result
    rest found middle after bound holds

theorem Reads.mono (reads : Reads sound limit reader spec)
    (holds : ∀ before found after, spec before found after → spec' before found after) :
    Reads sound limit reader spec' := by
  intro tokens ordered found rest result
  obtain ⟨after, bound, known⟩ := reads tokens ordered found rest result
  exact ⟨after, bound, holds _ _ _ known⟩

theorem reads_stuck : Reads sound limit (stuck : Reader α) spec := fun _ _ => Yields.stuck

/-! Single tokens. -/

/-- A token that was taken between two offsets. -/
structure Took (sound : Nat → Prop) (before : Nat) (token : Token) (after : Nat) : Prop where
  start : token.start = before
  exact : token.Exact sound
  stop : token.stop ≤ after

theorem reads_takeIf (test : Token → Bool) :
    Reads sound limit (takeIf test) fun before token after => Took sound before token after ∧ test token = true := by
  intro tokens ordered found rest result
  cases tokens with
  | nil => cases result
  | cons token others =>
      simp only [takeIf] at result
      split at result
      · cases result
        rename_i passes
        obtain ⟨exact, bound, after⟩ := ordered
        refine ⟨after, ?_, ⟨rfl, exact, bound⟩, passes⟩
        exact Nat.le_trans exact.le bound
      · cases result

theorem reads_mark (text : String) :
    Reads sound limit (mark text) fun before token after =>
      Took sound before token after ∧ token.text = text := by
  refine (reads_takeIf _).mono ?_
  rintro before token after ⟨took, is⟩
  simp only [Token.isMark, Bool.and_eq_true, beq_iff_eq] at is
  exact ⟨took, is.2⟩

theorem reads_keyword (text : String) :
    Reads sound limit (keyword text) fun before token after =>
      Took sound before token after ∧ token.text = text := by
  refine (reads_takeIf _).mono ?_
  rintro before token after ⟨took, is⟩
  simp only [Token.isWord, Bool.and_eq_true, beq_iff_eq] at is
  exact ⟨took, is.2⟩

theorem reads_word : Reads sound limit word (Took sound) :=
  (reads_takeIf _).mono fun _ _ _ known => known.1

/-- Take the token that was looked at before. -/
theorem Yields.take {later : Token → Reader β} (ordered : Ordered sound limit tokens)
    (rest : ∀ token middle, tokens.headD default = token → Ordered sound limit middle →
      front limit tokens ≤ front limit middle → Took sound (front limit tokens) token (front limit middle) →
      Yields middle (later token) goal) :
    Yields tokens (Reader.take >>= later) goal := by
  refine Yields.bind ?_
  intro found middle result
  cases tokens with
  | nil => cases result
  | cons token others =>
      cases result
      obtain ⟨exact, bound, after⟩ := ordered
      refine rest _ _ rfl after ?_ ⟨rfl, exact, bound⟩
      exact Nat.le_trans exact.le bound

theorem reads_take : Reads sound limit take (Took sound) := by
  intro tokens ordered
  rw [← bind_pure take]
  exact Yields.take ordered fun token middle _ after bound took => Yields.pure ⟨after, bound, took⟩

/-! Choice and repetition. -/

theorem Yields.either {first second : Reader α} (yields : Yields tokens first post)
    (other : Yields tokens second post) : Yields tokens (either first second) post := by
  intro found rest result
  unfold Reader.either at result
  cases outcome : first tokens with
  | ok value =>
      rw [outcome] at result
      cases result
      exact yields found rest outcome
  | error left =>
      rw [outcome] at result
      cases outcome' : second tokens with
      | ok value =>
          simp only [outcome'] at result
          cases result
          exact other found rest outcome'
      | error left' => simp only [outcome'] at result; cases result

theorem Reads.either {first second : Reader α} (reads : Reads sound limit first spec)
    (other : Reads sound limit second spec) : Reads sound limit (either first second) spec :=
  fun tokens ordered => (reads tokens ordered).either (other tokens ordered)

theorem Yields.attempt (yields : Yields tokens reader post) :
    Yields tokens (attempt reader) fun found rest =>
      (∀ value, found = some value → post value rest) ∧ (found = none → rest = tokens) := by
  intro found rest result
  unfold Reader.attempt at result
  cases outcome : reader tokens with
  | ok value =>
      rw [outcome] at result
      cases result
      refine ⟨?_, by simp⟩
      rintro _ ⟨⟩
      exact yields _ _ outcome
  | error left =>
      rw [outcome] at result
      cases result
      simp

theorem Reads.attempt (reads : Reads sound limit reader spec) :
    Reads sound limit (attempt reader) fun before found after =>
      ∀ value, found = some value → spec before value after := by
  intro tokens ordered
  refine (reads tokens ordered).attempt.mono ?_
  rintro found rest ⟨known, same⟩
  cases found with
  | none =>
      cases same rfl
      exact ⟨ordered, Nat.le_refl _, by simp⟩
  | some value =>
      obtain ⟨after, bound, holds⟩ := known value rfl
      refine ⟨after, bound, ?_⟩
      rintro _ ⟨⟩
      exact holds

theorem Reads.map {f : α → β} {spec' : Nat → β → Nat → Prop} (reads : Reads sound limit reader spec)
    (holds : ∀ before found after, spec before found after → spec' before (f found) after) :
    Reads sound limit (f <$> reader) spec' := by
  intro tokens ordered
  rw [← bind_pure_comp]
  exact reads.next ordered fun found middle after bound known =>
    Yields.pure ⟨after, bound, holds _ _ _ known⟩

/-- Results one after the other. -/
def Sequence (spec : Nat → α → Nat → Prop) : Nat → List α → Nat → Prop
  | before, [], after => before ≤ after
  | before, found :: others, after =>
      ∃ start stop, before ≤ start ∧ spec start found stop ∧ Sequence spec stop others after

/-- A step that finds something after the offset where it begins. -/
def Finds (spec : Nat → α → Nat → Prop) (before : Nat) (found : Option α) (after : Nat) : Prop :=
  ∀ value, found = some value → ∃ start stop, before ≤ start ∧ spec start value stop ∧ stop ≤ after

theorem Sequence.widen {before before' after after' : Nat} {found : List α}
    (sequence : Sequence spec before found after) (lower : before' ≤ before) (upper : after ≤ after') :
    Sequence spec before' found after' := by
  induction found generalizing before before' with
  | nil => exact Nat.le_trans lower (Nat.le_trans sequence upper)
  | cons value others ih =>
      obtain ⟨start, stop, before, known, rest⟩ := sequence
      exact ⟨start, stop, Nat.le_trans lower before, known, ih rest (Nat.le_refl _)⟩

theorem Sequence.le {before after : Nat} {found : List α} (sequence : Sequence spec before found after)
    (forward : ∀ start value stop, spec start value stop → start ≤ stop) : before ≤ after := by
  induction found generalizing before with
  | nil => exact sequence
  | cons value others ih =>
      obtain ⟨start, stop, lower, known, rest⟩ := sequence
      exact Nat.le_trans lower (Nat.le_trans (forward _ _ _ known) (ih rest))

theorem Sequence.snoc {before start stop after : Nat} {found : List α} {value : α}
    (sequence : Sequence spec before found start) (known : spec start value stop) (bound : stop ≤ after) :
    Sequence spec before (found ++ [value]) after := by
  induction found generalizing before with
  | nil => exact ⟨start, stop, sequence, known, bound⟩
  | cons first others ih =>
      obtain ⟨start', stop', before, known', rest⟩ := sequence
      exact ⟨start', stop', before, known', ih rest⟩

theorem reads_repeatUpTo {step : Reader (Option α)} (reads : Reads sound limit step (Finds spec)) (rounds : Nat) :
    Reads sound limit (repeatUpTo step rounds) (Sequence spec) := by
  induction rounds with
  | zero => exact fun tokens ordered => Yields.pure ⟨ordered, Nat.le_refl _, Nat.le_refl _⟩
  | succ rounds ih =>
      intro tokens ordered
      refine reads.next ordered fun found middle after bound known => ?_
      cases found with
      | none => exact Yields.pure ⟨after, bound, bound⟩
      | some value =>
          refine ih.next after fun others rest after' bound' known' => Yields.pure ?_
          obtain ⟨start, stop, before, holds, bound''⟩ := known value rfl
          exact ⟨after', by omega, start, stop, before, holds, known'.widen bound'' (Nat.le_refl _)⟩

theorem reads_repeating {step : Reader (Option α)} (reads : Reads sound limit step (Finds spec)) :
    Reads sound limit (repeating step) (Sequence spec) :=
  fun tokens => reads_repeatUpTo reads (tokens.length + 1) tokens

variable {element : Reader α}

/-- An element as the last thing that a step reads. -/
theorem Reads.found (reads : Reads sound limit element spec) {start : List Token}
    (ordered : Ordered sound limit tokens) (bound : front limit start ≤ front limit tokens) :
    Yields tokens (do return some (← element)) (Reached sound limit start (Finds spec)) := by
  refine reads.next ordered fun value rest after bound' known => Yields.pure ⟨after, by omega, ?_⟩
  rintro _ ⟨⟩
  exact ⟨_, _, bound, known, Nat.le_refl _⟩

/-- A step that ends without an element. -/
theorem yields_nothing {start : List Token} (ordered : Ordered sound limit tokens)
    (bound : front limit start ≤ front limit tokens) :
    Yields tokens (pure (none : Option α)) (Reached sound limit start (Finds spec)) :=
  Yields.pure ⟨ordered, bound, by simp [Finds]⟩

theorem reads_separated (lineEnds : Bool) (text : String) (reads : Reads sound limit element spec) :
    Reads sound limit (separated lineEnds text element) fun before found after =>
      found ≠ [] ∧ Sequence spec before found after := by
  intro tokens ordered
  unfold separated
  have more : Reads sound limit (do
      if ← nextIs lineEnds text then
        let _ ← mark text
        return some (← element)
      else return none) (Finds spec) := by
    intro tokens ordered
    refine (looks_nextIs _ _).next fun found => ?_
    split
    · refine (reads_mark text).next ordered fun comma rest₁ ordered₁ bound₁ took => ?_
      exact reads.found ordered₁ bound₁
    · exact yields_nothing ordered (Nat.le_refl _)
  refine reads.next ordered fun first rest₁ ordered₁ bound₁ known₁ => ?_
  refine (reads_repeating more).next ordered₁ fun others rest₂ ordered₂ bound₂ known₂ => Yields.pure ?_
  exact ⟨ordered₂, by omega, by simp, _, _, Nat.le_refl _, known₁, known₂⟩

theorem reads_commaList (close : String) (reads : Reads sound limit element spec) :
    Reads sound limit (commaList close element) (Sequence spec) := by
  intro tokens ordered
  unfold commaList
  have more : Reads sound limit (do
      if ← nextIs false "," then
        let _ ← mark ","
        if ← nextIs false close then return none
        return some (← element)
      else return none) (Finds spec) := by
    intro tokens ordered
    refine (looks_nextIs _ _).next fun found => ?_
    split
    · refine (reads_mark ",").next ordered fun comma rest₁ ordered₁ bound₁ took => ?_
      refine (looks_nextIs _ _).next fun found => ?_
      split
      · exact yields_nothing ordered₁ bound₁
      · exact reads.found ordered₁ bound₁
    · exact yields_nothing ordered (Nat.le_refl _)
  refine (looks_nextIs _ _).next fun closed => ?_
  split
  · exact Yields.pure ⟨ordered, Nat.le_refl _, Nat.le_refl _⟩
  refine (looks_nextIs _ _).next fun comma => ?_
  split
  · refine (reads_mark ",").next ordered fun comma rest₁ ordered₁ bound₁ took => Yields.pure ?_
    exact ⟨ordered₁, bound₁, bound₁⟩
  · refine reads.next ordered fun first rest₁ ordered₁ bound₁ known₁ => ?_
    refine (reads_repeating more).next ordered₁ fun others rest₂ ordered₂ bound₂ known₂ => Yields.pure ?_
    exact ⟨ordered₂, by omega, _, _, Nat.le_refl _, known₁, known₂⟩

theorem reads_terminator : Reads sound limit terminator fun _ _ _ => True := by
  intro tokens ordered
  unfold terminator
  refine Yields.peek fun token _ => ?_
  split
  · exact Yields.pure ⟨ordered, Nat.le_refl _, trivial⟩
  · split
    · exact reads_take.next ordered fun mark rest after bound _ => Yields.pure ⟨after, bound, trivial⟩
    · exact Yields.stuck

theorem reads_lineList (close : String) (reads : Reads sound limit element spec) :
    Reads sound limit (lineList close element) (Sequence spec) := by
  intro tokens ordered
  unfold lineList
  have more : Reads sound limit (do
      if ← nextIs false close then return none
      terminator
      if ← nextIs false close then return none
      return some (← element)) (Finds spec) := by
    intro tokens ordered
    refine (looks_nextIs _ _).next fun found => ?_
    split
    · exact yields_nothing ordered (Nat.le_refl _)
    · refine reads_terminator.next ordered fun _ rest₁ ordered₁ bound₁ _ => ?_
      refine (looks_nextIs _ _).next fun found => ?_
      split
      · exact yields_nothing ordered₁ bound₁
      · exact reads.found ordered₁ bound₁
  refine (looks_nextIs _ _).next fun closed => ?_
  split
  · exact Yields.pure ⟨ordered, Nat.le_refl _, Nat.le_refl _⟩
  · refine reads.next ordered fun first rest₁ ordered₁ bound₁ known₁ => ?_
    refine (reads_repeating more).next ordered₁ fun others rest₂ ordered₂ bound₂ known₂ => Yields.pure ?_
    exact ⟨ordered₂, by omega, _, _, Nat.le_refl _, known₁, known₂⟩

theorem reads_closedLineList (close : String) (reads : Reads sound limit element spec) :
    Reads sound limit (closedLineList close element) (Sequence spec) := by
  refine reads_repeating ?_
  intro tokens ordered
  refine (looks_nextIs _ _).next fun found => ?_
  split
  · exact yields_nothing ordered (Nat.le_refl _)
  · refine reads.next ordered fun value rest₁ ordered₁ bound₁ known => ?_
    refine reads_terminator.next ordered₁ fun _ rest₂ ordered₂ bound₂ _ => Yields.pure ?_
    refine ⟨ordered₂, by omega, ?_⟩
    rintro _ ⟨⟩
    exact ⟨_, _, Nat.le_refl _, known, bound₂⟩

/-! Rows of what was read. -/

/-- A tree between two offsets. -/
abbrev Spans (sound : Nat → Prop) (before : Nat) (node : Node) (after : Nat) : Prop :=
  Node.Row sound before [node] after

theorem Sequence.row {before after : Nat} {nodes : List Node} (sequence : Sequence (Spans sound) before nodes after) :
    Node.Row sound before nodes after := by
  induction nodes generalizing before with
  | nil => exact Node.row_nil.2 sequence
  | cons node nodes ih =>
      obtain ⟨start, stop, bound, spans, rest⟩ := sequence
      obtain ⟨bound', formed, bound''⟩ := Node.row_singleton.1 spans
      exact Node.row_cons.2 ⟨by omega, formed, (ih rest).widen bound'' (Nat.le_refl _)⟩

theorem Sequence.flatten {before after : Nat} {rows : List (List Node)}
    (sequence : Sequence (Node.Row sound) before rows after) : Node.Row sound before rows.flatten after := by
  induction rows generalizing before with
  | nil => exact Node.row_nil.2 sequence
  | cons row rows ih =>
      obtain ⟨start, stop, bound, first, rest⟩ := sequence
      exact (first.widen bound (Nat.le_refl _)).append (ih rest)

theorem Took.leaf {before after : Nat} {token : Token} (took : Took sound before token after) {kind : Kind}
    (plain : kind.isPlain = true) : Spans sound before (token.leaf kind) after :=
  Node.row_singleton.2 ⟨Nat.le_of_eq took.start.symm, took.exact.leaf plain, took.stop⟩

theorem Spans.starts {before after : Nat} {node : Node} (spans : Spans sound before node after) : sound node.start :=
  (Node.row_singleton.1 spans).2.1.shaped.starts

theorem Spans.stops {before after : Nat} {node : Node} (spans : Spans sound before node after) : sound node.stop :=
  (Node.row_singleton.1 spans).2.1.shaped.stops

/-- A node around a row. -/
theorem spans_build {kind : Kind} (plain : kind.isPlain = true) {before start stop after : Nat} {nodes : List Node}
    (starts : sound start) (stops : sound stop) (row : Node.Row sound start nodes stop) (lower : before ≤ start)
    (upper : stop ≤ after) : Spans sound before (.build kind start stop nodes) after :=
  Node.row_singleton.2 ⟨lower, row.build plain starts stops, upper⟩

/-- Tokens as leaves with a role. -/
theorem Sequence.leaves {before after : Nat} {names : List Token} (sequence : Sequence (Took sound) before names after)
    {kind : Kind} (plain : kind.isPlain = true) (role : Role) :
    Node.Row sound before (names.map fun name => (name.leaf kind).withRole role) after := by
  induction names generalizing before with
  | nil => exact Node.row_nil.2 sequence
  | cons name names ih =>
      obtain ⟨start, stop, bound, took, rest⟩ := sequence
      have leaf := ((took.leaf plain).withRole role).widen bound (Nat.le_refl _)
      exact leaf.append (ih rest)

attribute [grind →] Took.start Took.stop Took.exact

end Reader
end TraceWeave.Go
