import Mathlib.Data.List.Forall2
import TraceWeave.Proofs.Go.Levels
import TraceWeave.Proofs.Go.Comments

/-!
How lists stand among the tokens. A reader takes tokens one after the other; those it took for a phrase begin and end
where the phrase does and keep their brackets to themselves. So the tokens of a list are those of its parts, with
commas between them.
-/
namespace TraceWeave.Go

namespace Node

def span (node : Node) : Nat × Nat := (node.start, node.stop)

/-- What counts of an entry of a parameter list. -/
structure Outline where
  kind : Kind
  span : Nat × Nat
  names : List (Nat × Nat)
  type : Option (Nat × Nat)

def outline (node : Node) : Outline :=
  ⟨node.kind, node.span, (node.childrenAs .name).map span, (node.child? .type).map span⟩

/-- A phrase begins and ends with its tokens. -/
structure Covers (used : List Token) (node : Node) : Prop where
  keeps : Token.Keeps 0 used
  starts : Token.startOf? used = some node.start
  stops : Token.stopOf? used = some node.stop

/-- Tokens of an entry of a parameter list. -/
inductive SpellsEntry : List Token → Grammar.Parameter → Prop
  | bare {name : Token} (word : name.kind = .word) : SpellsEntry [name] (.bare name)
  | typed {name : Token} {used : List Token} {type : Node} (word : name.kind = .word) (covers : Covers used type)
      (fixed : ∀ token ∈ used.head?, token.isMark "..." = false) : SpellsEntry (name :: used) (.typed name type)
  | unnamed {used : List Token} {type : Node} (covers : Covers used type) : SpellsEntry used (.unnamed type)
  | spread {dots : Token} {used : List Token} {type : Node} (mark : dots.isMark "..." = true) (covers : Covers used type) :
      SpellsEntry (dots :: used) (.variadic dots.start none type)
  | variadic {name dots : Token} {used : List Token} {type : Node} (word : name.kind = .word)
      (mark : dots.isMark "..." = true) (covers : Covers used type) :
      SpellsEntry (name :: dots :: used) (.variadic name.start (some name) type)

/-- A list in parentheses among the tokens. -/
structure Enclosed (all : List Token) (start stop : Nat) (opening : Token) (inner : List Token) (closing : Token) :
    Prop where
  listed : opening :: (inner ++ [closing]) <:+: all
  opens : opening.isMark "(" = true
  closes : closing.isMark ")" = true
  starts : opening.start = start
  stops : closing.stop = stop

/-- The runs between the commas of an argument list are its arguments. -/
def SpellsArguments (all : List Token) (node : Node) : Prop :=
  ∃ opening inner closing runs, Enclosed all node.start node.stop opening inner closing ∧ Token.Lined runs inner ∧
    List.Forall₂ Covers runs node.parts

/-- The runs between the commas of a parameter list are the entries that its declarations come from. -/
def SpellsParameters (all : List Token) (node : Node) : Prop :=
  ∃ opening inner closing runs entries, Enclosed all node.start node.stop opening inner closing ∧
    Token.Lined runs inner ∧ List.Forall₂ SpellsEntry runs entries ∧
      node.parts.map outline = (Grammar.groupParameters [] entries).map outline

/-- A node begins and ends with its tokens. -/
structure Bounds (used : List Token) (node : Node) : Prop where
  starts : Token.startOf? used = some node.start
  stops : Token.stopOf? used = some node.stop

/-- A node by itself on a line, between the brackets around the lines. -/
structure Stands (used : List Token) (node : Node) : Prop extends Bounds used node where
  keeps : Token.Keeps 1 used

/-- The runs on the lines between two brackets are the parts of a node. -/
def SpellsLines (all : List Token) (first last : String) (node : Node) : Prop :=
  ∃ opening inner closing runs, opening :: (inner ++ [closing]) <:+: all ∧ opening.isMark first = true ∧
    closing.isMark last = true ∧ opening.start = node.start ∧ closing.stop = node.stop ∧ Token.Ruled runs inner ∧
      List.Forall₂ Stands runs node.parts

/-- An import declaration is its keyword and its only part. -/
def SpellsImport (all : List Token) (node : Node) : Prop :=
  ∃ keyword used part, keyword :: used <:+: all ∧ keyword.isWord "import" = true ∧ keyword.start = node.start ∧
    node.parts = [part] ∧ Bounds used part ∧ part.stop = node.stop ∧ (part.kind = .importSpec ∨ part.kind = .importSpecList)

/-- A tree whose lists stand among some tokens. -/
inductive Laid (all : List Token) : Node → Prop where
  | intro {node : Node} (arguments : node.kind = .argumentList → SpellsArguments all node)
      (parameters : node.kind = .parameterList → SpellsParameters all node)
      (statements : node.kind = .block → SpellsLines all "\x7b" "\x7d" node)
      (specs : node.kind = .importSpecList → SpellsLines all "(" ")" node)
      (imports : node.kind = .importDeclaration → SpellsImport all node)
      (children : ∀ child ∈ node.children, Laid all child) : Laid all node

/-- A phrase that tokens were taken for. -/
structure Phrase (all used : List Token) (node : Node) : Prop extends Covers used node where
  part : (node.kind.isNamed && node.kind != .comment) = true
  laid : Laid all node

/-- A phrase on a line. -/
structure Line (all used : List Token) (node : Node) : Prop extends Stands used node where
  part : (node.kind.isNamed && node.kind != .comment) = true
  laid : Laid all node

/-- Kinds of nodes of which it does not matter how their parts stand. -/
@[simp] abbrev NoList (kind : Kind) : Prop := kind ≠ .argumentList ∧ kind ≠ .parameterList ∧ kind ≠ .block ∧
  kind ≠ .importSpecList ∧ kind ≠ .importDeclaration

variable {all used : List Token} {node : Node} {nodes : List Node} {kind : Kind} {start stop : Nat}

theorem Covers.ne_nil (covers : Covers used node) : used ≠ [] := by
  rintro rfl
  cases covers.starts

theorem Bounds.ne_nil (bounds : Bounds used node) : used ≠ [] := by
  rintro rfl
  cases bounds.starts

theorem SpellsEntry.keeps {entry : Grammar.Parameter} (spelled : SpellsEntry used entry) : Token.Keeps 0 used := by
  cases spelled with
  | bare word => exact (Token.plain_of_word word).keeps (Token.keeps_nil _)
  | typed word covers _ => exact (Token.plain_of_word word).keeps covers.keeps
  | unnamed covers => exact covers.keeps
  | spread mark covers => exact (Token.plain_of_isMark mark (by decide)).keeps covers.keeps
  | variadic word mark covers =>
      exact (Token.plain_of_word word).keeps ((Token.plain_of_isMark mark (by decide)).keeps covers.keeps)

theorem SpellsEntry.ne_nil {entry : Grammar.Parameter} (spelled : SpellsEntry used entry) : used ≠ [] := by
  cases spelled with
  | unnamed covers => exact covers.ne_nil
  | _ => exact List.cons_ne_nil _ _

theorem Laid.children (laid : Laid all node) : ∀ child ∈ node.children, Laid all child := by
  cases laid with
  | intro _ _ _ _ _ children => exact children

theorem Laid.arguments (laid : Laid all node) : node.kind = .argumentList → SpellsArguments all node := by
  cases laid with
  | intro arguments _ _ _ _ _ => exact arguments

theorem Laid.parameters (laid : Laid all node) : node.kind = .parameterList → SpellsParameters all node := by
  cases laid with
  | intro _ parameters _ _ _ _ => exact parameters

theorem Laid.statements (laid : Laid all node) : node.kind = .block → SpellsLines all "\x7b" "\x7d" node := by
  cases laid with
  | intro _ _ statements _ _ _ => exact statements

theorem Laid.specs (laid : Laid all node) : node.kind = .importSpecList → SpellsLines all "(" ")" node := by
  cases laid with
  | intro _ _ _ specs _ _ => exact specs

theorem Laid.imports (laid : Laid all node) : node.kind = .importDeclaration → SpellsImport all node := by
  cases laid with
  | intro _ _ _ _ imports _ => exact imports

theorem laid_of_noList {role : Option Role} (free : NoList kind) (children : ∀ child ∈ nodes, Laid all child) :
    Laid all ⟨kind, role, start, stop, nodes⟩ := by
  obtain ⟨arguments, parameters, block, specs, imports⟩ := free
  exact .intro (absurd · arguments) (absurd · parameters) (absurd · block) (absurd · specs) (absurd · imports) children

@[simp] theorem laid_build (free : NoList kind) :
    Laid all (.build kind start stop nodes) ↔ ∀ child ∈ nodes, Laid all child :=
  ⟨fun laid => laid.children, laid_of_noList free⟩

@[simp] theorem laid_spanning (free : NoList kind) {first : Node} {rest : List Node} :
    Laid all (.spanning kind first rest) ↔ Laid all first ∧ ∀ child ∈ rest, Laid all child := by
  rw [← List.forall_mem_cons]
  exact ⟨fun laid => laid.children, laid_of_noList free⟩

@[simp] theorem laid_withRole (role : Role) : Laid all (node.withRole role) ↔ Laid all node :=
  ⟨fun laid => .intro laid.arguments laid.parameters laid.statements laid.specs laid.imports laid.children,
    fun laid => .intro laid.arguments laid.parameters laid.statements laid.specs laid.imports laid.children⟩

@[simp] theorem laid_leaf (free : NoList kind) (token : Token) : Laid all (token.leaf kind) :=
  laid_of_noList free (by simp)

/-- A node of another kind in the place of one. -/
theorem Laid.become (laid : Laid all node) (free : NoList kind) {role : Option Role} :
    Laid all { node with kind, role } := laid_of_noList free laid.children

/-- Lines between brackets, all taken from some tokens. -/
theorem spellsLines_of_each {role : Option Role} {opening closing : Token} {first last : String} {inner : List Token}
    {runs : List (List Token)} (listed : opening :: (inner ++ [closing]) <:+: all) (opens : opening.isMark first = true)
    (closes : closing.isMark last = true) (ruled : Token.Ruled runs inner) (each : List.Forall₂ (Line all) runs nodes) :
    SpellsLines all first last ⟨kind, role, opening.start, closing.stop, nodes⟩ := by
  have known : ∀ node ∈ nodes, (node.kind.isNamed && node.kind != .comment) = true := by
    clear ruled
    induction each with
    | nil => simp
    | cons here _ ih => exact List.forall_mem_cons.2 ⟨here.part, ih⟩
  have parts : Node.parts ⟨kind, role, opening.start, closing.stop, nodes⟩ = nodes := List.filter_eq_self.2 known
  refine ⟨opening, inner, closing, runs, listed, opens, closes, rfl, rfl, ruled, ?_⟩
  rw [parts]
  exact each.imp fun _ _ line => line.toStands

/-- A phrase that is put together from tokens. -/
theorem phrase_build (free : NoList kind) (part : (kind.isNamed && kind != .comment) = true) (keeps : Token.Keeps 0 used)
    (starts : Token.startOf? used = some start) (stops : Token.stopOf? used = some stop)
    (children : ∀ child ∈ nodes, Laid all child) : Phrase all used (.build kind start stop nodes) :=
  { keeps, starts, stops, part, laid := laid_of_noList free children }

end Node

namespace Reader

open Node (Laid Phrase Covers SpellsEntry Enclosed SpellsArguments SpellsParameters)

/-- What was taken from the tokens, and what was found in it. -/
def Taking {α : Type} (tokens : List Token) (spec : List Token → α → Prop) (found : α) (rest : List Token) : Prop :=
  ∃ used, tokens = used ++ rest ∧ spec used found

/-- What a reader takes where something is known of the tokens left. -/
def TakesFrom {α : Type} (all : List Token) (known : List Token → Prop) (reader : Reader α)
    (spec : List Token → α → Prop) : Prop :=
  ∀ tokens, tokens <:+ all → known tokens → Yields tokens reader (Taking tokens spec)

/-- What a reader takes wherever it stands. -/
abbrev Takes {α : Type} (all : List Token) (reader : Reader α) (spec : List Token → α → Prop) : Prop :=
  TakesFrom all (fun _ => True) reader spec

/-- What a reader takes before a token that was looked at. -/
abbrev Sees {α : Type} (all : List Token) (token : Token) (reader : Reader α) (spec : List Token → α → Prop) : Prop :=
  TakesFrom all (fun tokens => tokens.headD default = token) reader spec

/-- What is taken between brackets stays between them. -/
abbrev Stay {α : Type} (post : α → Prop) (used : List Token) (found : α) : Prop := Token.Keeps 1 used ∧ post found

variable {all : List Token} {α β : Type} {reader : Reader α} {later : α → Reader β} {known : List Token → Prop}
  {spec spec' : List Token → α → Prop} {goal : List Token → β → Prop} {post : α → Prop} {final : β → Prop}
  {text : String}

/-- Go on behind what was taken. -/
theorem TakesFrom.behind {used rest : List Token} (takes : Takes all reader fun later => spec (used ++ later))
    (inside : used ++ rest <:+ all) : Yields rest reader (Taking (used ++ rest) spec) := by
  refine (takes rest ((List.suffix_append _ _).trans inside) trivial).mono ?_
  rintro found rest' ⟨later, rfl, holds⟩
  exact ⟨used ++ later, (List.append_assoc _ _ _).symm, holds⟩

theorem TakesFrom.bind (first : TakesFrom all known reader spec)
    (next : ∀ used found, spec used found → Takes all (later found) fun used' => goal (used ++ used')) :
    TakesFrom all known (reader >>= later) goal := by
  intro tokens inside is
  refine Yields.bind ((first tokens inside is).mono ?_)
  rintro found rest ⟨used, rfl, taken⟩
  exact (next used found taken).behind inside

theorem TakesFrom.pure {value : α} (holds : spec [] value) : TakesFrom all known (pure value) spec :=
  fun _ _ _ => Yields.pure ⟨[], rfl, holds⟩

theorem TakesFrom.pass {value : α} (next : TakesFrom all known (later value) goal) :
    TakesFrom all known (Pure.pure value >>= later) goal :=
  fun tokens inside is => Yields.pass (next tokens inside is)

theorem takes_stuck : TakesFrom all known (stuck : Reader α) spec := fun _ _ _ => Yields.stuck

theorem TakesFrom.mono (takes : TakesFrom all known reader spec) (holds : ∀ used found, spec used found → spec' used found) :
    TakesFrom all known reader spec' := fun tokens inside is =>
  (takes tokens inside is).mono fun _ _ ⟨used, split, taken⟩ => ⟨used, split, holds _ _ taken⟩

/-- What a reader takes anywhere it takes before known tokens. -/
theorem TakesFrom.here (takes : Takes all reader spec) : TakesFrom all known reader spec :=
  fun tokens inside _ => takes tokens inside trivial

/-- What is taken stands among all tokens. -/
theorem TakesFrom.listed (takes : TakesFrom all known reader spec) :
    TakesFrom all known reader fun used found => used <:+: all ∧ spec used found := by
  intro tokens inside is
  refine (takes tokens inside is).mono ?_
  rintro found rest ⟨used, rfl, taken⟩
  exact ⟨used, rfl, (List.prefix_append _ _).isInfix.trans inside.isInfix, taken⟩

/-- A result made of what a reader found. -/
theorem TakesFrom.last {f : α → β} (takes : TakesFrom all known reader spec)
    (holds : ∀ used found, spec used found → goal used (f found)) :
    TakesFrom all known (reader >>= fun found => Pure.pure (f found)) goal :=
  takes.bind fun used found taken => .pure (by simpa using holds used found taken)

theorem TakesFrom.map {f : α → β} (takes : TakesFrom all known reader spec)
    (holds : ∀ used found, spec used found → goal used (f found)) : TakesFrom all known (f <$> reader) goal := by
  rw [← bind_pure_comp]
  exact takes.last holds

theorem Looks.asks (looks : Looks reader) (next : ∀ found, TakesFrom all known (later found) goal) :
    TakesFrom all known (reader >>= later) goal :=
  fun tokens inside is => looks.next fun found => next found tokens inside is

theorem TakesFrom.either {first second : Reader α} (takes : TakesFrom all known first spec)
    (other : TakesFrom all known second spec) : TakesFrom all known (either first second) spec :=
  fun tokens inside is => (takes tokens inside is).either (other tokens inside is)

theorem TakesFrom.attempt (takes : TakesFrom all known reader spec) :
    TakesFrom all known (attempt reader) fun used found =>
      (∀ value, found = some value → spec used value) ∧ (found = none → used = []) := by
  intro tokens inside is
  refine (takes tokens inside is).attempt.mono ?_
  rintro found rest ⟨taken, same⟩
  cases found with
  | none => exact ⟨[], (same rfl).symm, by simp, fun _ => rfl⟩
  | some value =>
      obtain ⟨used, split, holds⟩ := taken value rfl
      exact ⟨used, split, by rintro _ ⟨⟩; exact holds, by simp⟩

/-! Single tokens. -/

theorem takes_takeIf (test : Token → Bool) : Takes all (takeIf test) fun used token => used = [token] ∧ test token = true := by
  intro tokens _ _ found rest result
  cases tokens with
  | nil => cases result
  | cons token others =>
      simp only [takeIf] at result
      split at result
      · rename_i passes
        cases result
        exact ⟨[_], rfl, rfl, passes⟩
      · cases result

theorem takes_mark (text : String) : Takes all (mark text) fun used token => used = [token] ∧ token.isMark text = true :=
  takes_takeIf _

theorem takes_keyword (text : String) : Takes all (keyword text) fun used token => used = [token] ∧ token.kind = .word := by
  refine (takes_takeIf _).mono fun used token taken => ⟨taken.1, ?_⟩
  have word := taken.2
  rw [Token.isWord, Bool.and_eq_true, beq_iff_eq] at word
  exact word.1

theorem takes_word : Takes all word fun used token => used = [token] ∧ token.kind = .word :=
  (takes_takeIf _).mono fun _ _ taken => ⟨taken.1, beq_iff_eq.1 taken.2⟩

/-- Go on after a single token. -/
theorem TakesFrom.token {reader : Reader Token} {later : Token → Reader β} {holds : Token → Prop}
    (takes : TakesFrom all known reader fun used token => used = [token] ∧ holds token)
    (next : ∀ token, holds token → Takes all (later token) fun used => goal (token :: used)) :
    TakesFrom all known (reader >>= later) goal := by
  refine takes.bind ?_
  rintro _ token ⟨rfl, is⟩
  exact next token is

theorem takes_peek {later : Token → Reader β} (next : ∀ token, Sees all token (later token) goal) :
    Takes all (peek >>= later) goal :=
  fun tokens inside _ => Yields.peek fun token head => next token tokens inside head

theorem takes_nextOnLine {lineEnds : Bool} {test : Token → Bool} {later : Bool → Reader β}
    (next : ∀ token found, (found = true → test token = true) → Sees all token (later found) goal) :
    Takes all (nextOnLine lineEnds test >>= later) goal := by
  intro tokens inside _
  refine Yields.bind ?_
  intro found same result
  cases result
  exact next _ _ (fun yes => (Bool.and_eq_true _ _ ▸ yes).2) tokens inside rfl

theorem takes_nextIs {lineEnds : Bool} {later : Bool → Reader β}
    (next : ∀ token found, (found = true → token.isMark text = true) → Sees all token (later found) goal) :
    Takes all (nextIs lineEnds text >>= later) goal := takes_nextOnLine next

theorem sees_peekSecond {token : Token} {later : Token → Reader β}
    (next : ∀ second, TakesFrom all (fun tokens => tokens.headD default = token ∧ tokens.tail.headD default = second)
      (later second) goal) : Sees all token (peekSecond >>= later) goal := by
  intro tokens inside head
  refine Yields.bind ?_
  intro second same result
  cases result
  exact next _ tokens inside ⟨head, rfl⟩

theorem TakesFrom.weaken {known' : List Token → Prop} (takes : TakesFrom all known reader spec)
    (holds : ∀ tokens, known' tokens → known tokens) : TakesFrom all known' reader spec :=
  fun tokens inside is => takes tokens inside (holds tokens is)

/-- Go on after a single token, with another one behind it. -/
theorem TakesFrom.tokenBefore {reader : Reader Token} {later : Token → Reader β} {holds : Token → Prop} {second : Token}
    (takes : Takes all reader fun used token => used = [token] ∧ holds token)
    (next : ∀ token, holds token → Sees all second (later token) fun used => goal (token :: used)) :
    TakesFrom all (fun tokens => tokens.tail.headD default = second) (reader >>= later) goal := by
  intro tokens inside known
  refine Yields.bind ((takes tokens inside trivial).mono ?_)
  rintro token rest ⟨_, rfl, rfl, is⟩
  refine (next token is rest ((List.suffix_cons _ _).trans inside) known).mono ?_
  rintro found rest' ⟨used, rfl, holds⟩
  exact ⟨token :: used, rfl, holds⟩

/-- What is taken begins with the token that was looked at. -/
theorem TakesFrom.first {token : Token} (takes : Takes all reader spec) (filled : ∀ used found, spec used found → used ≠ []) :
    Sees all token reader fun used found => spec used found ∧ used.head? = some token := by
  intro tokens inside head
  refine (takes tokens inside trivial).mono ?_
  rintro found rest ⟨used, rfl, taken⟩
  cases used with
  | nil => exact absurd rfl (filled _ _ taken)
  | cons first used => exact ⟨first :: used, rfl, taken, congrArg some head⟩

/-- Take the token that was looked at. -/
theorem sees_take {later : Token → Reader β} (next : Takes all (later token) fun used => goal (token :: used)) :
    Sees all token (take >>= later) goal := by
  intro tokens inside head
  refine Yields.bind ?_
  intro taken rest result
  cases tokens with
  | nil => cases result
  | cons first others =>
      cases result
      have same : taken = token := head
      subst same
      refine (next _ ((List.suffix_cons _ _).trans inside) trivial).mono ?_
      rintro found rest ⟨used, rfl, holds⟩
      exact ⟨taken :: used, rfl, holds⟩

/-! Between brackets. -/

theorem TakesFrom.next (first : TakesFrom all known reader (Stay post))
    (next : ∀ found, post found → Takes all (later found) (Stay final)) :
    TakesFrom all known (reader >>= later) (Stay final) :=
  first.bind fun _ found taken => (next found taken.2).mono fun _ _ taken' => ⟨taken.1.append taken'.1, taken'.2⟩

theorem stays_pure {value : α} (holds : post value) : TakesFrom all known (pure value) (Stay post) :=
  .pure ⟨Token.keeps_nil _, holds⟩

theorem stays_mark (text : String) (plain : text ∉ Symbol.openingMarks ++ Symbol.closingMarks) :
    Takes all (mark text) (Stay fun token => token.isMark text = true) := by
  refine (takes_mark text).mono ?_
  rintro _ token ⟨rfl, mark⟩
  refine ⟨?_, mark⟩
  by_cases comma : text = ","
  · subst comma
    exact Token.keeps_comma mark (Token.keeps_nil _)
  · refine (Token.plain_of_isMark mark ?_).keeps (Token.keeps_nil _)
    rw [List.mem_append, not_or, List.mem_singleton]
    exact ⟨plain, comma⟩

theorem stays_keyword (text : String) : Takes all (keyword text) (Stay fun token => token.kind = .word) := by
  refine (takes_keyword text).mono ?_
  rintro _ token ⟨rfl, word⟩
  exact ⟨(Token.plain_of_word word).keeps (Token.keeps_nil _), word⟩

theorem stays_word : Takes all word (Stay fun token => token.kind = .word) := by
  refine takes_word.mono ?_
  rintro _ token ⟨rfl, word⟩
  exact ⟨(Token.plain_of_word word).keeps (Token.keeps_nil _), word⟩

/-- Pass a token that was looked at. -/
theorem sees_pass {later : Token → Reader β} (keeps : Token.Keeps 1 [token]) (next : Takes all (later token) (Stay final)) :
    Sees all token (take >>= later) (Stay final) :=
  sees_take (next.mono fun _ _ taken => ⟨keeps.append taken.1, taken.2⟩)

/-- A reader between two marks, with what follows it. -/
theorem TakesFrom.closing {close : String} (takes : TakesFrom all known reader (Stay post))
    {later : α → Token → Reader β} {goal : List Token → β → Prop}
    (next : ∀ used found closing, Token.Keeps 1 used → post found → closing.isMark close = true →
      Takes all (later found closing) fun used' => goal (used ++ closing :: used')) :
    TakesFrom all known (reader >>= fun found => mark close >>= fun closing => later found closing) goal :=
  takes.bind fun used found taken => (takes_mark close).token fun closing closes => next used found closing taken.1 taken.2 closes

/-- A phrase stays between the brackets around it. -/
theorem TakesFrom.stays {reader : Reader Node} (takes : TakesFrom all known reader (Phrase all)) :
    TakesFrom all known reader (Stay (Laid all)) :=
  takes.mono fun _ _ phrase => ⟨phrase.keeps.inner, phrase.laid⟩

/-- What stands on a line stays between the brackets around it. -/
theorem TakesFrom.line {reader : Reader Node} (takes : TakesFrom all known reader (Node.Line all)) :
    TakesFrom all known reader (Stay (Laid all)) :=
  takes.mono fun _ _ line => ⟨line.keeps, line.laid⟩

/-! Repetition. -/

/-- Tokens taken by a step that is repeated until it finds nothing. -/
inductive Run {α : Type} (spec : List Token → Option α → Prop) : List Token → List α → Prop
  | stop : Run spec [] []
  | done {used : List Token} (taken : spec used none) : Run spec used []
  | more {used used' : List Token} {found : α} {others : List α} (taken : spec used (some found))
      (later : Run spec used' others) : Run spec (used ++ used') (found :: others)

theorem takes_repeatUpTo {step : Reader (Option α)} {spec : List Token → Option α → Prop} (takes : Takes all step spec)
    (rounds : Nat) : Takes all (repeatUpTo step rounds) (Run spec) := by
  induction rounds with
  | zero => exact .pure .stop
  | succ rounds ih =>
      refine takes.bind fun used found taken => ?_
      cases found with
      | none => exact .pure (by simpa using .done taken)
      | some value => exact ih.last fun used' others later => .more taken later

theorem takes_repeating {step : Reader (Option α)} {spec : List Token → Option α → Prop} (takes : Takes all step spec) :
    Takes all (repeating step) (Run spec) :=
  fun tokens => takes_repeatUpTo takes (tokens.length + 1) tokens

variable (post) in
theorem stays_repeating {step : Reader (Option α)}
    (stays : Takes all step (Stay fun found => ∀ value, found = some value → post value)) :
    Takes all (repeating step) (Stay fun found => ∀ value ∈ found, post value) := by
  refine (takes_repeating stays).mono fun used found run => ?_
  induction run with
  | stop => exact ⟨Token.keeps_nil _, by simp⟩
  | done taken => exact ⟨taken.1, by simp⟩
  | more taken later ih => exact ⟨taken.1.append ih.1, List.forall_mem_cons.2 ⟨taken.2 _ rfl, ih.2⟩⟩

variable {element : Reader α}

/-- An element as the last thing that a step reads. -/
theorem TakesFrom.found (stays : TakesFrom all known element (Stay post)) :
    TakesFrom all known (do return some (← element)) (Stay fun found => ∀ value, found = some value → post value) :=
  stays.last fun _ value taken => ⟨taken.1, by rintro _ ⟨⟩; exact taken.2⟩

theorem stays_none : TakesFrom all known (Pure.pure none : Reader (Option α))
    (Stay fun found => ∀ value, found = some value → post value) := stays_pure (by simp)

theorem stays_separated (lineEnds : Bool) (text : String) (plain : text ∉ Symbol.openingMarks ++ Symbol.closingMarks)
    (stays : Takes all element (Stay post)) :
    Takes all (separated lineEnds text element) (Stay fun found => ∀ value ∈ found, post value) := by
  unfold separated
  refine stays.next fun first known => ?_
  refine (stays_repeating post ?_).next fun rest known' => stays_pure (List.forall_mem_cons.2 ⟨known, known'⟩)
  refine (looks_nextIs _ _).asks fun more => ?_
  split
  · exact (stays_mark text plain).next fun _ _ => stays.found
  · exact stays_none

/-- What a step takes that reads on in a list: a comma and an element, or at most a comma. -/
inductive Continues (spec : List Token → α → Prop) : List Token → Option α → Prop
  | stop : Continues spec [] none
  | comma {comma : Token} (mark : comma.isMark "," = true) : Continues spec [comma] none
  | more {comma : Token} {run : List Token} {value : α} (mark : comma.isMark "," = true) (taken : spec run value) :
      Continues spec (comma :: run) (some value)

/-- The runs between the commas of a list, from its first element on. -/
theorem Run.lined {spec : List Token → α → Prop} {used run : List Token} {first : α} {others : List α}
    (later : Run (Continues spec) used others) (taken : spec run first) :
    ∃ runs, Token.Lined runs (run ++ used) ∧ List.Forall₂ spec runs (first :: others) := by
  induction later generalizing run first with
  | stop => exact ⟨[run], by simpa using .last run, .cons taken .nil⟩
  | done ended =>
      cases ended with
      | stop => exact ⟨[run], by simpa using .last run, .cons taken .nil⟩
      | comma mark => exact ⟨[run], .trailing run mark, .cons taken .nil⟩
  | more step _ ih =>
      cases step with
      | more mark taken' =>
          obtain ⟨runs, lined, each⟩ := ih taken'
          refine ⟨run :: runs, ?_, .cons taken each⟩
          rw [List.cons_append]
          refine .more run mark ?_ lined
          rintro rfl
          cases each

theorem takes_commaList (close : String) {spec : List Token → α → Prop} (takes : Takes all element spec) :
    Takes all (commaList close element) fun used found => ∃ runs, Token.Lined runs used ∧ List.Forall₂ spec runs found := by
  unfold commaList
  refine (looks_nextIs _ _).asks fun closed => ?_
  split
  · exact .pure ⟨[], .none, .nil⟩
  refine (looks_nextIs _ _).asks fun comma => ?_
  split
  · exact (takes_mark ",").token fun comma mark => .pure ⟨[], .comma mark, .nil⟩
  have more : Takes all (do
      if ← nextIs false "," then
        let _ ← mark ","
        if ← nextIs false close then return none
        return some (← element)
      else return none) (Continues spec) := by
    refine (looks_nextIs _ _).asks fun found => ?_
    split
    · refine (takes_mark ",").token fun comma mark => (looks_nextIs _ _).asks fun last => ?_
      split
      · exact .pure (.comma mark)
      · exact takes.last fun run value taken => .more mark taken
    · exact .pure .stop
  exact takes.bind fun run first taken => (takes_repeating more).last fun used others later => later.lined taken

theorem forall_of_forall₂ {γ δ : Type} {related : γ → δ → Prop} {post : δ → Prop} {found : List γ} {found' : List δ}
    (each : List.Forall₂ related found found') (holds : ∀ value value', related value value' → post value') :
    ∀ value ∈ found', post value := by
  induction each with
  | nil => simp
  | cons here _ ih => exact List.forall_mem_cons.2 ⟨holds _ _ here, ih⟩

theorem stays_commaList (close : String) (stays : Takes all element (Stay post)) :
    Takes all (commaList close element) (Stay fun found => ∀ value ∈ found, post value) := by
  refine (takes_commaList close stays).mono ?_
  rintro used found ⟨runs, lined, each⟩
  obtain ⟨keeps, rest⟩ := (List.forall₂_and_left runs found).1 each
  exact ⟨lined.keeps keeps, forall_of_forall₂ rest fun _ _ holds => holds⟩

theorem stays_terminator : Takes all terminator (Stay fun _ => True) := by
  unfold terminator
  refine takes_peek fun token => ?_
  split
  · exact stays_pure trivial
  split
  · rename_i ends
    refine sees_pass ?_ (stays_pure trivial)
    rw [Bool.or_eq_true] at ends
    rcases ends with mark | mark
    · exact (Token.plain_of_isMark mark (by decide)).keeps (Token.keeps_nil _)
    · exact (Token.plain_of_isMark mark (by decide)).keeps (Token.keeps_nil _)
  · exact takes_stuck

theorem stays_lineList (close : String) (stays : Takes all element (Stay post)) :
    Takes all (lineList close element) (Stay fun found => ∀ value ∈ found, post value) := by
  unfold lineList
  refine (looks_nextIs _ _).asks fun closed => ?_
  split
  · exact stays_pure (by simp)
  refine stays.next fun first known => ?_
  refine (stays_repeating post ?_).next fun rest known' => stays_pure (List.forall_mem_cons.2 ⟨known, known'⟩)
  refine (looks_nextIs _ _).asks fun last => ?_
  split
  · exact stays_none
  refine stays_terminator.next fun _ _ => (looks_nextIs _ _).asks fun last => ?_
  split
  · exact stays_none
  · exact stays.found

theorem stays_closedLineList (close : String) (stays : Takes all element (Stay post)) :
    Takes all (closedLineList close element) (Stay fun found => ∀ value ∈ found, post value) := by
  refine stays_repeating post ((looks_nextIs _ _).asks fun closed => ?_)
  split
  · exact stays_none
  · refine stays.next fun value known => stays_terminator.next fun _ _ => stays_pure ?_
    rintro _ ⟨⟩
    exact known

/-! Lines. -/

/-- Go on behind a terminator: a line break before the next token, or a mark. -/
theorem takes_terminator {later : Unit → Reader β}
    (feed : ∀ token, token.newLine = true ∨ token.kind = .eof → Sees all token (later ()) goal)
    (mark : ∀ token, token.EndsLine → Takes all (later ()) fun used => goal (token :: used)) :
    Takes all (terminator >>= later) goal := by
  have split : terminator = peek >>= fun token =>
      if token.newLine || token.kind == .eof then pure ()
      else if token.isMark ";" || token.isMark "\x00" then take >>= fun _ => pure () else stuck := rfl
  rw [split, bind_assoc]
  refine takes_peek fun token => ?_
  split
  · rename_i ends
    rw [Bool.or_eq_true, beq_iff_eq] at ends
    exact .pass (feed token ends)
  split
  · rename_i ends
    rw [Bool.or_eq_true] at ends
    rw [bind_assoc]
    exact sees_take (.pass (mark token ends))
  · exact takes_stuck.bind fun _ _ (contrary : False) => contrary.elim

/-- What a step takes that reads on among lines: what ends a line and an element, or at most a mark. -/
inductive Advances (spec : List Token → α → Prop) : List Token → Option α → Prop
  | stop : Advances spec [] none
  | trailing {mark : Token} (ends : mark.EndsLine) : Advances spec [mark] none
  | feed {token : Token} {others : List Token} {value : α} (feeds : token.newLine = true)
      (taken : spec (token :: others) value) : Advances spec (token :: others) (some value)
  | mark {mark : Token} {run : List Token} {value : α} (ends : mark.EndsLine) (taken : spec run value) :
      Advances spec (mark :: run) (some value)

/-- The runs on the lines, from the first element on. -/
theorem Run.ruled {spec : List Token → α → Prop} {used run : List Token} {first : α} {others : List α}
    (later : Run (Advances spec) used others) (taken : spec run first) :
    ∃ runs, Token.Ruled (run :: runs) (run ++ used) ∧ List.Forall₂ spec (run :: runs) (first :: others) := by
  induction later generalizing run first with
  | stop => exact ⟨[], by simpa using .last run, .cons taken .nil⟩
  | done ended =>
      cases ended with
      | stop => exact ⟨[], by simpa using .last run, .cons taken .nil⟩
      | trailing ends => exact ⟨[], .trailing run ends, .cons taken .nil⟩
  | more step _ ih =>
      cases step with
      | feed feeds taken' =>
          obtain ⟨runs, ruled, each⟩ := ih taken'
          exact ⟨_, .feed run feeds ruled, .cons taken each⟩
      | mark ends taken' =>
          obtain ⟨runs, ruled, each⟩ := ih taken'
          exact ⟨_, .mark run ends (List.cons_ne_nil _ _) ruled, .cons taken each⟩

/-- A step from one line to the next, where `look` tells whether the lines end. -/
theorem takes_advance {γ : Type} {look : Reader γ} (looks : Looks look) (ends : γ → Bool)
    {spec : List Token → α → Prop} (takes : Takes all element spec)
    (filled : ∀ used value, spec used value → Token.Keeps 1 used ∧ used ≠ []) :
    Takes all (look >>= fun found => if ends found = true then pure none else
      terminator >>= fun _ => look >>= fun found => if ends found = true then pure none else
        element >>= fun value => pure (some value)) (Advances spec) := by
  refine looks.asks fun found => ?_
  split
  · exact .pure .stop
  refine takes_terminator (fun token feeds => looks.asks fun found => ?_) fun token mark => looks.asks fun found => ?_
  · split
    · exact .pure .stop
    · refine (takes.first fun used value taken => (filled used value taken).2).last fun used value taken => ?_
      obtain ⟨taken, head⟩ := taken
      obtain ⟨others, rfl⟩ := List.head?_eq_some_iff.1 head
      -- the end of the text is no part of an element
      refine .feed (feeds.resolve_right fun ended => ?_) taken
      have sound := ((filled _ _ taken).1.sound token List.mem_cons_self).1
      rw [Symbol.isProgram, Token.symbol, ended] at sound
      cases sound
  · split
    · exact .pure (.trailing mark)
    · exact takes.last fun run value taken => .mark mark taken

theorem takes_lineList (close : String) {spec : List Token → α → Prop} (takes : Takes all element spec)
    (filled : ∀ used value, spec used value → Token.Keeps 1 used ∧ used ≠ []) :
    Takes all (lineList close element) fun used found => ∃ runs, Token.Ruled runs used ∧ List.Forall₂ spec runs found := by
  refine (looks_nextIs _ _).asks fun closed => ?_
  split
  · exact .pure ⟨[], .none, .nil⟩
  refine takes.bind fun run first taken => ?_
  refine (takes_repeating (takes_advance (looks_nextIs _ _) (fun found => found) takes filled)).last fun used others later => ?_
  obtain ⟨runs, ruled, each⟩ := later.ruled taken
  exact ⟨_, ruled, each⟩

end Reader

end TraceWeave.Go
