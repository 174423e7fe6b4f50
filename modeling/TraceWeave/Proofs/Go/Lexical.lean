import TraceWeave.Proofs.Go.Comments

/-!
What nodes have to do with tokens. An identifier is a word of the text and holds nothing else; a block
and a list of imports begin and end with their brackets. Readers only put nodes together from the
tokens they are given, so this is followed through the grammar with no regard to offsets.
-/
namespace TraceWeave.Go

namespace Kind

/-- The brackets at the ends of a node. -/
def brackets? : Kind → Option (String × String)
  | .block => some ("\x7b", "\x7d")
  | .importSpecList => some ("(", ")")
  | _ => none

/-- Kinds of which the tokens do not matter. -/
@[simp] abbrev IsFree (kind : Kind) : Prop := kind ≠ .identifier ∧ kind ≠ .block ∧ kind ≠ .importSpecList

theorem IsFree.brackets? {kind : Kind} (free : kind.IsFree) : kind.brackets? = none := by
  cases kind with
  | block => exact absurd rfl free.2.1
  | importSpecList => exact absurd rfl free.2.2
  | _ => rfl

end Kind

namespace Node

/-- A tree whose identifiers are words and whose brackets are marks, all taken from a list of tokens. -/
inductive Lexical (all : List Token) : Node → Prop where
  | intro {node : Node}
      (word : node.kind = .identifier → node.parts = [] ∧
        ∃ token ∈ all, token.kind = .word ∧ token.start = node.start ∧ token.stop = node.stop)
      (brackets : ∀ opening closing, node.kind.brackets? = some (opening, closing) →
        (∃ token ∈ all, token.isMark opening = true ∧ token.start = node.start) ∧
          ∃ token ∈ all, token.isMark closing = true ∧ token.stop = node.stop)
      (children : ∀ child ∈ node.children, Lexical all child) : Lexical all node

variable {all : List Token} {node : Node} {nodes : List Node} {kind : Kind} {start stop : Nat}

theorem Lexical.word (lexical : Lexical all node) : node.kind = .identifier → node.parts = [] ∧
    ∃ token ∈ all, token.kind = .word ∧ token.start = node.start ∧ token.stop = node.stop := by
  cases lexical with
  | intro word _ _ => exact word

theorem Lexical.brackets (lexical : Lexical all node) {opening closing : String}
    (kind : node.kind.brackets? = some (opening, closing)) :
    (∃ token ∈ all, token.isMark opening = true ∧ token.start = node.start) ∧
      ∃ token ∈ all, token.isMark closing = true ∧ token.stop = node.stop := by
  cases lexical with
  | intro _ brackets _ => exact brackets opening closing kind

theorem Lexical.children (lexical : Lexical all node) : ∀ child ∈ node.children, Lexical all child := by
  cases lexical with
  | intro _ _ children => exact children

theorem lexical_of_free {role : Option Role} (free : kind.IsFree) (children : ∀ child ∈ nodes, Lexical all child) :
    Lexical all ⟨kind, role, start, stop, nodes⟩ := by
  refine .intro (fun contrary => ?_) (fun opening closing contrary => ?_) children
  · exact absurd contrary free.1
  · cases free.brackets?.symm.trans contrary

@[simp] theorem lexical_build (free : kind.IsFree) :
    Lexical all (.build kind start stop nodes) ↔ ∀ child ∈ nodes, Lexical all child :=
  ⟨fun lexical => lexical.children, lexical_of_free free⟩

@[simp] theorem lexical_spanning (free : kind.IsFree) {first : Node} {rest : List Node} :
    Lexical all (.spanning kind first rest) ↔ Lexical all first ∧ ∀ child ∈ rest, Lexical all child := by
  rw [← List.forall_mem_cons]
  exact ⟨fun lexical => lexical.children, lexical_of_free free⟩

@[simp] theorem lexical_withRole (role : Role) : Lexical all (node.withRole role) ↔ Lexical all node := by
  constructor
  · intro lexical
    exact .intro lexical.word (fun _ _ => lexical.brackets) lexical.children
  · intro lexical
    exact .intro lexical.word (fun _ _ => lexical.brackets) lexical.children

@[simp] theorem lexical_leaf (free : kind.IsFree) (token : Token) : Lexical all (token.leaf kind) :=
  lexical_of_free free (by simp)

/-- A word as an identifier. -/
theorem lexical_word {token : Token} (member : token ∈ all) (word : token.kind = .word) :
    Lexical all (token.leaf .identifier) :=
  .intro (fun _ => ⟨rfl, token, member, word, rfl, rfl⟩) (fun _ _ contrary => by cases contrary)
    (fun _ contrary => by cases contrary)

/-- Nodes between two marks. -/
theorem lexical_between {opening closing : Token} {marks : String × String} (known : kind.brackets? = some marks)
    (opens : opening ∈ all ∧ opening.isMark marks.1 = true) (closes : closing ∈ all ∧ closing.isMark marks.2 = true)
    (children : ∀ child ∈ nodes, Lexical all child) :
    Lexical all (.build kind opening.start closing.stop nodes) := by
  refine .intro (fun contrary => ?_) (fun first last same => ?_) children
  · cases (show kind = .identifier from contrary)
    cases known
  · cases known.symm.trans same
    exact ⟨⟨opening, opens.1, opens.2, rfl⟩, closing, closes.1, closes.2, rfl⟩

/-- A node of another kind in the place of one that is no longer an identifier. -/
theorem Lexical.become (lexical : Lexical all node) (free : kind.IsFree) {role : Option Role} :
    Lexical all { node with kind, role } := lexical_of_free free lexical.children

end Node

namespace Reader

/-- What holds of every result while tokens are taken from a given list. -/
def Within {α : Type} (all : List Token) (reader : Reader α) (post : α → Prop) : Prop :=
  ∀ tokens, tokens ⊆ all → Yields tokens reader fun found rest => rest ⊆ all ∧ post found

variable {all tokens : List Token} {α β : Type} {reader : Reader α} {later : α → Reader β} {post : α → Prop}
  {goal : β → Prop}

theorem Within.bind (first : Within all reader post) (next : ∀ found, post found → Within all (later found) goal) :
    Within all (reader >>= later) goal :=
  fun tokens inside => Yields.bind ((first tokens inside).mono fun found rest known => next found known.2 rest known.1)

theorem Within.pure {value : α} (holds : post value) : Within all (pure value) post :=
  fun _ inside => Yields.pure ⟨inside, holds⟩

theorem Within.pass {value : α} (next : Within all (later value) goal) : Within all (Pure.pure value >>= later) goal :=
  fun tokens inside => Yields.pass (next tokens inside)

theorem within_stuck : Within all (stuck : Reader α) post := fun _ _ => Yields.stuck

theorem Within.mono {post' : α → Prop} (within : Within all reader post) (holds : ∀ found, post found → post' found) :
    Within all reader post' :=
  fun tokens inside => (within tokens inside).mono fun found _ known => ⟨known.1, holds found known.2⟩

theorem Looks.ask (looks : Looks reader) (next : ∀ found, Within all (later found) goal) :
    Within all (reader >>= later) goal :=
  fun tokens inside => looks.next fun found => next found tokens inside

theorem within_takeIf (test : Token → Bool) : Within all (takeIf test) fun token => token ∈ all ∧ test token = true := by
  intro tokens inside found rest result
  cases tokens with
  | nil => cases result
  | cons token others =>
      simp only [takeIf] at result
      split at result
      · rename_i passes
        cases result
        exact ⟨List.Subset.trans (List.subset_cons_self _ _) inside, inside List.mem_cons_self, passes⟩
      · cases result

theorem within_mark (text : String) : Within all (mark text) fun token => token ∈ all ∧ token.isMark text = true :=
  within_takeIf _

theorem within_keyword (text : String) : Within all (keyword text) fun token => token ∈ all :=
  (within_takeIf _).mono fun _ known => known.1

theorem within_word : Within all word fun token => token ∈ all ∧ token.kind = .word :=
  (within_takeIf _).mono fun _ known => ⟨known.1, beq_iff_eq.1 known.2⟩

theorem within_take : Within all take fun token => token ∈ all := by
  intro tokens inside found rest result
  cases tokens with
  | nil => cases result
  | cons token others =>
      cases result
      exact ⟨List.Subset.trans (List.subset_cons_self _ _) inside, inside List.mem_cons_self⟩

/-- A token that is looked at and taken afterwards. -/
theorem within_peek {later : Token → Reader β}
    (next : ∀ token, (∀ tokens, tokens ⊆ all → tokens.headD default = token → Yields tokens (later token)
      fun found rest => rest ⊆ all ∧ goal found)) : Within all (peek >>= later) goal :=
  fun tokens inside => Yields.peek fun token head => next token tokens inside head

/-- Take the token that was looked at before. -/
theorem yields_take {later : Token → Reader β} {token : Token} (inside : tokens ⊆ all)
    (head : tokens.headD default = token) (next : token ∈ all → Within all (later token) goal) :
    Yields tokens (take >>= later) fun found rest => rest ⊆ all ∧ goal found := by
  refine Yields.bind fun taken rest result => ?_
  obtain ⟨remaining, member⟩ := within_take tokens inside taken rest result
  cases tokens with
  | nil => cases result
  | cons first others =>
      cases result
      have same : taken = token := head
      exact same ▸ next (same ▸ member) _ remaining

theorem Within.either {first second : Reader α} (within : Within all first post) (other : Within all second post) :
    Within all (either first second) post :=
  fun tokens inside => (within tokens inside).either (other tokens inside)

theorem Within.attempt (within : Within all reader post) :
    Within all (attempt reader) fun found => ∀ value, found = some value → post value := by
  intro tokens inside
  refine (within tokens inside).attempt.mono ?_
  rintro found rest ⟨known, same⟩
  cases found with
  | none => exact ⟨same rfl ▸ inside, by simp⟩
  | some value =>
      obtain ⟨rest, holds⟩ := known value rfl
      refine ⟨rest, ?_⟩
      rintro _ ⟨⟩
      exact holds

theorem Within.map {f : α → β} (within : Within all reader post) (holds : ∀ found, post found → goal (f found)) :
    Within all (f <$> reader) goal := by
  rw [← bind_pure_comp]
  exact within.bind fun found known => .pure (holds found known)

/-- An element as the last thing that a step reads. -/
theorem Within.found (within : Within all reader post) :
    Within all (do return some (← reader)) fun found => ∀ value, found = some value → post value := by
  refine within.bind fun value known => .pure ?_
  rintro _ ⟨⟩
  exact known

theorem within_none : Within all (Pure.pure none : Reader (Option α)) fun found => ∀ value, found = some value → post value :=
  .pure (by simp)

theorem within_repeatUpTo {step : Reader (Option α)}
    (within : Within all step fun found => ∀ value, found = some value → post value) (rounds : Nat) :
    Within all (repeatUpTo step rounds) fun found => ∀ value ∈ found, post value := by
  induction rounds with
  | zero => exact .pure (by simp)
  | succ rounds ih =>
      refine within.bind fun found known => ?_
      cases found with
      | none => exact .pure (by simp)
      | some value => exact ih.bind fun others known' => .pure (List.forall_mem_cons.2 ⟨known value rfl, known'⟩)

theorem within_repeating {step : Reader (Option α)}
    (within : Within all step fun found => ∀ value, found = some value → post value) :
    Within all (repeating step) fun found => ∀ value ∈ found, post value :=
  fun tokens => within_repeatUpTo within (tokens.length + 1) tokens

variable {element : Reader α}

theorem within_separated (lineEnds : Bool) (text : String) (within : Within all element post) :
    Within all (separated lineEnds text element) fun found => ∀ value ∈ found, post value := by
  unfold separated
  refine within.bind fun first known => ?_
  refine Within.bind (within_repeating (?_ : Within all _ fun found => ∀ value, found = some value → post value))
    fun rest known' => .pure (List.forall_mem_cons.2 ⟨known, known'⟩)
  refine (looks_nextIs _ _).ask fun more => ?_
  split
  · exact (within_mark _).bind fun _ _ => within.found
  · exact within_none

theorem within_commaList (close : String) (within : Within all element post) :
    Within all (commaList close element) fun found => ∀ value ∈ found, post value := by
  unfold commaList
  refine (looks_nextIs _ _).ask fun closed => ?_
  split
  · exact .pure (by simp)
  refine (looks_nextIs _ _).ask fun comma => ?_
  split
  · exact (within_mark _).bind fun _ _ => .pure (by simp)
  refine within.bind fun first known => ?_
  refine Within.bind (within_repeating (?_ : Within all _ fun found => ∀ value, found = some value → post value))
    fun rest known' => .pure (List.forall_mem_cons.2 ⟨known, known'⟩)
  refine (looks_nextIs _ _).ask fun more => ?_
  split
  · refine (within_mark _).bind fun _ _ => (looks_nextIs _ _).ask fun last => ?_
    split
    · exact within_none
    · exact within.found
  · exact within_none

theorem within_terminator : Within all terminator fun _ => True := by
  unfold terminator
  refine looks_peek.ask fun token => ?_
  split
  · exact .pure trivial
  · split
    · exact within_take.bind fun _ _ => .pure trivial
    · exact within_stuck

theorem within_lineList (close : String) (within : Within all element post) :
    Within all (lineList close element) fun found => ∀ value ∈ found, post value := by
  unfold lineList
  refine (looks_nextIs _ _).ask fun closed => ?_
  split
  · exact .pure (by simp)
  refine within.bind fun first known => ?_
  refine Within.bind (within_repeating (?_ : Within all _ fun found => ∀ value, found = some value → post value))
    fun rest known' => .pure (List.forall_mem_cons.2 ⟨known, known'⟩)
  refine (looks_nextIs _ _).ask fun last => ?_
  split
  · exact within_none
  refine within_terminator.bind fun _ _ => (looks_nextIs _ _).ask fun last => ?_
  split
  · exact within_none
  · exact within.found

theorem within_closedLineList (close : String) (within : Within all element post) :
    Within all (closedLineList close element) fun found => ∀ value ∈ found, post value := by
  refine within_repeating ((looks_nextIs _ _).ask fun closed => ?_)
  split
  · exact within_none
  · refine within.bind fun value known => within_terminator.bind fun _ _ => .pure ?_
    rintro _ ⟨⟩
    exact known

end Reader

namespace Grammar

open Reader
open Node (Lexical lexical_word lexical_between)

/-- What is assumed of the readers for the phrases inside a phrase. -/
structure IsLexical (all : List Token) (g : Grammar) : Prop where
  type : ∀ lineEnds, Within all (g.type lineEnds) (Lexical all)
  expression : ∀ mode, Within all (g.expression mode) (Lexical all)
  literalValue : Within all g.literalValue (Lexical all)
  block : Within all g.block (Lexical all)
  statement : Within all g.statement (Lexical all)

section Types

variable {all : List Token} {g : Grammar} (lexical : g.IsLexical all) {kind : Kind}
include lexical

theorem within_typeUnion (free : kind.IsFree) (lineEnds : Bool) :
    Within all (g.typeUnion kind lineEnds) (Lexical all) := by
  refine (within_separated _ _ (lexical.type _)).bind fun types known => ?_
  cases types with
  | nil => exact within_stuck
  | cons first rest => exact .pure ((Node.lexical_spanning free).2 (List.forall_mem_cons.1 known))

theorem within_typeArguments : Within all g.typeArguments (Lexical all) := by
  refine (within_mark _).bind fun opening _ => ?_
  refine (within_commaList _ (within_typeUnion lexical (by simp) _)).bind fun arguments known => ?_
  refine (within_mark _).bind fun closing _ => ?_
  split
  · exact within_stuck
  · exact .pure (by simpa using known)

theorem within_namedType (lineEnds : Bool) : Within all (g.namedType lineEnds) (Lexical all) := by
  unfold namedType
  refine (within_takeIf _).bind fun name _ => (looks_nextIs _ _).ask fun dotted => ?_
  extract_lets jump
  have joins : ∀ base, Lexical all base → Within all (jump base) (Lexical all) := by
    intro base known
    refine (looks_nextIs _ _).ask fun bracket => ?_
    split
    · refine (within_typeArguments lexical).attempt.bind fun found known' => ?_
      cases found with
      | none => exact .pure known
      | some arguments => exact .pure (by simp [known, known' arguments rfl])
    · exact .pure known
  split
  · refine (within_mark _).bind fun _ _ => within_word.bind fun member _ => .pass (joins _ ?_)
    simp
  · exact .pass (joins _ (by simp))

/-- Names and types of an entry of a parameter list. -/
def Parameter.IsLexical (all : List Token) : Parameter → Prop
  | .bare name => name ∈ all ∧ name.kind = .word
  | .typed name type => (name ∈ all ∧ name.kind = .word) ∧ Lexical all type
  | .unnamed type => Lexical all type
  | .variadic _ name type => (∀ token, name = some token → token ∈ all ∧ token.kind = .word) ∧ Lexical all type

theorem within_variadicParameter {name : Option Token} (known : ∀ token, name = some token → token ∈ all ∧ token.kind = .word) :
    Within all (g.variadicParameter name) (Parameter.IsLexical all) := by
  refine (within_mark _).bind fun dots _ => (lexical.type _).bind fun type known' => .pure ?_
  exact ⟨known, known'⟩

theorem within_typedParameter : Within all g.typedParameter (Parameter.IsLexical all) := by
  refine within_word.bind fun name known => (lexical.type _).bind fun type known' => looks_peek.ask fun next => ?_
  split
  · exact .pure ⟨known, known'⟩
  · exact within_stuck

theorem within_parameter : Within all g.parameter (Parameter.IsLexical all) := by
  have unnamed : Within all (do return Parameter.unnamed (← g.type false)) (Parameter.IsLexical all) :=
    (lexical.type _).bind fun type known => .pure known
  unfold parameter
  refine within_peek fun token tokens inside head => looks_peekSecond.next fun second => ?_
  split
  · exact within_variadicParameter lexical (by simp) tokens inside
  split
  · rename_i word
    rw [Bool.and_eq_true, beq_iff_eq] at word
    split
    · refine yields_take inside head fun member => within_variadicParameter lexical ?_
      rintro _ ⟨⟩
      exact ⟨member, word.1⟩
    split
    · exact yields_take inside head fun member => .pure ⟨member, word.1⟩
    split
    · exact unnamed tokens inside
    · have mapped : Within all (Parameter.unnamed <$> g.type false) (Parameter.IsLexical all) :=
        (lexical.type _).map fun type known => known
      exact (within_typedParameter lexical).either mapped tokens inside
  · exact unnamed tokens inside

omit lexical in
theorem lexical_names {names : List Token} (known : ∀ name ∈ names, name ∈ all ∧ name.kind = .word) (role : Role) :
    ∀ node ∈ names.map (fun name => (name.leaf .identifier).withRole role), Lexical all node := by
  intro node member
  obtain ⟨name, listed, rfl⟩ := List.mem_map.1 member
  exact (Node.lexical_withRole role).2 (lexical_word (known name listed).1 (known name listed).2)

omit lexical in
theorem lexical_parameterDeclaration {names : List Token} (known : ∀ name ∈ names, name ∈ all ∧ name.kind = .word)
    {type : Node} (known' : Lexical all type) : Lexical all (parameterDeclaration names type) := by
  have named := lexical_names known .name
  unfold parameterDeclaration
  cases names with
  | nil => simpa using known'
  | cons name names =>
      rw [List.map_cons, List.forall_mem_cons] at named
      refine (Node.lexical_spanning (by simp)).2 ⟨named.1, List.forall_mem_append.2 ⟨named.2, ?_⟩⟩
      simpa using known'

omit lexical in
theorem lexical_groupParameters {entries : List Parameter} (known : ∀ entry ∈ entries, Parameter.IsLexical all entry)
    {names : List Token} (known' : ∀ name ∈ names, name ∈ all ∧ name.kind = .word) :
    ∀ node ∈ groupParameters names entries, Lexical all node := by
  have typed : ∀ node ∈ names.map typeOnly, Lexical all node := by
    intro node member
    obtain ⟨name, _, rfl⟩ := List.mem_map.1 member
    exact lexical_parameterDeclaration (by simp) (by simp)
  induction entries generalizing names with
  | nil => exact typed
  | cons entry rest ih =>
      obtain ⟨here, others⟩ := List.forall_mem_cons.1 known
      have later : ∀ node ∈ groupParameters [] rest, Lexical all node := ih others (by simp) (by simp)
      cases entry with
      | bare name =>
          have more : ∀ other ∈ names ++ [name], other ∈ all ∧ other.kind = .word :=
            List.forall_mem_append.2 ⟨known', List.forall_mem_singleton.2 here⟩
          refine ih others more ?_
          intro node member
          obtain ⟨name, _, rfl⟩ := List.mem_map.1 member
          exact lexical_parameterDeclaration (by simp) (by simp)
      | typed name type =>
          have more : ∀ other ∈ names ++ [name], other ∈ all ∧ other.kind = .word :=
            List.forall_mem_append.2 ⟨known', List.forall_mem_singleton.2 here.1⟩
          exact List.forall_mem_cons.2 ⟨lexical_parameterDeclaration more here.2, later⟩
      | unnamed type =>
          refine List.forall_mem_append.2 ⟨typed, List.forall_mem_cons.2 ⟨?_, later⟩⟩
          exact lexical_parameterDeclaration (by simp) here
      | variadic start name type =>
          refine List.forall_mem_append.2 ⟨typed, List.forall_mem_cons.2 ⟨?_, later⟩⟩
          refine (Node.lexical_build (by simp)).2 (List.forall_mem_append.2 ⟨?_, by simpa using here.2⟩)
          exact lexical_names (by simpa using here.1) .name

theorem within_parameters : Within all g.parameters (Lexical all) := by
  refine (within_mark _).bind fun opening _ => ?_
  refine (within_commaList _ (within_parameter lexical)).bind fun entries known => ?_
  refine (within_mark _).bind fun closing _ => .pure ((Node.lexical_build (by simp)).2 ?_)
  exact lexical_groupParameters known (by simp)

theorem within_result (lineEnds : Bool) : Within all (g.result lineEnds) fun nodes => ∀ node ∈ nodes, Lexical all node := by
  unfold result
  refine (looks_nextIs _ _).ask fun bracket => ?_
  split
  · exact (within_parameters lexical).bind fun list known => .pure (by simpa using known)
  refine (looks_nextOnLine _ _).ask fun begins => ?_
  split
  · exact (lexical.type _).bind fun type known => .pure (by simpa using known)
  · exact .pure (by simp)

theorem within_signature (lineEnds : Bool) :
    Within all (g.signature lineEnds) fun found => ∀ node ∈ found.2, Lexical all node := by
  refine (within_parameters lexical).bind fun list known => (within_result lexical _).bind fun result known' => .pure ?_
  exact List.forall_mem_cons.2 ⟨by simpa using known, known'⟩

theorem within_functionType (lineEnds : Bool) : Within all (g.functionType lineEnds) (Lexical all) := by
  refine (within_keyword _).bind fun head _ => (within_signature lexical _).bind fun found known => .pure ?_
  exact (Node.lexical_build (by simp)).2 known

theorem within_namedFields : Within all g.namedFields fun nodes => ∀ node ∈ nodes, Lexical all node := by
  refine (within_separated _ _ within_word).bind fun names _ => (lexical.type _).bind fun type known => .pure ?_
  refine List.forall_mem_append.2 ⟨?_, by simpa using known⟩
  intro node member
  obtain ⟨name, _, rfl⟩ := List.mem_map.1 member
  simp

theorem within_embeddedField : Within all g.embeddedField fun found => ∀ node ∈ found.2, Lexical all node := by
  unfold embeddedField
  refine looks_peek.ask fun token => ?_
  split
  · exact within_take.bind fun star _ => (within_namedType lexical _).bind fun type known => .pure (by simpa using known)
  · exact (within_namedType lexical _).bind fun type known => .pure (by simpa using known)

omit lexical in
theorem within_fieldTag : Within all fieldTag fun nodes => ∀ node ∈ nodes, Lexical all node := by
  unfold fieldTag
  refine looks_peek.ask fun token => ?_
  split
  · exact .pure (by simp)
  split
  · exact within_take.bind fun tag _ => .pure (by simp)
  split
  · exact within_take.bind fun tag _ => .pure (by simp)
  · exact .pure (by simp)

theorem within_fieldDeclaration : Within all g.fieldDeclaration (Lexical all) := by
  unfold fieldDeclaration
  refine looks_peek.ask fun token => looks_peekSecond.ask fun second => ?_
  extract_lets named jump
  have fields : Within all named fun found => ∀ node ∈ found.2, Lexical all node :=
    (within_namedFields lexical).bind fun children known => .pure known
  have joins : ∀ found : Nat × List Node, (∀ node ∈ found.2, Lexical all node) → Within all (jump found) (Lexical all) := by
    intro found known
    refine within_fieldTag.bind fun tag known' => .pure ((Node.lexical_build (by simp)).2 ?_)
    exact List.forall_mem_append.2 ⟨known, known'⟩
  split
  · exact (within_embeddedField lexical).bind joins
  split
  · refine (Within.either ?_ (within_embeddedField lexical)).bind joins
    refine fields.bind fun found known => looks_peek.ask fun next => ?_
    split
    · exact .pure known
    · exact within_stuck
  · exact fields.bind joins

theorem within_structType : Within all g.structType (Lexical all) := by
  refine (within_keyword _).bind fun head _ => (within_mark _).bind fun opening _ => ?_
  refine (within_lineList _ (within_fieldDeclaration lexical)).bind fun fields known => ?_
  exact (within_mark _).bind fun closing _ => .pure (by simpa using known)

theorem within_interfaceElement : Within all g.interfaceElement (Lexical all) := by
  unfold interfaceElement
  refine looks_peek.ask fun token => looks_peekSecond.ask fun second => ?_
  split
  · refine within_take.bind fun name _ => (within_signature lexical _).bind fun found known => .pure ?_
    exact (Node.lexical_build (by simp)).2 (List.forall_mem_cons.2 ⟨by simp, known⟩)
  · exact within_typeUnion lexical (by simp) _

theorem within_interfaceType : Within all g.interfaceType (Lexical all) := by
  refine (within_keyword _).bind fun head _ => (within_mark _).bind fun _ _ => ?_
  refine (within_lineList _ (within_interfaceElement lexical)).bind fun elements known => ?_
  exact (within_mark _).bind fun closing _ => .pure (by simpa using known)

theorem within_mapType (lineEnds : Bool) : Within all (g.mapType lineEnds) (Lexical all) := by
  refine (within_keyword _).bind fun head _ => (within_mark _).bind fun _ _ => (lexical.type _).bind fun key known => ?_
  refine (within_mark _).bind fun _ _ => (lexical.type _).bind fun value known' => .pure ?_
  simp [known, known']

theorem within_channelType (lineEnds : Bool) : Within all (g.channelType lineEnds) (Lexical all) := by
  have ending : ∀ start, Within all (do
      let value ← g.type lineEnds
      return .build .channelType start value.stop [value.withRole .value]) (Lexical all) :=
    fun start => (lexical.type _).bind fun value known => .pure (by simpa using known)
  unfold channelType
  refine looks_peek.ask fun token => ?_
  split
  · exact within_take.bind fun head _ => (within_keyword _).bind fun _ _ => ending _
  · refine (within_keyword _).bind fun head _ => (looks_nextIs _ _).ask fun arrow => ?_
    split
    · exact within_take.bind fun _ _ => ending _
    · exact ending _

theorem within_arrayType (lineEnds : Bool) : Within all (g.arrayType lineEnds) (Lexical all) := by
  refine (within_mark _).bind fun head _ => (looks_nextIs _ _).ask fun empty => ?_
  split
  · exact within_take.bind fun _ _ => (lexical.type _).bind fun element known => .pure (by simpa using known)
  · refine (lexical.expression _).bind fun length known => (within_mark _).bind fun _ _ => ?_
    exact (lexical.type _).bind fun element known' => .pure (by simp [known, known'])

theorem within_openArrayType : Within all g.openArrayType (Lexical all) := by
  refine (within_mark _).bind fun head _ => (within_mark _).bind fun _ _ => (within_mark _).bind fun _ _ => ?_
  exact (lexical.type _).bind fun element known => .pure (by simpa using known)

theorem within_parenthesizedType : Within all g.parenthesizedType (Lexical all) := by
  refine (within_mark _).bind fun opening _ => (lexical.type _).bind fun type known => ?_
  exact (within_mark _).bind fun closing _ => .pure (by simpa using known)

theorem within_markedType (text : String) (free : kind.IsFree) (lineEnds : Bool) :
    Within all (g.markedType text kind lineEnds) (Lexical all) :=
  (within_mark _).bind fun head _ => (lexical.type _).bind fun type known => .pure ((Node.lexical_build free).2 (by simpa using known))

theorem within_typeStep (lineEnds : Bool) : Within all (g.typeStep lineEnds) (Lexical all) := by
  unfold typeStep
  refine looks_peek.ask fun token => ?_
  split
  · exact within_functionType lexical _
  split
  · exact within_structType lexical
  split
  · exact within_interfaceType lexical
  split
  · exact within_mapType lexical _
  split
  · exact within_channelType lexical _
  split
  · exact within_namedType lexical _
  split
  · exact within_arrayType lexical _
  split
  · exact within_markedType lexical _ (by simp) _
  split
  · exact within_markedType lexical _ (by simp) _
  split
  · exact within_parenthesizedType lexical
  · exact within_stuck

theorem within_typeParameterDeclaration : Within all g.typeParameterDeclaration (Lexical all) := by
  refine (within_separated _ _ within_word).bind fun names known => ?_
  refine (within_typeUnion lexical (by simp) _).bind fun constraint known' => .pure ?_
  have named := lexical_names known .name
  cases names with
  | nil => simp [known']
  | cons name names =>
      rw [List.map_cons, List.forall_mem_cons] at named
      refine (Node.lexical_spanning (by simp)).2 ⟨named.1, List.forall_mem_append.2 ⟨named.2, by simpa using known'⟩⟩

theorem within_typeParameters : Within all g.typeParameters (Lexical all) := by
  refine (within_mark _).bind fun opening _ => ?_
  refine (within_commaList _ (within_typeParameterDeclaration lexical)).bind fun entries known => ?_
  refine (within_mark _).bind fun closing _ => ?_
  split
  · exact within_stuck
  · exact .pure (by simpa using known)

end Types

end Grammar
end TraceWeave.Go
