import TraceWeave.Go.Grammar.Types
import TraceWeave.Proofs.Go.Reading

/-! Types and parameter lists are read as well-formed trees, one after the other. -/
namespace TraceWeave.Go
namespace Grammar

open Reader

/-- What is assumed of the readers for the phrases inside a phrase. -/
structure KeepsOrder (sound : Nat → Prop) (limit : Nat) (g : Grammar) : Prop where
  type : ∀ lineEnds, Reads sound limit (g.type lineEnds) (Spans sound)
  expression : ∀ mode, Reads sound limit (g.expression mode) (Spans sound)
  literalValue : Reads sound limit g.literalValue (Spans sound)
  block : Reads sound limit g.block fun before node after => Spans sound before node after ∧ node.kind = .block
  statement : Reads sound limit g.statement (Spans sound)

variable {sound : Nat → Prop} {limit : Nat} {g : Grammar}

/-- The end of a row, or of what stands before it. -/
theorem row_endOf {before first last : Nat} {nodes : List Node} (row : Node.Row sound first nodes last)
    (bound : before ≤ first) (known : sound before) :
    sound (endOf before nodes) ∧ Node.Row sound before nodes (endOf before nodes) ∧ endOf before nodes ≤ last := by
  cases nodes with
  | nil =>
      have total := row.le
      exact ⟨known, Node.row_nil.2 (Nat.le_refl _), by simp only [endOf, List.getLast?_nil]; omega⟩
  | cons node nodes =>
      have same : endOf before (node :: nodes) = (nodes.getLastD node).stop := by
        simp only [endOf, List.getLast?_cons, List.getLastD_eq_getLast?]
      obtain ⟨final, upper, tight⟩ := row.ending
      rw [same]
      exact ⟨final.shaped.stops, tight.widen bound (Nat.le_refl _), upper⟩

/-- A row between two tokens. -/
theorem spans_between {kind : Kind} (plain : kind.isPlain = true) {before middle middle' after : Nat}
    {opening closing : Token} {nodes : List Node} (opened : Took sound before opening middle)
    (row : Node.Row sound middle nodes middle') (closed : Took sound middle' closing after) :
    Spans sound before (.build kind opening.start closing.stop nodes) after := by
  refine spans_build plain opened.exact.starts closed.exact.stops (row.widen ?_ ?_) ?_ closed.stop
  · exact Nat.le_trans opened.exact.le opened.stop
  · rw [← closed.start]
    exact closed.exact.le
  · exact Nat.le_of_eq opened.start.symm

/-- A row between two brackets, each one byte long. -/
theorem spans_brackets {kind : Kind} (needed : kind.needed = []) (literal : kind ≠ .funcLiteral)
    (comment : kind ≠ .comment) {before middle middle' after : Nat} {opening closing : Token} {nodes : List Node}
    {text text' : String} (opened : Took sound before opening middle ∧ opening.text = text)
    (single : Text.size text = 1) (row : Node.Row sound middle nodes middle')
    (closed : Took sound middle' closing after ∧ closing.text = text') (single' : Text.size text' = 1) :
    Spans sound before (.build kind opening.start closing.stop nodes) after := by
  obtain ⟨opened, is⟩ := opened
  obtain ⟨closed, is'⟩ := closed
  have opens : opening.stop = opening.start + 1 := by rw [opened.exact.size, is, single]
  have closes : closing.stop - 1 = closing.start := by
    rw [closed.exact.size, is', single', Nat.add_sub_cancel]
  refine Node.row_singleton.2 ⟨Nat.le_of_eq opened.start.symm, ?_, closed.stop⟩
  refine Node.Row.bracketed (row.widen ?_ ?_) needed literal comment opened.exact.starts ?_ ?_ closed.exact.stops
  · rw [← opens]
    exact opened.stop
  · rw [closes]
    exact Nat.le_of_eq closed.start.symm
  · rw [← opens]
    exact opened.exact.stops
  · rw [closes]
    exact closed.exact.starts

theorem reads_typeUnion (keeps : g.KeepsOrder sound limit) {kind : Kind} (plain : kind.isPlain = true)
    (lineEnds : Bool) : Reads sound limit (g.typeUnion kind lineEnds) (Spans sound) := by
  intro tokens ordered
  unfold typeUnion
  refine (reads_separated _ _ (keeps.type _)).next ordered fun types rest ordered₁ bound₁ known => ?_
  cases types with
  | nil => exact Yields.stuck
  | cons first others => exact Yields.pure ⟨ordered₁, bound₁, known.2.row.spanning plain⟩

theorem reads_typeArguments (keeps : g.KeepsOrder sound limit) :
    Reads sound limit g.typeArguments (Spans sound) := by
  intro tokens ordered
  unfold typeArguments
  refine (reads_mark _).next ordered fun opening rest₁ ordered₁ bound₁ ⟨took₁, _⟩ => ?_
  refine (reads_commaList _ (reads_typeUnion keeps rfl _)).next ordered₁
    fun arguments rest₂ ordered₂ bound₂ known₂ => ?_
  refine (reads_mark _).next ordered₂ fun closing rest₃ ordered₃ bound₃ ⟨took₃, _⟩ => ?_
  split
  · exact Yields.stuck
  · exact Yields.pure ⟨ordered₃, by omega, spans_between rfl took₁ known₂.row took₃⟩

theorem reads_namedType (keeps : g.KeepsOrder sound limit) (lineEnds : Bool) :
    Reads sound limit (g.namedType lineEnds) (Spans sound) := by
  intro tokens ordered
  unfold namedType
  refine (reads_takeIf _).next ordered fun name rest₁ ordered₁ bound₁ ⟨took₁, _⟩ => ?_
  refine (looks_nextIs _ _).next fun dotted => ?_
  extract_lets jump
  have joins : ∀ base rest, Ordered sound limit rest → Spans sound (front limit tokens) base (front limit rest) →
      Yields rest (jump base) (Reached sound limit tokens (Spans sound)) := by
    intro base rest₂ ordered₂ spans₂
    refine (looks_nextIs _ _).next fun bracket => ?_
    split
    · refine (reads_typeArguments keeps).attempt.next ordered₂ fun found rest₃ ordered₃ bound₃ known₃ => ?_
      cases found with
      | none => exact Yields.pure ⟨ordered₃, by grind, spans₂.widen (Nat.le_refl _) bound₃⟩
      | some arguments =>
          have spans₃ := known₃ arguments rfl
          refine Yields.pure ⟨ordered₃, by grind, ?_⟩
          exact spans_build rfl spans₂.starts spans₃.stops (by grind) (by grind) (by grind)
    · exact Yields.pure ⟨ordered₂, spans₂.le, spans₂⟩
  split
  · refine (reads_mark _).next ordered₁ fun dot rest₂ ordered₂ bound₂ ⟨took₂, _⟩ => ?_
    refine reads_word.next ordered₂ fun member rest₃ ordered₃ bound₃ took₃ => ?_
    refine Yields.pass (joins _ _ ordered₃ ?_)
    have package : Spans sound _ (name.leaf .packageIdentifier) _ := took₁.leaf rfl
    have type : Spans sound _ (member.leaf .typeIdentifier) _ := took₃.leaf rfl
    exact spans_build rfl took₁.exact.starts took₃.exact.stops (by grind) (by grind) (by grind)
  · exact Yields.pass (joins _ _ ordered₁ (took₁.leaf rfl))

/-! Parameters. -/

/-- An entry between two offsets. -/
def Parameter.Between (sound : Nat → Prop) (before : Nat) : Parameter → Nat → Prop
  | .bare name, after => Took sound before name after
  | .typed name type, after => ∃ middle, Took sound before name middle ∧ Spans sound middle type after
  | .unnamed type, after => Spans sound before type after
  | .variadic start name type, after => ∃ middle, before ≤ start ∧ sound start ∧
      Node.Row sound start (name.toList.map fun name => (name.leaf .identifier).withRole .name) middle ∧
      Spans sound middle type after

theorem reads_typedParameter (keeps : g.KeepsOrder sound limit) :
    Reads sound limit g.typedParameter (fun before => Parameter.Between sound before) := by
  intro tokens ordered
  unfold typedParameter
  refine reads_word.next ordered fun name rest₁ ordered₁ bound₁ took₁ => ?_
  refine (keeps.type _).next ordered₁ fun type rest₂ ordered₂ bound₂ spans₂ => ?_
  refine looks_peek.next fun next => ?_
  split
  · exact Yields.pure ⟨ordered₂, by omega, _, took₁, spans₂⟩
  · exact Yields.stuck

theorem reads_parameter (keeps : g.KeepsOrder sound limit) :
    Reads sound limit g.parameter (fun before => Parameter.Between sound before) := by
  intro tokens ordered
  unfold parameter
  refine looks_peek.next fun token => ?_
  refine looks_peekSecond.next fun second => ?_
  have unnamed : Reads sound limit (Parameter.unnamed <$> g.type false) (fun before => Parameter.Between sound before) :=
    (keeps.type false).map fun _ _ _ spans => spans
  split
  · refine (reads_mark _).next ordered fun dots rest₁ ordered₁ bound₁ ⟨took₁, _⟩ => ?_
    refine (keeps.type _).next ordered₁ fun type rest₂ ordered₂ bound₂ spans₂ => ?_
    refine Yields.pure ⟨ordered₂, by omega, _, ?_, took₁.exact.starts, Node.row_nil.2 (Nat.le_refl _), ?_⟩
    · exact Nat.le_of_eq took₁.start.symm
    · exact spans₂.widen (by simp only [Option.elim]; grind) (Nat.le_refl _)
  split
  · split
    · refine reads_take.next ordered fun name rest₁ ordered₁ bound₁ took₁ => ?_
      refine (reads_mark _).next ordered₁ fun dots rest₂ ordered₂ bound₂ ⟨took₂, _⟩ => ?_
      refine (keeps.type _).next ordered₂ fun type rest₃ ordered₃ bound₃ spans₃ => ?_
      have leaf : Spans sound _ (name.leaf .identifier) _ := took₁.leaf rfl
      refine Yields.pure ⟨ordered₃, by omega, name.stop, ?_, took₁.exact.starts, ?_, ?_⟩
      · exact Nat.le_of_eq took₁.start.symm
      · simp only [Option.elim, Option.toList, List.map_cons, List.map_nil]
        grind
      · exact spans₃.widen (by grind) (Nat.le_refl _)
    split
    · exact reads_take.next ordered fun name rest₁ ordered₁ bound₁ took₁ =>
        Yields.pure ⟨ordered₁, bound₁, took₁⟩
    split
    · exact (keeps.type _).next ordered fun type rest₁ ordered₁ bound₁ spans₁ =>
        Yields.pure ⟨ordered₁, bound₁, spans₁⟩
    · exact (reads_typedParameter keeps).either unnamed tokens ordered
  · exact (keeps.type _).next ordered fun type rest₁ ordered₁ bound₁ spans₁ =>
      Yields.pure ⟨ordered₁, bound₁, spans₁⟩

/-- Names with their type last. -/
theorem spans_parameterDeclaration {before after : Nat} {names : List Token} {type : Node}
    (row : Node.Row sound before
      (names.map (fun name => (name.leaf .identifier).withRole .name) ++ [type.withRole .type]) after) :
    Spans sound before (parameterDeclaration names type) after := by
  cases names with
  | nil => exact row.spanning rfl
  | cons name names => exact row.spanning rfl

theorem row_typeOnly {before after : Nat} {names : List Token} (sequence : Sequence (Took sound) before names after) :
    Node.Row sound before (names.map typeOnly) after := by
  induction names generalizing before with
  | nil => exact Node.row_nil.2 sequence
  | cons name names ih =>
      obtain ⟨start, stop, bound, took, rest⟩ := sequence
      have leaf : Spans sound start ((name.leaf .typeIdentifier).withRole .type) stop := (took.leaf rfl).withRole _
      have alone : Spans sound start (typeOnly name) stop := spans_parameterDeclaration leaf
      exact (alone.widen bound (Nat.le_refl _)).append (ih rest)

/-- Entries with the bare names before them. -/
theorem row_groupParameters {entries : List Parameter} {names : List Token} {before middle after : Nat}
    (bare : Sequence (Took sound) before names middle)
    (sequence : Sequence (fun before => Parameter.Between sound before) middle entries after) :
    Node.Row sound before (groupParameters names entries) after := by
  induction entries generalizing names before middle with
  | nil => exact (row_typeOnly bare).widen (Nat.le_refl _) sequence
  | cons entry entries ih =>
      obtain ⟨start, stop, bound, known, rest⟩ := sequence
      have none : Sequence (Took sound) stop [] stop := Nat.le_refl _
      cases entry with
      | bare name => exact ih ((bare.widen (Nat.le_refl _) bound).snoc known (Nat.le_refl _)) rest
      | typed name type =>
          obtain ⟨inner, took, spans⟩ := known
          have all := (bare.widen (Nat.le_refl _) bound).snoc took (Nat.le_refl _)
          have typed : Spans sound before (parameterDeclaration (names ++ [name]) type) stop :=
            spans_parameterDeclaration ((all.leaves rfl .name).append (spans.withRole .type))
          exact typed.append (ih none rest)
      | unnamed type =>
          have alone : Spans sound start (parameterDeclaration [] type) stop :=
            spans_parameterDeclaration (known.withRole .type)
          have types := (row_typeOnly bare).widen (Nat.le_refl _) bound
          exact types.append (alone.append (ih none rest))
      | variadic begin name type =>
          obtain ⟨inner, lower, starts, row, spans⟩ := known
          obtain ⟨above, formed, upper⟩ := Node.row_singleton.1 spans
          have last : Spans sound inner (type.withRole .type) type.stop :=
            Node.row_singleton.2 ⟨above, formed.withRole _, Nat.le_refl _⟩
          have alone : Spans sound start (.build .variadicParameterDeclaration begin type.stop _) stop :=
            spans_build rfl starts spans.stops (row.append last) lower upper
          have types := (row_typeOnly bare).widen (Nat.le_refl _) bound
          exact types.append (alone.append (ih none rest))

theorem reads_parameters (keeps : g.KeepsOrder sound limit) :
    Reads sound limit g.parameters fun before node after =>
      Spans sound before node after ∧ node.kind = .parameterList := by
  intro tokens ordered
  unfold parameters
  refine (reads_mark _).next ordered fun opening rest₁ ordered₁ bound₁ opened => ?_
  refine (reads_commaList _ (reads_parameter keeps)).next ordered₁ fun entries rest₂ ordered₂ bound₂ known₂ => ?_
  refine (reads_mark _).next ordered₂ fun closing rest₃ ordered₃ bound₃ closed => ?_
  have none : Sequence (Took sound) (front limit rest₁) [] (front limit rest₁) := Nat.le_refl _
  refine Yields.pure ⟨ordered₃, by omega, ?_, rfl⟩
  exact spans_brackets rfl (by simp) (by simp) opened rfl (row_groupParameters none known₂) closed rfl

theorem reads_result (keeps : g.KeepsOrder sound limit) (lineEnds : Bool) :
    Reads sound limit (g.result lineEnds) fun before found after =>
      Node.Row sound before found after ∧ ∀ node ∈ found, node.role = some .result := by
  intro tokens ordered
  unfold result
  refine (looks_nextIs _ _).next fun bracket => ?_
  split
  · refine (reads_parameters keeps).next ordered fun list rest₁ ordered₁ bound₁ known₁ => ?_
    exact Yields.pure ⟨ordered₁, bound₁, known₁.1.withRole _, by simp⟩
  refine (looks_nextOnLine _ _).next fun begins => ?_
  split
  · refine (keeps.type _).next ordered fun type rest₁ ordered₁ bound₁ spans₁ => ?_
    exact Yields.pure ⟨ordered₁, bound₁, spans₁.withRole _, by simp⟩
  · exact Yields.pure ⟨ordered, Nat.le_refl _, Node.row_nil.2 (Nat.le_refl _), by simp⟩

/-- Parameters and, after them, results. -/
def Signed (sound : Nat → Prop) (before : Nat) (found : Node × List Node) (after : Nat) : Prop :=
  Node.Row sound before found.2 after ∧ ∃ list results, found.2 = list :: results ∧
    list.role = some .parameters ∧ list.kind = .parameterList ∧ ∀ node ∈ results, node.role = some .result

theorem reads_signature (keeps : g.KeepsOrder sound limit) (lineEnds : Bool) :
    Reads sound limit (g.signature lineEnds) (Signed sound) := by
  intro tokens ordered
  unfold signature
  refine (reads_parameters keeps).next ordered fun list rest₁ ordered₁ bound₁ known₁ => ?_
  refine (reads_result keeps _).next ordered₁ fun results rest₂ ordered₂ bound₂ known₂ => ?_
  refine Yields.pure ⟨ordered₂, by omega, ?_, _, _, rfl, rfl, known₁.2, known₂.2⟩
  exact (known₁.1.withRole _).append known₂.1

/-- A keyword and a row after it. -/
theorem spans_headed {kind : Kind} (plain : kind.isPlain = true) {before middle after : Nat} {head : Token}
    {nodes : List Node} (took : Took sound before head middle) (row : Node.Row sound middle nodes after) :
    Spans sound before (.build kind head.start (endOf head.stop nodes) nodes) after := by
  obtain ⟨stops, tight, upper⟩ := row_endOf row took.stop took.exact.stops
  exact spans_build plain took.exact.starts stops (tight.widen took.exact.le (Nat.le_refl _))
    (Nat.le_of_eq took.start.symm) upper

theorem reads_functionType (keeps : g.KeepsOrder sound limit) (lineEnds : Bool) :
    Reads sound limit (g.functionType lineEnds) (Spans sound) := by
  intro tokens ordered
  unfold functionType
  refine (reads_keyword _).next ordered fun head rest₁ ordered₁ bound₁ ⟨took₁, _⟩ => ?_
  refine (reads_signature keeps _).next ordered₁ fun found rest₂ ordered₂ bound₂ signed₂ => ?_
  exact Yields.pure ⟨ordered₂, by omega, spans_headed rfl took₁ signed₂.1⟩

/-! Structs and interfaces. -/

/-- Children of a field with the offset where it begins. -/
def Field (sound : Nat → Prop) (before : Nat) (found : Nat × List Node) (after : Nat) : Prop :=
  before ≤ found.1 ∧ sound found.1 ∧ found.2 ≠ [] ∧ Node.Row sound found.1 found.2 after

theorem reads_namedFields (keeps : g.KeepsOrder sound limit) :
    Reads sound limit g.namedFields fun before found after => found ≠ [] ∧ Node.Row sound before found after := by
  intro tokens ordered
  unfold namedFields
  refine (reads_separated _ _ reads_word).next ordered fun names rest₁ ordered₁ bound₁ known₁ => ?_
  refine (keeps.type _).next ordered₁ fun type rest₂ ordered₂ bound₂ spans₂ => ?_
  refine Yields.pure ⟨ordered₂, by omega, by simp, ?_⟩
  exact (known₁.2.leaves rfl _).append (spans₂.withRole _)

theorem reads_embeddedField (keeps : g.KeepsOrder sound limit) :
    Reads sound limit g.embeddedField (Field sound) := by
  intro tokens ordered
  unfold embeddedField
  refine looks_peek.next fun token => ?_
  split
  · refine reads_take.next ordered fun star rest₁ ordered₁ bound₁ took₁ => ?_
    refine (reads_namedType keeps _).next ordered₁ fun type rest₂ ordered₂ bound₂ spans₂ => ?_
    refine Yields.pure ⟨ordered₂, by omega, Nat.le_of_eq took₁.start.symm, took₁.exact.starts, by simp, ?_⟩
    exact (spans₂.withRole _).widen (by grind) (Nat.le_refl _)
  · refine (reads_namedType keeps _).next ordered fun type rest₁ ordered₁ bound₁ spans₁ => ?_
    refine Yields.pure ⟨ordered₁, bound₁, by grind, spans₁.starts, by simp, ?_⟩
    grind

theorem reads_fieldTag : Reads sound limit fieldTag (Node.Row sound) := by
  intro tokens ordered
  unfold fieldTag
  refine looks_peek.next fun token => ?_
  split
  · exact Yields.pure ⟨ordered, Nat.le_refl _, Node.row_nil.2 (Nat.le_refl _)⟩
  split
  · refine reads_take.next ordered fun tag rest₁ ordered₁ bound₁ took₁ => ?_
    exact Yields.pure ⟨ordered₁, bound₁, (took₁.leaf rfl).withRole _⟩
  split
  · refine reads_take.next ordered fun tag rest₁ ordered₁ bound₁ took₁ => ?_
    exact Yields.pure ⟨ordered₁, bound₁, (took₁.leaf rfl).withRole _⟩
  · exact Yields.pure ⟨ordered, Nat.le_refl _, Node.row_nil.2 (Nat.le_refl _)⟩

/-- A field begins with the token that was looked at first. -/
theorem reads_fieldDeclaration (keeps : g.KeepsOrder sound limit) :
    Reads sound limit g.fieldDeclaration (Spans sound) := by
  intro tokens ordered
  unfold fieldDeclaration
  refine Yields.peek fun token is => ?_
  refine looks_peekSecond.next fun second => ?_
  extract_lets named jump
  have names : Yields tokens named (Reached sound limit tokens (Field sound)) := by
    cases tokens with
    | nil =>
        intro found rest result
        obtain ⟨_, _, result, _⟩ := bind_eq_ok result
        obtain ⟨_, _, result, _⟩ := bind_eq_ok result
        obtain ⟨_, _, result, _⟩ := bind_eq_ok result
        cases result
    | cons first others =>
        obtain rfl : first = token := is
        refine (reads_namedFields keeps).next ordered fun children rest₁ ordered₁ bound₁ known₁ => ?_
        exact Yields.pure ⟨ordered₁, bound₁, Nat.le_refl _, ordered.1.starts, known₁⟩
  have embedded : Yields tokens g.embeddedField (Reached sound limit tokens (Field sound)) :=
    reads_embeddedField keeps tokens ordered
  have joins : ∀ found rest, Reached sound limit tokens (Field sound) found rest →
      Yields rest (jump found) (Reached sound limit tokens (Spans sound)) := by
    rintro ⟨start, children⟩ rest₁ ⟨ordered₁, bound₁, lower, starts, filled, row⟩
    refine reads_fieldTag.next ordered₁ fun tag rest₂ ordered₂ bound₂ row₂ => ?_
    obtain ⟨first, others, rfl⟩ := List.exists_cons_of_ne_nil filled
    obtain ⟨final, upper, tight⟩ := (row.append row₂).ending
    refine Yields.pure ⟨ordered₂, by omega, ?_⟩
    have same : endOf token.stop (first :: others ++ tag) = ((others ++ tag).getLastD first).stop := by
      simp only [endOf, List.cons_append, List.getLast?_cons, List.getLastD_eq_getLast?]
    rw [same]
    exact spans_build rfl starts final.shaped.stops tight lower upper
  split
  · exact Yields.bind (embedded.mono joins)
  split
  · refine Yields.bind (Yields.mono (Yields.either ?_ embedded) joins)
    refine Yields.bind (names.mono fun found rest reached => ?_)
    refine looks_peek.next fun next => ?_
    split
    · exact Yields.pure reached
    · exact Yields.stuck
  · exact Yields.bind (names.mono joins)

theorem reads_structType (keeps : g.KeepsOrder sound limit) : Reads sound limit g.structType (Spans sound) := by
  intro tokens ordered
  unfold structType
  refine (reads_keyword _).next ordered fun head rest₁ ordered₁ bound₁ ⟨took₁, _⟩ => ?_
  refine (reads_mark _).next ordered₁ fun opening rest₂ ordered₂ bound₂ ⟨took₂, _⟩ => ?_
  refine (reads_lineList _ (reads_fieldDeclaration keeps)).next ordered₂ fun fields rest₃ ordered₃ bound₃ known₃ => ?_
  refine (reads_mark _).next ordered₃ fun closing rest₄ ordered₄ bound₄ ⟨took₄, _⟩ => ?_
  refine Yields.pure ⟨ordered₄, by omega, ?_⟩
  have list : Spans sound _ (.build .fieldDeclarationList opening.start closing.stop fields) _ :=
    spans_between rfl took₂ known₃.row took₄
  refine spans_build rfl took₁.exact.starts took₄.exact.stops ?_ (by grind) (by grind)
  exact Node.row_singleton.2 ⟨by grind [Node.build], (Node.row_singleton.1 list).2.1, Nat.le_refl _⟩

theorem reads_interfaceElement (keeps : g.KeepsOrder sound limit) :
    Reads sound limit g.interfaceElement (Spans sound) := by
  intro tokens ordered
  unfold interfaceElement
  refine looks_peek.next fun token => ?_
  refine looks_peekSecond.next fun second => ?_
  split
  · refine reads_take.next ordered fun name rest₁ ordered₁ bound₁ took₁ => ?_
    refine (reads_signature keeps _).next ordered₁ fun found rest₂ ordered₂ bound₂ signed₂ => ?_
    refine Yields.pure ⟨ordered₂, by omega, ?_⟩
    have leaf : Spans sound _ (name.leaf .fieldIdentifier) _ := took₁.leaf rfl
    obtain ⟨stops, tight, upper⟩ := row_endOf signed₂.1 took₁.stop took₁.exact.stops
    exact spans_build rfl took₁.exact.starts stops (by grind) (by grind) upper
  · exact reads_typeUnion keeps rfl _ tokens ordered

theorem reads_interfaceType (keeps : g.KeepsOrder sound limit) :
    Reads sound limit g.interfaceType (Spans sound) := by
  intro tokens ordered
  unfold interfaceType
  refine (reads_keyword _).next ordered fun head rest₁ ordered₁ bound₁ ⟨took₁, _⟩ => ?_
  refine (reads_mark _).next ordered₁ fun opening rest₂ ordered₂ bound₂ ⟨took₂, _⟩ => ?_
  refine (reads_lineList _ (reads_interfaceElement keeps)).next ordered₂
    fun elements rest₃ ordered₃ bound₃ known₃ => ?_
  refine (reads_mark _).next ordered₃ fun closing rest₄ ordered₄ bound₄ ⟨took₄, _⟩ => ?_
  exact Yields.pure ⟨ordered₄, by omega, spans_between rfl took₁ (known₃.row.widen bound₂ (Nat.le_refl _)) took₄⟩

/-! Other types. -/

theorem reads_mapType (keeps : g.KeepsOrder sound limit) (lineEnds : Bool) :
    Reads sound limit (g.mapType lineEnds) (Spans sound) := by
  intro tokens ordered
  unfold mapType
  refine (reads_keyword _).next ordered fun head rest₁ ordered₁ bound₁ ⟨took₁, _⟩ => ?_
  refine (reads_mark _).next ordered₁ fun opening rest₂ ordered₂ bound₂ ⟨took₂, _⟩ => ?_
  refine (keeps.type _).next ordered₂ fun key rest₃ ordered₃ bound₃ spans₃ => ?_
  refine (reads_mark _).next ordered₃ fun closing rest₄ ordered₄ bound₄ ⟨took₄, _⟩ => ?_
  refine (keeps.type _).next ordered₄ fun value rest₅ ordered₅ bound₅ spans₅ => ?_
  refine Yields.pure ⟨ordered₅, by omega, ?_⟩
  exact spans_build rfl took₁.exact.starts spans₅.stops (by grind) (by grind) (by grind)

theorem reads_channelType (keeps : g.KeepsOrder sound limit) (lineEnds : Bool) :
    Reads sound limit (g.channelType lineEnds) (Spans sound) := by
  intro tokens ordered
  unfold channelType
  refine looks_peek.next fun token => ?_
  split
  · refine reads_take.next ordered fun head rest₁ ordered₁ bound₁ took₁ => ?_
    refine (reads_keyword _).next ordered₁ fun chan rest₂ ordered₂ bound₂ ⟨took₂, _⟩ => ?_
    refine (keeps.type _).next ordered₂ fun value rest₃ ordered₃ bound₃ spans₃ => ?_
    refine Yields.pure ⟨ordered₃, by omega, ?_⟩
    exact spans_build rfl took₁.exact.starts spans₃.stops (by grind) (by grind) (by grind)
  · refine (reads_keyword _).next ordered fun head rest₁ ordered₁ bound₁ ⟨took₁, _⟩ => ?_
    refine (looks_nextIs _ _).next fun arrow => ?_
    extract_lets jump
    have joins : ∀ rest, Ordered sound limit rest → front limit rest₁ ≤ front limit rest →
        Yields rest (jump ()) (Reached sound limit tokens (Spans sound)) := by
      intro rest₂ ordered₂ bound₂
      refine (keeps.type _).next ordered₂ fun value rest₃ ordered₃ bound₃ spans₃ => ?_
      refine Yields.pure ⟨ordered₃, by omega, ?_⟩
      exact spans_build rfl took₁.exact.starts spans₃.stops (by grind) (by grind) (by grind)
    split
    · exact reads_take.next ordered₁ fun arrow rest₂ ordered₂ bound₂ _ => joins rest₂ ordered₂ bound₂
    · exact joins rest₁ ordered₁ (Nat.le_refl _)

theorem reads_arrayType (keeps : g.KeepsOrder sound limit) (lineEnds : Bool) :
    Reads sound limit (g.arrayType lineEnds) (Spans sound) := by
  intro tokens ordered
  unfold arrayType
  refine (reads_mark _).next ordered fun head rest₁ ordered₁ bound₁ ⟨took₁, _⟩ => ?_
  refine (looks_nextIs _ _).next fun closed => ?_
  split
  · refine reads_take.next ordered₁ fun closing rest₂ ordered₂ bound₂ took₂ => ?_
    refine (keeps.type _).next ordered₂ fun element rest₃ ordered₃ bound₃ spans₃ => ?_
    refine Yields.pure ⟨ordered₃, by omega, ?_⟩
    exact spans_build rfl took₁.exact.starts spans₃.stops (by grind) (by grind) (by grind)
  · refine (keeps.expression _).next ordered₁ fun length rest₂ ordered₂ bound₂ spans₂ => ?_
    refine (reads_mark _).next ordered₂ fun closing rest₃ ordered₃ bound₃ ⟨took₃, _⟩ => ?_
    refine (keeps.type _).next ordered₃ fun element rest₄ ordered₄ bound₄ spans₄ => ?_
    refine Yields.pure ⟨ordered₄, by omega, ?_⟩
    exact spans_build rfl took₁.exact.starts spans₄.stops (by grind) (by grind) (by grind)

theorem reads_openArrayType (keeps : g.KeepsOrder sound limit) :
    Reads sound limit g.openArrayType (Spans sound) := by
  intro tokens ordered
  unfold openArrayType
  refine (reads_mark _).next ordered fun head rest₁ ordered₁ bound₁ ⟨took₁, _⟩ => ?_
  refine (reads_mark _).next ordered₁ fun dots rest₂ ordered₂ bound₂ _ => ?_
  refine (reads_mark _).next ordered₂ fun closing rest₃ ordered₃ bound₃ _ => ?_
  refine (keeps.type _).next ordered₃ fun element rest₄ ordered₄ bound₄ spans₄ => ?_
  refine Yields.pure ⟨ordered₄, by omega, ?_⟩
  exact spans_build rfl took₁.exact.starts spans₄.stops (by grind) (by grind) (by grind)

theorem reads_parenthesizedType (keeps : g.KeepsOrder sound limit) :
    Reads sound limit g.parenthesizedType (Spans sound) := by
  intro tokens ordered
  unfold parenthesizedType
  refine (reads_mark _).next ordered fun opening rest₁ ordered₁ bound₁ ⟨took₁, _⟩ => ?_
  refine (keeps.type _).next ordered₁ fun type rest₂ ordered₂ bound₂ spans₂ => ?_
  refine (reads_mark _).next ordered₂ fun closing rest₃ ordered₃ bound₃ ⟨took₃, _⟩ => ?_
  exact Yields.pure ⟨ordered₃, by omega, spans_between rfl took₁ spans₂ took₃⟩

theorem reads_markedType (keeps : g.KeepsOrder sound limit) (text : String) {kind : Kind}
    (plain : kind.isPlain = true) (lineEnds : Bool) :
    Reads sound limit (g.markedType text kind lineEnds) (Spans sound) := by
  intro tokens ordered
  unfold markedType
  refine (reads_mark _).next ordered fun head rest₁ ordered₁ bound₁ ⟨took₁, _⟩ => ?_
  refine (keeps.type _).next ordered₁ fun type rest₂ ordered₂ bound₂ spans₂ => ?_
  refine Yields.pure ⟨ordered₂, by omega, ?_⟩
  exact spans_build plain took₁.exact.starts spans₂.stops (by grind) (by grind) (by grind)

theorem reads_typeStep (keeps : g.KeepsOrder sound limit) (lineEnds : Bool) :
    Reads sound limit (g.typeStep lineEnds) (Spans sound) := by
  intro tokens ordered
  unfold typeStep
  refine looks_peek.next fun token => ?_
  split
  · exact reads_functionType keeps _ tokens ordered
  split
  · exact reads_structType keeps tokens ordered
  split
  · exact reads_interfaceType keeps tokens ordered
  split
  · exact reads_mapType keeps _ tokens ordered
  split
  · exact reads_channelType keeps _ tokens ordered
  split
  · exact reads_namedType keeps _ tokens ordered
  split
  · exact reads_arrayType keeps _ tokens ordered
  split
  · exact reads_markedType keeps _ rfl _ tokens ordered
  split
  · exact reads_markedType keeps _ rfl _ tokens ordered
  split
  · exact reads_parenthesizedType keeps tokens ordered
  · exact Yields.stuck

theorem reads_typeParameterDeclaration (keeps : g.KeepsOrder sound limit) :
    Reads sound limit g.typeParameterDeclaration (Spans sound) := by
  intro tokens ordered
  unfold typeParameterDeclaration
  refine (reads_separated _ _ reads_word).next ordered fun names rest₁ ordered₁ bound₁ known₁ => ?_
  refine (reads_typeUnion keeps rfl _).next ordered₁ fun constraint rest₂ ordered₂ bound₂ spans₂ => ?_
  cases names with
  | nil => exact absurd rfl known₁.1
  | cons name names =>
      refine Yields.pure ⟨ordered₂, by omega, Node.Row.spanning ?_ rfl⟩
      exact (known₁.2.leaves rfl .name).append (spans₂.withRole .type)

theorem reads_typeParameters (keeps : g.KeepsOrder sound limit) :
    Reads sound limit g.typeParameters (Spans sound) := by
  intro tokens ordered
  unfold typeParameters
  refine (reads_mark _).next ordered fun opening rest₁ ordered₁ bound₁ ⟨took₁, _⟩ => ?_
  refine (reads_commaList _ (reads_typeParameterDeclaration keeps)).next ordered₁
    fun entries rest₂ ordered₂ bound₂ known₂ => ?_
  refine (reads_mark _).next ordered₂ fun closing rest₃ ordered₃ bound₃ ⟨took₃, _⟩ => ?_
  split
  · exact Yields.stuck
  · exact Yields.pure ⟨ordered₃, by omega, spans_between rfl took₁ known₂.row took₃⟩

end Grammar
end TraceWeave.Go
