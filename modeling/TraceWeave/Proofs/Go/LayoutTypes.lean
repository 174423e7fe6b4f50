import TraceWeave.Proofs.Go.Layout

/-! Parameter lists among the tokens, and the types around them. -/
namespace TraceWeave.Go
namespace Grammar

open Reader
open Node (Laid Phrase Covers SpellsEntry NoList phrase_build)
open Token (Keeps startOf? stopOf? keeps_nil keeps_brackets plain_of_word plain_of_isMark plain_of_kind)

/-- What is assumed of the readers for the phrases inside a phrase. -/
structure LaysOut (all : List Token) (g : Grammar) : Prop where
  type : ∀ lineEnds, Takes all (g.type lineEnds) (Phrase all)
  expression : ∀ mode, Takes all (g.expression mode) (Phrase all)
  literalValue : Takes all g.literalValue (Phrase all)
  block : Takes all g.block (Phrase all)
  statement : Takes all g.statement (Node.Line all)

variable {all : List Token} {g : Grammar} (lays : g.LaysOut all) {kind : Kind}
include lays

theorem stays_typeUnion (free : NoList kind) (lineEnds : Bool) :
    Takes all (g.typeUnion kind lineEnds) (Stay (Laid all)) := by
  refine (stays_separated _ _ (by decide) (lays.type _).stays).next fun types known => ?_
  cases types with
  | nil => exact takes_stuck
  | cons first rest => exact stays_pure ((Node.laid_spanning free).2 (List.forall_mem_cons.1 known))

theorem takes_typeArguments : Takes all g.typeArguments (Phrase all) := by
  refine (takes_mark _).token fun opening opens => ?_
  refine (stays_commaList _ (stays_typeUnion lays (by simp) _)).closing fun used arguments closing keeps known closes => ?_
  split
  · exact takes_stuck
  · exact .pure (phrase_build (by simp) rfl (keeps_brackets opens closes (by decide) keeps (keeps_nil _)) rfl (by simp) known)

theorem takes_namedType (lineEnds : Bool) : Takes all (g.namedType lineEnds) (Phrase all) := by
  unfold namedType
  refine (takes_takeIf _).token fun name is => (looks_nextIs _ _).asks fun dotted => ?_
  have plain : name.Plain := plain_of_word (beq_iff_eq.1 (Bool.and_eq_true _ _ ▸ is).1)
  extract_lets jump
  have joins : ∀ used base, Phrase all used base → Takes all (jump base) fun used' => Phrase all (used ++ used') := by
    intro used base known
    refine (looks_nextIs _ _).asks fun bracket => ?_
    split
    · refine (takes_typeArguments lays).attempt.bind fun used' found known' => ?_
      cases found with
      | none => exact .pure (by simpa [known'.2 rfl] using known)
      | some arguments =>
          have known' := known'.1 arguments rfl
          refine .pure (phrase_build (by simp) rfl ?_ (by simp [known.starts]) (by simp [known'.stops]) ?_)
          · rw [List.append_nil]
            exact known.keeps.append known'.keeps
          · simp [known.laid, known'.laid]
    · exact .pure (by simpa using known)
  split
  · refine (takes_mark _).token fun dot mark => takes_word.token fun member word => .pass ?_
    refine joins [name, dot, member] _ (phrase_build (by simp) rfl ?_ rfl rfl (by simp))
    exact plain.keeps ((plain_of_isMark mark (by decide)).keeps ((plain_of_word word).keeps (keeps_nil _)))
  · exact .pass (joins [name] _ (phrase_build (by simp) rfl (plain.keeps (keeps_nil _)) rfl rfl (by simp)))

/-- The type of an entry of a parameter list. -/
def Parameter.IsLaid (all : List Token) : Parameter → Prop
  | .bare _ => True
  | .typed _ type | .unnamed type | .variadic _ _ type => Laid all type

theorem takes_variadicParameter {name : Option Token} (word : ∀ token, name = some token → token.kind = .word) :
    Takes all (g.variadicParameter name) fun used entry => SpellsEntry (name.toList ++ used) entry ∧ entry.IsLaid all := by
  refine (takes_mark _).token fun dots mark => (lays.type _).last fun used type known => ?_
  cases name with
  | none => exact ⟨.spread mark known.toCovers, known.laid⟩
  | some name => exact ⟨.variadic (word name rfl) mark known.toCovers, known.laid⟩

theorem takes_typedParameter {second : Token} (fixed : second.isMark "..." = false) :
    TakesFrom all (fun tokens => tokens.tail.headD default = second) g.typedParameter fun used entry =>
      SpellsEntry used entry ∧ entry.IsLaid all := by
  refine takes_word.tokenBefore fun name word => ?_
  refine ((lays.type _).first fun _ _ known => known.ne_nil).bind fun used type known => looks_peek.asks fun next => ?_
  split
  · refine .pure ⟨?_, known.1.laid⟩
    rw [List.append_nil]
    refine .typed word known.1.toCovers fun token head => ?_
    cases known.2.symm.trans head
    exact fixed
  · exact takes_stuck

theorem takes_parameter : Takes all g.parameter fun used entry => SpellsEntry used entry ∧ entry.IsLaid all := by
  have unnamed : Takes all (do return Parameter.unnamed (← g.type false)) fun used entry =>
      SpellsEntry used entry ∧ entry.IsLaid all :=
    (lays.type _).last fun used type known => ⟨.unnamed known.toCovers, known.laid⟩
  unfold parameter
  refine takes_peek fun token => sees_peekSecond fun second => ?_
  split
  · exact (takes_variadicParameter lays (by simp)).here
  split
  · rename_i word
    rw [Bool.and_eq_true, beq_iff_eq] at word
    split
    · refine (sees_take (takes_variadicParameter lays ?_)).weaken fun _ known => known.1
      rintro _ ⟨⟩
      exact word.1
    rename_i fixed
    split
    · refine .weaken (sees_take ?_) fun _ known => known.1
      exact .pure ⟨.bare word.1, trivial⟩
    split
    · exact unnamed.here
    · -- a type after a name does not begin with dots
      have typed := takes_typedParameter lays (Bool.not_eq_true _ ▸ fixed)
      refine (typed.weaken fun _ known => known.2).either ?_
      exact ((lays.type _).map fun _ _ known => ⟨.unnamed known.toCovers, known.laid⟩).here
  · exact unnamed.here

omit lays in
theorem laid_parameterDeclaration (names : List Token) {type : Node} (known : Laid all type) :
    Laid all (parameterDeclaration names type) := by
  have named : ∀ name ∈ names.map fun name => (name.leaf .identifier).withRole .name, Laid all name := by
    intro node member
    obtain ⟨name, _, rfl⟩ := List.mem_map.1 member
    simp
  unfold parameterDeclaration
  cases names with
  | nil => simpa using known
  | cons name names =>
      rw [List.map_cons, List.forall_mem_cons] at named
      refine (Node.laid_spanning (by simp)).2 ⟨named.1, List.forall_mem_append.2 ⟨named.2, ?_⟩⟩
      simpa using known

omit lays in
/-- Declarations are laid out, and are nodes in their own right. -/
theorem laid_groupParameters {entries : List Parameter} (known : ∀ entry ∈ entries, entry.IsLaid all) (names : List Token) :
    ∀ node ∈ groupParameters names entries, (node.kind.isNamed && node.kind != .comment) = true ∧ Laid all node := by
  have typed : ∀ names : List Token, ∀ node ∈ names.map typeOnly,
      (node.kind.isNamed && node.kind != .comment) = true ∧ Laid all node := by
    intro names node member
    obtain ⟨name, _, rfl⟩ := List.mem_map.1 member
    exact ⟨rfl, laid_parameterDeclaration [] (by simp)⟩
  induction entries generalizing names with
  | nil => exact typed names
  | cons entry rest ih =>
      obtain ⟨here, others⟩ := List.forall_mem_cons.1 known
      have later := ih others []
      cases entry with
      | bare name => exact ih others (names ++ [name])
      | typed name type => exact List.forall_mem_cons.2 ⟨⟨rfl, laid_parameterDeclaration _ here⟩, later⟩
      | unnamed type =>
          refine List.forall_mem_append.2 ⟨typed names, List.forall_mem_cons.2 ⟨⟨rfl, ?_⟩, later⟩⟩
          exact laid_parameterDeclaration [] here
      | variadic start name type =>
          refine List.forall_mem_append.2 ⟨typed names, List.forall_mem_cons.2 ⟨⟨rfl, ?_⟩, later⟩⟩
          have known : Laid all (type.withRole .type) := (Node.laid_withRole _).2 here
          refine (Node.laid_build (by simp)).2 (List.forall_mem_append.2 ⟨?_, List.forall_mem_singleton.2 known⟩)
          intro node member
          obtain ⟨name, _, rfl⟩ := List.mem_map.1 member
          simp

theorem takes_parameters : Takes all g.parameters (Phrase all) := by
  suffices whole : Takes all g.parameters fun used list => used <:+: all → Phrase all used list from
    whole.listed.mono fun _ _ taken => taken.2 taken.1
  refine (takes_mark _).token fun opening opens => (takes_commaList _ (takes_parameter lays)).bind fun used entries known => ?_
  refine (takes_mark _).token fun closing closes => .pure fun listed => ?_
  obtain ⟨runs, lined, each⟩ := known
  have spelled : List.Forall₂ SpellsEntry runs entries := each.imp fun _ _ known => known.1
  have keeps := ((List.forall₂_and_left runs entries).1 (spelled.imp fun _ _ entry => ⟨entry.keeps, entry⟩)).1
  have laid := laid_groupParameters (forall_of_forall₂ each fun _ _ known => known.2) []
  refine
    { keeps := keeps_brackets opens closes (by decide) (lined.keeps fun run member => (keeps run member).inner) (keeps_nil _)
      starts := rfl
      stops := by simp [Node.build]
      part := rfl
      laid := .intro nofun (fun _ => ?_) nofun nofun nofun fun node member => (laid node member).2 }
  refine ⟨opening, used, closing, runs, entries, ⟨listed, opens, closes, rfl, rfl⟩, lined, spelled, ?_⟩
  exact congrArg _ (List.filter_eq_self.2 fun node member => (laid node member).1)

/-- What ends a phrase: it goes on to the end of the last of some nodes, if there are any. -/
structure Ending (all used : List Token) (nodes : List Node) : Prop where
  keeps : Keeps 0 used
  laid : ∀ node ∈ nodes, Laid all node
  stops : ∀ before, (stopOf? used).or (some before) = some (endOf before nodes)

omit lays in
theorem ending_single {used : List Token} {node : Node} (role : Role) (phrase : Phrase all used node) :
    Ending all used [node.withRole role] where
  keeps := phrase.keeps
  laid := by simpa using phrase.laid
  stops before := by simp [phrase.stops, endOf]

theorem takes_result (lineEnds : Bool) : Takes all (g.result lineEnds) (Ending all) := by
  unfold result
  refine (looks_nextIs _ _).asks fun bracket => ?_
  split
  · exact (takes_parameters lays).last fun used list known => ending_single _ known
  refine (looks_nextOnLine _ _).asks fun begins => ?_
  split
  · exact (lays.type _).last fun used type known => ending_single _ known
  · exact .pure ⟨keeps_nil _, by simp, fun before => rfl⟩

theorem takes_signature (lineEnds : Bool) :
    Takes all (g.signature lineEnds) fun used found => Ending all used found.2 := by
  refine (takes_parameters lays).bind fun used list known => (takes_result lays _).last fun used' result known' => ?_
  refine ⟨known.keeps.append known'.keeps, List.forall_mem_cons.2 ⟨by simpa using known.laid, known'.laid⟩, fun before => ?_⟩
  have stops := known'.stops list.stop
  have further : endOf before (list.withRole .parameters :: result) = endOf list.stop result := by
    unfold endOf
    rw [List.getLast?_cons]
    cases result.getLast? <;> rfl
  rw [Token.stopOf?_append, known.stops, stops, further]
  rfl

theorem stays_signature (lineEnds : Bool) :
    Takes all (g.signature lineEnds) (Stay fun found => ∀ node ∈ found.2, Laid all node) :=
  (takes_signature lays lineEnds).mono fun _ _ known => ⟨known.keeps.inner, known.laid⟩

theorem takes_functionType (lineEnds : Bool) : Takes all (g.functionType lineEnds) (Phrase all) := by
  refine (takes_keyword _).token fun head word => (takes_signature lays _).bind fun used found known => .pure ?_
  rw [List.append_nil]
  refine phrase_build (by simp) rfl ((plain_of_word word).keeps known.keeps) rfl ?_ known.laid
  simpa using known.stops _

theorem stays_namedFields : Takes all g.namedFields (Stay fun nodes => ∀ node ∈ nodes, Laid all node) := by
  refine (stays_separated _ _ (by decide) stays_word).next fun names _ => (lays.type _).stays.next fun type known => ?_
  refine stays_pure (List.forall_mem_append.2 ⟨?_, by simpa using known⟩)
  intro node member
  obtain ⟨name, _, rfl⟩ := List.mem_map.1 member
  simp

theorem stays_embeddedField : Takes all g.embeddedField (Stay fun found => ∀ node ∈ found.2, Laid all node) := by
  unfold embeddedField
  refine takes_peek fun token => ?_
  split
  · rename_i star
    refine sees_pass ((plain_of_isMark star (by decide)).keeps (keeps_nil _)) ?_
    exact (takes_namedType lays _).stays.next fun type known => stays_pure (by simpa using known)
  · exact ((takes_namedType lays _).stays.next fun type known => stays_pure (by simpa using known)).here

omit lays in
theorem stays_fieldTag : Takes all fieldTag (Stay fun nodes => ∀ node ∈ nodes, Laid all node) := by
  unfold fieldTag
  refine takes_peek fun token => ?_
  split
  · exact stays_pure (by simp)
  split
  · rename_i tag
    rw [beq_iff_eq] at tag
    exact sees_pass ((plain_of_kind (by simp [tag]) (by simp [tag])).keeps (keeps_nil _)) (stays_pure (by simp))
  split
  · rename_i tag
    rw [beq_iff_eq] at tag
    exact sees_pass ((plain_of_kind (by simp [tag]) (by simp [tag])).keeps (keeps_nil _)) (stays_pure (by simp))
  · exact stays_pure (by simp)

theorem stays_fieldDeclaration : Takes all g.fieldDeclaration (Stay (Laid all)) := by
  unfold fieldDeclaration
  refine looks_peek.asks fun token => looks_peekSecond.asks fun second => ?_
  extract_lets named jump
  have fields : Takes all named (Stay fun found => ∀ node ∈ found.2, Laid all node) :=
    (stays_namedFields lays).next fun children known => stays_pure known
  have joins : ∀ found : Nat × List Node, (∀ node ∈ found.2, Laid all node) → Takes all (jump found) (Stay (Laid all)) := by
    intro found known
    refine stays_fieldTag.next fun tag known' => stays_pure ((Node.laid_build (by simp)).2 ?_)
    exact List.forall_mem_append.2 ⟨known, known'⟩
  split
  · exact (stays_embeddedField lays).next joins
  split
  · refine (TakesFrom.either ?_ (stays_embeddedField lays)).next joins
    refine fields.next fun found known => looks_peek.asks fun next => ?_
    split
    · exact stays_pure known
    · exact takes_stuck
  · exact fields.next joins

theorem takes_structType : Takes all g.structType (Phrase all) := by
  refine (takes_keyword _).token fun head word => (takes_mark _).token fun opening opens => ?_
  refine (stays_lineList _ (stays_fieldDeclaration lays)).closing fun used fields closing keeps known closes => .pure ?_
  refine phrase_build (by simp) rfl ?_ rfl (by simp) (by simpa using known)
  exact (plain_of_word word).keeps (keeps_brackets opens closes (by decide) keeps (keeps_nil _))

theorem stays_interfaceElement : Takes all g.interfaceElement (Stay (Laid all)) := by
  unfold interfaceElement
  refine takes_peek fun token => looks_peekSecond.asks fun second => ?_
  split
  · rename_i named
    simp only [Bool.and_eq_true, beq_iff_eq] at named
    refine sees_pass ((plain_of_word named.1.1).keeps (keeps_nil _)) ?_
    refine (stays_signature lays _).next fun found known => stays_pure ?_
    exact (Node.laid_build (by simp)).2 (List.forall_mem_cons.2 ⟨by simp, known⟩)
  · exact (stays_typeUnion lays (by simp) _).here

theorem takes_interfaceType : Takes all g.interfaceType (Phrase all) := by
  refine (takes_keyword _).token fun head word => (takes_mark _).token fun opening opens => ?_
  refine (stays_lineList _ (stays_interfaceElement lays)).closing fun used elements closing keeps known closes => .pure ?_
  refine phrase_build (by simp) rfl ?_ rfl (by simp) known
  exact (plain_of_word word).keeps (keeps_brackets opens closes (by decide) keeps (keeps_nil _))

theorem takes_mapType (lineEnds : Bool) : Takes all (g.mapType lineEnds) (Phrase all) := by
  refine (takes_keyword _).token fun head word => (takes_mark _).token fun opening opens => ?_
  refine (lays.type _).bind fun used key known => (takes_mark _).token fun closing closes => ?_
  refine (lays.type _).last fun used' value known' => ?_
  refine phrase_build (by simp) rfl ?_ rfl (by simp [known'.stops]) (by simp [known.laid, known'.laid])
  exact (plain_of_word word).keeps (keeps_brackets opens closes (by decide) known.keeps.inner known'.keeps)

theorem takes_channelType (lineEnds : Bool) : Takes all (g.channelType lineEnds) (Phrase all) := by
  have ending : ∀ used start, Keeps 0 used → startOf? used = some start → Takes all (do
      let value ← g.type lineEnds
      return .build .channelType start value.stop [value.withRole .value]) fun used' => Phrase all (used ++ used') := by
    intro used start keeps starts
    refine (lays.type _).last fun used' value known => ?_
    exact phrase_build (by simp) rfl (keeps.append known.keeps) (by simp [starts]) (by simp [known.stops])
      (by simpa using known.laid)
  have arrowed : ∀ token : Token, token.isMark "<-" = true → token.Plain := fun token mark => plain_of_isMark mark (by decide)
  unfold channelType
  refine takes_peek fun token => ?_
  split
  · rename_i arrow
    refine sees_take ((takes_keyword _).token fun head word => ending [token, head] _ ?_ rfl)
    exact (arrowed _ arrow).keeps ((plain_of_word word).keeps (keeps_nil _))
  · refine TakesFrom.here ((takes_keyword _).token fun head word => takes_nextIs fun next arrow is => ?_)
    split
    · rename_i yes
      refine sees_take (ending [head, next] _ ?_ rfl)
      exact (plain_of_word word).keeps ((arrowed _ (is yes)).keeps (keeps_nil _))
    · exact (ending [head] _ ((plain_of_word word).keeps (keeps_nil _)) rfl).here

theorem takes_arrayType (lineEnds : Bool) : Takes all (g.arrayType lineEnds) (Phrase all) := by
  refine (takes_mark _).token fun head opens => takes_nextIs fun token empty is => ?_
  split
  · rename_i yes
    refine sees_take ((lays.type _).last fun used element known => ?_)
    have keeps : Keeps 0 (head :: ([] ++ token :: used)) :=
      keeps_brackets opens (is yes) (by decide) (keeps_nil _) known.keeps
    exact phrase_build (by simp) rfl keeps rfl (by simp [known.stops]) (by simpa using known.laid)
  · refine TakesFrom.here ((lays.expression _).bind fun used length known => (takes_mark _).token fun closing closes => ?_)
    refine (lays.type _).last fun used' element known' => ?_
    refine phrase_build (by simp) rfl ?_ rfl (by simp [known'.stops]) (by simp [known.laid, known'.laid])
    exact keeps_brackets opens closes (by decide) known.keeps.inner known'.keeps

theorem takes_openArrayType : Takes all g.openArrayType (Phrase all) := by
  refine (takes_mark _).token fun head opens => (takes_mark _).token fun dots mark => ?_
  refine (takes_mark _).token fun closing closes => (lays.type _).last fun used element known => ?_
  have keeps : Keeps 0 (head :: ([dots] ++ closing :: used)) :=
    keeps_brackets opens closes (by decide) ((plain_of_isMark mark (by decide)).keeps (keeps_nil _)) known.keeps
  exact phrase_build (by simp) rfl keeps rfl (by simp [known.stops]) (by simpa using known.laid)

theorem takes_parenthesizedType : Takes all g.parenthesizedType (Phrase all) := by
  refine (takes_mark _).token fun opening opens => (lays.type _).stays.closing fun used type closing keeps known closes => ?_
  refine .pure (phrase_build (by simp) rfl ?_ rfl (by simp) (by simpa using known))
  exact keeps_brackets opens closes (by decide) keeps (keeps_nil _)

theorem takes_markedType (text : String) (plain : text ∉ Symbol.openingMarks ++ Symbol.closingMarks ++ [","])
    (free : NoList kind) (part : (kind.isNamed && kind != .comment) = true) (lineEnds : Bool) :
    Takes all (g.markedType text kind lineEnds) (Phrase all) := by
  refine (takes_mark _).token fun head mark => (lays.type _).last fun used type known => ?_
  exact phrase_build free part ((plain_of_isMark mark plain).keeps known.keeps) rfl (by simp [known.stops])
    (by simpa using known.laid)

theorem takes_typeStep (lineEnds : Bool) : Takes all (g.typeStep lineEnds) (Phrase all) := by
  unfold typeStep
  refine looks_peek.asks fun token => ?_
  split
  · exact takes_functionType lays _
  split
  · exact takes_structType lays
  split
  · exact takes_interfaceType lays
  split
  · exact takes_mapType lays _
  split
  · exact takes_channelType lays _
  split
  · exact takes_namedType lays _
  split
  · exact takes_arrayType lays _
  split
  · exact takes_markedType lays _ (by decide) (by simp) rfl _
  split
  · exact takes_markedType lays _ (by decide) (by simp) rfl _
  split
  · exact takes_parenthesizedType lays
  · exact takes_stuck

theorem stays_typeParameterDeclaration : Takes all g.typeParameterDeclaration (Stay (Laid all)) := by
  refine (stays_separated _ _ (by decide) stays_word).next fun names _ => ?_
  refine (stays_typeUnion lays (by simp) _).next fun constraint known => stays_pure ?_
  cases names with
  | nil => simp [known]
  | cons name names =>
      refine (Node.laid_spanning (by simp)).2 ⟨by simp, ?_⟩
      simp only [List.map_cons, List.tail_cons, List.forall_mem_append, List.forall_mem_singleton, Node.laid_withRole]
      refine ⟨fun node member => ?_, known⟩
      obtain ⟨name, _, rfl⟩ := List.mem_map.1 member
      simp

theorem stays_typeParameters : Takes all g.typeParameters (Stay (Laid all)) := by
  refine (takes_mark _).token fun opening opens => ?_
  refine (stays_commaList _ (stays_typeParameterDeclaration lays)).closing fun used entries closing keeps known closes => ?_
  split
  · exact takes_stuck
  · exact .pure ⟨keeps_brackets opens closes (by decide) keeps (keeps_nil _), by simpa using known⟩

end Grammar
end TraceWeave.Go
