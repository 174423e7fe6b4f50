import TraceWeave.Proofs.Go.Lines
import TraceWeave.Proofs.Go.Lists
import TraceWeave.Proofs.Declarations

/-!
Positions of parameters and arguments. A new parameter stands behind the fixed ones of its list, a new argument at the
same place of its call, so the two are bound to each other and everything else as it was. All of this is read from the
texts of the lists alone.
-/
namespace TraceWeave

open Go (IsPhrase IsWord Node Place Token Symbol Tree Listed)
open Go.Node (Covers Laid outline)
open Go.Grammar (Parameter groupParameters)
open Listing (IsItem IsParameter items? parameters? declared? isVariadic bind)

/-! Lists of a tree. -/

/-- Lists that belong together have their last elements together. -/
theorem forall₂_concat_left {α β : Type} {related : α → β → Prop} {found : List α} {last : α} {found' : List β}
    (each : List.Forall₂ related (found ++ [last]) found') :
    ∃ init last', found' = init ++ [last'] ∧ List.Forall₂ related found init ∧ related last last' := by
  induction found generalizing found' with
  | nil =>
      cases each with
      | cons here rest =>
          cases rest
          exact ⟨[], _, rfl, .nil, here⟩
  | cons first found ih =>
      cases each with
      | cons here rest =>
          obtain ⟨init, last', rfl, rest, there⟩ := ih rest
          exact ⟨_ :: init, last', rfl, .cons here rest, there⟩

/-! Arguments. -/

namespace Edit

variable {source text : String} {list : Node}

theorem addToArguments_becomes (member : list ∈ (Tree.parse source).root.descendants) (kind : list.kind = .argumentList)
    (item : IsItem text) (place : Nat) :
    let arguments := list.parts.map fun part => Symbol.ofText (part.text source)
    items? (list.text source) = some arguments ∧
      Becomes source list.start list.stop (addToArguments list place text)
        (arguments.insertIdx (min place arguments.length) (Symbol.ofText text)) := by
  intro arguments
  obtain ⟨opening, inner, closing, runs, enclosed, lined, covers⟩ := (Node.laid_of_mem_descendants member).arguments kind
  obtain ⟨early, late, listed⟩ := Go.exists_listed enclosed lined covers fun _ _ known => ⟨known.keeps, known.ne_nil⟩
  have read : runs.map (List.map Token.symbol) = arguments := listed.symbols_of_covers covers
  have items := listed.items
  rw [read] at items
  refine ⟨items, ?_⟩
  have long : arguments.length = list.parts.length := by simp [arguments]
  have long' : runs.length = list.parts.length := covers.length_eq
  unfold addToArguments
  cases found : list.parts[place]? with
  | some argument =>
      obtain ⟨bound, rfl⟩ := List.getElem?_eq_some_iff.1 found
      have bound' : place < runs.length := long' ▸ bound
      have split : runs = runs.take place ++ runs[place] :: runs.drop (place + 1) := by
        rw [← List.drop_eq_getElem_cons, List.take_append_drop]
      have placed := Listing.insertIdx_append ((runs.take place).map (List.map Token.symbol))
        ((runs[place] :: runs.drop (place + 1)).map (List.map Token.symbol)) (Symbol.ofText text)
      rw [← List.map_append, ← split, read, List.length_map, List.length_take_of_le (Nat.le_of_lt bound')] at placed
      rw [Nat.min_eq_left (by omega), placed]
      exact listed.becomes_before split (covers.get bound' bound).starts item
  | none =>
      have beyond := List.getElem?_eq_none_iff.1 found
      rw [Nat.min_eq_right (by omega), List.insertIdx_length_self, ← read]
      rcases List.eq_nil_or_concat runs with none | ⟨runs', run, split⟩
      · have empty : list.parts = [] := List.length_eq_zero_iff.1 (by rw [← long', none]; rfl)
        rw [empty, none]
        exact listed.becomes_inside none item
      · rw [List.concat_eq_append] at split
        rw [split] at covers
        obtain ⟨init, last, parts, _, covers⟩ := forall₂_concat_left covers
        rw [parts, List.getLast?_concat]
        exact listed.becomes_behind split covers.stops item

end Edit

/-! The texts of the handle. -/

namespace Setup

open Go.Lexeme (Scans)

variable (setup : Setup) (handle : IsWord setup.settings.handle)
include handle

/-- Whatever the handle and its package are called, the handle is declared as one parameter. -/
theorem isParameter_handleParameter (imports : Imports) (agent : IsWord (agentPackage imports)) :
    IsParameter (setup.handleParameter imports) ⟨.word, setup.settings.handle⟩
      [⟨.mark, "*"⟩, ⟨.word, agentPackage imports⟩, ⟨.mark, "."⟩, ⟨.word, "Transaction"⟩] := by
  have dot : Scans ".Transaction".toList [⟨.mark, "."⟩, ⟨.word, "Transaction"⟩] [] := by
    have phrase : IsPhrase ".Transaction" := ⟨by decide +kernel, by decide +kernel⟩
    have read : Symbol.ofText ".Transaction" = [⟨.mark, "."⟩, ⟨.word, "Transaction"⟩] := by decide +kernel
    exact read ▸ phrase.scans Go.Lexeme.stopped_nil
  have type : Scans ((agentPackage imports).toList ++ ".Transaction".toList)
      [⟨.word, agentPackage imports⟩, ⟨.mark, "."⟩, ⟨.word, "Transaction"⟩] [] :=
    Scans.append (agent.scans (by rintro c ⟨⟩; decide +kernel)) dot
  have apart : ((agentPackage imports).toList ++ ".Transaction".toList ++ []).head? ≠ some '=' := by
    rw [List.append_assoc]
    exact agent.head_ne (by decide +kernel) _
  have whole : Scans (setup.handleParameter imports).toList
      [⟨.word, setup.settings.handle⟩, ⟨.mark, "*"⟩, ⟨.word, agentPackage imports⟩, ⟨.mark, "."⟩,
        ⟨.word, "Transaction"⟩] [] := by
    rw [handleParameter, String.toList_append, String.toList_append, String.toList_append, List.append_assoc,
      List.append_assoc]
    exact Scans.append (handle.scans (by rintro c ⟨⟩; decide +kernel))
      (.space (by decide) ((Go.Lexeme.scans_star apart).append type))
  obtain ⟨item, read⟩ := Listing.isItem_of_scans whole
    (by simp [Symbol.walk, Symbol.step, Symbol.openingMarks, Symbol.closingMarks]) (by simp) (List.cons_ne_nil _ _)
  exact
    { toIsItem := item
      spelled := read
      word := rfl
      typed := List.cons_ne_nil _ _
      fixed := by simp [isVariadic] }

/-- What calls hand on is one argument: the handle, one for a new goroutine, or none at all. -/
theorem isItem_arguments :
    IsItem setup.settings.handle ∧ IsItem (setup.settings.handle ++ ".NewGoroutine()") ∧ IsItem "nil" := by
  have call : IsPhrase ".NewGoroutine()" := ⟨by decide +kernel, by decide +kernel⟩
  have level : Symbol.walk 0 (Symbol.ofText ".NewGoroutine()") = some 0 := by decide +kernel
  have whole : Scans (setup.settings.handle ++ ".NewGoroutine()").toList
      (⟨.word, setup.settings.handle⟩ :: Symbol.ofText ".NewGoroutine()") [] := by
    rw [String.toList_append]
    exact Scans.append (handle.scans (by rintro c ⟨⟩; decide +kernel)) (call.scans Go.Lexeme.stopped_nil)
  refine ⟨Listing.isItem_of_isWord handle, (Listing.isItem_of_scans whole ?_ ?_ (List.cons_ne_nil _ _)).1,
    Listing.isItem_of_isWord (Go.isWord_of_all (by decide) (by decide +kernel) (by decide +kernel))⟩
  · rw [Symbol.walk_cons]
    exact level
  · have last : (Symbol.ofText ".NewGoroutine()").getLast? = some ⟨.mark, ")"⟩ := by decide +kernel
    rw [List.getLast?_cons, last]
    simp

end Setup

namespace Edit

open Go.Token (symbol)
open Listing (Declares Reads declares_groupParameters declared?_append declared?_insert)
open ParameterGroup (allNamed handleIndex ofDeclaration ofList declarations AreOrdered IsNamed)

variable {source text : String} {list : Node} {name : Symbol} {type : List Symbol}

/-- A new parameter stands in the text of a list between those before and those behind it. -/
structure Enlists (list : Node) (source text : String) (parameter : Symbol × List Symbol)
    (before after : List (Symbol × List Symbol)) : Prop where
  old : parameters? (list.text source) = some (before ++ after)
  flat : (ofList list source).flatMap ParameterGroup.symbols = before ++ after
  index : before.length = handleIndex (ofList list source)
  fixed : ∀ parameter ∈ before, isVariadic parameter = false
  new : ∃ longer, Gives source list.start list.stop (addParameter list text) longer ∧
    parameters? longer = some (before ++ parameter :: after)

section

variable {early inner late : List Token} {opening closing : Token} {runs : List (List Token)} {entries : List Parameter}
  (listed : Listed source list.start list.stop early opening inner closing late runs)

include listed in
theorem Becomes.enlists {before after : List (Symbol × List Symbol)} {front back : List (List Symbol)}
    (becomes : Becomes source list.start list.stop (addParameter list text) (front ++ Symbol.ofText text :: back))
    (cut : runs.map (List.map symbol) = front ++ back) (is : IsParameter text name type)
    (read : declared? [] front = some before) (read' : declared? [] back = some after)
    (flat : (ofList list source).flatMap ParameterGroup.symbols = before ++ after)
    (index : before.length = handleIndex (ofList list source)) (fixed : ∀ parameter ∈ before, isVariadic parameter = false) :
    Enlists list source text (name, type) before after := by
  obtain ⟨old, new⟩ := declared?_insert read read' is.word is.typed
  obtain ⟨longer, gives, items⟩ := becomes
  refine ⟨?_, flat, index, fixed, longer, gives, ?_⟩
  · rw [parameters?, Node.text, listed.items, Option.bind_some, cut, old]
  · rw [parameters?, items, Option.bind_some, is.spelled, new]

include listed in
theorem reads_of_listed : ∀ run ∈ runs, Reads source run := by
  intro run member
  refine ⟨fun token inside => ?_, fun used node ends covers => listed.ofText_phrase member ends covers⟩
  exact Token.slice_of_program (listed.mem (List.mem_cons_of_mem _
    (List.mem_append_left _ (listed.lined.mem member inside))))

theorem ofList_eq_entries (same : list.parts.map outline = (groupParameters [] entries).map outline) :
    ofList list source = (groupParameters [] entries).map (ofDeclaration source) := by
  rw [ParameterGroup.ofList_eq,
    ParameterGroup.declarations_eq same (ParameterGroup.isParameter_groupParameters [] entries),
    ParameterGroup.map_ofDeclaration same]

/-- Where a new parameter goes, from where declarations stand. -/
theorem addParameter_of_outlines {found : List Node} {last : Node}
    (same : list.parts.map outline = (found ++ [last]).map outline)
    (kinds : ∀ node ∈ found ++ [last], node.kind.isParameter = true)
    (plain : ∀ node ∈ found, (node.kind == .variadicParameterDeclaration) = false) (text : String) :
    addParameter list text =
      if last.kind == .variadicParameterDeclaration then insertAt last.start (text ++ ", ")
      else insertAt last.stop (", " ++ text) := by
  have whole := ParameterGroup.declarations_eq same kinds
  rw [List.map_append, List.map_eq_append_iff] at same
  obtain ⟨parts, rest, split, alike, ends⟩ := same
  obtain ⟨part, rfl, there⟩ := List.map_eq_singleton_iff.1 ends
  have kind : part.kind = last.kind := congrArg Node.Outline.kind there
  have start : part.start = last.start := congrArg (·.span.1) there
  have stop : part.stop = last.stop := congrArg (·.span.2) there
  rw [addParameter_append (whole.trans split) (fun declaration member => ?_), kind, start, stop]
  obtain ⟨node, listed, like⟩ := List.mem_map.1 (alike ▸ List.mem_map_of_mem member : outline declaration ∈ found.map outline)
  have kind' : node.kind = declaration.kind := congrArg Node.Outline.kind like
  exact kind' ▸ plain node listed

end

/-- A list with some declarations, and where a new parameter goes in it. -/
structure LastDeclared (list : Node) (source text : String) (found : List Node) (last : Node) : Prop where
  groups : ofList list source = (found ++ [last]).map (ofDeclaration source)
  named : ∀ node ∈ found ++ [last], IsNamed source node
  plain : ∀ node ∈ found, (node.kind == .variadicParameterDeclaration) = false
  edit : addParameter list text =
    if last.kind == .variadicParameterDeclaration then insertAt last.start (text ++ ", ")
    else insertAt last.stop (", " ++ text)

section

variable {early inner late run : List Token} {opening closing : Token} {runs runs' : List (List Token)} {found : List Node}
  {last : Node} (known : LastDeclared list source text found last)
  (listed : Listed source list.start list.stop early opening inner closing late runs) (split : runs = runs' ++ [run])
  (whole : Declares [] (runs.map (List.map symbol)) ((found ++ [last]).map (ofDeclaration source)))
  (is : IsParameter text name type)

include known listed split whole is

/-- Behind a last declaration that is not variadic. -/
theorem LastDeclared.behind (kind : last.kind = .parameterDeclaration) (stops : Token.stopOf? run = some last.stop) :
    ∃ before after, Enlists list source text (name, type) before after := by
  have variadic : (last.kind == .variadicParameterDeclaration) = false := by simp [kind]
  have edit := known.edit
  have index := ParameterGroup.handleIndex_declarations known.named known.plain
  rw [variadic, if_neg Bool.false_ne_true] at edit index
  have becomes := listed.becomes_behind split stops is.toIsItem
  rw [← edit] at becomes
  refine ⟨_, [], becomes.enlists listed (List.append_nil _).symm is whole.read rfl ?_ ?_ ?_⟩
  · rw [known.groups, List.append_nil]
  · rw [known.groups, index]
  · intro parameter member
    obtain ⟨group, among, inside⟩ := List.mem_flatMap.1 member
    refine whole.fixed group among ?_ parameter inside
    obtain ⟨node, declared, rfl⟩ := List.mem_map.1 among
    exact (List.forall_mem_append.2 ⟨known.plain, List.forall_mem_singleton.2 variadic⟩) node declared

/-- Before a variadic declaration. -/
theorem LastDeclared.before (kind : last.kind = .variadicParameterDeclaration)
    (starts : Token.startOf? run = some last.start)
    (front : Declares [] (runs'.map (List.map symbol)) (found.map (ofDeclaration source))) :
    ∃ before after, Enlists list source text (name, type) before after := by
  have variadic : (last.kind == .variadicParameterDeclaration) = true := by simp [kind]
  have edit := known.edit
  have index := ParameterGroup.handleIndex_declarations known.named known.plain
  rw [variadic, if_pos rfl] at edit index
  have read := whole.read
  rw [split, List.map_append, List.map_append, declared?_append _ front.read, List.flatMap_append] at read
  obtain ⟨after, behind, joined⟩ := Option.map_eq_some_iff.1 read
  obtain rfl := List.append_cancel_left joined
  have becomes := listed.becomes_before split starts is.toIsItem
  rw [← edit] at becomes
  refine ⟨_, _, becomes.enlists listed (by rw [split, List.map_append]) is front.read behind ?_ ?_ ?_⟩
  · rw [known.groups, List.map_append, List.flatMap_append]
  · rw [known.groups, index]
  · intro parameter member
    obtain ⟨group, among, inside⟩ := List.mem_flatMap.1 member
    obtain ⟨node, declared, same⟩ := List.mem_map.1 among
    exact front.fixed group among (same ▸ known.plain node declared) parameter inside

end

/-- A new parameter joins those of a list, if all of them have names. -/
theorem exists_enlists (member : list ∈ (Tree.parse source).root.descendants) (kind : list.kind = .parameterList)
    (named : allNamed (ofList list source) = true) (ordered : AreOrdered (ofList list source))
    (is : IsParameter text name type) : ∃ before after, Enlists list source text (name, type) before after := by
  obtain ⟨opening, inner, closing, runs, entries, enclosed, lined, each, same⟩ :=
    (Node.laid_of_mem_descendants member).parameters kind
  obtain ⟨early, late, listed⟩ := Go.exists_listed enclosed lined each fun _ _ entry => ⟨entry.keeps, entry.ne_nil⟩
  have reads := reads_of_listed listed
  have groups : ofList list source = _ := ofList_eq_entries same
  have kinds := ParameterGroup.isParameter_groupParameters [] entries
  rw [groups] at named ordered
  have names : ∀ node ∈ groupParameters [] entries, IsNamed source node := fun node member => by
    simpa [IsNamed] using List.all_eq_true.1 named _ (List.mem_map_of_mem member)
  have whole := declares_groupParameters each reads (by simp) names
  rcases List.eq_nil_or_concat runs with none | ⟨runs', run, split⟩
  · subst none
    cases each
    have empty : list.parts = [] := List.map_eq_nil_iff.1 same
    have edit : addParameter list text = insertAt (list.start + 1) text := by rw [addParameter, empty]; rfl
    have becomes : Becomes source list.start list.stop (addParameter list text) ([] ++ Symbol.ofText text :: []) :=
      edit ▸ listed.becomes_inside rfl is.toIsItem
    exact ⟨[], [], becomes.enlists listed rfl is rfl rfl (by rw [groups]; rfl) (by rw [groups]; rfl) (by simp)⟩
  -- where the last run ends depends on the entry that it spells
  rw [List.concat_eq_append] at split
  rw [split] at each
  obtain ⟨entries', entry, rfl, each', spells⟩ := forall₂_concat_left each
  obtain ⟨found, pending, nodes⟩ := ParameterGroup.exists_groupParameters [] entries'
  rw [nodes] at same groups names ordered whole kinds
  obtain ⟨last, only, ends⟩ := ParameterGroup.exists_last spells (List.forall_mem_append.1 names).2
  rw [only] at same groups names ordered whole kinds
  have plain := ParameterGroup.plain_of_ordered ordered
  have known : LastDeclared list source text found last :=
    ⟨groups, names, plain, addParameter_of_outlines same kinds plain text⟩
  rcases ends with ⟨kind, stops⟩ | ⟨kind, rfl, starts⟩
  · exact known.behind listed split whole is kind stops
  · have nodes' : groupParameters [] entries' = found := by simpa [groupParameters] using nodes []
    have front := declares_groupParameters each' (fun run member => reads run (split ▸ List.mem_append_left _ member))
      (by simp) (nodes' ▸ (List.forall_mem_append.1 names).1)
    rw [nodes'] at front
    exact known.before listed split whole is kind starts front

/-- The positions of a new parameter and a new argument agree: each is put in where the other one is, and a call that
reaches so far binds them to each other and everything else as before. -/
theorem insertions_agree {source source' text text' : String} {list list' : Node} {name : Symbol} {type : List Symbol}
    (declared : list ∈ (Tree.parse source).root.descendants) (kind : list.kind = .parameterList)
    (named : allNamed (ofList list source) = true) (ordered : AreOrdered (ofList list source))
    (parameter : IsParameter text name type)
    (called : list' ∈ (Tree.parse source').root.descendants) (kind' : list'.kind = .argumentList) (argument : IsItem text') :
    let index := handleIndex (ofList list source)
    let parameters := (ofList list source).flatMap ParameterGroup.symbols
    let arguments := list'.parts.map fun part => Symbol.ofText (part.text source')
    (parameters? (list.text source) = some parameters ∧ index ≤ parameters.length ∧
      ∃ longer, Gives source list.start list.stop (addParameter list text) longer ∧
        parameters? longer = some (parameters.insertIdx index (name, type))) ∧
    (items? (list'.text source') = some arguments ∧
      ∀ place, Becomes source' list'.start list'.stop (addToArguments list' place text')
        (arguments.insertIdx (min place arguments.length) (Symbol.ofText text'))) ∧
    (index ≤ arguments.length →
      let bound := bind (parameters.insertIdx index (name, type)) (arguments.insertIdx index (Symbol.ofText text'))
      bound[index]? = some ((name, type), Symbol.ofText text') ∧ bound.eraseIdx index = bind parameters arguments) := by
  intro index parameters arguments
  obtain ⟨before, after, enlists⟩ := exists_enlists declared kind named ordered parameter
  have split : parameters = before ++ after := enlists.flat
  have reach : index = before.length := enlists.index.symm
  have inserted := Listing.insertIdx_append before after (name, type)
  have becomes := addToArguments_becomes called kind' argument
  rw [split, reach, inserted]
  refine ⟨⟨enlists.old, by simp, enlists.new⟩, ⟨(becomes 0).1, fun place => (becomes place).2⟩, fun enough => ?_⟩
  exact Listing.bind_insert enlists.fixed parameter.fixed enough _

/-- A list with grouped names, comments and a variadic parameter, and a call with a spread argument. -/
def groupedSource : String :=
  "package p\n\nfunc f(\n\ta, b int, // both\n\trest ...string,\n) \x7b\n\tf(1, 2 /* two */, rest...)\n\x7d\n"

def groupedParameters : List (Symbol × List Symbol) :=
  [(⟨.word, "a"⟩, [⟨.word, "int"⟩]), (⟨.word, "b"⟩, [⟨.word, "int"⟩]), (⟨.word, "rest"⟩, [⟨.mark, "..."⟩, ⟨.word, "string"⟩])]

def groupedArguments : List (List Symbol) := [[⟨.int, "1"⟩], [⟨.int, "2"⟩], [⟨.word, "rest"⟩, ⟨.mark, "..."⟩]]

def handleType : List Symbol := [⟨.mark, "*"⟩, ⟨.word, "newrelic"⟩, ⟨.mark, "."⟩, ⟨.word, "Transaction"⟩]

theorem isParameter_handle : IsParameter "nrTxn *newrelic.Transaction" ⟨.word, "nrTxn"⟩ handleType := by
  refine ⟨⟨⟨?_, ?_⟩, ?_, ?_⟩, ?_, ?_, ?_, ?_⟩ <;> decide +kernel

theorem groupedSource_lists :
    ((Tree.parse groupedSource).root.descendants.any fun list => list.kind == .parameterList &&
      allNamed (ofList list groupedSource) && (ofList list groupedSource).dropLast.all (!·.variadic) &&
      handleIndex (ofList list groupedSource) == 2 &&
      (ofList list groupedSource).flatMap ParameterGroup.symbols == groupedParameters) = true ∧
    ((Tree.parse groupedSource).root.descendants.any fun list => list.kind == .argumentList &&
      (list.parts.map fun part => Symbol.ofText (part.text groupedSource)) == groupedArguments) = true := by
  decide +kernel

theorem insertions_agree_groupedSource :
    ∃ list list', list ∈ (Tree.parse groupedSource).root.descendants ∧ list.kind = .parameterList ∧
      allNamed (ofList list groupedSource) = true ∧ AreOrdered (ofList list groupedSource) ∧
      IsParameter "nrTxn *newrelic.Transaction" ⟨.word, "nrTxn"⟩ handleType ∧
      list' ∈ (Tree.parse groupedSource).root.descendants ∧ list'.kind = .argumentList ∧ IsItem "nrTxn" ∧
      (∃ longer, Gives groupedSource list.start list.stop (addParameter list "nrTxn *newrelic.Transaction") longer ∧
        parameters? longer = some (groupedParameters.insertIdx 2 (⟨.word, "nrTxn"⟩, handleType))) ∧
      Becomes groupedSource list'.start list'.stop (addToArguments list' 2 "nrTxn")
        (groupedArguments.insertIdx 2 [⟨.word, "nrTxn"⟩]) ∧
      (bind (groupedParameters.insertIdx 2 (⟨.word, "nrTxn"⟩, handleType))
        (groupedArguments.insertIdx 2 [⟨.word, "nrTxn"⟩])).eraseIdx 2 = bind groupedParameters groupedArguments := by
  obtain ⟨declares, calls⟩ := groupedSource_lists
  obtain ⟨list, declared, known⟩ := List.any_eq_true.1 declares
  obtain ⟨list', called, known'⟩ := List.any_eq_true.1 calls
  simp only [Bool.and_eq_true, beq_iff_eq] at known known'
  obtain ⟨⟨⟨⟨kind, named⟩, plain⟩, index⟩, parameters⟩ := known
  obtain ⟨kind', arguments⟩ := known'
  have ordered : AreOrdered (ofList list groupedSource) := by simpa [AreOrdered] using plain
  have word : IsWord "nrTxn" := Go.isWord_of_all (by decide) (by decide +kernel) (by decide +kernel)
  have item : IsItem "nrTxn" := Listing.isItem_of_isWord word
  have read : Symbol.ofText "nrTxn" = [⟨.word, "nrTxn"⟩] := by decide +kernel
  have agree := insertions_agree declared kind named ordered isParameter_handle called kind' item
  simp only [index, parameters, arguments, read] at agree
  exact ⟨list, list', declared, kind, named, ordered, isParameter_handle, called, kind', item, agree.1.2.2,
    agree.2.1.2 2, (agree.2.2 (by decide)).2⟩

/-- A parameter with a type and no name. -/
def unnamedSource : String := "package p\n\nfunc f(int) \x7b\n\x7d\n"

/-- Where types stand alone, a new parameter with a name makes names of them. -/
theorem flatten_addParameter_unnamed :
    ∃ list changed list', list ∈ (Tree.parse unnamedSource).root.descendants ∧ list.kind = .parameterList ∧
      AreOrdered (ofList list unnamedSource) ∧
      perform unnamedSource [addParameter list "nrTxn *newrelic.Transaction"] = .ok changed ∧
      list' ∈ (Tree.parse changed).root.descendants ∧ list'.kind = .parameterList ∧
      ParameterGroup.flatten (ofList list' changed) ≠
        (ParameterGroup.flatten (ofList list unnamedSource)).insertIdx (handleIndex (ofList list unnamedSource))
          (some "nrTxn", "*newrelic.Transaction") := by
  have fails : ((Tree.parse unnamedSource).root.descendants.any fun list => list.kind == .parameterList &&
      (ofList list unnamedSource).dropLast.all (!·.variadic) &&
      (perform unnamedSource [addParameter list "nrTxn *newrelic.Transaction"]).toOption.any fun changed =>
        (Tree.parse changed).root.descendants.any fun list' => list'.kind == .parameterList &&
          ParameterGroup.flatten (ofList list' changed) !=
            (ParameterGroup.flatten (ofList list unnamedSource)).insertIdx (handleIndex (ofList list unnamedSource))
              (some "nrTxn", "*newrelic.Transaction")) = true := by decide +kernel
  obtain ⟨list, member, known⟩ := List.any_eq_true.1 fails
  rw [Bool.and_eq_true, Bool.and_eq_true, beq_iff_eq] at known
  obtain ⟨⟨kind, plain⟩, known⟩ := known
  obtain ⟨changed, performed, known⟩ := (Option.any_eq_true _ _).1 known
  obtain ⟨list', member', known⟩ := List.any_eq_true.1 known
  rw [Bool.and_eq_true, beq_iff_eq, bne_iff_ne] at known
  refine ⟨list, changed, list', member, kind, by simpa [AreOrdered] using plain, ?_, member', known.1, known.2⟩
  cases result : perform unnamedSource [addParameter list "nrTxn *newrelic.Transaction"] with
  | ok text =>
      rw [result] at performed
      cases performed
      rfl
  | error cause =>
      rw [result] at performed
      cases performed

end Edit

end TraceWeave
