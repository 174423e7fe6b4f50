import TraceWeave.Proofs.CallGraph
import TraceWeave.Proofs.Seeds
import TraceWeave.Proofs.Widening

/-!
Several declarations of one function, as there are where some files are only for some machines. The call graph
keeps what it needs to know of one of them, and calls go by that; each declaration gets the handle by its own
parameters. So they fit together as far as the declarations agree.
-/
namespace TraceWeave

open Go (Node Place Token)
open Go.Node (Annotated)

namespace ParameterGroup

/-- Declarations of a parameter list. -/
def declarations (list : Node) : List Node := list.parts.filter (·.kind.isParameter)

/-- The parameters of one declaration. -/
def ofDeclaration (source : String) (declaration : Node) : ParameterGroup :=
  { names := (declaration.childrenAs .name).map (·.text source)
    type := ((declaration.child? .type).map (·.text source)).getD ""
    variadic := declaration.kind == .variadicParameterDeclaration }

theorem ofList_eq (list : Node) (source : String) : ofList list source = (declarations list).map (ofDeclaration source) :=
  rfl

/-- Only the last of some parameters may be variadic. -/
def AreOrdered (groups : List ParameterGroup) : Prop := ∀ group ∈ groups.dropLast, group.variadic = false

/-- A new parameter comes behind the fixed ones. -/
theorem handleIndex_append {fixed : List ParameterGroup} (plain : ∀ group ∈ fixed, group.variadic = false) (group : ParameterGroup) :
    handleIndex (fixed ++ [group]) = total arity fixed + if group.variadic then 0 else group.arity := by
  have kept : fixed.filter (!·.variadic) = fixed := List.filter_eq_self.2 fun group member => by simp [plain group member]
  rw [handleIndex, List.filter_append, kept, total_append]
  cases variadic : group.variadic <;> simp [variadic]

/-- Only the last of some declarations may be variadic. -/
theorem plain_of_ordered {fixed : List Node} {last : Node} {source : String}
    (ordered : AreOrdered ((fixed ++ [last]).map (ofDeclaration source))) :
    ∀ declaration ∈ fixed, (declaration.kind == .variadicParameterDeclaration) = false := by
  intro declaration member
  refine ordered (ofDeclaration source declaration) ?_
  rw [List.map_append, List.map_singleton, List.dropLast_concat]
  exact List.mem_map_of_mem member

end ParameterGroup

namespace Edit

variable {sound : Nat → Prop} {list : Node} {source : String} {index : Nat}

/-- A new parameter comes behind so many parameters of a list, and before the others. -/
structure AddsParameter (list : Node) (source : String) (index : Nat) (edit : Edit) : Prop where
  insertion : edit.stop = edit.start
  split : ∃ before after, ParameterGroup.declarations list = before ++ after ∧
    total ParameterGroup.arity (before.map (ParameterGroup.ofDeclaration source)) = index ∧
    (∀ declaration ∈ before, declaration.stop ≤ edit.start) ∧ ∀ declaration ∈ after, edit.start ≤ declaration.start

/-- Where a new parameter goes if some declarations are there. -/
theorem addParameter_append {fixed : List Node} {last : Node} (split : ParameterGroup.declarations list = fixed ++ [last])
    (plain : ∀ declaration ∈ fixed, (declaration.kind == .variadicParameterDeclaration) = false) (text : String) :
    addParameter list text =
      if last.kind == .variadicParameterDeclaration then insertAt last.start (text ++ ", ")
      else insertAt last.stop (", " ++ text) := by
  have missing : fixed.find? (·.kind == .variadicParameterDeclaration) = none :=
    List.find?_eq_none.2 fun declaration member => by simp [plain declaration member]
  unfold addParameter
  dsimp only
  rw [show list.parts.filter (·.kind.isParameter) = fixed ++ [last] from split, List.find?_append, missing, Option.none_or,
    List.getLast?_concat]
  cases variadic : last.kind == .variadicParameterDeclaration <;> simp [variadic]

theorem addsParameter_addParameter (annotated : Annotated sound list)
    (ordered : ParameterGroup.AreOrdered (ParameterGroup.ofList list source)) (text : String) :
    AddsParameter list source (ParameterGroup.handleIndex (ParameterGroup.ofList list source))
      (addParameter list text) := by
  have order : (ParameterGroup.declarations list).Pairwise fun a b => a.stop ≤ b.start :=
    (Edit.parts_pairwise annotated).filter _
  have sizes : ∀ declaration ∈ ParameterGroup.declarations list, declaration.start ≤ declaration.stop :=
    fun declaration member => (annotated.children _ (mem_parts (List.mem_filter.1 member).1).1).le
  rw [ParameterGroup.ofList_eq] at ordered ⊢
  rcases List.eq_nil_or_concat (ParameterGroup.declarations list) with none | ⟨fixed, last, split⟩
  · have edit : addParameter list text = insertAt (list.start + 1) text := by
      rw [addParameter, ← ParameterGroup.declarations, none]
      rfl
    rw [none, edit]
    exact ⟨rfl, [], [], none, rfl, by simp, by simp⟩
  rw [List.concat_eq_append] at split
  have plain := ParameterGroup.plain_of_ordered (split ▸ ordered)
  have edit := addParameter_append split plain text
  rw [split] at order sizes ⊢
  have counted : ∀ group ∈ fixed.map (ParameterGroup.ofDeclaration source), group.variadic = false :=
    List.forall_mem_map.2 plain
  have early : ∀ declaration ∈ fixed, declaration.stop ≤ last.start := fun declaration member =>
    (List.pairwise_append.1 order).2.2 declaration member last (List.mem_singleton_self _)
  rw [edit, List.map_append, List.map_singleton, ParameterGroup.handleIndex_append counted]
  cases variadic : last.kind == .variadicParameterDeclaration with
  | true =>
      rw [if_pos rfl]
      refine ⟨rfl, fixed, [last], split, ?_, early, ?_⟩
      · simp [ParameterGroup.ofDeclaration, variadic]
      · exact List.forall_mem_singleton.2 (Nat.le_refl _)
  | false =>
      rw [if_neg Bool.false_ne_true]
      have size := sizes last (List.mem_append_right _ (List.mem_singleton_self _))
      refine ⟨rfl, fixed ++ [last], [], by rw [List.append_nil, split], ?_, ?_, by simp⟩
      · simp [ParameterGroup.ofDeclaration, variadic, total_append]
      · exact List.forall_mem_append.2 ⟨fun declaration before => Nat.le_trans (early declaration before) size,
          List.forall_mem_singleton.2 (Nat.le_refl _)⟩

end Edit

theorem mem_of_widenedCallee? {graph : CallGraph} {widened : Nat → Bool} {here : Surroundings} {source : String}
    {call : Place} {callee : GraphFunction} (named : widenedCallee? graph widened here source call = some callee) :
    callee ∈ graph.functions := by
  unfold widenedCallee? at named
  split at named
  · cases named
  · obtain ⟨id, _, named⟩ := Option.bind_eq_some_iff.1 named
    split at named
    · exact List.mem_of_getElem? named
    · cases named

namespace Setup

variable {setup : Setup} {program : Program} {graph : CallGraph} {run : Run} {function : GraphFunction}
  {file : ProgramFile} {first : FunctionDecl} {site : HandleSite} {made : HandleEdits} {id number : Nat}

/-- The declaration that the graph knows a function by, where that function gets the handle. -/
structure Keeps (program : Program) (handle : String) (function : GraphFunction) (file : ProgramFile)
    (first : FunctionDecl) : Prop where
  listed : file ∈ program.files
  member : first ∈ FunctionDecl.all file.source
  key : first.key file.package = function.key
  production : file.source.isTest = false
  bodied : first.body ≠ none
  named : ParameterGroup.allNamed (first.groups file.source.text) = true
  lacks : ParameterGroup.declares (first.groups file.source.text) handle = false
  index : ParameterGroup.handleIndex (first.groups file.source.text) = function.handleIndex

/-- What a file does for a function that gets the handle. -/
structure GoesBy (site : HandleSite) (made : HandleEdits) (function : GraphFunction) (file : ProgramFile)
    (first : FunctionDecl) : Prop where
  /-- Each declaration gets the handle behind its own parameters. -/
  parameters : ∀ decl ∈ FunctionDecl.all site.source, decl.key site.package = function.key → decl.body ≠ none →
    ∃ list, decl.parameters = some list ∧ Edit.addParameter list.node site.handleParameter ∈ made.edits ∧
      (ParameterGroup.AreOrdered (decl.groups site.source.text) →
        Edit.AddsParameter list.node site.source.text (ParameterGroup.handleIndex (decl.groups site.source.text))
          (Edit.addParameter list.node site.handleParameter))
  /-- Calls go by the parameters of the declaration that the graph knows. -/
  arguments : ∀ owner call callee, site.view.Names owner call callee → callee.key = function.key →
    (∀ decl ∈ owner, site.visits decl = true) →
      ∃ argument edit, Edit.addArgument? call.node function.handleIndex argument = some edit ∧ edit ∈ made.edits
  /-- A declaration that agrees with that one has named parameters, and calls fit it. -/
  alike : ∀ decl ∈ FunctionDecl.all site.source, decl.key site.package = function.key → decl.body ≠ none →
    ParameterGroup.AreOrdered (decl.groups site.source.text) →
    ParameterGroup.allNamed (decl.groups site.source.text) = ParameterGroup.allNamed (first.groups file.source.text) →
    ParameterGroup.handleIndex (decl.groups site.source.text) =
      ParameterGroup.handleIndex (first.groups file.source.text) →
    ParameterGroup.allNamed (decl.groups site.source.text) = true ∧
      ∃ list, decl.parameters = some list ∧ Edit.addParameter list.node site.handleParameter ∈ made.edits ∧
        Edit.AddsParameter list.node site.source.text function.handleIndex
          (Edit.addParameter list.node site.handleParameter)

/-- What the graph keeps of a function that gets the handle holds of one of its declarations. -/
theorem exists_keeps {handle : String} {seeds : List FunctionKey} (distinct : seeds.Nodup)
    (found : (CallGraph.build program handle).function? id = some function)
    (widens : (HandlePlan.compute (CallGraph.build program handle) seeds).widens id = true) :
    ∃ file first, Keeps program handle function file first := by
  obtain ⟨progress, _⟩ := HandlePlan.compute_progress (CallGraph.build program handle) distinct
  obtain ⟨_, other, path, _, lacks⟩ := (progress.widened id).1 (List.contains_iff_mem.1 widens)
  cases path.unique found
  have keeps := progress.not_keeps widens found
  simp only [CallGraph.keepsParameters, Bool.or_eq_false_iff, Bool.not_eq_false'] at keeps
  obtain ⟨_, file, package, first, http, here, _, member, _, rfl⟩ :=
    CallGraph.exists_decl (List.mem_of_getElem? found)
  exact ⟨file, first, {
    listed := List.mem_of_getElem? here
    member
    key := rfl
    production := path.isOpen.2.1
    bodied := Option.isSome_iff_ne_none.1 keeps.1.1.2
    named := keeps.1.1.1.2
    lacks
    index := rfl }⟩

theorem TakesUp.goesBy {handle : String}
    (takes : setup.TakesUp (CallGraph.build program handle) run number site made) (parsed : run.program.IsParsed)
    (found : (CallGraph.build program handle).function? id = some function)
    (widens : (HandlePlan.compute (CallGraph.build program handle) run.seeds).widens id = true)
    (keeps : Keeps program handle function file first) : GoesBy site made function file first := by
  obtain ⟨drawn, plan⟩ := takes.follows_plan
  have fulfils := takes.fulfils parsed
  have known : site.graph.lookup? function.key = some id := by
    rw [drawn]
    exact CallGraph.lookup?_key found
  have parameters : ∀ decl ∈ FunctionDecl.all site.source, decl.key site.package = function.key → decl.body ≠ none →
      ∃ list, decl.parameters = some list ∧ Edit.addParameter list.node site.handleParameter ∈ made.edits ∧
        (ParameterGroup.AreOrdered (decl.groups site.source.text) →
          Edit.AddsParameter list.node site.source.text (ParameterGroup.handleIndex (decl.groups site.source.text))
            (Edit.addParameter list.node site.handleParameter)) := by
    intro decl member key has
    obtain ⟨list, parameters, added⟩ := fulfils.parameters decl member id (key ▸ known) (plan ▸ widens) has
    obtain ⟨list', parameters', annotated, _⟩ := FunctionDecl.exists_parameters (takes.parsed parsed) member
    cases parameters.symm.trans parameters'
    have groups : decl.groups site.source.text = ParameterGroup.ofList list.node site.source.text := by
      rw [FunctionDecl.groups, parameters]
    rw [groups]
    exact ⟨list, parameters, added, fun ordered => Edit.addsParameter_addParameter annotated ordered _⟩
  refine ⟨parameters, ?_, ?_⟩
  · intro owner call callee names key visited
    obtain ⟨here, named⟩ := names.named
    have listed : callee ∈ (CallGraph.build program handle).functions := drawn ▸ mem_of_widenedCallee? named
    cases List.inj_on_of_nodup_map (CallGraph.functionsIn_nodup program handle) listed (List.mem_of_getElem? found) key
    exact fulfils.arguments owner call _ names visited
  · intro decl member key has ordered named index
    obtain ⟨list, listed, added, joins⟩ := parameters decl member key has
    refine ⟨named.trans keeps.named, list, listed, added, ?_⟩
    rw [← keeps.index, ← index]
    exact joins ordered

/-- Where several declarations of a function get the handle, the calls fit those that agree with the one that the
graph knows. -/
theorem propagate_goesBy (setup : Setup) (parsed : program.IsParsed)
    (found : (CallGraph.build program setup.settings.handle).function? id = some function)
    (widens : (HandlePlan.compute (CallGraph.build program setup.settings.handle)
      (setup.inject (.ofProgram program setup)).seeds).widens id = true) :
    let graph := CallGraph.build program setup.settings.handle
    let run := setup.inject (.ofProgram program setup)
    ∃ file first, Keeps program setup.settings.handle function file first ∧
      ∀ number entry, run.program.files[number]? = some entry → entry.source.isTest = false →
        ∃ site made, setup.TakesUp graph run number site made ∧ site.source = entry.source ∧
          GoesBy site made function file first ∧
          (setup.CarriesOut graph run number site made ∨ ∃ cause, setup.Refuses graph run number site made cause) := by
  intro graph run
  obtain ⟨file, first, keeps⟩ := exists_keeps (setup.inject_seeds_nodup program setup.detection.notes) found widens
  have formed : run.program.IsParsed := (setup.inject_evolves (Run.ofProgram program setup)).isParsed parsed
  refine ⟨file, first, keeps, fun number entry here production => ?_⟩
  obtain ⟨site, made, takes, same⟩ := setup.exists_takesUp graph here production
  exact ⟨site, made, takes, same, takes.goesBy formed found widens keeps, takes.outcome formed⟩

/-- A function whose parameter has no name on some machines. -/
def variantFetch : Program where
  modulePath := none
  packages := [⟨".", "main", ".", false⟩]
  files := [
    ⟨Source.load "app.go" ("package main\n\nfunc main() \x7b\n\trun(nil)\n\x7d\n\n" ++
      "func run(nrTxn *newrelic.Transaction) \x7b\n\tfetch(1)\n\x7d\n"), 0⟩,
    ⟨Source.load "fetch.go" "package main\n\nimport \"lib\"\n\nfunc fetch(n int) \x7b\n\tlib.Do(n)\n\x7d\n", 0⟩,
    ⟨Source.load "fetch_amd64.go" "package main\n\nfunc fetch(int) \x7b\n\x7d\n", 0⟩]

theorem variantFetch_isParsed : variantFetch.IsParsed := by
  intro file member
  simp only [variantFetch, List.mem_cons, List.not_mem_nil, or_false] at member
  rcases member with rfl | rfl | rfl
  all_goals exact Source.isParsed_load _ _

def variantSetup : Setup := .ofProgram variantFetch [{ tracedCalls with placement := none }.toIntegration] {}

def variantRun : Run := variantSetup.inject (.ofProgram variantFetch variantSetup)

/-- Its files after the second pass. -/
def handedFetch : List String := [
  "package main\n\nfunc main() \x7b\n\trun(nil)\n\x7d\n\n" ++
    "func run(nrTxn *newrelic.Transaction) \x7b\n\tfetch(1, nrTxn)\n\x7d\n",
  "package main\n\nimport \"lib\"\n\nfunc fetch(n int, nrTxn *newrelic.Transaction) \x7b\n\tlib.Do(n)\n\x7d\n",
  "package main\n\nfunc fetch(int, nrTxn *newrelic.Transaction) \x7b\n\x7d\n"]

theorem variantFetch_propagated :
    ((CallGraph.build variantFetch "nrTxn").function? 2).isSome = true ∧
      (HandlePlan.compute (.build variantFetch "nrTxn") variantRun.seeds).widens 2 = true ∧
      (variantSetup.propagate (.build variantFetch "nrTxn") variantRun).2.program.files.map (·.source.text) =
        handedFetch := by decide +kernel

theorem propagate_goesBy_variantFetch :
    ∃ function, variantFetch.IsParsed ∧
      (CallGraph.build variantFetch variantSetup.settings.handle).function? 2 = some function ∧
      (HandlePlan.compute (.build variantFetch variantSetup.settings.handle) variantRun.seeds).widens 2 = true ∧
      let graph := CallGraph.build variantFetch variantSetup.settings.handle
      ∃ file first, Keeps variantFetch variantSetup.settings.handle function file first ∧
        ∀ number entry, variantRun.program.files[number]? = some entry → entry.source.isTest = false →
          ∃ site made, variantSetup.TakesUp graph variantRun number site made ∧ site.source = entry.source ∧
            GoesBy site made function file first ∧
            (variantSetup.CarriesOut graph variantRun number site made ∨
              ∃ cause, variantSetup.Refuses graph variantRun number site made cause) := by
  obtain ⟨known, widens, _⟩ := variantFetch_propagated
  obtain ⟨function, found⟩ := Option.isSome_iff_exists.1 known
  exact ⟨function, variantFetch_isParsed, found, widens,
    variantSetup.propagate_goesBy variantFetch_isParsed found widens⟩

/-- The declaration without a name for its parameter gets the handle as well. What stood for a type is now a name. -/
theorem variantFetch_widensUnnamed :
    (∃ entry decl, variantFetch.files[2]? = some entry ∧ decl ∈ FunctionDecl.all entry.source ∧ decl.name = "fetch" ∧
      ParameterGroup.allNamed (decl.groups entry.source.text) = false) ∧
      (variantSetup.propagate (.build variantFetch "nrTxn") variantRun).2.program.files.map (·.source.text) =
        handedFetch := by
  refine ⟨?_, variantFetch_propagated.2.2⟩
  have unnamed : variantFetch.files[2]?.any (fun entry => (FunctionDecl.all entry.source).any fun decl =>
      decl.name == "fetch" && !ParameterGroup.allNamed (decl.groups entry.source.text)) = true := by decide +kernel
  obtain ⟨entry, here, unnamed⟩ := (Option.any_eq_true _ _).1 unnamed
  obtain ⟨decl, member, unnamed⟩ := List.any_eq_true.1 unnamed
  rw [Bool.and_eq_true, beq_iff_eq, Bool.not_eq_true'] at unnamed
  exact ⟨entry, decl, here, member, unnamed⟩

end Setup
end TraceWeave
