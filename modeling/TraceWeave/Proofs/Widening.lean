import TraceWeave.Integration.Template
import TraceWeave.Proofs.HandleBatch
import TraceWeave.Proofs.HandlePlan
import TraceWeave.Proofs.History

/-!
Parameters and arguments for the handle come together. The batch that the second pass makes for a file
has both, so a function is widened wherever it is declared, unless the batch of some file is refused.
-/
namespace TraceWeave

open Go (Node Place Token)
open Go.Node (Annotated)
open Go.Place (Below)

theorem exists_of_widenedCallee? {graph : CallGraph} {widened : Nat → Bool} {here : Surroundings} {source : String}
    {call : Place} {callee : GraphFunction} (named : widenedCallee? graph widened here source call = some callee) :
    ∃ id, graph.lookup? callee.key = some id ∧ widened id = true := by
  unfold widenedCallee? at named
  split at named
  · cases named
  · obtain ⟨id, target, named⟩ := Option.bind_eq_some_iff.1 named
    obtain ⟨key, _, known⟩ := Option.bind_eq_some_iff.1 target
    split at named
    · rename_i widens
      obtain ⟨function, found, rfl⟩ := HandlePlan.key_of_lookup known
      cases named.symm.trans found
      exact ⟨id, known, widens⟩
    · cases named

namespace HandleSite

variable {site : HandleSite} {made : HandleEdits} {withDeferred : Bool} {decl : FunctionDecl} {id : Nat}
  {here : Surroundings} {body call : Place} {callee : GraphFunction}

/-- A declaration gets the parameter for the handle. -/
def Widens (site : HandleSite) (made : HandleEdits) (decl : FunctionDecl) : Prop :=
  ∃ list, decl.parameters = some list ∧ Edit.addParameter list.node site.handleParameter ∈ made.edits

/-- A call gets an argument for the handle. -/
def HandsTo (made : HandleEdits) (call : Place) (callee : GraphFunction) : Prop :=
  ∃ argument edit, Edit.addArgument? call.node callee.handleIndex argument = some edit ∧ edit ∈ made.edits

/-- A batch has all that the plan asks of a file. -/
structure Fulfils (site : HandleSite) (made : HandleEdits) : Prop where
  parameters : ∀ decl ∈ FunctionDecl.all site.source, ∀ id, site.graph.lookup? (decl.key site.package) = some id →
    site.plan.widens id = true → decl.body ≠ none → site.Widens made decl
  arguments : ∀ owner call callee, site.view.Names owner call callee → (∀ decl ∈ owner, site.visits decl = true) →
    HandsTo made call callee

theorem subset_callEdit (site : HandleSite) (here : Surroundings) (state : List Edit × HandleScope) (call : Place) :
    state.1 ⊆ (site.callEdit here state call).1 := by
  unfold callEdit
  split
  · exact List.Subset.refl _
  · exact List.subset_append_left _ _

theorem mem_foldl_callEdit (state : List Edit × HandleScope) {places : List Place} (listed : call ∈ places)
    (annotated : Annotated (Token.Clear site.source.text) call.node)
    (named : widenedCallee? site.graph site.plan.widens here site.source.text call = some callee) :
    ∃ argument edit, Edit.addArgument? call.node callee.handleIndex argument = some edit ∧
      edit ∈ (places.foldl (site.callEdit here) state).1 := by
  obtain ⟨earlier, later, rfl⟩ := List.append_of_mem listed
  rw [List.foldl_append, List.foldl_cons]
  generalize earlier.foldl (site.callEdit here) state = middle
  have taken : ∃ argument, (site.callEdit here middle call).1 =
      middle.1 ++ (Edit.addArgument? call.node callee.handleIndex argument).toList := by
    unfold callEdit
    rw [named]
    exact ⟨_, rfl⟩
  obtain ⟨argument, taken⟩ := taken
  obtain ⟨one, _, _, _, added⟩ := exists_listed annotated named argument
  refine ⟨argument, one.edit, added, subset_foldl (site.subset_callEdit here) later _ ?_⟩
  rw [taken, added]
  exact List.mem_append_right _ List.mem_cons_self

/-- The edits of a declaration begin with its parameter and hold those of its calls. -/
theorem declEdits_subset (known : site.graph.lookup? (decl.key site.package) = some id) (found : decl.body = some body)
    (done : site.declEdits withDeferred decl = .ok made) : (site.signatureEdits id decl).edits ⊆ made.edits ∧
      (site.callEdits (.ofDecl site.program site.package site.imports decl) (site.firstScope id) body).1 ⊆ made.edits := by
  have among : ∀ parameter creation literals calls deferred : List Edit,
      parameter ⊆ parameter ++ creation ++ literals ++ calls ++ deferred ∧
        calls ⊆ parameter ++ creation ++ literals ++ calls ++ deferred := by
    intro parameter creation literals calls deferred
    constructor
    · intro edit listed
      simp [listed]
    · intro edit listed
      simp [listed]
  unfold declEdits at done
  rw [known, found] at done
  dsimp only at done
  split at done
  · obtain ⟨result, _, done⟩ := exists_of_bind_eq_ok done
    cases done
    exact among _ _ _ _ _
  · cases done
    exact among _ _ _ _ _

theorem fileEdits_subset (known : site.graph.lookup? (decl.key site.package) = some id) (found : decl.body = some body)
    (member : decl ∈ FunctionDecl.all site.source) (done : site.fileEdits withDeferred = .ok made) :
    (site.signatureEdits id decl).edits ⊆ made.edits ∧
      (site.callEdits (.ofDecl site.program site.package site.imports decl) (site.firstScope id) body).1 ⊆ made.edits := by
  unfold fileEdits at done
  obtain ⟨parts, mapped, done⟩ := exists_of_bind_eq_ok done
  cases done
  obtain ⟨part, listed, first⟩ := exists_mem_of_mapM mapped member
  have inside : part.edits ⊆ parts.flatMap (·.edits) := fun edit inner => List.mem_flatMap.2 ⟨part, listed, inner⟩
  obtain ⟨parameter, calls⟩ := declEdits_subset known found first
  exact ⟨fun edit inner => List.mem_append_left _ (inside (parameter inner)),
    fun edit inner => List.mem_append_left _ (inside (calls inner))⟩

theorem fileEdits_widens (parsed : site.source.IsParsed) (member : decl ∈ FunctionDecl.all site.source)
    (known : site.graph.lookup? (decl.key site.package) = some id) (widens : site.plan.widens id = true)
    (has : decl.body ≠ none) (done : site.fileEdits withDeferred = .ok made) : site.Widens made decl := by
  obtain ⟨body, found⟩ := Option.ne_none_iff_exists'.1 has
  obtain ⟨list, parameters, _⟩ := FunctionDecl.exists_parameters parsed member
  refine ⟨list, parameters, (fileEdits_subset known found member done).1 ?_⟩
  rw [signatureEdits, parameters]
  dsimp only
  rw [if_pos widens]
  exact List.mem_cons_self

theorem fileEdits_handsTo {owner : Option FunctionDecl} (parsed : site.source.IsParsed)
    (fits : site.imports = site.program.importsOf site.source) (names : site.view.Names owner call callee)
    (visited : ∀ decl ∈ owner, site.visits decl = true) (done : site.fileEdits withDeferred = .ok made) :
    HandsTo made call callee := by
  cases names with
  | @inBody decl body _ _ member found below named =>
      obtain ⟨id, known⟩ := Option.isSome_iff_exists.1 (visited decl rfl)
      have annotated := below.annotated (FunctionDecl.annotated_body parsed member found)
      have here : site.view.inDecl decl = .ofDecl site.program site.package site.imports decl := by
        rw [fits]
        rfl
      rw [here] at named
      obtain ⟨argument, edit, added, planned⟩ := mem_foldl_callEdit ([], site.firstScope id)
        (Go.Place.mem_descendants.2 below) annotated named
      exact ⟨argument, edit, added, (fileEdits_subset known found member done).2 planned⟩
  | @atFile item _ _ member kind below named =>
      have annotated := below.annotated (FunctionDecl.annotated_of_mem_parts parsed member)
      have here : site.view.atFile = .ofFile site.program site.package site.imports := by
        rw [fits]
        rfl
      rw [here] at named
      change widenedCallee? site.graph site.plan.widens _ site.source.text call = some callee at named
      obtain ⟨one, _, _, _, added⟩ := exists_listed annotated named "nil"
      refine ⟨"nil", one.edit, added, ?_⟩
      unfold fileEdits at done
      obtain ⟨parts, _, done⟩ := exists_of_bind_eq_ok done
      cases done
      refine List.mem_append_right _ (List.mem_flatMap.2 ⟨item, List.mem_filter.2 ⟨member, by simp [kind]⟩, ?_⟩)
      exact List.mem_filterMap.2 ⟨call, Go.Place.mem_descendants.2 below, by rw [named]; exact added⟩

theorem fileEdits_fulfils (parsed : site.source.IsParsed) (fits : site.imports = site.program.importsOf site.source)
    (done : site.fileEdits withDeferred = .ok made) : site.Fulfils made where
  parameters := fun _ member _ known widens has => fileEdits_widens parsed member known widens has done
  arguments := fun _ _ _ names visited => fileEdits_handsTo parsed fits names visited done

def withCatalog (site : HandleSite) (catalog : Catalog) : HandleSite :=
  { site with setup := { site.setup with catalog } }

theorem fileEdits_withCatalog (site : HandleSite) (catalog : Catalog) :
    (site.withCatalog catalog).fileEdits false = site.fileEdits false := by
  have each : (site.withCatalog catalog).declEdits false = site.declEdits false := by
    funext decl
    unfold declEdits
    simp only [Bool.false_and]
    rfl
  unfold fileEdits
  rw [each]
  rfl

/-- Without the code that waited, a batch is carried out, whatever the integrations. -/
theorem fileEdits_false_accepted (parsed : site.source.IsParsed) (done : site.fileEdits false = .ok made) :
    ∃ changed, site.source.apply made.edits = .ok changed := by
  -- the batch does not look at the integrations, so it is that of the built-in ones
  obtain ⟨spare, source, builtIn, same⟩ : ∃ spare : HandleSite, spare.source = site.source ∧
      spare.setup.catalog = Catalog.builtIn ∧ spare.fileEdits false = site.fileEdits false :=
    ⟨site.withCatalog Catalog.builtIn, rfl, rfl, site.fileEdits_withCatalog _⟩
  rw [← source] at parsed ⊢
  exact fileEdits_accepted parsed builtIn (same.trans done)

/-- A batch that is refused has code that waited, and would fit without it. -/
theorem waited_of_refused {cause : EditError} (parsed : site.source.IsParsed)
    (done : site.fileEdits (site.fileEdits true).isOk = .ok made) (refused : site.source.apply made.edits = .error cause) :
    site.fileEdits true = .ok made ∧
      ∃ spare changed, site.fileEdits false = .ok spare ∧ site.source.apply spare.edits = .ok changed := by
  obtain ⟨spare, without⟩ := site.exists_fileEdits_false
  obtain ⟨changed, fits⟩ := fileEdits_false_accepted parsed without
  refine ⟨?_, spare, changed, without, fits⟩
  cases whole : site.fileEdits true with
  | ok other =>
      rw [whole] at done
      exact whole.symm.trans done
  | error collision =>
      rw [whole] at done
      cases without.symm.trans done
      cases refused.symm.trans fits

end HandleSite

namespace Setup

variable {setup : Setup} {graph : CallGraph} {run : Run} {file : Nat} {entry : ProgramFile} {site : HandleSite}
  {made : HandleEdits}

/-- The second pass with its plan, before the first file. -/
def planned (graph : CallGraph) (run : Run) : Run :=
  { run.record (HandlePlan.compute graph run.seeds).notes with
    widened := (HandlePlan.compute graph run.seeds).widenedInOrder graph }

/-- The second pass when it comes to a file: those before it are done. -/
def reaching (setup : Setup) (graph : CallGraph) (run : Run) (file : Nat) : Run :=
  (run.productionFiles.takeWhile (· != file)).foldl
    (setup.propagateFile graph (HandlePlan.compute graph run.seeds)) (planned graph run)

/-- The second pass when it is done with a file. -/
def leaving (setup : Setup) (graph : CallGraph) (run : Run) (file : Nat) : Run :=
  setup.propagateFile graph (HandlePlan.compute graph run.seeds) (setup.reaching graph run file) file

/-- The second pass takes up a production file and makes a batch for it. If a name is missing, the batch
is without the code that waited. -/
structure TakesUp (setup : Setup) (graph : CallGraph) (run : Run) (file : Nat) (site : HandleSite) (made : HandleEdits) :
    Prop where
  entry : ∃ entry, run.program.files[file]? = some entry ∧ entry.source.isTest = false ∧
    site = .taking setup graph (HandlePlan.compute graph run.seeds) (setup.reaching graph run file) entry
  done : site.fileEdits (site.fileEdits true).isOk = .ok made

theorem propagateFile_findings (setup : Setup) (graph : CallGraph) (plan : HandlePlan) (run : Run) (file : Nat) :
    run.findings ⊆ (setup.propagateFile graph plan run file).findings := by
  have record : ∀ (run : Run) (notes : List Diagnostic), run.findings ⊆ (run.record notes).findings :=
    fun run notes => List.subset_append_left _ _
  unfold propagateFile
  split
  · exact List.Subset.refl _
  · dsimp only
    split
    · exact List.Subset.trans (record _ _) (Run.applyBatch_findings _ _ _ _)
    · split
      · exact List.Subset.trans (record _ _) (List.Subset.trans (record _ _) (Run.applyBatch_findings _ _ _ _))
      · exact List.Subset.trans (record _ _) (List.Subset.trans (record _ _) (Run.applyBatch_findings _ _ _ _))

/-- The turn of a file in the second pass. Only other files have changed before it, and only other files
change after it. -/
theorem propagate_turn_of_mem (setup : Setup) (graph : CallGraph) (member : file ∈ run.productionFiles) :
    Program.Evolves (· ≠ file) run.program (setup.reaching graph run file).program ∧
      Program.Evolves (· ≠ file) (setup.leaving graph run file).program (setup.propagate graph run).2.program ∧
      (setup.leaving graph run file).findings ⊆ (setup.propagate graph run).2.findings := by
  have distinct : run.productionFiles.Nodup := run.filesWhere_nodup _
  obtain ⟨earlier, later, split, absent, _, before, after⟩ :=
    Run.foldl_turn (setup.propagateFile_evolves graph (HandlePlan.compute graph run.seeds)) distinct member
      (planned graph run)
  have reached : setup.reaching graph run file =
      earlier.foldl (setup.propagateFile graph (HandlePlan.compute graph run.seeds)) (planned graph run) := by
    rw [reaching, split, List.takeWhile_append_of_pos, List.takeWhile_cons_of_neg (by simp), List.append_nil]
    intro other listed
    rw [bne_iff_ne]
    rintro rfl
    exact absent listed
  rw [← reached] at before after
  refine ⟨before, after, ?_⟩
  have whole : (setup.propagate graph run).2 = later.foldl
      (setup.propagateFile graph (HandlePlan.compute graph run.seeds)) (setup.leaving graph run file) := by
    change run.productionFiles.foldl _ (planned graph run) = _
    rw [split, List.foldl_append, List.foldl_cons, ← reached]
    rfl
  rw [whole]
  exact subset_foldl (setup.propagateFile_findings graph _) later _

def CarriesOut (setup : Setup) (graph : CallGraph) (run : Run) (file : Nat) (site : HandleSite) (made : HandleEdits) :
    Prop :=
  ∃ changed, site.source.apply made.edits = .ok changed ∧
    (setup.propagate graph run).2.program.source? file = some changed

/-- A batch is refused, which is on record. It has code that waited, without which it would fit. -/
structure Refuses (setup : Setup) (graph : CallGraph) (run : Run) (file : Nat) (site : HandleSite) (made : HandleEdits)
    (cause : EditError) : Prop where
  refused : site.source.apply made.edits = .error cause
  result : (setup.propagate graph run).2.program.source? file = some site.source
  noted : .inFile .editConflict site.source.path (FileFailure.edit site.source.path cause).message ∈
    (setup.propagate graph run).2.findings
  waited : site.fileEdits true = .ok made
  spare : ∃ spare changed, site.fileEdits false = .ok spare ∧ site.source.apply spare.edits = .ok changed

theorem exists_takesUp (setup : Setup) (graph : CallGraph) (here : run.program.files[file]? = some entry)
    (production : entry.source.isTest = false) :
    ∃ site made, setup.TakesUp graph run file site made ∧ site.source = entry.source := by
  have made : ∀ site : HandleSite, ∃ made, site.fileEdits (site.fileEdits true).isOk = .ok made := by
    intro site
    cases done : site.fileEdits true with
    | ok made => exact ⟨made, done⟩
    | error _ => exact site.exists_fileEdits_false
  obtain ⟨made, done⟩ := made (.taking setup graph _ (setup.reaching graph run file) entry)
  exact ⟨_, made, ⟨⟨entry, here, production, rfl⟩, done⟩, rfl⟩

theorem TakesUp.parsed (takes : setup.TakesUp graph run file site made) (parsed : run.program.IsParsed) :
    site.source.IsParsed := by
  obtain ⟨⟨entry, here, _, rfl⟩, _⟩ := takes
  exact parsed entry (List.mem_of_getElem? here)

theorem TakesUp.fulfils (takes : setup.TakesUp graph run file site made) (parsed : run.program.IsParsed) :
    site.Fulfils made := by
  have formed := takes.parsed parsed
  obtain ⟨⟨entry, _, _, rfl⟩, done⟩ := takes
  exact HandleSite.fileEdits_fulfils formed rfl done

theorem TakesUp.exists_batch (takes : setup.TakesUp graph run file site made) :
    ∃ begun : Run, begun.program.source? file = some site.source ∧
      (setup.propagate graph run).2.program.source? file =
        (begun.applyBatch file made.edits made.imports).2.program.source? file ∧
      (begun.applyBatch file made.edits made.imports).2.findings ⊆ (setup.propagate graph run).2.findings := by
  obtain ⟨⟨entry, here, production, rfl⟩, done⟩ := takes
  have member : file ∈ run.productionFiles :=
    (Run.mem_filesWhere (Program.source?_of_getElem? here)).2 (by simp [production])
  obtain ⟨before, after, findings⟩ := setup.propagate_turn_of_mem graph member
  have here' := before.spares_file.trans here
  obtain ⟨begun, made', alike, _, done', result⟩ := propagateFile_step setup graph
    (HandlePlan.compute graph run.seeds) here'
  cases Except.ok.inj (done.symm.trans done')
  refine ⟨begun, ?_, ?_, ?_⟩
  · rw [alike.program]
    exact Program.source?_of_getElem? here'
  · rw [after.spares, leaving, result]
  · rw [← result]
    exact findings

theorem TakesUp.outcome (takes : setup.TakesUp graph run file site made) (parsed : run.program.IsParsed) :
    setup.CarriesOut graph run file site made ∨ ∃ cause, setup.Refuses graph run file site made cause := by
  obtain ⟨begun, found, final, findings⟩ := takes.exists_batch
  rw [begun.applyBatch_source? found, Source.applied] at final
  cases applied : site.source.apply made.edits with
  | ok changed =>
      rw [applied] at final
      exact .inl ⟨changed, applied, final⟩
  | error cause =>
      rw [applied] at final
      obtain ⟨waited, spare⟩ := HandleSite.waited_of_refused (takes.parsed parsed) takes.done applied
      refine .inr ⟨cause, applied, final, findings ?_, waited, spare⟩
      rw [Run.applyBatch_of_error found applied]
      exact List.mem_append_right _ List.mem_cons_self

/-- What the second pass does about the functions that it widens. -/
structure WidensTogether (setup : Setup) (graph : CallGraph) (run : Run) : Prop where
  /-- The batch of a file has every parameter and every argument, and it is carried out as a whole or refused. -/
  batches : ∀ file entry, run.program.files[file]? = some entry → entry.source.isTest = false →
    ∃ site made, setup.TakesUp graph run file site made ∧ site.source = entry.source ∧ site.Fulfils made ∧
      (setup.CarriesOut graph run file site made ∨ ∃ cause, setup.Refuses graph run file site made cause)
  /-- If some call of a function gets an argument, every declaration of the function gets the parameter, unless
  one of them has no body or is in a file whose batch is refused. -/
  together : ∀ key,
    (∀ file site made, setup.TakesUp graph run file site made → ∀ decl ∈ FunctionDecl.all site.source,
      decl.key site.package = key → decl.body ≠ none ∧ ∀ cause, ¬ setup.Refuses graph run file site made cause) →
    (∃ file site made owner call callee, setup.TakesUp graph run file site made ∧
      site.view.Names owner call callee ∧ callee.key = key ∧ HandleSite.HandsTo made call callee) →
    ∀ file site made, setup.TakesUp graph run file site made → ∀ decl ∈ FunctionDecl.all site.source,
      decl.key site.package = key → site.Widens made decl ∧ setup.CarriesOut graph run file site made

theorem TakesUp.follows_plan (takes : setup.TakesUp graph run file site made) :
    site.graph = graph ∧ site.plan = HandlePlan.compute graph run.seeds := by
  obtain ⟨⟨entry, _, _, rfl⟩, _⟩ := takes
  exact ⟨rfl, rfl⟩

theorem propagate_widensTogether (setup : Setup) (graph : CallGraph) (parsed : run.program.IsParsed) :
    setup.WidensTogether graph run where
  batches := by
    intro file entry here production
    obtain ⟨site, made, takes, same⟩ := setup.exists_takesUp graph here production
    exact ⟨site, made, takes, same, takes.fulfils parsed, takes.outcome parsed⟩
  together := by
    rintro key sound ⟨_, _, _, owner, call, callee, taken, names, rfl, _⟩ file site made takes decl member same
    obtain ⟨here, named⟩ := names.named
    obtain ⟨id, known, widens⟩ := exists_of_widenedCallee? named
    obtain ⟨has, accepted⟩ := sound file site made takes decl member same
    obtain ⟨drawn, plan⟩ := taken.follows_plan
    obtain ⟨drawn', plan'⟩ := takes.follows_plan
    refine ⟨(takes.fulfils parsed).parameters decl member id ?_ ?_ has, ?_⟩
    · rw [same, drawn', ← drawn]
      exact known
    · rw [plan', ← plan]
      exact widens
    · exact (takes.outcome parsed).resolve_right fun ⟨cause, refuses⟩ => accepted cause refuses

def tracedCalls : Template where
  name := "lib"
  triggers := ["lib"]
  requiredModule := "example.com/module"
  package := "lib"
  function := "Do"
  scope := .anyFunction
  needsHandle := true
  placement := some .replace
  text := "lib.Trace(\x7bhandle\x7d, func() \x7b \x7bstmt\x7d \x7d)"
  fresh := none
  bind := none
  marker := none
  imports := []

/-- In the second file a call that gets an argument stands in a statement that is put into another call. -/
def waitingCode : Program where
  modulePath := none
  packages := [⟨".", "main", ".", false⟩]
  files := [
    ⟨Source.load "app.go" ("package main\n\nfunc main() \x7b\n\trun(nil)\n\x7d\n\n" ++
      "func run(nrTxn *newrelic.Transaction) \x7b\n\tfetch()\n\x7d\n"), 0⟩,
    ⟨Source.load "fetch.go" ("package main\n\nimport \"lib\"\n\nfunc fetch() \x7b\n\tlib.Do(count())\n\x7d\n\n" ++
      "func count() int \x7b\n\tlib.Do(1)\n\treturn 1\n\x7d\n"), 0⟩]

theorem waitingCode_isParsed : waitingCode.IsParsed := by
  intro file member
  rcases List.mem_cons.1 member with rfl | member
  · exact Source.isParsed_load _ _
  · rw [List.mem_singleton.1 member]
    exact Source.isParsed_load _ _

/-- The program after the first pass. -/
def waitingSetup : Setup := .ofProgram waitingCode [tracedCalls.toIntegration] {}

def waitingRun : Run := waitingSetup.inject (.ofProgram waitingCode waitingSetup)

def waitingGraph : CallGraph := .build waitingCode "nrTxn"

theorem waitingRun_isParsed : waitingRun.program.IsParsed :=
  (waitingSetup.inject_evolves (Run.ofProgram waitingCode waitingSetup)).isParsed waitingCode_isParsed

theorem propagate_widensTogether_waitingCode :
    waitingRun.program.IsParsed ∧ waitingSetup.WidensTogether waitingGraph waitingRun :=
  ⟨waitingRun_isParsed, waitingSetup.propagate_widensTogether waitingGraph waitingRun_isParsed⟩

/-- Something about the batch that the second pass makes for a file. -/
def waitingBatch (file : Nat) (test : Source → List Edit → Bool) : Bool :=
  waitingRun.program.files[file]?.any fun entry =>
    ((HandleSite.taking waitingSetup waitingGraph (HandlePlan.compute waitingGraph waitingRun.seeds)
      (waitingSetup.reaching waitingGraph waitingRun file) entry).fileEdits true).toOption.any fun made =>
        !entry.source.isTest && test entry.source made.edits

theorem exists_of_waitingBatch {test : Source → List Edit → Bool} (holds : waitingBatch file test = true) :
    ∃ site made, waitingSetup.TakesUp waitingGraph waitingRun file site made ∧ test site.source made.edits = true := by
  obtain ⟨entry, here, holds⟩ := (Option.any_eq_true _ _).1 holds
  obtain ⟨made, done, holds⟩ := exists_of_any_toOption holds
  rw [Bool.and_eq_true, Bool.not_eq_true'] at holds
  refine ⟨_, made, ⟨⟨entry, here, holds.1, rfl⟩, ?_⟩, holds.2⟩
  rw [done]
  exact done

/-- The call in the first file gets its argument. The batch of the second file is refused, so that the
function which is called stays without the parameter. -/
theorem waitingCode_leavesDeclaration :
    let propagated := (waitingSetup.propagate waitingGraph waitingRun).2.program
    (propagated.source? 0).map (·.text) = some ("package main\n\nfunc main() \x7b\n\trun(nil)\n\x7d\n\n" ++
        "func run(nrTxn *newrelic.Transaction) \x7b\n\tfetch(nrTxn)\n\x7d\n") ∧
      (propagated.source? 1).map (·.text) = some ("package main\n\nimport \"lib\"\n\n" ++
        "func fetch() \x7b\n\tlib.Do(count())\n\x7d\n\nfunc count() int \x7b\n\tlib.Do(1)\n\treturn 1\n\x7d\n") := by
  intro propagated
  -- One evaluation for both files: the kernel keeps what they share.
  have both : (waitingBatch 0 (fun source edits => (source.apply edits).toOption.any fun changed => changed.text ==
        "package main\n\nfunc main() \x7b\n\trun(nil)\n\x7d\n\n" ++
          "func run(nrTxn *newrelic.Transaction) \x7b\n\tfetch(nrTxn)\n\x7d\n") &&
      waitingBatch 1 (fun source edits => source.text ==
        "package main\n\nimport \"lib\"\n\n" ++
          "func fetch() \x7b\n\tlib.Do(count())\n\x7d\n\nfunc count() int \x7b\n\tlib.Do(1)\n\treturn 1\n\x7d\n" &&
        edits.any fun first => edits.any fun second =>
          decide (first ≠ second ∧ second.start < first.stop ∧ first.start < second.stop))) = true := by decide +kernel
  obtain ⟨fits, clash⟩ := Bool.and_eq_true_iff.1 both
  constructor
  · obtain ⟨site, made, takes, fits⟩ := exists_of_waitingBatch fits
    obtain ⟨changed, applied, text⟩ := exists_of_any_toOption fits
    rcases takes.outcome waitingRun_isParsed with ⟨changed', applied', final⟩ | ⟨cause, refuses⟩
    · cases applied.symm.trans applied'
      rw [final, Option.map_some, eq_of_beq text]
    · cases applied.symm.trans refuses.refused
  · obtain ⟨site, made, takes, clash⟩ := exists_of_waitingBatch clash
    obtain ⟨text, clash⟩ := Bool.and_eq_true_iff.1 clash
    obtain ⟨first, member, clash⟩ := List.any_eq_true.1 clash
    obtain ⟨second, listed, clash⟩ := List.any_eq_true.1 clash
    obtain ⟨differ, before, after⟩ := of_decide_eq_true clash
    rcases takes.outcome waitingRun_isParsed with ⟨changed, applied, _⟩ | ⟨cause, refuses⟩
    · have apart := Edit.apart_of_perform (Source.perform_of_apply applied) member listed differ
      unfold Edit.Apart at apart
      omega
    · rw [refuses.result, Option.map_some, eq_of_beq text]

end Setup
end TraceWeave
