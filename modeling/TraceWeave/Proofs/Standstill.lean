import TraceWeave.Proofs.HandleRest
import TraceWeave.Proofs.History
import TraceWeave.Proofs.InjectRest

/-!
When a run changes nothing. Every stage goes from file to file, and a batch that is carried out marks
its file, since it adds something to see. So files stay clean exactly if every stage finds nothing left
to do wherever it looks, and imports are added for no other reason.
-/
namespace TraceWeave

open Go (Node Place)

namespace Source

/-- Edits that do not fit together. The file stays as it is. -/
def Refuses (source : Source) (edits : List Edit) : Prop := ∃ error, source.apply edits = .error error

variable {source changed : Source} {edits : List Edit}

/-- Edits that add something to see mark the file. -/
theorem apply_dirty (gains : ∀ edit ∈ edits, Edit.Gains source.text edit) (some : edits ≠ [])
    (applied : source.apply edits = .ok changed) : changed.dirty = true := by
  unfold apply at applied
  rw [if_neg (by simpa using some)] at applied
  split at applied
  · cases applied
  · rename_i text performed
    rw [if_neg (Edit.perform_ne_of_gains gains some performed)] at applied
    cases applied
    rfl

end Source

/-- A marked file stays marked. -/
theorem Program.Evolves.exists_dirty {touched : Nat → Prop} {before after : Program} {file : Nat} {source : Source}
    (evolves : Program.Evolves touched before after) (found : before.source? file = some source)
    (dirty : source.dirty = true) : ∃ changed, after.source? file = some changed ∧ changed.dirty = true := by
  rcases evolves.source? file with ⟨missing, _⟩ | ⟨source', changed, found', result, kept, _⟩
  · cases found.symm.trans missing
  · cases found.symm.trans found'
    exact ⟨changed, result, kept.dirty dirty⟩

namespace Run

/-- Some file is marked. -/
def Stirred (run : Run) : Prop := ∃ file source, run.program.source? file = some source ∧ source.dirty = true

variable {run run' : Run} {file : Nat} {source : Source} {edits : List Edit}

theorem Stirred.keep {touched : Nat → Prop} (stirred : run.Stirred)
    (evolves : Program.Evolves touched run.program run'.program) : run'.Stirred := by
  obtain ⟨file, source, found, dirty⟩ := stirred
  exact ⟨file, evolves.exists_dirty found dirty⟩

/-- A step that happens exactly if something is left to do. -/
structure Stands (idle : Prop) (still : Run → Prop) (after : Run) : Prop where
  rests : idle → still after
  moves : ¬ idle → after.Stirred

theorem Stands.congr {idle idle' : Prop} {still : Run → Prop} (stands : Stands idle still run) (same : idle ↔ idle') :
    Stands idle' still run :=
  ⟨fun rest => stands.rests (same.2 rest), fun busy => stands.moves fun contrary => busy (same.1 contrary)⟩

/-- One batch. -/
theorem applyBatch_stands (run : Run) (found : run.program.source? file = some source)
    (gains : ∀ edit ∈ edits, Edit.Gains source.text edit) (imports : List String) :
    Stands (edits = [] ∨ source.Refuses edits) run.Alike (run.applyBatch file edits imports).2 := by
  unfold applyBatch
  by_cases nothing : edits = []
  · subst nothing
    exact ⟨fun _ => ⟨rfl, rfl, rfl, rfl⟩, fun contrary => absurd (.inl rfl) contrary⟩
  · rw [if_neg (by simpa using nothing), found]
    dsimp only
    cases applied : source.apply edits with
    | error error =>
        exact ⟨fun _ => Alike.recordFailure run source.path (.edit source.path error), fun contrary => absurd (.inr ⟨error, applied⟩) contrary⟩
    | ok changed =>
        refine ⟨?_, fun _ => ⟨file, changed, ?_, Source.apply_dirty gains nothing applied⟩⟩
        · rintro (empty | ⟨error, refused⟩)
          · exact absurd empty nothing
          · cases applied.symm.trans refused
        · obtain ⟨entry, here, _⟩ := Option.map_eq_some_iff.1 found
          change (run.program.setSource file changed).source? file = some changed
          simp [Program.source?, Program.setSource, here]

/-- A stage that goes through files. -/
theorem foldl_stands {step : Run → Nat → Run} {files : List Nat} {idle : Nat → Prop} {still : Run → Prop}
    (evolves : ∀ run file, Program.Evolves (· = file) run.program (step run file).program)
    (each : ∀ file ∈ files, ∀ run, still run → Stands (idle file) still (step run file)) (starts : still run) :
    Stands (∀ file ∈ files, idle file) still (files.foldl step run) := by
  induction files generalizing run with
  | nil => exact ⟨fun _ => starts, fun contrary => absurd (by simp) contrary⟩
  | cons file files ih =>
      obtain ⟨here, each⟩ := List.forall_mem_cons.1 each
      have first := here run starts
      rw [List.foldl_cons]
      by_cases idle' : idle file
      · refine (ih each (first.rests idle')).congr ?_
        rw [List.forall_mem_cons]
        exact ⟨fun rest => ⟨idle', rest⟩, And.right⟩
      · refine ⟨fun all => absurd (all file List.mem_cons_self) idle', fun _ => ?_⟩
        exact (first.moves idle').keep (foldl_evolves evolves files _)

/-- Stages one after the other. -/
theorem Stands.then {idle idle' : Prop} {still still' : Run → Prop} {touched : Nat → Prop}
    (first : Stands idle still run) (second : still run → Stands idle' still' run')
    (evolves : Program.Evolves touched run.program run'.program) : Stands (idle ∧ idle') still' run' := by
  refine ⟨fun both => (second (first.rests both.1)).rests both.2, fun busy => ?_⟩
  by_cases rest : idle
  · exact (second (first.rests rest)).moves fun contrary => busy ⟨rest, contrary⟩
  · exact (first.moves rest).keep evolves

end Run

/-! What is left to do at the start of `main`. -/

/-- The `main` of a file refers to the agent, and nothing in it makes one. -/
def LacksAgent (settings : Settings) (source : Source) : Prop :=
  ∃ decl body, (FunctionDecl.all source).find? (fun decl => decl.name == "main" && decl.receiverType.isNone) = some decl ∧
    decl.body = some body ∧ needsAgent source.text settings.agent body.node = true

theorem bootstrapEdits_nil_iff {settings : Settings} {imports : Imports} {source : Source} {edits : List Edit}
    (done : bootstrapEdits settings imports source = .ok edits) :
    (edits = [] ↔ ¬ LacksAgent settings source) ∧ ∀ edit ∈ edits, Edit.Gains source.text edit := by
  unfold bootstrapEdits at done
  split at done
  · rename_i missing
    cases done
    refine ⟨iff_of_true rfl ?_, by simp⟩
    rintro ⟨decl, body, found, _⟩
    cases missing.symm.trans found
  · rename_i decl found
    split at done
    · rename_i missing
      cases done
      refine ⟨iff_of_true rfl ?_, by simp⟩
      rintro ⟨decl', body, found', has, _⟩
      cases found.symm.trans found'
      cases missing.symm.trans has
    · rename_i body has
      split at done
      · rename_i needs
        split at done
        · cases done
        · rename_i failure supply _
          cases done
          refine ⟨iff_of_false (List.cons_ne_nil _ _) fun lacks => lacks ⟨decl, body, found, has, needs⟩, ?_⟩
          rw [List.forall_mem_singleton]
          refine Edit.gains_addAtStart ?_ _
          exact Text.Shows.after (by decide) _
      · rename_i fine
        cases done
        refine ⟨iff_of_true rfl ?_, by simp⟩
        rintro ⟨decl', body', found', has', needs⟩
        cases found.symm.trans found'
        cases has.symm.trans has'
        exact fine needs

/-! The stages. -/

namespace Setup

variable {setup : Setup} {graph : CallGraph} {plan : HandlePlan} {program : Program} {run : Run} {file : Nat}
  {entry : ProgramFile}

/-- The first pass over a file finds nothing to do. -/
def InjectRests (setup : Setup) (program : Program) (file : Nat) (entry : ProgramFile) : Prop :=
  ∀ package ∈ program.packageOf? file, ∀ plan, setup.planInjections program file = .ok plan →
    setup.Covered program entry package.name ∨ entry.source.Refuses plan.edits

/-- The program is as it was, and no code was added that needs an import. -/
def Still (program : Program) (run : Run) : Prop := run.program = program ∧ run.imports = []

theorem Still.alike {run' : Run} (still : Still program run) (alike : run.Alike run') : Still program run' :=
  ⟨alike.program.trans still.1, alike.imports.trans still.2⟩

theorem injectRests_iff (builtIn : setup.catalog = Catalog.builtIn) (here : program.files[file]? = some entry)
    {plan : FilePlan} (planned : setup.planInjections program file = .ok plan) :
    (setup.InjectRests program file entry ↔ plan.edits = [] ∨ entry.source.Refuses plan.edits) ∧
      ∀ edit ∈ plan.edits, Edit.Gains entry.source.text edit := by
  cases known : program.packageOf? file with
  | none =>
      have nothing : plan.edits = [] := by
        unfold planInjections at planned
        rw [here, known] at planned
        cases planned
        rfl
      refine ⟨iff_of_true ?_ (.inl nothing), by simp [nothing]⟩
      intro package known'
      rw [known] at known'
      cases known'
  | some package =>
      obtain ⟨nothing, gains⟩ := planInjections_nil_iff builtIn here known planned
      refine ⟨?_, gains⟩
      rw [nothing]
      constructor
      · intro rests
        exact rests package known plan planned
      · intro rests package' known' plan' planned'
        cases known.symm.trans known'
        cases planned.symm.trans planned'
        exact rests

theorem injectFile_stands (builtIn : setup.catalog = Catalog.builtIn) (here : program.files[file]? = some entry)
    (still : Still program run) :
    Run.Stands (setup.InjectRests program file entry) (Still program) (setup.injectFile run file) := by
  unfold injectFile
  rw [still.1, Program.source?_of_getElem? here]
  dsimp only
  cases planned : setup.planInjections program file with
  | error collision =>
      refine ⟨fun _ => still.alike (.recordFailure _ _ _), fun busy => absurd ?_ busy⟩
      intro package _ plan planned'
      cases planned.symm.trans planned'
  | ok plan =>
      obtain ⟨same, gains⟩ := injectRests_iff builtIn here planned
      have found : (run.record plan.notes).program.source? file = some entry.source :=
        (congrArg (·.source? file) still.1).trans (Program.source?_of_getElem? here)
      have batch := Run.applyBatch_stands (run.record plan.notes) found gains plan.imports
      dsimp only
      generalize (run.record plan.notes).applyBatch file plan.edits plan.imports = after at batch
      -- Seeds that are added matter for neither the program nor the imports.
      have rests : Run.Stands (setup.InjectRests program file entry) (Still program) after.2 :=
        Run.Stands.congr ⟨fun idle => still.alike ((Run.Alike.record _ _).trans (batch.rests idle)), batch.moves⟩ same.symm
      split
      · exact ⟨rests.rests, rests.moves⟩
      · exact rests

/-- The second pass over a file finds nothing to do. -/
def HandleRests (site : HandleSite) : Prop :=
  ∀ made, site.fileEdits (site.fileEdits true).isOk = .ok made →
    site.FileSettled (site.fileEdits true).isOk ∨ site.source.Refuses made.edits

theorem propagateFile_stands (builtIn : setup.catalog = Catalog.builtIn) (parsed : entry.source.IsParsed)
    (shows : Text.Shows setup.settings.handle) (here : run.program.files[file]? = some entry)
    (kept : (HandleSite.taking setup graph plan run entry).Kept) :
    Run.Stands (HandleRests (HandleSite.taking setup graph plan run entry)) run.Alike
      (setup.propagateFile graph plan run file) := by
  obtain ⟨begun, made, alike, _, done, result⟩ := propagateFile_step setup graph plan here
  generalize taken : HandleSite.taking setup graph plan run entry = site at done kept ⊢
  subst taken
  have found : begun.program.source? file = some entry.source := by
    rw [alike.program]
    exact Program.source?_of_getElem? here
  have gains : ∀ edit ∈ made.edits, Edit.Gains entry.source.text edit := fun edit member =>
    (HandleSite.fileEdits_accounted parsed builtIn kept done edit member).gains shows
  have batch := begun.applyBatch_stands found gains made.imports
  have nothing := HandleSite.fileEdits_nil_iff rfl parsed builtIn done
  rw [result]
  refine Run.Stands.congr ⟨fun rests => alike.trans (batch.rests rests), batch.moves⟩ ?_
  rw [nothing]
  constructor
  · intro rests made' done'
    cases done.symm.trans done'
    exact rests
  · intro rests
    exact rests made done

/-- No call in a test file names a function that took the handle. -/
def TestRests (view : CallView) : Prop :=
  (∀ owner call callee, ¬ view.Names owner call callee) ∨
    view.source.Refuses (testCallEdits view.graph view.widened view.program view.file)

theorem resolveTestFile_stands (parsed : entry.source.IsParsed) (here : run.program.files[file]? = some entry)
    (agree : ∀ id < graph.size, run.widened.contains id = plan.widens id) :
    Run.Stands (TestRests ⟨graph, plan.widens, run.program, entry⟩) run.Alike (resolveTestFile graph run file) := by
  have found := Program.source?_of_getElem? here
  have gains := testCallEdits_gains (show (CallView.mk graph plan.widens run.program entry).source.IsParsed from parsed)
  have nothing := testCallEdits_nil_iff (show (CallView.mk graph plan.widens run.program entry).source.IsParsed from parsed)
  unfold resolveTestFile
  rw [here]
  dsimp only
  rw [testCallEdits_congr agree]
  refine (run.applyBatch_stands found gains []).congr ?_
  rw [TestRests, ← nothing]
  rfl

/-- No agent is missing in a file. -/
def AgentRests (setup : Setup) (program : Program) (source : Source) : Prop :=
  ∀ edits, bootstrapEdits setup.settings (program.importsOf source) source = .ok edits →
    ¬ LacksAgent setup.settings source ∨ source.Refuses edits

theorem bootstrapFile_stands (here : run.program.files[file]? = some entry) :
    Run.Stands (setup.AgentRests run.program entry.source) run.Alike (setup.bootstrapFile run file) := by
  have found := Program.source?_of_getElem? here
  unfold bootstrapFile
  rw [found]
  dsimp only
  cases done : bootstrapEdits setup.settings (run.program.importsOf entry.source) entry.source with
  | error collision =>
      refine ⟨fun _ => .recordFailure _ _ _, fun busy => absurd ?_ busy⟩
      intro edits done'
      cases done.symm.trans done'
  | ok edits =>
      obtain ⟨nothing, gains⟩ := bootstrapEdits_nil_iff done
      refine (run.applyBatch_stands found gains _).congr ?_
      rw [nothing]
      constructor
      · intro rests edits' done'
        cases done.symm.trans done'
        exact rests
      · intro rests
        exact rests edits done

theorem bootstrapFile_evolves (setup : Setup) (run : Run) (file : Nat) :
    Program.Evolves (· = file) run.program (setup.bootstrapFile run file).program := by
  unfold bootstrapFile
  split
  · exact .refl _
  · split
    · exact .refl _
    · exact run.applyBatch_evolves file _ _

end Setup

/-- Without new code there are no imports to add. -/
theorem Run.addImports_of_nil {run : Run} (nothing : run.imports = []) : run.addImports = run :=
  foldl_idle fun _ _ => addImportsTo_of_none (by simp [nothing])

/-! Whole runs. -/

namespace Run

variable {run : Run} {program : Program} {file : Nat}

theorem mem_filesWhere_iff {test : Source → Bool} :
    file ∈ run.filesWhere test ↔ ∃ entry, run.program.files[file]? = some entry ∧ test entry.source = true := by
  constructor
  · intro member
    obtain ⟨source, found, passes⟩ := (Option.any_eq_true _ _).1 (List.mem_filter.1 member).2
    obtain ⟨entry, here, rfl⟩ := Option.map_eq_some_iff.1 found
    exact ⟨entry, here, passes⟩
  · rintro ⟨entry, here, passes⟩
    exact (mem_filesWhere (Program.source?_of_getElem? here)).2 passes

/-- A stage that takes up some files. -/
theorem stage_stands {step : Run → Nat → Run} {files : List Nat} {chosen rests : Nat → ProgramFile → Prop}
    {still : Run → Prop}
    (listed : ∀ file, file ∈ files ↔ ∃ entry, program.files[file]? = some entry ∧ chosen file entry)
    (evolves : ∀ run file, Program.Evolves (· = file) run.program (step run file).program)
    (each : ∀ file entry, program.files[file]? = some entry → chosen file entry → ∀ run, still run →
      Stands (rests file entry) still (step run file)) (starts : still run) :
    Stands (∀ file entry, program.files[file]? = some entry → chosen file entry → rests file entry) still
      (files.foldl step run) := by
  have walked : Stands (∀ file ∈ files, ∀ entry, program.files[file]? = some entry → rests file entry) still
      (files.foldl step run) := by
    refine foldl_stands evolves (fun file member run same => ?_) starts
    obtain ⟨entry, here, picked⟩ := (listed file).1 member
    refine (each file entry here picked run same).congr ⟨fun rests entry' here' => ?_, fun rests => rests entry here⟩
    cases here.symm.trans here'
    exact rests
  refine walked.congr ⟨fun all file entry here picked => ?_, fun all file member entry here => ?_⟩
  · exact all file ((listed file).2 ⟨entry, here, picked⟩) entry here
  · obtain ⟨entry', here', picked⟩ := (listed file).1 member
    cases here.symm.trans here'
    exact all file entry here picked

end Run

namespace Setup

variable {setup : Setup} {graph : CallGraph} {program : Program} {run : Run}

theorem inject_stands (builtIn : setup.catalog = Catalog.builtIn) (still : Still program run) :
    Run.Stands (∀ (file : Nat) entry, program.files[file]? = some entry → entry.source.isTest = false →
      setup.InjectRests program file entry) (Still program) (setup.inject run) := by
  refine Run.stage_stands (fun file => ?_) (injectFile_evolves setup)
    (fun file entry here _ run same => injectFile_stands builtIn here same) still
  rw [Run.productionFiles, Run.mem_filesWhere_iff, still.1]
  simp only [Bool.not_eq_true']

/-- What the second pass knows about a file while nothing has changed. -/
def siteOf (setup : Setup) (graph : CallGraph) (program : Program) (seeds : List FunctionKey) (entry : ProgramFile) :
    HandleSite :=
  HandleSite.taking setup graph (HandlePlan.compute graph seeds) { Run.ofProgram program setup with seeds } entry

theorem propagate_stands (graph : CallGraph) (builtIn : setup.catalog = Catalog.builtIn)
    (shows : Text.Shows setup.settings.handle) (parsed : program.IsParsed) (distinct : run.seeds.Nodup)
    (still : Still program run) :
    Run.Stands (∀ (file : Nat) entry, program.files[file]? = some entry → entry.source.isTest = false →
      HandleRests (setup.siteOf graph program run.seeds entry)) (Still program) (setup.propagate graph run).2 := by
  unfold propagate
  dsimp only
  generalize compute : HandlePlan.compute graph run.seeds = plan
  let same : Run → Prop := fun run' => Still program run' ∧ run'.seeds = run.seeds
  have stage : Run.Stands (∀ (file : Nat) entry, program.files[file]? = some entry → entry.source.isTest = false →
      HandleRests (setup.siteOf graph program run.seeds entry)) same
      (({ run.record plan.notes with widened := plan.widenedInOrder graph } : Run).productionFiles.foldl
        (setup.propagateFile graph plan) { run.record plan.notes with widened := plan.widenedInOrder graph }) := by
    refine Run.stage_stands (fun file => ?_) (propagateFile_evolves setup graph plan) ?_ ⟨⟨still.1, still.2⟩, rfl⟩
    · rw [Run.productionFiles, Run.mem_filesWhere_iff]
      change (∃ entry, run.program.files[file]? = some entry ∧ _) ↔ _
      rw [still.1]
      simp only [Bool.not_eq_true']
    · rintro file entry here _ middle ⟨still', seeds⟩
      have taken : HandleSite.taking setup graph plan middle entry = setup.siteOf graph program run.seeds entry := by
        rw [siteOf, compute, HandleSite.taking, HandleSite.taking, still'.1, seeds]
        rfl
      rw [← still'.1] at here
      have kept : (HandleSite.taking setup graph plan middle entry).Kept :=
        HandleSite.kept_of_compute distinct compute.symm
      have step := propagateFile_stands builtIn (parsed entry (List.mem_of_getElem? (still'.1 ▸ here))) shows here kept
      rw [taken] at step
      exact ⟨fun rests => ⟨still'.alike (step.rests rests), (step.rests rests).seeds.trans seeds⟩, step.moves⟩
  exact ⟨fun rests => (stage.rests rests).1, stage.moves⟩

theorem resolveTests_stands {plan : HandlePlan} (agree : ∀ id < graph.size, run.widened.contains id = plan.widens id)
    (parsed : program.IsParsed) (still : Still program run) :
    Run.Stands (∀ (file : Nat) entry, program.files[file]? = some entry → entry.source.isTest = true →
      TestRests ⟨graph, plan.widens, program, entry⟩) (Still program) (resolveTests graph run) := by
  rw [resolveTests_eq_foldl]
  let same : Run → Prop := fun run' => Still program run' ∧ run'.widened = run.widened
  have stage : Run.Stands (∀ (file : Nat) entry, program.files[file]? = some entry → entry.source.isTest = true →
      TestRests ⟨graph, plan.widens, program, entry⟩) same (run.testFiles.foldl (resolveTestFile graph) run) := by
    refine Run.stage_stands (fun file => ?_) (resolveTestFile_evolves graph) ?_ ⟨still, rfl⟩
    · rw [Run.testFiles, Run.mem_filesWhere_iff, still.1]
    · rintro file entry here _ middle ⟨still', widened⟩
      have formed := parsed entry (List.mem_of_getElem? here)
      rw [← still'.1] at here
      have step := resolveTestFile_stands formed here (widened ▸ agree)
      rw [still'.1] at step
      exact ⟨fun rests => ⟨still'.alike (step.rests rests), (step.rests rests).widened.trans widened⟩, step.moves⟩
  exact ⟨fun rests => (stage.rests rests).1, stage.moves⟩

theorem mem_mainFiles_iff {file : Nat} : file ∈ mainFiles run ↔ ∃ entry, run.program.files[file]? = some entry ∧
    entry.source.isTest = false ∧ (run.program.packageOf? file).any (·.name == "main") = true := by
  rw [mainFiles, List.mem_filter, Run.productionFiles, Run.mem_filesWhere_iff]
  constructor
  · rintro ⟨⟨entry, here, production⟩, main⟩
    exact ⟨entry, here, Bool.not_eq_true' _ ▸ production, main⟩
  · rintro ⟨entry, here, production, main⟩
    exact ⟨⟨entry, here, by rw [production]; rfl⟩, main⟩

theorem bootstrap_stands (still : Still program run) :
    Run.Stands (setup.settings.bootstrap = true → ∀ (file : Nat) entry, program.files[file]? = some entry →
      (entry.source.isTest = false ∧ (program.packageOf? file).any (·.name == "main") = true) →
        setup.AgentRests program entry.source) (Still program) (setup.bootstrap run) := by
  unfold bootstrap
  by_cases wanted : setup.settings.bootstrap = true
  · rw [if_pos wanted]
    refine Run.Stands.congr ?_ ⟨fun all _ => all, fun all => all wanted⟩
    refine Run.stage_stands (fun file => ?_) (bootstrapFile_evolves setup) ?_ still
    · rw [mem_mainFiles_iff, still.1]
    · rintro file entry here _ middle still'
      rw [← still'.1] at here
      have step : Run.Stands (setup.AgentRests middle.program entry.source) middle.Alike
          (setup.bootstrapFile middle file) := bootstrapFile_stands here
      rw [still'.1] at step
      exact ⟨fun rests => still'.alike (step.rests rests), step.moves⟩
  · rw [if_neg wanted]
    exact ⟨fun _ => still, fun contrary => absurd (fun yes => absurd yes wanted) contrary⟩

/-- Nothing is left to do in a program. Each part holds of a file also if the batch planned for it is
refused, or if there is no name for its code, since the file then stays as it is. -/
structure Settled (setup : Setup) (graph : CallGraph) (program : Program) : Prop where
  /-- Statements have the code that they get in the first pass. -/
  statements : ∀ (file : Nat) entry, program.files[file]? = some entry → entry.source.isTest = false →
    setup.InjectRests program file entry
  /-- Functions take the handle and hand it on, and code that needs it is there. -/
  handles : ∀ (file : Nat) entry, program.files[file]? = some entry → entry.source.isTest = false →
    HandleRests (setup.siteOf graph program (setup.inject (Run.ofProgram program setup)).seeds entry)
  /-- Calls in test files fit. -/
  tests : ∀ (file : Nat) entry, program.files[file]? = some entry → entry.source.isTest = true →
    TestRests ⟨graph, (HandlePlan.compute graph (setup.inject (Run.ofProgram program setup)).seeds).widens, program, entry⟩
  /-- The agent is made wherever it is referred to. -/
  agents : setup.settings.bootstrap = true → ∀ (file : Nat) entry, program.files[file]? = some entry →
    (entry.source.isTest = false ∧ (program.packageOf? file).any (·.name == "main") = true) →
      setup.AgentRests program entry.source

theorem bootstrap_evolves (setup : Setup) (run : Run) :
    Program.Evolves (· ∈ mainFiles run) run.program (setup.bootstrap run).program := by
  unfold bootstrap
  split
  · exact Run.foldl_evolves (bootstrapFile_evolves setup) _ run
  · exact .refl _

theorem addImports_evolves (run : Run) : Program.Evolves (· ∈ List.range run.program.files.length) run.program
    run.addImports.program := Run.foldl_evolves Run.addImportsTo_evolves _ run

theorem addImports_stands (still : Still program run) : Run.Stands True (·.program = program) run.addImports := by
  rw [Run.addImports_of_nil still.2]
  exact ⟨fun _ => still.1, fun contrary => absurd trivial contrary⟩

/-- A run leaves the program as it is, or marks a file. -/
theorem weave_stands (graph : CallGraph) (builtIn : setup.catalog = Catalog.builtIn)
    (shows : Text.Shows setup.settings.handle) (parsed : program.IsParsed) :
    Run.Stands (setup.Settled graph program) (·.program = program)
      (setup.weave graph (Run.ofProgram program setup)) := by
  have start : Still program (Run.ofProgram program setup) := ⟨rfl, rfl⟩
  generalize injected : setup.inject (Run.ofProgram program setup) = first
  generalize propagated : (setup.propagate graph first).2 = second
  have distinct : first.seeds.Nodup := injected ▸ setup.inject_seeds_nodup program setup.detection.notes
  have agree := setup.propagate_widened graph first
  rw [propagated] at agree
  have stage₁ := inject_stands builtIn start
  have stage₂ := stage₁.then (propagate_stands graph builtIn shows parsed (injected ▸ distinct))
    (setup.propagate_evolves graph _)
  rw [injected, propagated] at stage₂
  have stage₃ := stage₂.then (resolveTests_stands agree parsed) (resolveTests_evolves graph second)
  have stage₄ := stage₃.then bootstrap_stands (setup.bootstrap_evolves _)
  have stage₅ := stage₄.then addImports_stands (addImports_evolves _)
  unfold weave finish
  rw [injected, propagated]
  refine stage₅.congr ⟨?_, ?_⟩
  · rintro ⟨⟨⟨⟨statements, handles⟩, tests⟩, agents⟩, _⟩
    exact ⟨statements, injected.symm ▸ handles, injected.symm ▸ tests, agents⟩
  · rintro ⟨statements, handles, tests, agents⟩
    exact ⟨⟨⟨⟨statements, injected ▸ handles⟩, injected ▸ tests⟩, agents⟩, trivial⟩

end Setup

/-! The second pass without a seed. -/

/-- Without a function that needs the handle there is nothing to plan. -/
theorem HandlePlan.compute_nil (graph : CallGraph) : compute graph [] = start graph := by
  unfold compute
  cases graph.size with
  | zero => rfl
  | succ size => rfl

/-- No call names a function that takes the handle where none does. -/
theorem widenedCallee?_idle {graph : CallGraph} {widened : Nat → Bool} {here : Surroundings} {source : String}
    (never : ∀ id, widened id = false) (call : Place) : widenedCallee? graph widened here source call = none := by
  cases found : widenedCallee? graph widened here source call with
  | none => rfl
  | some callee => simp [widenedCallee?, never] at found

theorem fileLevelEdits_idle {graph : CallGraph} {widened : Nat → Bool} (never : ∀ id, widened id = false)
    (here : Surroundings) (source : Source) : fileLevelEdits graph widened here source = [] := by
  unfold fileLevelEdits
  refine List.flatMap_eq_nil_iff.2 fun item _ => List.filterMap_eq_nil_iff.2 fun call _ => ?_
  rw [widenedCallee?_idle never]
  rfl

namespace HandleSite

variable {site : HandleSite}

theorem declEdits_idle (never : ∀ id, site.plan.widens id = false) (seeds : site.seeds = []) (withDeferred : Bool)
    (decl : FunctionDecl) : site.declEdits withDeferred decl = .ok {} := by
  unfold declEdits
  split
  · rename_i id body known found
    have calls : site.callEdits (.ofDecl site.program site.package site.imports decl) (site.firstScope id) body =
        ([], site.firstScope id) := by
      refine callEdits_of_nil (List.filterMap_eq_nil_iff.2 fun call _ => ?_)
      rw [widenedCallee?_idle never, Option.map_none]
    have signature : site.signatureEdits id decl = {} := by
      unfold signatureEdits
      rw [never]
      split
      · rfl
      · rfl
    unfold firstScope at calls
    dsimp only
    rw [calls, seeds, signature]
    simp [HandleScope.launchedInOrder, HandleScope.handlersInOrder, creationEdits]
  · rfl

theorem fileEdits_idle (never : ∀ id, site.plan.widens id = false) (seeds : site.seeds = []) (withDeferred : Bool) :
    site.fileEdits withDeferred = .ok {} := by
  have each : site.declEdits withDeferred = fun _ => pure {} :=
    funext fun decl => declEdits_idle never seeds withDeferred decl
  have empty : ∀ {α : Type}, (FunctionDecl.all site.source).flatMap (fun _ => ([] : List α)) = [] :=
    List.flatMap_eq_nil_iff.2 fun _ _ => rfl
  unfold fileEdits
  rw [each, List.mapM_pure, pure_bind]
  dsimp only
  simp only [fileLevelEdits_idle never, List.flatMap_map, empty, List.append_nil]
  rfl

end HandleSite

namespace Setup

variable {setup : Setup} {run : Run}

theorem propagateFile_idle {graph : CallGraph} {plan : HandlePlan} (never : ∀ id, plan.widens id = false)
    (seeds : run.seeds = []) (file : Nat) : setup.propagateFile graph plan run file = run := by
  unfold propagateFile
  split
  · rfl
  · dsimp only
    rw [HandleSite.fileEdits_idle never seeds]
    simp [Run.applyBatch, Run.record]

theorem propagate_idle (graph : CallGraph) (seeds : run.seeds = []) (widened : run.widened = []) :
    (setup.propagate graph run).2 = run := by
  have never : ∀ id, (HandlePlan.start graph).widens id = false := fun _ => rfl
  have same : { run.record (HandlePlan.start graph).notes with widened := (HandlePlan.start graph).widenedInOrder graph } =
      run := by
    have nothing : (HandlePlan.start graph).widenedInOrder graph = [] := by simp [HandlePlan.widenedInOrder, never]
    rw [nothing, ← widened]
    simp [Run.record, HandlePlan.start]
  unfold propagate
  dsimp only
  rw [seeds, HandlePlan.compute_nil, same]
  exact foldl_idle fun file _ => propagateFile_idle never seeds file

end Setup

end TraceWeave
