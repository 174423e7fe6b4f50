import TraceWeave.Proofs.Agent
import TraceWeave.Proofs.InjectFates

/-!
Programs in which no statement is recognized. The first pass plans nothing, so no function needs the
handle and no call changes. What is left is the agent, which is made wherever `main` refers to it, also if
no new code does; so every file stays as it is, except for those in which that happens.
-/
namespace TraceWeave

open Go (Node Place)

namespace Setup

/-- No statement in a function of a production file is recognized by an active integration that applies
there. -/
def Unmatched (setup : Setup) (program : Program) : Prop :=
  ∀ file ∈ program.files, file.source.isTest = false → ∀ package ∈ program.package? file.package,
    ∀ decl ∈ FunctionDecl.all file.source, ∀ body ∈ decl.body,
      ∀ view ∈ statementViews file.source (program.importsOf file.source) body, ∀ integration ∈ setup.active,
        integration.appliesIn (decl.isMain package.name) = true → integration.accepts view = false

instance (setup : Setup) (program : Program) : Decidable (setup.Unmatched program) :=
  inferInstanceAs (Decidable (∀ file ∈ program.files, _))

variable {setup : Setup} {program : Program} {run : Run} {file : Nat} {entry : ProgramFile}

theorem unmatched_of_idle (idle : setup.detection.active = []) (program : Program) : setup.Unmatched program := by
  have nothing : setup.active = [] := by rw [active, idle, List.filterMap_nil]
  intro _ _ _ _ _ _ _ _ _ _ _ integration listed
  rw [nothing] at listed
  cases listed

/-! The first pass. -/

theorem injectStatement_idle {site : InjectionSite} {view : StatementView}
    (unmatched : ∀ integration ∈ setup.active, integration.appliesIn site.isMain = true → integration.accepts view = false)
    (plan : FilePlan) : setup.injectStatement site (plan, []) view = pure (plan, []) := by
  have missing : setup.integrationFor? site.isMain view = none := by
    refine List.find?_eq_none.2 fun integration listed accepted => ?_
    obtain ⟨applies, accepts⟩ := Bool.and_eq_true_iff.1 accepted
    rw [unmatched integration listed applies] at accepts
    cases accepts
  have carried : plan.addCarried [] = plan := by simp [FilePlan.addCarried]
  unfold injectStatement injectInto
  dsimp only
  rw [missing, List.map_nil, carried]
  rfl

theorem injectDecl_idle {source : Source} {package : Nat} {packageName : String} {imports : Imports}
    {decl : FunctionDecl} (unmatched : ∀ body ∈ decl.body, ∀ view ∈ statementViews source imports body,
      ∀ integration ∈ setup.active, integration.appliesIn (decl.isMain packageName) = true →
        integration.accepts view = false)
    (plan : FilePlan) : setup.injectDecl source package packageName imports plan decl = .ok plan := by
  unfold injectDecl
  split
  · rfl
  · rename_i body found
    have idle : setup.injectBody ⟨source, decl.key package, decl.isMain packageName⟩ imports plan body = pure plan := by
      refine foldlM_idle fun statements listed => ?_
      obtain ⟨places, inside, rfl⟩ := List.mem_map.1 listed
      unfold injectSequence
      dsimp only
      rw [foldlM_idle fun view member => ?_]
      · rfl
      · exact injectStatement_idle (unmatched body found view (List.mem_flatMap.2 ⟨places, inside, member⟩)) plan
    dsimp only
    rw [idle]
    rfl

theorem planInjections_idle (unmatched : setup.Unmatched program) (here : program.files[file]? = some entry)
    (production : entry.source.isTest = false) : setup.planInjections program file = .ok {} := by
  unfold planInjections
  split
  · rename_i entry' package here' known
    cases here.symm.trans here'
    rw [Program.packageOf?, here, Option.bind_some] at known
    exact foldlM_idle fun decl listed => injectDecl_idle
      (unmatched entry (List.mem_of_getElem? here) production package known decl listed) {}
  · rfl

theorem inject_idle (unmatched : setup.Unmatched run.program) : setup.inject run = run := by
  refine foldl_idle fun file member => ?_
  obtain ⟨entry, here, production⟩ := Run.mem_filesWhere_iff.1 member
  rw [Bool.not_eq_true'] at production
  unfold injectFile
  rw [Program.source?_of_getElem? here]
  dsimp only
  rw [planInjections_idle unmatched here production]
  simp [Run.applyBatch, Run.record, Run.addSeeds]

/-- Where no statement is recognized, agents and their imports are all that is made. -/
theorem weave_of_unmatched (unmatched : setup.Unmatched program) (graph : CallGraph) :
    setup.weave graph (Run.ofProgram program setup) = setup.finish (Run.ofProgram program setup) := by
  have injected : setup.inject (Run.ofProgram program setup) = Run.ofProgram program setup := inject_idle unmatched
  unfold weave
  rw [injected, propagate_idle graph rfl rfl]
  rfl

/-! Agents. -/

/-- A file in which an agent is made: the settings want one, `main` is in the file and refers to the agent
without making it, and there is a name for the error. -/
structure MakesAgent (setup : Setup) (program : Program) (file : Nat) (entry : ProgramFile) : Prop where
  wanted : setup.settings.bootstrap = true
  production : entry.source.isTest = false
  main : (program.packageOf? file).any (·.name == "main") = true
  lacks : LacksAgent setup.settings entry.source
  named : ∃ edits, bootstrapEdits setup.settings (program.importsOf entry.source) entry.source = .ok edits

theorem bootstrapFile_grows (setup : Setup) (run : Run) (file : Nat) :
    Grows (· = file) run (setup.bootstrapFile run file) := by
  unfold bootstrapFile
  split
  · exact .refl run
  · split
    · exact ⟨fun _ _ _ => Iff.rfl, List.Subset.refl _, List.subset_append_left _ _⟩
    · exact applyBatch_grows run file _ _

theorem bootstrapFile_dirty (here : run.program.files[file]? = some entry) (parsed : entry.source.IsParsed)
    (lacks : LacksAgent setup.settings entry.source) {edits : List Edit}
    (done : bootstrapEdits setup.settings (run.program.importsOf entry.source) entry.source = .ok edits) :
    ∃ changed, (setup.bootstrapFile run file).program.source? file = some changed ∧ changed.dirty = true := by
  have found := Program.source?_of_getElem? here
  obtain ⟨nothing, gains⟩ := bootstrapEdits_nil_iff done
  obtain ⟨changed, applied⟩ := bootstrapEdits_accepted parsed done
  have busy : edits ≠ [] := fun contrary => nothing.1 contrary lacks
  have result := run.applyBatch_source? found edits [Integration.agentPath, "time"]
  rw [Source.applied, applied] at result
  refine ⟨changed, ?_, Source.apply_dirty gains busy applied⟩
  unfold bootstrapFile
  rw [found]
  dsimp only
  rw [done]
  exact result

/-- The turn of a file when agents are made. -/
theorem bootstrap_turn (wanted : setup.settings.bootstrap = true) (member : file ∈ mainFiles run) :
    ∃ middle : Run, (Program.Evolves (· ≠ file) run.program middle.program ∧ Grows (· ≠ file) run middle) ∧
      Program.Evolves (· ≠ file) (setup.bootstrapFile middle file).program (setup.bootstrap run).program ∧
        Grows (· ≠ file) (setup.bootstrapFile middle file) (setup.bootstrap run) := by
  unfold bootstrap
  rw [if_pos wanted]
  exact exists_turn setup.bootstrapFile_grows setup.bootstrapFile_evolves ((run.filesWhere_nodup _).filter _) member run

theorem MakesAgent.dirty (run : Run) (makes : setup.MakesAgent run.program file entry)
    (here : run.program.files[file]? = some entry) (parsed : entry.source.IsParsed) :
    ∃ changed, (setup.bootstrap run).program.source? file = some changed ∧ changed.dirty = true := by
  have member : file ∈ mainFiles run := mem_mainFiles_iff.2 ⟨entry, here, makes.production, makes.main⟩
  obtain ⟨middle, ⟨before, _⟩, after, _⟩ := bootstrap_turn makes.wanted member
  obtain ⟨edits, done⟩ := makes.named
  rw [← before.importsOf] at done
  obtain ⟨changed, made, dirty⟩ := bootstrapFile_dirty (before.spares_file.trans here) parsed makes.lacks done
  exact ⟨changed, after.spares.trans made, dirty⟩

/-- Where no agent is made, nothing is done and no import is asked for. -/
theorem bootstrap_spares (run : Run) (here : run.program.files[file]? = some entry)
    (none : ¬ setup.MakesAgent run.program file entry) :
    (setup.bootstrap run).program.source? file = run.program.source? file ∧
      ∀ path, (file, path) ∈ (setup.bootstrap run).imports ↔ (file, path) ∈ run.imports := by
  by_cases member : setup.settings.bootstrap = true ∧ file ∈ mainFiles run
  · -- the turn of the file comes, and its `main` has an agent or no name is left
    obtain ⟨wanted, member⟩ := member
    obtain ⟨middle, ⟨before, grown⟩, after, later⟩ := bootstrap_turn wanted member
    have rests : setup.AgentRests middle.program entry.source := by
      intro edits done
      refine .inl fun lacks => none ?_
      obtain ⟨entry', here', production, main⟩ := mem_mainFiles_iff.1 member
      cases here.symm.trans here'
      rw [before.importsOf] at done
      exact ⟨wanted, production, main, lacks, edits, done⟩
    have idle : middle.Alike (setup.bootstrapFile middle file) :=
      (bootstrapFile_stands (before.spares_file.trans here)).rests rests
    refine ⟨?_, fun path => ?_⟩
    · rw [after.spares, idle.program, before.spares]
    · rw [later.imports file path (by simp), idle.imports, grown.imports file path (by simp)]
  · unfold bootstrap
    split
    · rename_i wanted
      have absent : file ∉ mainFiles run := fun contrary => member ⟨wanted, contrary⟩
      exact ⟨(Run.foldl_evolves setup.bootstrapFile_evolves _ run).source?_of_untouched absent,
        fun path => (foldl_grows setup.bootstrapFile_grows _ run).imports file path absent⟩
    · exact ⟨rfl, fun _ => Iff.rfl⟩

/-! Whole runs. -/

/-- Agents are all that a run has made. -/
structure AgentsOnly (setup : Setup) (program : Program) (run : Run) : Prop where
  made : ∀ (file : Nat) entry, program.files[file]? = some entry → setup.MakesAgent program file entry →
    ∃ source, run.program.source? file = some source ∧ source.dirty = true
  others : ∀ (file : Nat) entry, program.files[file]? = some entry → ¬ setup.MakesAgent program file entry →
    run.program.source? file = some entry.source ∧ entry.source.dirty = false
  /-- Without an agent to make, the program is the loaded one, and no module is required. -/
  rests : (∀ (file : Nat) entry, program.files[file]? = some entry → ¬ setup.MakesAgent program file entry) →
    run.program = program ∧ setup.requiredModules run = []

theorem agentsOnly_finish (parsed : program.IsParsed) (clean : ∀ file ∈ program.files, file.source.dirty = false) :
    setup.AgentsOnly program (setup.finish (Run.ofProgram program setup)) := by
  unfold finish
  refine ⟨fun file entry here makes => ?_, fun file entry here none => ?_, fun none => ?_⟩
  · obtain ⟨changed, made, dirty⟩ :=
      MakesAgent.dirty (Run.ofProgram program setup) makes here (parsed entry (List.mem_of_getElem? here))
    exact (addImports_evolves _).exists_dirty made dirty
  · obtain ⟨same, bare⟩ := bootstrap_spares (Run.ofProgram program setup) here none
    have unasked : ∀ path, (file, path) ∉ (setup.bootstrap (Run.ofProgram program setup)).imports :=
      fun path asked => List.not_mem_nil ((bare path).1 asked)
    refine ⟨(Run.addImports_spares unasked).1.trans (same.trans ?_), clean entry (List.mem_of_getElem? here)⟩
    exact Program.source?_of_getElem? here
  · have still : Still program (setup.bootstrap (Run.ofProgram program setup)) := by
      refine (bootstrap_stands ⟨rfl, rfl⟩).rests fun wanted file entry here ⟨production, main⟩ edits done => ?_
      exact .inl fun lacks => none file entry here ⟨wanted, production, main, lacks, edits, done⟩
    rw [Run.addImports_of_nil still.2]
    refine ⟨still.1, ?_⟩
    rw [requiredModules, still.2, List.map_nil, List.filterMap_nil, sortedSet_nil]

/-- The graph does not matter, since no function needs the handle. -/
theorem agentsOnly_of_unmatched {disk : Disk} {root : String} {selection : Selection}
    (loaded : Loader.load disk root selection = .ok program) (unmatched : setup.Unmatched program) (graph : CallGraph) :
    setup.AgentsOnly program (setup.weave graph (Run.ofProgram program setup)) := by
  rw [weave_of_unmatched unmatched]
  refine agentsOnly_finish (Loader.load_isParsed loaded) fun file listed => ?_
  obtain ⟨path, text, _, same⟩ := Loader.load_isRead loaded file listed
  rw [same]
  rfl

/-- Without an active integration no module is required. -/
theorem requiredModules_of_idle (catalog : Catalog) (settings : Settings) (run : Run)
    (idle : (Setup.ofProgram program catalog settings).detection.active = []) :
    (Setup.ofProgram program catalog settings).requiredModules run = [] := by
  have bare : (Setup.ofProgram program catalog settings).detection.modules = [] := by
    have none : catalog.activeFor program.importPaths = [] := idle
    change (if (catalog.activeFor program.importPaths).isEmpty then [] else _) = []
    rw [none]
    rfl
  have nothing : Detection.providing? [] = fun _ => none := rfl
  rw [requiredModules, bare, nothing, List.filterMap_none, sortedSet_nil]

end Setup

/-- What a run does to a loaded program in which no statement is recognized. -/
theorem weave_unmatched {disk : Disk} {root : String} {selection : Selection} {program : Program}
    (loaded : Loader.load disk root selection = .ok program) (catalog : Catalog) (settings : Settings) :
    let setup := Setup.ofProgram program catalog settings
    let woven := setup.weave (CallGraph.build program settings.handle) (Run.ofProgram program setup)
    setup.Unmatched program → setup.AgentsOnly program woven ∧
      (setup.detection.active = [] → setup.requiredModules woven = []) := by
  intro setup woven unmatched
  exact ⟨Setup.agentsOnly_of_unmatched loaded unmatched _, Setup.requiredModules_of_idle catalog settings woven⟩

/-- A `main` that prints a constant of a supported library. -/
def statusPrinter : String :=
  "package main\n\nimport \"net/http\"\n\nfunc main() \x7b\n\tprintln(http.StatusOK)\n\x7d\n"

theorem weave_unmatched_statusPrinter :
    ∃ program, Loader.load (soleDisk statusPrinter) "/" {} = .ok program ∧
      let setup := Setup.ofProgram program Catalog.builtIn {}
      let woven := setup.weave (CallGraph.build program "nrTxn") (Run.ofProgram program setup)
      setup.detection.active = [2, 3] ∧ setup.Unmatched program ∧ setup.AgentsOnly program woven ∧
        (setup.detection.active = [] → setup.requiredModules woven = []) := by
  have holds : (Loader.load (soleDisk statusPrinter) "/" {}).toOption.any (fun program =>
      let setup := Setup.ofProgram program Catalog.builtIn {}
      decide (setup.detection.active = [2, 3]) && decide (setup.Unmatched program)) = true := by
    decide +kernel
  obtain ⟨program, loaded, holds⟩ := exists_of_any_toOption holds
  obtain ⟨active, unmatched⟩ := Bool.and_eq_true_iff.1 holds
  have unmatched := of_decide_eq_true unmatched
  exact ⟨program, loaded, of_decide_eq_true active, unmatched, weave_unmatched loaded Catalog.builtIn {} unmatched⟩

/-- A `main` that prints a variable with the name of the agent. -/
def namesake : String :=
  "package main\n\nvar NewRelicAgent = 1\n\nfunc main() \x7b\n\tprintln(NewRelicAgent)\n\x7d\n"

/-- An agent is made for a name, although no supported library is in the program. -/
theorem namesake_changes :
    ∃ program source, Loader.load (soleDisk namesake) "/" {} = .ok program ∧
      let setup := Setup.ofProgram program Catalog.builtIn {}
      let woven := setup.weave (CallGraph.build program "nrTxn") (Run.ofProgram program setup)
      setup.detection.active = [] ∧ setup.Unmatched program ∧ woven.program.source? 0 = some source ∧
        source.dirty = true := by
  have holds : (Loader.load (soleDisk namesake) "/" {}).toOption.any (fun program =>
      (Catalog.builtIn.activeFor program.importPaths).isEmpty && program.files[0]?.any fun entry =>
        !entry.source.isTest && (program.packageOf? 0).any (·.name == "main") &&
          (bootstrapEdits {} (program.importsOf entry.source) entry.source).toOption.any (!·.isEmpty)) = true := by
    decide +kernel
  obtain ⟨program, loaded, holds⟩ := exists_of_any_toOption holds
  obtain ⟨idle, holds⟩ := Bool.and_eq_true_iff.1 holds
  obtain ⟨entry, here, holds⟩ := (Option.any_eq_true _ _).1 holds
  simp only [Bool.and_eq_true, Bool.not_eq_true'] at holds
  obtain ⟨⟨production, main⟩, holds⟩ := holds
  obtain ⟨edits, done, busy⟩ := exists_of_any_toOption holds
  have lacks : LacksAgent {} entry.source := by
    by_contra contrary
    rw [(bootstrapEdits_nil_iff done).1.2 contrary] at busy
    cases busy
  have makes : (Setup.ofProgram program Catalog.builtIn {}).MakesAgent program 0 entry :=
    ⟨rfl, production, main, lacks, edits, done⟩
  have idle : (Setup.ofProgram program Catalog.builtIn {}).detection.active = [] := List.isEmpty_iff.1 idle
  have unmatched := Setup.unmatched_of_idle idle program
  obtain ⟨source, found, dirty⟩ := (Setup.agentsOnly_of_unmatched loaded unmatched _).made 0 entry here makes
  exact ⟨program, source, loaded, idle, unmatched, found, dirty⟩

end TraceWeave
