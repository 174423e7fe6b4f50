import TraceWeave.Proofs.Evolution
import TraceWeave.Proofs.Seeds

/-!
What becomes of each file in the first pass. Either everything planned for it is done, or nothing is and
a finding names it. Which of the two depends on the file alone.
-/
namespace TraceWeave

/-- The kind of a finding about a file whose edits were dropped. -/
def FileFailure.kind : FileFailure → DiagnosticKind
  | .name _ => .identifierCollision
  | .edit _ _ => .editConflict

namespace Setup

/-- All that is planned for a file can be done. -/
structure Succeeds (setup : Setup) (program : Program) (file : Nat) (source : Source) (plan : FilePlan) (changed : Source) :
    Prop where
  found : program.source? file = some source
  planned : setup.planInjections program file = .ok plan
  applied : source.apply plan.edits = .ok changed

/-- Why nothing can be done for a file: its names have run out, or the edits for it do not fit together. -/
inductive Fails (setup : Setup) (program : Program) (file : Nat) (source : Source) : FileFailure → Prop where
  | name {collision : NameCollision} (found : program.source? file = some source)
      (refused : setup.planInjections program file = .error collision) :
      Fails setup program file source (.name collision)
  | edit {plan : FilePlan} {cause : EditError} (found : program.source? file = some source)
      (planned : setup.planInjections program file = .ok plan) (refused : source.apply plan.edits = .error cause) :
      Fails setup program file source (.edit source.path cause)

/-- Everything that was planned for a file has been done. -/
structure Carried (setup : Setup) (before after : Run) (file : Nat) (source : Source) (plan : FilePlan)
    (changed : Source) : Prop where
  fits : setup.Succeeds before.program file source plan changed
  result : after.program.source? file = some changed
  imports : ∀ path, (file, path) ∈ after.imports ↔
    (file, path) ∈ before.imports ∨ plan.edits ≠ [] ∧ path ∈ plan.imports
  seeds : plan.seeds ⊆ after.seeds

/-- A file is as it was, and a finding tells why. -/
structure Dropped (setup : Setup) (before after : Run) (file : Nat) (source : Source) (failure : FileFailure) :
    Prop where
  fails : setup.Fails before.program file source failure
  result : after.program.source? file = some source
  imports : ∀ path, (file, path) ∈ after.imports ↔ (file, path) ∈ before.imports
  noted : Diagnostic.inFile failure.kind source.path failure.message ∈ after.findings

variable {setup : Setup} {program program' : Program} {file other : Nat} {source changed : Source} {plan : FilePlan}
variable {failure : FileFailure} {run : Run}

theorem succeeds_or_fails (setup : Setup) (found : program.source? file = some source) :
    (∃ plan changed, setup.Succeeds program file source plan changed) ∨ ∃ failure, setup.Fails program file source failure := by
  cases planned : setup.planInjections program file with
  | error collision => exact .inr ⟨_, .name found planned⟩
  | ok plan =>
      cases applied : source.apply plan.edits with
      | ok changed => exact .inl ⟨plan, changed, found, planned, applied⟩
      | error cause => exact .inr ⟨_, .edit found planned applied⟩

theorem Fails.found (fails : setup.Fails program file source failure) : program.source? file = some source := by
  cases fails with
  | name found _ => exact found
  | edit found _ _ => exact found

theorem Succeeds.plan_eq {source' changed' : Source} {plan' : FilePlan} (fits : setup.Succeeds program file source plan changed)
    (fits' : setup.Succeeds program file source' plan' changed') : plan' = plan :=
  Except.ok.inj (fits'.planned.symm.trans fits.planned)

theorem Fails.not_succeeds {source' : Source} (fails : setup.Fails program file source failure) :
    ¬ setup.Succeeds program file source' plan changed := by
  rintro ⟨found', planned', applied⟩
  cases fails with
  | name _ refused => cases refused.symm.trans planned'
  | edit found planned refused =>
      cases found.symm.trans found'
      cases planned.symm.trans planned'
      cases refused.symm.trans applied

/-! What is planned depends on the packages and on the file. -/

theorem planInjections_congr (packages : program'.packages = program.packages)
    (here : program'.files[file]? = program.files[file]?) :
    setup.planInjections program' file = setup.planInjections program file := by
  unfold planInjections Program.packageOf? Program.importsOf Program.declaredName? Program.packageAt? Program.package?
  rw [packages, here]

theorem source?_congr (here : program'.files[file]? = program.files[file]?) :
    program'.source? file = program.source? file := by
  rw [Program.source?, here, Program.source?]

theorem Succeeds.congr (fits : setup.Succeeds program file source plan changed)
    (packages : program'.packages = program.packages) (here : program'.files[file]? = program.files[file]?) :
    setup.Succeeds program' file source plan changed :=
  ⟨(source?_congr here).trans fits.found, (planInjections_congr packages here).trans fits.planned, fits.applied⟩

theorem Fails.congr (fails : setup.Fails program file source failure)
    (packages : program'.packages = program.packages) (here : program'.files[file]? = program.files[file]?) :
    setup.Fails program' file source failure := by
  cases fails with
  | name found refused =>
      exact .name ((source?_congr here).trans found) ((planInjections_congr packages here).trans refused)
  | edit found planned refused =>
      exact .edit ((source?_congr here).trans found) ((planInjections_congr packages here).trans planned) refused

/-! One file. -/

/-- What a run does not lose while other files are edited. -/
structure Grows (touched : Nat → Prop) (before after : Run) : Prop where
  imports : ∀ file path, ¬ touched file → ((file, path) ∈ after.imports ↔ (file, path) ∈ before.imports)
  seeds : before.seeds ⊆ after.seeds
  findings : before.findings ⊆ after.findings

theorem mem_addSeeds {keys : List FunctionKey} {key : FunctionKey} :
    key ∈ (run.addSeeds keys).seeds ↔ key ∈ run.seeds ∨ key ∈ keys := by
  unfold Run.addSeeds
  dsimp only
  generalize run.seeds = seeds
  induction keys generalizing seeds with
  | nil => simp
  | cons first keys ih =>
      rw [List.foldl_cons, ih, FunctionKey.mem_insert, List.mem_cons]
      tauto

theorem injectFile_of_succeeds (fits : setup.Succeeds run.program file source plan changed) :
    (setup.injectFile run file).program.source? file = some changed ∧
      (setup.injectFile run file).imports =
        run.imports ++ (if plan.edits = [] then [] else plan.imports.map fun path => (file, path)) ∧
      (setup.injectFile run file).seeds = (run.addSeeds plan.seeds).seeds ∧
      (setup.injectFile run file).findings = run.findings ++ plan.notes := by
  obtain ⟨found, planned, applied⟩ := fits
  unfold injectFile
  rw [found]
  dsimp only
  rw [planned]
  dsimp only
  by_cases idle : plan.edits = []
  · rw [idle] at applied ⊢
    cases applied
    exact ⟨found, (List.append_nil _).symm, rfl, rfl⟩
  · have noted : (run.record plan.notes).program.source? file = some source := found
    have result := (run.record plan.notes).applyBatch_source? noted plan.edits plan.imports
    rw [Source.applied, applied] at result
    rw [Run.applyBatch_of_ok noted idle applied] at result ⊢
    exact ⟨result, by rw [if_neg idle]; rfl, rfl, rfl⟩

theorem injectFile_of_fails (fails : setup.Fails run.program file source failure) :
    (setup.injectFile run file).program = run.program ∧ (setup.injectFile run file).imports = run.imports ∧
      (setup.injectFile run file).seeds = run.seeds ∧ ∃ notes, (setup.injectFile run file).findings =
        run.findings ++ notes ++ [.inFile failure.kind source.path failure.message] := by
  unfold injectFile
  cases fails with
  | name found refused =>
      rw [found]
      dsimp only
      rw [refused]
      exact ⟨rfl, rfl, rfl, [], by rw [List.append_nil]; rfl⟩
  | @edit plan cause found planned refused =>
      have busy : plan.edits.isEmpty = false := by
        cases edits : plan.edits with
        | nil =>
            rw [edits] at refused
            cases refused
        | cons edit rest => rfl
      have noted : (run.record plan.notes).program.source? file = some source := found
      rw [found]
      dsimp only
      rw [planned]
      dsimp only
      rw [Run.applyBatch_of_error noted refused, busy]
      exact ⟨rfl, rfl, rfl, plan.notes, rfl⟩

theorem Grows.refl {touched : Nat → Prop} (run : Run) : Grows touched run run :=
  ⟨fun _ _ _ => Iff.rfl, List.Subset.refl _, List.Subset.refl _⟩

theorem Grows.mono {touched touched' : Nat → Prop} {before after : Run} (grows : Grows touched before after)
    (more : ∀ file, touched file → touched' file) : Grows touched' before after :=
  ⟨fun file path apart => grows.imports file path fun contrary => apart (more file contrary), grows.seeds,
    grows.findings⟩

theorem Grows.trans {touched touched' : Nat → Prop} {before middle after : Run} (first : Grows touched before middle)
    (second : Grows touched' middle after) : Grows (fun file => touched file ∨ touched' file) before after := by
  refine ⟨fun file path apart => ?_, List.Subset.trans first.seeds second.seeds,
    List.Subset.trans first.findings second.findings⟩
  rw [not_or] at apart
  exact (second.imports file path apart.2).trans (first.imports file path apart.1)

theorem applyBatch_grows (run : Run) (file : Nat) (edits : List Edit) (imports : List String) :
    Grows (· = file) run (run.applyBatch file edits imports).2 := by
  refine ⟨fun other path apart => ?_, ?_, run.applyBatch_findings file edits imports⟩
  · rcases run.applyBatch_imports file edits imports with same | more
    · rw [same]
    · rw [more, List.mem_append, or_iff_left]
      simp [Ne.symm apart]
  · rw [run.applyBatch_seeds]
    exact List.Subset.refl _

theorem injectFile_grows (setup : Setup) (run : Run) (file : Nat) : Grows (· = file) run (setup.injectFile run file) := by
  unfold injectFile
  split
  · exact .refl run
  · split
    · exact ⟨fun _ _ _ => Iff.rfl, List.Subset.refl _, List.subset_append_left _ _⟩
    · rename_i plan _
      have batch := applyBatch_grows (run.record plan.notes) file plan.edits plan.imports
      dsimp only
      generalize (run.record plan.notes).applyBatch file plan.edits plan.imports = after at batch
      have noted : Grows (· = file) run after.2 :=
        ⟨batch.imports, batch.seeds, List.Subset.trans (List.subset_append_left _ _) batch.findings⟩
      split
      · exact ⟨noted.imports, fun key old => mem_addSeeds.2 (.inl (noted.seeds old)), noted.findings⟩
      · exact noted

/-! All files. -/

section

variable {step : Run → Nat → Run} (grows : ∀ run file, Grows (· = file) run (step run file))

include grows

theorem foldl_grows (files : List Nat) (run : Run) : Grows (· ∈ files) run (files.foldl step run) := by
  induction files generalizing run with
  | nil => exact .refl run
  | cons file files ih =>
      refine ((grows run file).trans (ih _)).mono ?_
      rintro other (rfl | later)
      · exact List.mem_cons_self
      · exact List.mem_cons_of_mem _ later

/-- The turn of a file in a stage: it is found as it was at the start, and left alone later. -/
theorem exists_turn (evolves : ∀ run file, Program.Evolves (· = file) run.program (step run file).program)
    {files : List Nat} (distinct : files.Nodup) (member : file ∈ files) (run : Run) :
    ∃ middle : Run, (Program.Evolves (· ≠ file) run.program middle.program ∧ Grows (· ≠ file) run middle) ∧
      Program.Evolves (· ≠ file) (step middle file).program (files.foldl step run).program ∧
        Grows (· ≠ file) (step middle file) (files.foldl step run) := by
  obtain ⟨earlier, later, split, absent, absent', before, after⟩ := Run.foldl_turn evolves distinct member run
  have whole : files.foldl step run = later.foldl step (step (earlier.foldl step run) file) := by
    rw [split, List.foldl_append, List.foldl_cons]
  refine ⟨earlier.foldl step run, ⟨before, (foldl_grows grows earlier run).mono ?_⟩, after, ?_⟩
  · rintro index listed rfl
    exact absent listed
  · rw [whole]
    refine (foldl_grows grows later _).mono ?_
    rintro index listed rfl
    exact absent' listed

end

/-- The turn of a file in the first pass. -/
theorem inject_turn (setup : Setup) (member : file ∈ run.productionFiles) :
    ∃ middle : Run, middle.program.packages = run.program.packages ∧
      middle.program.files[file]? = run.program.files[file]? ∧ Grows (· ≠ file) run middle ∧
      (setup.inject run).program.source? file = (setup.injectFile middle file).program.source? file ∧
      Grows (· ≠ file) (setup.injectFile middle file) (setup.inject run) := by
  obtain ⟨middle, ⟨before, grown⟩, after, later⟩ :=
    exists_turn setup.injectFile_grows setup.injectFile_evolves (run.filesWhere_nodup _) member run
  exact ⟨middle, before.packages, before.spares_file, grown, after.spares, later⟩

theorem Succeeds.carried (fits : setup.Succeeds run.program file source plan changed) (production : source.isTest = false) :
    setup.Carried run (setup.inject run) file source plan changed := by
  obtain ⟨middle, packages, here, before, final, after⟩ :=
    setup.inject_turn ((Run.mem_filesWhere fits.found).2 (by simp [production]))
  obtain ⟨result, imports, seeds, _⟩ := injectFile_of_succeeds (fits.congr packages here)
  refine ⟨fits, final.trans result, fun path => ?_, ?_⟩
  · rw [after.imports file path (by simp), imports, List.mem_append, before.imports file path (by simp)]
    refine or_congr Iff.rfl ?_
    split
    · rename_i idle
      simp [idle]
    · rename_i busy
      simp [busy]
  · intro key listed
    refine after.seeds ?_
    rw [seeds]
    exact mem_addSeeds.2 (.inr listed)

theorem Fails.dropped (fails : setup.Fails run.program file source failure) (production : source.isTest = false) :
    setup.Dropped run (setup.inject run) file source failure := by
  obtain ⟨middle, packages, here, before, final, after⟩ :=
    setup.inject_turn ((Run.mem_filesWhere fails.found).2 (by simp [production]))
  obtain ⟨program, imports, _, notes, findings⟩ := injectFile_of_fails (fails.congr packages here)
  refine ⟨fails, ?_, fun path => ?_, ?_⟩
  · rw [final, program, source?_congr here]
    exact fails.found
  · rw [after.imports file path (by simp), imports, before.imports file path (by simp)]
  · refine after.findings ?_
    rw [findings]
    exact List.mem_append_right _ List.mem_cons_self

theorem mem_injectFile_seeds {key : FunctionKey} : key ∈ (setup.injectFile run file).seeds ↔
    key ∈ run.seeds ∨ ∃ source plan changed, setup.Succeeds run.program file source plan changed ∧ key ∈ plan.seeds := by
  cases found : run.program.source? file with
  | none =>
      unfold injectFile
      rw [found]
      refine (or_iff_left ?_).symm
      rintro ⟨source, plan, changed, fits, _⟩
      cases found.symm.trans fits.found
  | some source =>
      rcases setup.succeeds_or_fails found with ⟨plan, changed, fits⟩ | ⟨failure, fails⟩
      · obtain ⟨_, _, seeds, _⟩ := injectFile_of_succeeds fits
        rw [seeds, mem_addSeeds]
        refine or_congr Iff.rfl ⟨fun listed => ⟨source, plan, changed, fits, listed⟩, ?_⟩
        rintro ⟨source', plan', changed', fits', listed⟩
        exact fits.plan_eq fits' ▸ listed
      · obtain ⟨_, _, seeds, _⟩ := injectFile_of_fails fails
        rw [seeds]
        refine (or_iff_left ?_).symm
        rintro ⟨source, plan, changed, fits, _⟩
        exact fails.not_succeeds fits

/-- Seeds come from the files whose plan fits, as these are at the start. -/
theorem mem_foldl_seeds {files : List Nat} (distinct : files.Nodup) (run : Run) (key : FunctionKey) :
    key ∈ (files.foldl setup.injectFile run).seeds ↔ key ∈ run.seeds ∨
      ∃ file ∈ files, ∃ source plan changed, setup.Succeeds run.program file source plan changed ∧ key ∈ plan.seeds := by
  induction files generalizing run with
  | nil => simp
  | cons file files ih =>
      obtain ⟨absent, distinct⟩ := List.nodup_cons.1 distinct
      have evolves := setup.injectFile_evolves run file
      have later : ∀ other ∈ files, ∀ source plan changed,
          setup.Succeeds (setup.injectFile run file).program other source plan changed ↔
            setup.Succeeds run.program other source plan changed := by
        intro other listed source plan changed
        have spared : (setup.injectFile run file).program.files[other]? = run.program.files[other]? := by
          refine (evolves.mono ?_).spares_file
          rintro index rfl rfl
          exact absent listed
        exact ⟨fun fits => fits.congr evolves.packages.symm spared.symm, fun fits => fits.congr evolves.packages spared⟩
      rw [List.foldl_cons, ih distinct, mem_injectFile_seeds, or_assoc, List.exists_mem_cons_iff]
      refine or_congr Iff.rfl (or_congr Iff.rfl ?_)
      refine exists_congr fun other => and_congr_right fun listed => ?_
      simp only [later other listed]

end Setup

/-- The first pass deals with each production file on its own. All that is planned for the file is done, or
none of it, with a finding that names the file. Which of the two, the new text and the seeds do not depend
on the other files, nor on what becomes of them. -/
theorem inject_byFile (setup : Setup) (run : Run) :
    (∀ file source, run.program.source? file = some source → source.isTest = false →
      ((∃ plan changed, setup.Carried run (setup.inject run) file source plan changed) ∨
        ∃ failure, setup.Dropped run (setup.inject run) file source failure) ∧
      ∀ run' : Run, run'.program.packages = run.program.packages →
        run'.program.files[file]? = run.program.files[file]? →
        (∀ plan changed, setup.Carried run (setup.inject run) file source plan changed ↔
          setup.Carried run' (setup.inject run') file source plan changed) ∧
        ∀ failure, setup.Dropped run (setup.inject run) file source failure ↔
          setup.Dropped run' (setup.inject run') file source failure) ∧
    ∀ key, key ∈ (setup.inject run).seeds ↔ key ∈ run.seeds ∨ ∃ file source plan changed,
      source.isTest = false ∧ setup.Carried run (setup.inject run) file source plan changed ∧ key ∈ plan.seeds := by
  refine ⟨fun file source found production => ⟨?_, fun run' packages here => ⟨fun plan changed => ?_, fun failure => ?_⟩⟩,
    fun key => ?_⟩
  · rcases setup.succeeds_or_fails found with ⟨plan, changed, fits⟩ | ⟨failure, fails⟩
    · exact .inl ⟨plan, changed, fits.carried production⟩
    · exact .inr ⟨failure, fails.dropped production⟩
  · constructor
    · intro carried
      exact (carried.fits.congr packages here).carried production
    · intro carried
      exact (carried.fits.congr packages.symm here.symm).carried production
  · constructor
    · intro dropped
      exact (dropped.fails.congr packages here).dropped production
    · intro dropped
      exact (dropped.fails.congr packages.symm here.symm).dropped production
  · refine (Setup.mem_foldl_seeds (run.filesWhere_nodup _) run key).trans (or_congr Iff.rfl ?_)
    constructor
    · rintro ⟨file, listed, source, plan, changed, fits, member⟩
      have production : source.isTest = false := by simpa using (Run.mem_filesWhere fits.found).1 listed
      exact ⟨file, source, plan, changed, production, fits.carried production, member⟩
    · rintro ⟨file, source, plan, changed, production, carried, member⟩
      have listed : file ∈ run.productionFiles :=
        (Run.mem_filesWhere carried.fits.found).2 (by simpa using production)
      exact ⟨file, listed, source, plan, changed, carried.fits, member⟩

end TraceWeave
