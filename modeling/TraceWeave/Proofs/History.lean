import Mathlib.Data.List.Forall2
import TraceWeave.Proofs.Evolution
import TraceWeave.Proofs.Ink

/-!
A run as the batches it is made of. A stage hands over one batch after the other, each with the import
paths that its code refers to; whatever else it notes leaves program and imports alone.
-/
namespace TraceWeave

/-- A batch as it is handed over, with the program at that time. -/
structure Batch where
  program : Program
  file : Nat
  edits : List Edit
  imports : List String

/-- The batch fits the file it is for. -/
def Batch.Accepted (batch : Batch) : Prop :=
  ∃ source changed, batch.program.source? batch.file = some source ∧ source.apply batch.edits = .ok changed

/-- No file lost a character that can be seen. -/
def Program.KeepsInk (before after : Program) : Prop :=
  List.Forall₂ (fun file file' : ProgramFile => (Text.ink file.source.text).Sublist (Text.ink file'.source.text))
    before.files after.files

theorem Program.KeepsInk.refl (program : Program) : program.KeepsInk program :=
  List.forall₂_same.2 fun _ _ => .refl _

theorem Program.KeepsInk.trans {before middle after : Program} (first : before.KeepsInk middle)
    (second : middle.KeepsInk after) : before.KeepsInk after := by
  obtain ⟨size, each⟩ := List.forall₂_iff_get.1 first
  obtain ⟨size', each'⟩ := List.forall₂_iff_get.1 second
  refine List.forall₂_iff_get.2 ⟨size.trans size', fun index inside inside' => ?_⟩
  exact (each index inside (size ▸ inside)).trans (each' index (size ▸ inside) inside')

namespace Source

variable {source changed : Source} {edits : List Edit}

theorem perform_of_apply (applied : source.apply edits = .ok changed) :
    Edit.perform source.text edits = .ok changed.text := by
  unfold apply at applied
  split at applied
  · rename_i empty
    cases applied
    rw [List.isEmpty_iff.1 empty, Edit.perform_nil]
  · split at applied
    · cases applied
    · rename_i text performed
      rw [performed]
      split at applied
      · rename_i same
        cases applied
        rw [same]
      · cases applied
        rfl

end Source

theorem sortedSet_nil : sortedSet [] = [] := by simp [sortedSet, Selection.inOrder]

namespace Run

/-- The batches that lead from one state of a run to another, in order. -/
inductive History (start : Run) : List Batch → Run → Prop where
  | nothing : History start [] start
  | note {batches : List Batch} {middle next : Run} (history : History start batches middle)
      (program : next.program = middle.program) (imports : next.imports = middle.imports) :
      History start batches next
  | batch {batches : List Batch} {middle : Run} (history : History start batches middle) (file : Nat)
      (edits : List Edit) (imports : List String) :
      History start (batches ++ [⟨middle.program, file, edits, imports⟩]) (middle.applyBatch file edits imports).2

variable {start middle final run : Run} {batches more : List Batch}

theorem History.append (first : History start batches middle) (second : History middle more final) :
    History start (batches ++ more) final := by
  induction second with
  | nothing =>
      rw [List.append_nil]
      exact first
  | note _ program imports ih => exact .note ih program imports
  | batch _ file edits imports ih =>
      rw [← List.append_assoc]
      exact .batch ih file edits imports

/-- Some history of batches that pass a test. -/
def Leads (allowed : Batch → Prop) (start final : Run) : Prop :=
  ∃ batches, History start batches final ∧ ∀ batch ∈ batches, allowed batch

variable {allowed allowed' : Batch → Prop}

theorem Leads.refl (start : Run) : Leads allowed start start := ⟨[], .nothing, by simp⟩

theorem Leads.mono (leads : Leads allowed start final) (more : ∀ batch, allowed batch → allowed' batch) :
    Leads allowed' start final := by
  obtain ⟨batches, history, each⟩ := leads
  exact ⟨batches, history, fun batch listed => more batch (each batch listed)⟩

theorem Leads.trans (first : Leads allowed start middle) (second : Leads allowed middle final) :
    Leads allowed start final := by
  obtain ⟨batches, history, each⟩ := first
  obtain ⟨more, later, others⟩ := second
  refine ⟨batches ++ more, history.append later, ?_⟩
  intro batch listed
  rcases List.mem_append.1 listed with here | there
  · exact each batch here
  · exact others batch there

theorem Leads.note (program : final.program = start.program) (imports : final.imports = start.imports) :
    Leads allowed start final := ⟨[], .note .nothing program imports, by simp⟩

theorem Leads.applyBatch (run : Run) {file : Nat} {edits : List Edit} {imports : List String}
    (passes : allowed ⟨run.program, file, edits, imports⟩) :
    Leads allowed run (run.applyBatch file edits imports).2 :=
  ⟨_, .batch .nothing file edits imports, List.forall_mem_singleton.2 passes⟩

theorem Leads.foldl {step : Run → Nat → Run} {allowed : Batch → Prop}
    (each : ∀ run file, Leads (fun batch => batch.file = file ∧ allowed batch) run (step run file))
    (files : List Nat) (run : Run) :
    Leads (fun batch => batch.file ∈ files ∧ allowed batch) run (files.foldl step run) := by
  induction files generalizing run with
  | nil => exact .refl run
  | cons file files ih =>
      have first : Leads (fun batch => batch.file ∈ file :: files ∧ allowed batch) run (step run file) :=
        (each run file).mono fun _ passes => ⟨List.mem_cons.2 (.inl passes.1), passes.2⟩
      exact first.trans ((ih (step run file)).mono fun _ passes => ⟨List.mem_cons_of_mem _ passes.1, passes.2⟩)

/-! What a history says about its end. -/

theorem History.evolves (history : History start batches final) :
    Program.Evolves (fun file => ∃ batch ∈ batches, batch.file = file) start.program final.program := by
  induction history with
  | nothing => exact .refl _
  | note _ program _ ih => rwa [program]
  | @batch batches middle _ file edits imports ih =>
      refine (ih.trans (middle.applyBatch_evolves file edits imports)).mono ?_
      rintro index (⟨batch, listed, same⟩ | rfl)
      · exact ⟨batch, List.mem_append_left _ listed, same⟩
      · exact ⟨_, List.mem_append_right _ (List.mem_singleton.2 rfl), rfl⟩

/-- The program of a batch comes from the one at the start. -/
theorem History.evolves_batch (history : History start batches final) :
    ∀ batch ∈ batches, Program.Evolves (fun _ => True) start.program batch.program := by
  induction history with
  | nothing => simp
  | note _ _ _ ih => exact ih
  | batch before file edits imports ih =>
      intro batch listed
      rcases List.mem_append.1 listed with earlier | last
      · exact ih batch earlier
      · rw [List.mem_singleton.1 last]
        exact before.evolves.mono fun _ _ => trivial

/-- A file that a batch is for is there in the end. -/
theorem History.exists_source? (history : History start batches final) {batch : Batch} (listed : batch ∈ batches)
    {source : Source} (found : batch.program.source? batch.file = some source) :
    ∃ last, final.program.source? batch.file = some last := by
  rcases history.evolves.source? batch.file with ⟨missing, _⟩ | ⟨_, last, _, found', _⟩
  · rcases (history.evolves_batch batch listed).source? batch.file with ⟨_, none⟩ | ⟨_, _, there, _⟩
    · cases found.symm.trans none
    · cases missing.symm.trans there
  · exact ⟨last, found'⟩

/-- An import that is on record belongs to a batch. -/
theorem History.of_mem_imports (history : History start batches final) {file : Nat} {path : String}
    (recorded : (file, path) ∈ final.imports) :
    (file, path) ∈ start.imports ∨ ∃ batch ∈ batches, batch.file = file ∧ path ∈ batch.imports := by
  induction history with
  | nothing => exact .inl recorded
  | note _ _ imports ih =>
      rw [imports] at recorded
      exact ih recorded
  | @batch batches middle _ file' edits imports ih =>
      have old : (file, path) ∈ middle.imports → (file, path) ∈ start.imports ∨
          ∃ batch ∈ batches ++ [⟨middle.program, file', edits, imports⟩], batch.file = file ∧ path ∈ batch.imports := by
        intro earlier
        rcases ih earlier with first | ⟨batch, listed, found⟩
        · exact .inl first
        · exact .inr ⟨batch, List.mem_append_left _ listed, found⟩
      rcases middle.applyBatch_imports file' edits imports with same | more
      · exact old (same ▸ recorded)
      · rw [more] at recorded
        rcases List.mem_append.1 recorded with earlier | new
        · exact old earlier
        · obtain ⟨_, member, same⟩ := List.mem_map.1 new
          cases same
          exact .inr ⟨_, List.mem_append_right _ (List.mem_singleton.2 rfl), rfl, member⟩

/-- The import paths of a batch that is carried out are on record from then on. -/
theorem History.mem_imports (history : History start batches final) {batch : Batch} (listed : batch ∈ batches)
    (busy : batch.edits ≠ []) (accepted : batch.Accepted) {path : String} (member : path ∈ batch.imports) :
    (batch.file, path) ∈ final.imports := by
  induction history with
  | nothing => cases listed
  | note _ _ imports ih =>
      rw [imports]
      exact ih listed
  | @batch batches middle _ file edits imports ih =>
      rcases List.mem_append.1 listed with earlier | last
      · have recorded := ih earlier
        rcases middle.applyBatch_imports file edits imports with same | more
        · rwa [same]
        · rw [more]
          exact List.mem_append_left _ recorded
      · cases List.mem_singleton.1 last
        obtain ⟨source, changed, found, applied⟩ := accepted
        -- only a batch with edits that fit puts its imports on record
        unfold Run.applyBatch
        rw [if_neg (by simpa using busy), found]
        dsimp only at applied ⊢
        rw [applied]
        exact List.mem_append_right _ (List.mem_map_of_mem member)

theorem applyBatch_keepsInk {file : Nat} {edits : List Edit} (imports : List String)
    (each : ∀ source, run.program.source? file = some source →
      ∀ edit ∈ edits, edit.Retains (!Text.isBlank ·) source.text) :
    run.program.KeepsInk (run.applyBatch file edits imports).2.program := by
  rcases run.applyBatch_cases file edits imports with ⟨idle, _⟩ | ⟨source, changed, found, applied, result⟩
  · rw [idle]
    exact .refl _
  · rw [result]
    have kept := Edit.perform_retains (each source found) (Source.perform_of_apply applied)
    obtain ⟨entry, here, rfl⟩ := Option.map_eq_some_iff.1 found
    refine List.forall₂_iff_get.2 ⟨(List.length_modify _ _ _).symm, fun index inside inside' => ?_⟩
    simp only [List.get_eq_getElem, Program.setSource, List.getElem_modify]
    split
    · rename_i target
      subst target
      obtain ⟨_, same⟩ := List.getElem?_eq_some_iff.1 here
      rw [same]
      exact kept
    · exact .refl _

/-- Batches that lose nothing do so together. -/
theorem History.keepsInk (history : History start batches final)
    (each : ∀ batch ∈ batches, ∀ source, batch.program.source? batch.file = some source →
      ∀ edit ∈ batch.edits, edit.Retains (!Text.isBlank ·) source.text) :
    start.program.KeepsInk final.program := by
  induction history with
  | nothing => exact .refl _
  | note _ program _ ih =>
      rw [program]
      exact ih each
  | @batch batches middle _ file edits imports ih =>
      have earlier := ih fun batch listed => each batch (List.mem_append_left _ listed)
      have last := middle.applyBatch_keepsInk imports (each _ (List.mem_append_right _ (List.mem_singleton.2 rfl)))
      exact earlier.trans last

/-! Imports at the end. -/

variable {file : Nat}

theorem applyBatch_nil_imports (run : Run) (file : Nat) (edits : List Edit) :
    (run.applyBatch file edits []).2.imports = run.imports := by
  rcases run.applyBatch_imports file edits [] with same | more
  · exact same
  · rw [more, List.map_nil, List.append_nil]

theorem addImportsTo_imports (run : Run) (file : Nat) : (run.addImportsTo file).imports = run.imports := by
  unfold addImportsTo
  split
  · rfl
  · exact run.applyBatch_nil_imports file _

theorem addImportsTo_evolves (run : Run) (file : Nat) :
    Program.Evolves (· = file) run.program (run.addImportsTo file).program := by
  unfold addImportsTo
  split
  · exact .refl _
  · exact run.applyBatch_evolves file _ _

/-- Without an import on record for it, a file has none to add. -/
theorem addImportsTo_of_none (none : ∀ path, (file, path) ∉ run.imports) : run.addImportsTo file = run := by
  have nothing : run.importsFor file = [] := by
    have empty : run.imports.filter (·.1 == file) = [] := by
      refine List.filter_eq_nil_iff.2 fun pair listed => ?_
      rintro same
      rw [beq_iff_eq] at same
      exact none pair.2 (same ▸ listed)
    rw [importsFor, empty, List.map_nil, sortedSet_nil]
  unfold addImportsTo
  split
  · rfl
  · dsimp only
    rw [nothing]
    rfl

/-- Imports are added to other files only. -/
theorem addImports_spares (none : ∀ path, (file, path) ∉ run.imports) :
    run.addImports.program.source? file = run.program.source? file ∧ run.addImports.imports = run.imports := by
  unfold addImports
  generalize List.range run.program.files.length = files
  induction files generalizing run with
  | nil => exact ⟨rfl, rfl⟩
  | cons other files ih =>
      rw [List.foldl_cons]
      have same := run.addImportsTo_imports other
      have none' : ∀ path, (file, path) ∉ (run.addImportsTo other).imports := same ▸ none
      obtain ⟨later, kept⟩ := ih none'
      refine ⟨later.trans ?_, kept.trans same⟩
      by_cases is : other = file
      · rw [is, addImportsTo_of_none none]
      · exact (run.addImportsTo_evolves other).source?_of_untouched fun contrary => is contrary.symm

end Run

/-! The stages that write code. -/

inductive Stage where
  | inject
  | propagate
  | resolveTests
  | bootstrap

/-- Files that a stage goes through at most. -/
def Stage.files (run : Run) : Stage → List Nat
  | .resolveTests => run.testFiles
  | .inject | .propagate | .bootstrap => run.productionFiles

namespace Setup

def perform (setup : Setup) (graph : CallGraph) : Stage → Run → Run
  | .inject, run => setup.inject run
  | .propagate, run => (setup.propagate graph run).2
  | .resolveTests, run => resolveTests graph run
  | .bootstrap, run => setup.bootstrap run

theorem weave_eq_perform (setup : Setup) (graph : CallGraph) (run : Run) :
    setup.weave graph run = ([.inject, .propagate, .resolveTests, .bootstrap].foldl
      (fun run stage => setup.perform graph stage run) run).addImports := rfl

/-- Batches that a stage hands over. -/
inductive Plans (setup : Setup) : Stage → Batch → Prop where
  | injections {program : Program} {file : Nat} {plan : FilePlan}
      (done : setup.planInjections program file = .ok plan) :
      Plans setup .inject ⟨program, file, plan.edits, plan.imports⟩
  | handles {site : HandleSite} {file : Nat} {withDeferred : Bool} {made : HandleEdits} (same : site.setup = setup)
      (fits : site.imports = site.program.importsOf site.source)
      (found : site.program.source? file = some site.source) (done : site.fileEdits withDeferred = .ok made) :
      Plans setup .propagate ⟨site.program, file, made.edits, made.imports⟩
  | testCalls {program : Program} {file : Nat} {entry : ProgramFile} (graph : CallGraph) (widened : Nat → Bool)
      (here : program.files[file]? = some entry) :
      Plans setup .resolveTests ⟨program, file, testCallEdits graph widened program entry, []⟩
  | agent {program : Program} {file : Nat} {source : Source} {edits : List Edit}
      (found : program.source? file = some source)
      (done : bootstrapEdits setup.settings (program.importsOf source) source = .ok edits) :
      Plans setup .bootstrap ⟨program, file, edits, [Integration.agentPath, "time"]⟩

variable {setup : Setup} {graph : CallGraph} {run : Run}

theorem injectFile_leads (setup : Setup) (run : Run) (file : Nat) :
    run.Leads (fun batch => batch.file = file ∧ setup.Plans .inject batch) (setup.injectFile run file) := by
  unfold injectFile
  split
  · exact .refl run
  · split
    · exact .note rfl rfl
    · rename_i plan done
      have noted : run.Leads (fun batch => batch.file = file ∧ setup.Plans .inject batch) (run.record plan.notes) :=
        .note rfl rfl
      have applied := noted.trans (.applyBatch (run.record plan.notes) ⟨rfl, .injections done⟩)
      dsimp only
      split
      · exact applied.trans (.note rfl rfl)
      · exact applied

theorem propagateFile_leads (setup : Setup) (graph : CallGraph) (plan : HandlePlan) (run : Run) (file : Nat) :
    run.Leads (fun batch => batch.file = file ∧ setup.Plans .propagate batch)
      (setup.propagateFile graph plan run file) := by
  cases here : run.program.files[file]? with
  | none =>
      unfold propagateFile
      rw [here]
      exact .refl run
  | some entry =>
      obtain ⟨begun, made, alike, _, done, result⟩ := propagateFile_step setup graph plan here
      rw [result]
      have noted : run.Leads (fun batch => batch.file = file ∧ setup.Plans .propagate batch) begun :=
        .note alike.program alike.imports
      refine noted.trans (.applyBatch begun ⟨rfl, ?_⟩)
      rw [alike.program]
      exact .handles rfl rfl (Program.source?_of_getElem? here) done

theorem resolveTestFile_leads (setup : Setup) (graph : CallGraph) (run : Run) (file : Nat) :
    run.Leads (fun batch => batch.file = file ∧ setup.Plans .resolveTests batch) (resolveTestFile graph run file) := by
  unfold resolveTestFile
  split
  · exact .refl run
  · rename_i entry here
    exact .applyBatch run ⟨rfl, .testCalls graph _ here⟩

theorem bootstrapFile_leads (setup : Setup) (run : Run) (file : Nat) :
    run.Leads (fun batch => batch.file = file ∧ setup.Plans .bootstrap batch) (setup.bootstrapFile run file) := by
  unfold bootstrapFile
  split
  · exact .refl run
  · rename_i source found
    split
    · exact .note rfl rfl
    · rename_i edits done
      exact .applyBatch run ⟨rfl, .agent found done⟩

/-- A stage hands over batches for its files, and nothing else happens to the program. -/
theorem perform_leads (setup : Setup) (graph : CallGraph) (stage : Stage) (run : Run) :
    run.Leads (fun batch => batch.file ∈ stage.files run ∧ setup.Plans stage batch)
      (setup.perform graph stage run) := by
  cases stage with
  | inject => exact .foldl (injectFile_leads setup) _ run
  | propagate =>
      change run.Leads _ (setup.propagate graph run).2
      unfold propagate
      dsimp only
      generalize HandlePlan.compute graph run.seeds = plan
      generalize begun : { run.record plan.notes with widened := plan.widenedInOrder graph } = first
      have noted : run.Leads (fun batch => batch.file ∈ run.productionFiles ∧ setup.Plans .propagate batch) first :=
        begun ▸ .note rfl rfl
      have files : first.productionFiles = run.productionFiles := begun ▸ rfl
      rw [files]
      exact noted.trans (.foldl (propagateFile_leads setup graph plan) _ first)
  | resolveTests =>
      change run.Leads _ (resolveTests graph run)
      unfold resolveTests
      split
      · exact .refl run
      · exact .foldl (resolveTestFile_leads setup graph) _ run
  | bootstrap =>
      change run.Leads _ (setup.bootstrap run)
      unfold bootstrap
      split
      · refine (Run.Leads.foldl (bootstrapFile_leads setup) _ run).mono fun batch passes => ⟨?_, passes.2⟩
        exact (List.mem_filter.1 passes.1).1
      · exact .refl run

end Setup
end TraceWeave
