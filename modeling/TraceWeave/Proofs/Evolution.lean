import TraceWeave.Loader
import TraceWeave.Proofs.Outcome
import TraceWeave.Weave.Run

/-!
How a program changes along a run. Every stage goes from file to file and changes at most the file it
is at; paths and packages stay, trees stay those of their texts, and a changed file stays marked.
-/
namespace TraceWeave

/-- Steps that only add to what is seen of a state. -/
theorem subset_foldl {α σ ι : Type} {seen : σ → List α} {step : σ → ι → σ}
    (each : ∀ state item, seen state ⊆ seen (step state item)) (items : List ι) (state : σ) :
    seen state ⊆ seen (items.foldl step state) := by
  induction items generalizing state with
  | nil => exact List.Subset.refl _
  | cons item items ih => exact List.Subset.trans (each state item) (ih _)

namespace Source

/-- The tree of a file is that of its text. -/
def IsParsed (source : Source) : Prop := source.tree = Go.Tree.parse source.text

theorem isParsed_load (path text : String) : (load path text).IsParsed := rfl

/-- What a file keeps while it is edited. -/
structure Evolves (before after : Source) : Prop where
  path : after.path = before.path
  parsed : before.IsParsed → after.IsParsed
  dirty : before.dirty = true → after.dirty = true
  clean : after.dirty = false → after = before

variable {source changed : Source} {edits : List Edit}

theorem Evolves.refl (source : Source) : Evolves source source := ⟨rfl, id, id, fun _ => rfl⟩

theorem Evolves.trans {before middle after : Source} (first : Evolves before middle) (second : Evolves middle after) :
    Evolves before after := by
  refine ⟨second.path.trans first.path, fun parsed => second.parsed (first.parsed parsed),
    fun dirty => second.dirty (first.dirty dirty), ?_⟩
  intro clean
  have same := second.clean clean
  rw [same] at clean ⊢
  exact first.clean clean

theorem exists_apply {updated : String} (performed : Edit.perform source.text edits = .ok updated) :
    ∃ changed, source.apply edits = .ok changed := by
  unfold apply
  split
  · exact ⟨_, rfl⟩
  · rw [performed]
    dsimp only
    split
    · exact ⟨_, rfl⟩
    · exact ⟨_, rfl⟩

/-- A batch is without effect, or it marks the file. -/
theorem apply_cases (applied : source.apply edits = .ok changed) :
    changed = source ∨ ∃ text, Edit.perform source.text edits = .ok text ∧ text ≠ source.text ∧
      changed = { source with text, tree := Go.Tree.parse text, dirty := true } := by
  unfold apply at applied
  split at applied
  · cases applied
    exact .inl rfl
  · split at applied
    · cases applied
    · rename_i text performed
      split at applied
      · cases applied
        exact .inl rfl
      · rename_i different
        cases applied
        exact .inr ⟨text, performed, different, rfl⟩

/-- The file after a batch. One that is refused leaves it as it is. -/
def applied (source : Source) (edits : List Edit) : Source :=
  match source.apply edits with
  | .ok changed => changed
  | .error _ => source

@[simp] theorem applied_nil (source : Source) : source.applied [] = source := rfl

theorem apply_evolves (applied : source.apply edits = .ok changed) : Evolves source changed := by
  rcases apply_cases applied with rfl | ⟨text, _, _, rfl⟩
  · exact .refl _
  · exact ⟨rfl, fun _ => rfl, fun _ => rfl, fun contrary => by cases contrary⟩

end Source

namespace Program

/-- Every tree is that of its text. -/
def IsParsed (program : Program) : Prop := ∀ file ∈ program.files, file.source.IsParsed

/-- What a program keeps while some of its files are edited. -/
structure Evolves (touched : Nat → Prop) (before after : Program) : Prop where
  modulePath : after.modulePath = before.modulePath
  packages : after.packages = before.packages
  size : after.files.length = before.files.length
  files : ∀ index file, before.files[index]? = some file → ∃ file', after.files[index]? = some file' ∧
    file'.package = file.package ∧ file.source.Evolves file'.source ∧ (¬ touched index → file' = file)

variable {touched touched' : Nat → Prop} {program before middle after : Program} {index : Nat}

theorem Evolves.refl (program : Program) : Evolves touched program program :=
  ⟨rfl, rfl, rfl, fun _ file found => ⟨file, found, rfl, .refl _, fun _ => rfl⟩⟩

theorem Evolves.mono (evolves : Evolves touched before after) (more : ∀ index, touched index → touched' index) :
    Evolves touched' before after := by
  refine ⟨evolves.modulePath, evolves.packages, evolves.size, ?_⟩
  intro index file found
  obtain ⟨file', found', package, source, same⟩ := evolves.files index file found
  exact ⟨file', found', package, source, fun untouched => same fun contrary => untouched (more index contrary)⟩

theorem Evolves.trans (first : Evolves touched before middle) (second : Evolves touched' middle after) :
    Evolves (fun index => touched index ∨ touched' index) before after := by
  refine ⟨second.modulePath.trans first.modulePath, second.packages.trans first.packages,
    second.size.trans first.size, ?_⟩
  intro index file found
  obtain ⟨file₁, found₁, package₁, source₁, same₁⟩ := first.files index file found
  obtain ⟨file₂, found₂, package₂, source₂, same₂⟩ := second.files index file₁ found₁
  refine ⟨file₂, found₂, package₂.trans package₁, source₁.trans source₂, ?_⟩
  intro untouched
  rw [same₂ fun contrary => untouched (.inr contrary), same₁ fun contrary => untouched (.inl contrary)]

theorem Evolves.isParsed (evolves : Evolves touched before after) (parsed : before.IsParsed) : after.IsParsed := by
  intro file' member
  obtain ⟨index, bound, same⟩ := List.mem_iff_getElem.1 member
  rw [evolves.size] at bound
  obtain ⟨file'', found, _, source, _⟩ := evolves.files index before.files[index] (List.getElem?_eq_getElem bound)
  rw [List.getElem?_eq_some_iff] at found
  obtain ⟨_, same'⟩ := found
  rw [← same, same']
  exact source.parsed (parsed _ (List.getElem_mem bound))

/-- Files keep their paths. -/
theorem Evolves.paths (evolves : Evolves touched before after) :
    after.files.map (·.source.path) = before.files.map (·.source.path) := by
  refine List.ext_getElem? fun index => ?_
  rw [List.getElem?_map, List.getElem?_map]
  cases here : before.files[index]? with
  | none =>
      rw [List.getElem?_eq_none_iff, ← evolves.size, ← List.getElem?_eq_none_iff] at here
      rw [here]
  | some file =>
      obtain ⟨file', here', _, kept, _⟩ := evolves.files index file here
      rw [here', Option.map_some, Option.map_some, kept.path]

theorem source?_of_getElem? {file : ProgramFile} (here : program.files[index]? = some file) :
    program.source? index = some file.source := by
  rw [source?, here]
  rfl

/-- One file is edited. -/
theorem setSource_evolves {source changed : Source} (found : program.source? index = some source)
    (evolves : source.Evolves changed) : Evolves (· = index) program (program.setSource index changed) := by
  refine ⟨rfl, rfl, List.length_modify _ _ _, ?_⟩
  intro other file here
  rw [setSource, List.getElem?_modify]
  by_cases same : index = other
  · subst same
    have is : file.source = source := by simpa [source?, here] using found
    refine ⟨{ file with source := changed }, by simp [here], rfl, is ▸ evolves, fun contrary => absurd rfl contrary⟩
  · exact ⟨file, by simp [here, same], rfl, .refl _, fun _ => rfl⟩

/-- What stays of a file is where it is. -/
theorem Evolves.source? (evolves : Evolves touched before after) (index : Nat) :
    (before.source? index = none ∧ after.source? index = none) ∨
      ∃ source changed, before.source? index = some source ∧ after.source? index = some changed ∧
        source.Evolves changed ∧ (¬ touched index → changed = source) := by
  cases here : before.files[index]? with
  | none =>
      refine .inl ⟨by simp [Program.source?, here], ?_⟩
      rw [List.getElem?_eq_none_iff, ← evolves.size, ← List.getElem?_eq_none_iff] at here
      simp [Program.source?, here]
  | some file =>
      obtain ⟨file', found, _, source, same⟩ := evolves.files index file here
      refine .inr ⟨file.source, file'.source, by simp [Program.source?, here], by simp [Program.source?, found],
        source, fun untouched => by rw [same untouched]⟩

theorem Evolves.source?_of_untouched (evolves : Evolves touched before after) (untouched : ¬ touched index) :
    after.source? index = before.source? index := by
  rcases evolves.source? index with ⟨missing, missing'⟩ | ⟨source, changed, found, found', _, same⟩
  · rw [missing, missing']
  · rw [found, found', same untouched]

/-- Where only other files are touched, a file stays. -/
theorem Evolves.spares (evolves : Evolves (· ≠ index) before after) : after.source? index = before.source? index :=
  evolves.source?_of_untouched fun contrary => contrary rfl

theorem Evolves.spares_file (evolves : Evolves (· ≠ index) before after) : after.files[index]? = before.files[index]? := by
  cases here : before.files[index]? with
  | none =>
      rw [List.getElem?_eq_none_iff] at here ⊢
      rw [evolves.size]
      exact here
  | some entry =>
      obtain ⟨entry', here', _, _, kept⟩ := evolves.files index entry here
      rw [here', kept fun contrary => contrary rfl]

end Program

namespace Run

variable {run : Run} {file : Nat} {edits : List Edit} {imports : List String}

@[simp] theorem program_record (run : Run) (notes : List Diagnostic) : (run.record notes).program = run.program := rfl

@[simp] theorem program_recordFailure (run : Run) (path : String) (failure : FileFailure) :
    (run.recordFailure path failure).program = run.program := rfl

@[simp] theorem program_addSeeds (run : Run) (keys : List FunctionKey) :
    (run.addSeeds keys).program = run.program := rfl

/-- Two states of a run that differ in their findings at most. -/
structure Alike (run run' : Run) : Prop where
  program : run'.program = run.program
  imports : run'.imports = run.imports
  seeds : run'.seeds = run.seeds
  widened : run'.widened = run.widened

theorem Alike.record (run : Run) (notes : List Diagnostic) : run.Alike (run.record notes) := ⟨rfl, rfl, rfl, rfl⟩

theorem Alike.recordFailure (run : Run) (path : String) (failure : FileFailure) :
    run.Alike (run.recordFailure path failure) := ⟨rfl, rfl, rfl, rfl⟩

theorem Alike.trans {run run' run'' : Run} (first : run.Alike run') (second : run'.Alike run'') : run.Alike run'' :=
  ⟨second.program.trans first.program, second.imports.trans first.imports, second.seeds.trans first.seeds,
    second.widened.trans first.widened⟩

/-- What a batch does to a program: it is carried out on the file, or nothing happens. -/
theorem applyBatch_cases (run : Run) (file : Nat) (edits : List Edit) (imports : List String) :
    (run.applyBatch file edits imports).2.program = run.program ∧
        (edits = [] ∨ run.program.source? file = none ∨
          ∃ source error, run.program.source? file = some source ∧ source.apply edits = .error error) ∨
      ∃ source changed, run.program.source? file = some source ∧ source.apply edits = .ok changed ∧
        (run.applyBatch file edits imports).2.program = run.program.setSource file changed := by
  unfold applyBatch
  split
  · rename_i empty
    exact .inl ⟨rfl, .inl (List.isEmpty_iff.1 empty)⟩
  · split
    · rename_i missing
      exact .inl ⟨rfl, .inr (.inl missing)⟩
    · rename_i source found
      split
      · rename_i changed applied
        exact .inr ⟨source, changed, found, applied, rfl⟩
      · rename_i error refused
        exact .inl ⟨rfl, .inr (.inr ⟨source, error, found, refused⟩)⟩

theorem applyBatch_evolves (run : Run) (file : Nat) (edits : List Edit) (imports : List String) :
    Program.Evolves (· = file) run.program (run.applyBatch file edits imports).2.program := by
  rcases run.applyBatch_cases file edits imports with ⟨same, _⟩ | ⟨source, changed, found, applied, result⟩
  · rw [same]
    exact .refl _
  · rw [result]
    exact Program.setSource_evolves found (Source.apply_evolves applied)

/-- A batch acts on its file. -/
theorem applyBatch_source? (run : Run) {file : Nat} {source : Source} (found : run.program.source? file = some source)
    (edits : List Edit) (imports : List String) :
    (run.applyBatch file edits imports).2.program.source? file = some (source.applied edits) := by
  rcases run.applyBatch_cases file edits imports with ⟨same, idle⟩ | ⟨source', changed, found', applied, result⟩
  · rw [same, found]
    rcases idle with rfl | missing | ⟨source', error, found', refused⟩
    · rfl
    · cases found.symm.trans missing
    · cases found.symm.trans found'
      rw [Source.applied, refused]
  · cases found.symm.trans found'
    obtain ⟨entry, here, rfl⟩ := Option.map_eq_some_iff.1 found
    rw [result, Source.applied, applied, Program.source?, Program.setSource, List.getElem?_modify]
    simp [here]

/-- A batch with edits that fit is carried out, and its imports are on record. -/
theorem applyBatch_of_ok {source changed : Source} (found : run.program.source? file = some source)
    (busy : edits ≠ []) (applied : source.apply edits = .ok changed) (imports : List String) :
    run.applyBatch file edits imports =
      (true, { run with
        program := run.program.setSource file changed
        imports := run.imports ++ imports.map fun path => (file, path) }) := by
  unfold applyBatch
  rw [if_neg (by simpa using busy), found]
  dsimp only
  rw [applied]
  rfl

/-- A batch that does not fit is noted, and nothing else happens. -/
theorem applyBatch_of_error {source : Source} {cause : EditError} (found : run.program.source? file = some source)
    (refused : source.apply edits = .error cause) (imports : List String) :
    run.applyBatch file edits imports = (false, run.recordFailure source.path (.edit source.path cause)) := by
  have busy : edits ≠ [] := by
    rintro rfl
    cases refused
  unfold applyBatch
  rw [if_neg (by simpa using busy), found]
  dsimp only
  rw [refused]

theorem applyBatch_imports (run : Run) (file : Nat) (edits : List Edit) (imports : List String) :
    (run.applyBatch file edits imports).2.imports = run.imports ∨
      (run.applyBatch file edits imports).2.imports = run.imports ++ imports.map fun path => (file, path) := by
  unfold applyBatch
  split
  · exact .inl rfl
  · split
    · exact .inl rfl
    · split
      · exact .inr rfl
      · exact .inl rfl

theorem applyBatch_findings (run : Run) (file : Nat) (edits : List Edit) (imports : List String) :
    run.findings ⊆ (run.applyBatch file edits imports).2.findings := by
  unfold applyBatch
  split
  · exact List.Subset.refl _
  · split
    · exact List.Subset.refl _
    · split
      · exact List.Subset.refl _
      · exact List.subset_append_left _ _

/-- A stage that goes through files. -/
theorem foldl_evolves {step : Run → Nat → Run}
    (each : ∀ run file, Program.Evolves (· = file) run.program (step run file).program) (files : List Nat) (run : Run) :
    Program.Evolves (· ∈ files) run.program (files.foldl step run).program := by
  induction files generalizing run with
  | nil => exact .refl _
  | cons file files ih =>
      refine ((each run file).trans (ih (step run file))).mono ?_
      rintro index (rfl | later)
      · exact List.mem_cons_self
      · exact List.mem_cons_of_mem _ later

/-- The turn of a file: what comes before it and what comes after it leave the file alone. -/
theorem foldl_turn {step : Run → Nat → Run}
    (each : ∀ run file, Program.Evolves (· = file) run.program (step run file).program) {files : List Nat}
    (distinct : files.Nodup) (member : file ∈ files) (run : Run) :
    ∃ earlier later : List Nat, files = earlier ++ file :: later ∧ file ∉ earlier ∧ file ∉ later ∧
      Program.Evolves (· ≠ file) run.program (earlier.foldl step run).program ∧
      Program.Evolves (· ≠ file) (step (earlier.foldl step run) file).program (files.foldl step run).program := by
  obtain ⟨earlier, later, rfl, before⟩ := List.eq_append_cons_of_mem member
  have after : file ∉ later := (List.nodup_cons.1 (List.nodup_append.1 distinct).2.1).1
  refine ⟨earlier, later, rfl, before, after, (foldl_evolves each earlier run).mono ?_, ?_⟩
  · rintro index listed rfl
    exact before listed
  · rw [List.foldl_append, List.foldl_cons]
    refine (foldl_evolves each later _).mono ?_
    rintro index listed rfl
    exact after listed

theorem filesWhere_nodup (run : Run) (test : Source → Bool) : (run.filesWhere test).Nodup :=
  List.nodup_range.filter _

theorem mem_filesWhere {test : Source → Bool} {source : Source} (found : run.program.source? file = some source) :
    file ∈ run.filesWhere test ↔ test source = true := by
  obtain ⟨entry, here, _⟩ := Option.map_eq_some_iff.1 found
  have inside := (List.getElem?_eq_some_iff.1 here).1
  simp [filesWhere, found, inside]

/-- Files are chosen by their paths, which stay. -/
theorem filesWhere_evolves {touched : Nat → Prop} {run' : Run} {test : Source → Bool}
    (evolves : Program.Evolves touched run.program run'.program)
    (stays : ∀ source changed : Source, changed.path = source.path → test changed = test source) :
    run'.filesWhere test = run.filesWhere test := by
  unfold filesWhere
  rw [evolves.size]
  refine List.filter_congr fun index _ => ?_
  rcases evolves.source? index with ⟨none, none'⟩ | ⟨source, changed, found, found', kept, _⟩
  · rw [none, none']
  · rw [found, found']
    exact stays source changed kept.path

theorem isTest_stays (source changed : Source) (path : changed.path = source.path) :
    changed.isTest = source.isTest := by rw [Source.isTest, Source.isTest, path]

theorem testFiles_evolves {touched : Nat → Prop} {run' : Run}
    (evolves : Program.Evolves touched run.program run'.program) : run'.testFiles = run.testFiles :=
  filesWhere_evolves evolves isTest_stays

end Run

namespace HandleSite

/-- Where the second pass is when it takes up a file. -/
def taking (setup : Setup) (graph : CallGraph) (plan : HandlePlan) (run : Run) (entry : ProgramFile) : HandleSite :=
  { setup, program := run.program, source := entry.source, package := entry.package,
    imports := run.program.importsOf entry.source, graph, plan, seeds := run.seeds }

/-- Only code that waited can fail. -/
theorem exists_fileEdits_false (site : HandleSite) : ∃ made, site.fileEdits false = .ok made := by
  have each : ∀ decl, ∃ made, site.declEdits false decl = .ok made := by
    intro decl
    unfold declEdits
    split
    · exact ⟨_, rfl⟩
    · exact ⟨_, rfl⟩
  have mapped : ∀ decls : List FunctionDecl, ∃ parts, decls.mapM (site.declEdits false) = .ok parts := by
    intro decls
    induction decls with
    | nil => exact ⟨[], rfl⟩
    | cons decl decls ih =>
        obtain ⟨made, first⟩ := each decl
        obtain ⟨parts, rest⟩ := ih
        exact ⟨made :: parts, by rw [List.mapM_cons, first, rest]; rfl⟩
  obtain ⟨parts, mapped⟩ := mapped (FunctionDecl.all site.source)
  exact ⟨_, by rw [fileEdits, mapped]; rfl⟩

end HandleSite

namespace Setup

variable {setup : Setup} {graph : CallGraph} {plan : HandlePlan} {run : Run} {file : Nat} {entry : ProgramFile}

theorem injectFile_evolves (setup : Setup) (run : Run) (file : Nat) :
    Program.Evolves (· = file) run.program (setup.injectFile run file).program := by
  unfold injectFile
  split
  · exact .refl _
  · split
    · exact .refl _
    · rename_i found _
      dsimp only
      split
      · exact (run.record found.notes).applyBatch_evolves file _ _
      · exact (run.record found.notes).applyBatch_evolves file _ _

theorem inject_evolves (setup : Setup) (run : Run) :
    Program.Evolves (· ∈ run.productionFiles) run.program (setup.inject run).program :=
  Run.foldl_evolves (injectFile_evolves setup) _ run

theorem propagateFile_evolves (setup : Setup) (graph : CallGraph) (plan : HandlePlan) (run : Run) (file : Nat) :
    Program.Evolves (· = file) run.program (setup.propagateFile graph plan run file).program := by
  unfold propagateFile
  split
  · exact .refl _
  · dsimp only
    split
    · exact (run.record _).applyBatch_evolves file _ _
    · split
      · exact ((run.recordFailure _ _).record _).applyBatch_evolves file _ _
      · exact ((run.recordFailure _ _).record _).applyBatch_evolves file _ _

theorem propagate_evolves (setup : Setup) (graph : CallGraph) (run : Run) :
    Program.Evolves (· ∈ run.productionFiles) run.program (setup.propagate graph run).2.program := by
  unfold propagate
  dsimp only
  exact Run.foldl_evolves (propagateFile_evolves setup graph _) _ { run.record _ with widened := _ }

/-- The second pass over a file is one batch. Code that waited is left out if there is no name for it. -/
theorem propagateFile_step (setup : Setup) (graph : CallGraph) (plan : HandlePlan)
    (here : run.program.files[file]? = some entry) :
    let site := HandleSite.taking setup graph plan run entry
    ∃ begun made, run.Alike begun ∧
      (∀ note ∈ begun.findings, note ∈ run.findings ∨ note ∈ made.notes ∨ note.kind = .identifierCollision) ∧
      site.fileEdits (site.fileEdits true).isOk = .ok made ∧
      setup.propagateFile graph plan run file = (begun.applyBatch file made.edits made.imports).2 := by
  intro site
  unfold propagateFile
  rw [here]
  cases done : site.fileEdits true with
  | ok made =>
      refine ⟨run.record made.notes, made, .record _ _, ?_, done, ?_⟩
      · intro note member
        rcases List.mem_append.1 member with old | new
        · exact .inl old
        · exact .inr (.inl new)
      · dsimp only [site, HandleSite.taking] at done
        dsimp only
        rw [done]
  | error collision =>
      obtain ⟨made, done'⟩ := site.exists_fileEdits_false
      refine ⟨(run.recordFailure entry.source.path (.name collision)).record made.notes, made,
        (Run.Alike.recordFailure _ _ _).trans (.record _ _), ?_, done', ?_⟩
      · intro note member
        rcases List.mem_append.1 member with earlier | new
        · rcases List.mem_append.1 earlier with old | failure
          · exact .inl old
          · rw [List.mem_singleton.1 failure]
            exact .inr (.inr rfl)
        · exact .inr (.inl new)
      · dsimp only [site, HandleSite.taking] at done done'
        dsimp only
        rw [done, done']

/-- What the second pass does with a file. -/
theorem propagateFile_batch (setup : Setup) (graph : CallGraph) (plan : HandlePlan)
    (here : run.program.files[file]? = some entry) :
    ∃ withDeferred made, (HandleSite.taking setup graph plan run entry).fileEdits withDeferred = .ok made ∧
      (setup.propagateFile graph plan run file).program.source? file = some (entry.source.applied made.edits) := by
  obtain ⟨begun, made, alike, _, done, result⟩ := propagateFile_step setup graph plan here
  refine ⟨_, made, done, ?_⟩
  rw [result]
  refine Run.applyBatch_source? begun ?_ _ _
  rw [alike.program]
  exact Program.source?_of_getElem? here

/-- The turn of a production file in the second pass: only other files have changed when it is taken
up, and it stays as it is then. -/
theorem propagate_batch (setup : Setup) (graph : CallGraph) (here : run.program.files[file]? = some entry)
    (production : entry.source.isTest = false) :
    ∃ middle : Run, Program.Evolves (· ≠ file) run.program middle.program ∧
      middle.program.files[file]? = some entry ∧ ∃ withDeferred made,
        (HandleSite.taking setup graph (setup.propagate graph run).1 middle entry).fileEdits withDeferred = .ok made ∧
        (setup.propagate graph run).2.program.source? file = some (entry.source.applied made.edits) := by
  unfold propagate
  dsimp only
  generalize HandlePlan.compute graph run.seeds = plan
  generalize start : { run.record plan.notes with widened := plan.widenedInOrder graph } = begun
  have same : begun.program = run.program := by rw [← start]; rfl
  rw [← same] at here ⊢
  have member : file ∈ begun.productionFiles :=
    (Run.mem_filesWhere (Program.source?_of_getElem? here)).2 (by simp [production])
  obtain ⟨earlier, _, _, _, _, before, after⟩ :=
    Run.foldl_turn (setup.propagateFile_evolves graph plan) (begun.filesWhere_nodup _) member begun
  have here' := before.spares_file.trans here
  obtain ⟨withDeferred, made, done, final⟩ := propagateFile_batch setup graph plan here'
  refine ⟨_, before, here', withDeferred, made, done, ?_⟩
  exact after.spares.trans final

theorem resolveTestFile_evolves (graph : CallGraph) (run : Run) (file : Nat) :
    Program.Evolves (· = file) run.program (resolveTestFile graph run file).program := by
  unfold resolveTestFile
  split
  · exact .refl _
  · exact run.applyBatch_evolves file _ _

theorem resolveTests_evolves (graph : CallGraph) (run : Run) :
    Program.Evolves (· ∈ run.testFiles) run.program (resolveTests graph run).program := by
  unfold resolveTests
  split
  · exact .refl _
  · exact Run.foldl_evolves (resolveTestFile_evolves graph) _ run

end Setup

namespace Loader

/-- A source is what was read from a disk. -/
def IsRead (disk : Disk) (root : String) (source : Source) : Prop :=
  ∃ path text, disk.read (Path.join root path) = .ok text ∧ source = Source.load path text

theorem readFile_isRead {disk : Disk} {root path : String} {file : LoadedFile}
    (loaded : readFile disk root path = .ok file) : IsRead disk root file.source := by
  unfold readFile at loaded
  split at loaded
  · cases loaded
  · rename_i text read
    refine ⟨path, text, read, ?_⟩
    unfold ofText at loaded
    dsimp only at loaded
    split at loaded
    · cases loaded
    · split at loaded
      · cases loaded
        rfl
      · cases loaded

/-- Every source of a group passes a test. -/
def Group.All (test : Source → Prop) (group : Group) : Prop := ∀ source ∈ group.sources, test source

theorem Group.all_add {test : Source → Prop} {file : LoadedFile} {groups : List Group} (passes : test file.source)
    (each : ∀ group ∈ groups, group.All test) : ∀ group ∈ Group.add file groups, group.All test := by
  induction groups with
  | nil =>
      intro group member
      cases List.mem_singleton.1 member
      intro source listed
      cases List.mem_singleton.1 listed
      exact passes
  | cons head groups ih =>
      obtain ⟨here, each⟩ := List.forall_mem_cons.1 each
      intro group member
      unfold Group.add at member
      split at member
      · rcases List.mem_cons.1 member with rfl | later
        · intro source listed
          rcases List.mem_append.1 listed with old | new
          · exact here source old
          · cases List.mem_singleton.1 new
            exact passes
        · exact each group later
      · rcases List.mem_cons.1 member with rfl | later
        · exact here
        · exact ih each group later

theorem Group.all_foldl_add {test : Source → Prop} {files : List LoadedFile} {groups : List Group}
    (passes : ∀ file ∈ files, test file.source) (each : ∀ group ∈ groups, group.All test) :
    ∀ group ∈ files.foldl (fun groups file => Group.add file groups) groups, group.All test := by
  induction files generalizing groups with
  | nil => exact each
  | cons file files ih =>
      obtain ⟨here, passes⟩ := List.forall_mem_cons.1 passes
      exact ih passes (Group.all_add here each)

theorem assemble_sources {test : Source → Prop} {modulePath : Option String} {files : List LoadedFile}
    (passes : ∀ file ∈ files, test file.source) : ∀ file ∈ (assemble modulePath files).files, test file.source := by
  intro file member
  obtain ⟨⟨⟨package, sources⟩, index⟩, listed, member⟩ := List.mem_flatMap.1 member
  obtain ⟨source, inside, rfl⟩ := List.mem_map.1 member
  obtain ⟨group, grouped, same⟩ := List.mem_map.1 (List.mem_mergeSort.1 (List.fst_mem_of_mem_zipIdx listed))
  cases same
  exact Group.all_foldl_add passes (by simp) group (List.mem_mergeSort.1 grouped) source inside

/-- The files of a loaded program are those on the disk. -/
theorem load_isRead {disk : Disk} {root : String} {selection : Selection} {program : Program}
    (loaded : load disk root selection = .ok program) : ∀ file ∈ program.files, IsRead disk root file.source := by
  unfold load at loaded
  split at loaded
  · cases loaded
  · rename_i globs _
    unfold loadWith at loaded
    obtain ⟨modulePath, _, loaded⟩ := exists_of_bind_eq_ok loaded
    obtain ⟨paths, _, loaded⟩ := exists_of_bind_eq_ok loaded
    obtain ⟨files, read, loaded⟩ := exists_of_bind_eq_ok loaded
    cases loaded
    refine assemble_sources fun file member => ?_
    obtain ⟨path, _, result⟩ := exists_of_mem_mapM read member
    exact readFile_isRead result

/-- A loaded program has the trees of its texts. -/
theorem load_isParsed {disk : Disk} {root : String} {selection : Selection} {program : Program}
    (loaded : load disk root selection = .ok program) : program.IsParsed := by
  intro file member
  obtain ⟨path, text, _, same⟩ := load_isRead loaded file member
  rw [same]
  exact Source.isParsed_load path text

end Loader

/-- A disk with one file, `main.go`. -/
def soleDisk (text : String) : Disk := ⟨.directory [("main.go", .file (.text text))], []⟩

end TraceWeave
