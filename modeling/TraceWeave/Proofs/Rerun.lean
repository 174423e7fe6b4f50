import TraceWeave.Proofs.Acceptance
import TraceWeave.Proofs.FileHistory
import TraceWeave.Proofs.Loading
import TraceWeave.Proofs.Qualifiers
import TraceWeave.Proofs.Standstill

/-!
Running again on what a run has left. The files are loaded with the texts they were left with, and nothing else is
remembered of the first run. The second run leaves all of them alone exactly if it recognises what it finds: code that
stands beside its statement, functions that take the handle, calls that hand it on, an agent that is made.
-/
namespace TraceWeave

/-! Loading what was written. -/

/-- A disk to which a program has been written. The same files are found, a file that was changed holds its new
text, and any other one holds what it held before. -/
structure Program.WrittenTo (program : Program) (disk after : Disk) (root : String) (selection : Selection) : Prop where
  found : Loader.discover after root selection = Loader.discover disk root selection
  changed : ∀ file ∈ program.files, file.source.dirty = true →
    after.read (Path.join root file.source.path) = .ok file.source.text
  others : ∀ file ∈ program.files, file.source.dirty = false →
    after.read (Path.join root file.source.path) = disk.read (Path.join root file.source.path)

section

variable {disk after : Disk} {root : String} {selection : Selection} {program left again : Program}
  {touched : Nat → Prop}

/-- Every file holds its text. -/
theorem Program.WrittenTo.read (written : left.WrittenTo disk after root selection)
    (loaded : Loader.load disk root selection = .ok program) (evolves : Program.Evolves touched program left)
    {file : ProgramFile} (member : file ∈ left.files) :
    after.read (Path.join root file.source.path) = .ok file.source.text := by
  cases marked : file.source.dirty with
  | true => exact written.changed file member marked
  | false =>
      obtain ⟨index, bound, rfl⟩ := List.mem_iff_getElem.1 member
      obtain ⟨old, here⟩ : ∃ old, program.files[index]? = some old :=
        ⟨_, List.getElem?_eq_getElem (evolves.size ▸ bound)⟩
      obtain ⟨file, here', _, kept, _⟩ := evolves.files index old here
      obtain rfl := Option.some.inj (here'.symm.trans (List.getElem?_eq_getElem bound))
      obtain ⟨path, text, read, same⟩ := Loader.load_isRead loaded old (List.mem_of_getElem? here)
      rw [written.others _ member marked, kept.clean marked, same]
      exact read

/-- What is loaded again are the files as they were left. -/
theorem Program.WrittenTo.reload (written : left.WrittenTo disk after root selection)
    (loaded : Loader.load disk root selection = .ok program) (evolves : Program.Evolves touched program left)
    (reloaded : Loader.load after root selection = .ok again) :
    (again.files.map (·.source)).Perm (left.files.map fun file => .load file.source.path file.source.text) := by
  obtain ⟨paths, found, whole⟩ := Loader.exists_discover loaded
  obtain ⟨paths', found', whole'⟩ := Loader.exists_discover reloaded
  obtain rfl : paths' = paths := Except.ok.inj (found'.symm.trans (written.found.trans found))
  -- On both sides a file is what stands at its path.
  let there (path : String) : Source := .load path ((after.read (Path.join root path)).toOption.getD "")
  have fresh : ∀ file ∈ again.files, file.source = there file.source.path := by
    intro file member
    obtain ⟨path, text, read, same⟩ := Loader.load_isRead reloaded file member
    simp only [same, Source.load, there, read, Except.toOption, Option.getD_some]
  have kept : ∀ file ∈ left.files, Source.load file.source.path file.source.text = there file.source.path := by
    intro file member
    simp only [there, written.read loaded evolves member, Except.toOption, Option.getD_some]
  rw [List.map_congr_left fresh, List.map_congr_left kept]
  have perm := (whole'.trans whole.symm).map there
  rw [← evolves.paths, List.map_map, List.map_map] at perm
  exact perm

end

namespace Setup

variable {setup : Setup} {graph : CallGraph} {program : Program}

/-- What a run finds done. A file in which there is no name for new code is left out. -/
structure Recognises (setup : Setup) (graph : CallGraph) (program : Program) : Prop where
  /-- Statements have the code that they get in the first pass. -/
  statements : ∀ (file : Nat) entry, program.files[file]? = some entry → entry.source.isTest = false →
    ∀ package ∈ program.packageOf? file, (setup.planInjections program file).isOk = true →
      setup.Covered program entry package.name
  /-- No function takes the handle anew, no call names one that does, and requests that still wait for the handle
  are where it is not known. -/
  handles : ∀ (file : Nat) entry, program.files[file]? = some entry → entry.source.isTest = false →
    let site := setup.siteOf graph program (setup.inject (Run.ofProgram program setup)).seeds entry
    site.FileSettled (site.fileEdits true).isOk
  /-- No call in a test file names a function that takes the handle. -/
  tests : ∀ (file : Nat) entry, program.files[file]? = some entry → entry.source.isTest = true →
    let plan := HandlePlan.compute graph (setup.inject (Run.ofProgram program setup)).seeds
    ∀ owner call callee, ¬ (CallView.mk graph plan.widens program entry).Names owner call callee
  /-- No `main` refers to the agent without making it. -/
  agents : setup.settings.bootstrap = true → ∀ (file : Nat) entry, program.files[file]? = some entry →
    entry.source.isTest = false → (program.packageOf? file).any (·.name == "main") = true →
      (bootstrapEdits setup.settings (program.importsOf entry.source) entry.source).isOk = true →
        ¬ LacksAgent setup.settings entry.source

/-- Over parsed files no batch is refused, so what is left to do is what is not recognised. -/
theorem settled_iff (builtIn : setup.catalog = Catalog.builtIn) (parsed : program.IsParsed) :
    setup.Settled graph program ↔ setup.Recognises graph program := by
  have accepts : ∀ {file : Nat} {entry : ProgramFile} {edits : List Edit}, program.files[file]? = some entry →
      setup.Hands graph (Run.ofProgram program setup) file edits → ¬ entry.source.Refuses edits := by
    rintro file entry edits here hands ⟨error, refused⟩
    obtain ⟨changed, applied⟩ := hands.accepted builtIn parsed (Program.source?_of_getElem? here)
    cases refused.symm.trans applied
  constructor
  · intro settled
    refine ⟨?_, ?_, ?_, ?_⟩
    · intro file entry here production package known plans
      obtain ⟨plan, planned⟩ := exists_of_isOk plans
      exact (settled.statements file entry here production package known plan planned).resolve_right
        (accepts here (.injections planned))
    · intro file entry here production site
      let start : Run := { Run.ofProgram program setup with seeds := (setup.inject (Run.ofProgram program setup)).seeds }
      have here' : start.program.files[file]? = some entry := here
      obtain ⟨_, made, _, _, done, _⟩ :=
        propagateFile_step setup graph (HandlePlan.compute graph start.seeds) here'
      have hands : setup.Hands graph (Run.ofProgram program setup) file made.edits := by
        refine .handles rfl rfl ?_ done
        exact Program.source?_of_getElem? here
      exact (settled.handles file entry here production made done).resolve_right (accepts here hands)
    · intro file entry here test plan
      exact (settled.tests file entry here test).resolve_right (accepts here (.testCalls _ here))
    · intro wanted file entry here production main makes
      obtain ⟨edits, done⟩ := exists_of_isOk makes
      exact (settled.agents wanted file entry here ⟨production, main⟩ edits done).resolve_right
        (accepts here (.agent (Program.source?_of_getElem? here) done))
  · intro recognises
    refine ⟨?_, ?_, ?_, ?_⟩
    · intro file entry here production package known plan planned
      exact .inl (recognises.statements file entry here production package known (by rw [planned]; rfl))
    · intro file entry here production made done
      exact .inl (recognises.handles file entry here production)
    · intro file entry here test
      exact .inl (recognises.tests file entry here test)
    · rintro wanted file entry here ⟨production, main⟩ edits done
      exact .inl (recognises.agents wanted file entry here production main (by rw [done]; rfl))

end Setup

/-- The setup for a program, with the libraries that are supported. -/
def Settings.setup (settings : Settings) (program : Program) : Setup := .ofProgram program Catalog.builtIn settings

/-- A whole run over a program, as far as settings leave it open. -/
def Settings.weave (settings : Settings) (program : Program) : Run :=
  (settings.setup program).weave (.build program settings.handle) (.ofProgram program (settings.setup program))

theorem routed_writtenTo (before text : String) :
    (routed before text).program.WrittenTo (soleDisk before) (soleDisk text) "/" {} := by
  have found (text : String) : Loader.discover (soleDisk text) "/" {} = .ok ["main.go"] := Loader.discoverWith_soleDisk
  refine ⟨(found text).trans (found before).symm, ?_, ?_⟩
  · intro file member _
    rw [List.mem_singleton.1 member]
    exact Loader.read_soleDisk
  · intro file member clean
    rw [List.mem_singleton.1 member] at clean
    cases clean

end TraceWeave
