import Mathlib.Data.String.Basic
import TraceWeave.Proofs.Disk
import TraceWeave.Proofs.FileHistory
import TraceWeave.Workspace

/-!
A run over the files of a disk, all or nothing. A run that fails leaves every file as it was. One that
ends well has written the patch and nothing else.
-/
namespace TraceWeave

namespace FileChange

variable {first second : FileChange}

/-- How a file of a program has changed. -/
def ofFile (program : Program) (file : ProgramFile) : FileChange :=
  { package := ((program.package? file.package).map (·.importPath)).getD ""
    path := file.source.path
    old := file.source.loaded
    new := file.source.text }

theorem precedes_iff : first.precedes second = true ↔
    first.package < second.package ∨ first.package = second.package ∧ first.path ≤ second.path := by
  simp [precedes]

theorem precedes_trans (first second third : FileChange) (before : first.precedes second = true)
    (after : second.precedes third = true) : first.precedes third = true := by
  rw [precedes_iff] at before after ⊢
  rcases before with less | ⟨same, low⟩
  · rcases after with less' | ⟨same', _⟩
    · exact .inl (less.trans less')
    · exact .inl (same' ▸ less)
  · rcases after with less' | ⟨same', low'⟩
    · exact .inl (same ▸ less')
    · exact .inr ⟨same.trans same', low.trans low'⟩

theorem precedes_total (first second : FileChange) : (first.precedes second || second.precedes first) = true := by
  rw [Bool.or_eq_true, precedes_iff, precedes_iff]
  rcases lt_trichotomy first.package second.package with less | same | more
  · exact .inl (.inl less)
  · rcases le_total first.path second.path with low | high
    · exact .inl (.inr ⟨same, low⟩)
    · exact .inr (.inr ⟨same.symm, high⟩)
  · exact .inr (.inl more)

theorem pairwise_mergeSort_precedes (changes : List FileChange) :
    (changes.mergeSort precedes).Pairwise fun first second => first.precedes second = true :=
  List.pairwise_mergeSort precedes_trans precedes_total changes

end FileChange

/-- The first changed file of a program that is not Go any more. -/
def Program.FirstBroken (program : Program) (file : ProgramFile) : Prop :=
  ∃ before after, program.files = before ++ file :: after ∧ file.source.dirty = true ∧ file.source.isBroken = true ∧
    ∀ earlier ∈ before, earlier.source.dirty = true → earlier.source.isBroken = false

namespace Program

variable {program : Program} {file : ProgramFile}

theorem firstBroken_iff : program.FirstBroken file ↔ program.dirtyFiles.find? (·.source.isBroken) = some file := by
  rw [dirtyFiles, List.find?_filter, List.find?_eq_some_iff_append]
  constructor
  · rintro ⟨before, after, split, dirty, broken, each⟩
    refine ⟨by simp [dirty, broken], before, after, split, fun earlier listed => ?_⟩
    by_cases marked : earlier.source.dirty = true
    · simp [each earlier listed marked]
    · simp [marked]
  · rintro ⟨both, before, after, split, each⟩
    obtain ⟨dirty, broken⟩ := of_decide_eq_true both
    refine ⟨before, after, split, dirty, broken, fun earlier listed marked => ?_⟩
    simpa [marked] using each earlier listed

theorem find?_eq_none_iff_sound : program.dirtyFiles.find? (·.source.isBroken) = none ↔
    ∀ file ∈ program.dirtyFiles, file.source.isBroken = false := by
  simp [List.find?_eq_none]

end Program

namespace FileChange

variable {program : Program} {failure : Failure} {changes : List FileChange}

theorem ofProgram_eq_error_iff : ofProgram program = .error failure ↔
    ∃ file, program.FirstBroken file ∧ failure = .unrenderable file.source.path := by
  unfold ofProgram
  split
  · rename_i broken found
    constructor
    · intro same
      exact ⟨broken, Program.firstBroken_iff.2 found, (Except.error.inj same).symm⟩
    · rintro ⟨file, first, rfl⟩
      cases found.symm.trans (Program.firstBroken_iff.1 first)
      rfl
  · rename_i none
    constructor
    · intro contrary
      cases contrary
    · rintro ⟨file, first, _⟩
      cases none.symm.trans (Program.firstBroken_iff.1 first)

/-- The changes of a program that is still one, in the order of a patch. -/
theorem ofProgram_spec (done : ofProgram program = .ok changes) :
    (∀ file ∈ program.dirtyFiles, file.source.isBroken = false) ∧
      changes.Perm (program.dirtyFiles.map (ofFile program)) ∧
      changes.Pairwise (fun first second => first.precedes second = true) := by
  unfold ofProgram at done
  split at done
  · cases done
  · rename_i none
    cases done
    exact ⟨Program.find?_eq_none_iff_sound.1 none, List.mergeSort_perm _ _, pairwise_mergeSort_precedes _⟩

end FileChange

namespace Workspace

variable {workspace : Workspace} {disk : Disk} {program : Program}

/-- The differences of a program are written to where the patch goes, and to no other place. -/
structure Delivers (workspace : Workspace) (before after : Disk) (woven : Program) (changes : List FileChange) :
    Prop where
  sound : ∀ file ∈ woven.dirtyFiles, (Go.Tree.parse file.source.text).isBroken = false
  whole : changes.Perm (woven.dirtyFiles.map (FileChange.ofFile woven))
  ordered : changes.Pairwise fun first second =>
    first.package < second.package ∨ first.package = second.package ∧ first.path ≤ second.path
  old : ∀ change ∈ changes, before.read (Path.join workspace.root change.path) = .ok change.old
  writes : before.Writes after workspace.outputPath
    (String.join (changes.map fun change => (change.diff FileChange.usualContext).text))

theorem weave_follows (loaded : Loader.load disk workspace.root workspace.configuration.selection = .ok program) :
    ∀ file ∈ (workspace.weave program).program.files, ∃ text batches,
      disk.read (Path.join workspace.root file.source.path) = .ok text ∧
        file.source.Follows file.source.path text batches :=
  Setup.weave_follows loaded _ _

theorem text_ofChanges (context : Nat) (changes : List FileChange) :
    (Patch.ofChanges context changes).text = String.join (changes.map fun change => (change.diff context).text) := by
  rw [Patch.text, Patch.ofChanges, List.map_map]
  rfl

/-- How a run over a workspace ends, with the disk after it. -/
inductive Ends (workspace : Workspace) (disk : Disk) : Except Failure Report → Disk → Prop where
  | misplaced {path reason : String}
      (problem : outputProblem? disk workspace.outputPath = some (.outputPath path reason)) :
      Ends workspace disk (.error (.outputPath path reason)) disk
  | unloaded {cause : LoadFailure} (placed : outputProblem? disk workspace.outputPath = none)
      (refused : Loader.load disk workspace.root workspace.configuration.selection = .error cause) :
      Ends workspace disk (.error (.load cause)) disk
  | unrenderable {program : Program} {file : ProgramFile} (placed : outputProblem? disk workspace.outputPath = none)
      (loaded : Loader.load disk workspace.root workspace.configuration.selection = .ok program)
      (first : (workspace.weave program).program.FirstBroken file) :
      Ends workspace disk (.error (.unrenderable file.source.path)) disk
  | unwritable {program : Program} (placed : outputProblem? disk workspace.outputPath = none)
      (loaded : Loader.load disk workspace.root workspace.configuration.selection = .ok program)
      (sound : ∀ file, ¬ (workspace.weave program).program.FirstBroken file) (cause : Disk.WriteError) :
      Ends workspace disk (.error (.unwritable cause)) disk
  | written {program : Program} {changes : List FileChange} {after : Disk}
      (placed : outputProblem? disk workspace.outputPath = none)
      (loaded : Loader.load disk workspace.root workspace.configuration.selection = .ok program)
      (sound : ∀ file, ¬ (workspace.weave program).program.FirstBroken file)
      (delivers : workspace.Delivers disk after (workspace.weave program).program changes) (report : Report) :
      Ends workspace disk (.ok report) after

theorem exists_of_outputProblem? {path : String} {problem : Failure} (found : outputProblem? disk path = some problem) :
    ∃ reason, problem = .outputPath path reason := by
  unfold outputProblem? at found
  extract_lets parent at found
  split at found
  · exact ⟨_, (Option.some.inj found).symm⟩
  · split at found
    · exact ⟨_, (Option.some.inj found).symm⟩
    · split at found
      · exact ⟨_, (Option.some.inj found).symm⟩
      · cases found

theorem write_ends {progress : List Progress} (placed : outputProblem? disk workspace.outputPath = none)
    (loaded : Loader.load disk workspace.root workspace.configuration.selection = .ok program)
    (summary : RunSummary) :
    workspace.Ends disk (workspace.write disk summary (workspace.weave program) progress).result
      (workspace.write disk summary (workspace.weave program) progress).disk := by
  unfold write
  cases done : FileChange.ofProgram (workspace.weave program).program with
  | error failure =>
      obtain ⟨file, first, rfl⟩ := FileChange.ofProgram_eq_error_iff.1 done
      exact .unrenderable placed loaded first
  | ok changes =>
      obtain ⟨sound, whole, ordered⟩ := FileChange.ofProgram_spec done
      have none : ∀ file, ¬ (workspace.weave program).program.FirstBroken file := by
        intro file first
        cases done.symm.trans (FileChange.ofProgram_eq_error_iff.2 ⟨file, first, rfl⟩)
      dsimp only
      split
      · rename_i cause _
        exact .unwritable placed loaded none cause
      · rename_i after written
        refine .written placed loaded none ⟨?_, whole, ordered.imp FileChange.precedes_iff.1, ?_, ?_⟩ _
        · intro file dirty
          obtain ⟨_, _, _, follows⟩ := weave_follows loaded file (List.mem_filter.1 dirty).1
          have parsed : file.source.tree = Go.Tree.parse file.source.text := follows.parsed
          rw [← parsed]
          exact sound file dirty
        · intro change listed
          obtain ⟨file, dirty, rfl⟩ := List.mem_map.1 (whole.mem_iff.1 listed)
          obtain ⟨text, _, read, follows⟩ := weave_follows loaded file (List.mem_filter.1 dirty).1
          rw [FileChange.ofFile, follows.loaded]
          exact read
        · rw [← text_ofChanges]
          exact Disk.write_writes written

theorem run_ends (workspace : Workspace) (disk : Disk) :
    workspace.Ends disk (workspace.run disk).result (workspace.run disk).disk := by
  unfold run
  split
  · rename_i problem found
    obtain ⟨reason, rfl⟩ := exists_of_outputProblem? found
    exact .misplaced found
  · rename_i placed
    split
    · rename_i cause refused
      exact .unloaded placed refused
    · rename_i program loaded
      exact write_ends placed loaded _

theorem Ends.spares {failure : Failure} {after : Disk} (ends : workspace.Ends disk (.error failure) after) : after = disk := by
  cases ends with
  | misplaced _ => rfl
  | unloaded _ _ => rfl
  | unrenderable _ _ _ => rfl
  | unwritable _ _ _ _ => rfl

/-- A run that has loaded its program stops at a file that is broken, or comes to write the patch. -/
theorem Ends.of_loaded {result : Except Failure Report} {after : Disk} (ends : workspace.Ends disk result after)
    (placed : outputProblem? disk workspace.outputPath = none)
    (loaded : Loader.load disk workspace.root workspace.configuration.selection = .ok program) :
    (∃ file, (workspace.weave program).program.FirstBroken file ∧ result = .error (.unrenderable file.source.path)) ∨
      (∀ file, ¬ (workspace.weave program).program.FirstBroken file) ∧
        ((∃ report, result = .ok report) ∨ ∃ cause, result = .error (.unwritable cause)) := by
  cases ends with
  | misplaced problem => cases placed.symm.trans problem
  | unloaded _ refused => cases loaded.symm.trans refused
  | unrenderable _ loaded' first =>
      cases Except.ok.inj (loaded.symm.trans loaded')
      exact .inl ⟨_, first, rfl⟩
  | unwritable _ loaded' sound cause =>
      cases Except.ok.inj (loaded.symm.trans loaded')
      exact .inr ⟨sound, .inr ⟨cause, rfl⟩⟩
  | written _ loaded' sound _ report =>
      cases Except.ok.inj (loaded.symm.trans loaded')
      exact .inr ⟨sound, .inl ⟨report, rfl⟩⟩

end Workspace
end TraceWeave
