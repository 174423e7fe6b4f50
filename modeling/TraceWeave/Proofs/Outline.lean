import TraceWeave.Proofs.Evolution

/-!
What has to be known of a program or a run to know all of it. Trees are those of the texts, so two runs with
the same texts, findings and records are one run, and a run can be followed stage by stage.
-/
namespace TraceWeave

/-- A program without the trees of its files. -/
structure Outline where
  modulePath : Option String
  packages : List Package
  /-- Path, loaded text, text, mark and package of each file. -/
  files : List (String × String × String × Bool × Nat)
deriving DecidableEq

/-- A run without the trees of its files. -/
structure RunOutline extends Outline where
  findings : List Diagnostic
  imports : List (Nat × String)
  seeds : List FunctionKey
  widened : List Nat
deriving DecidableEq

namespace Program

def outline (program : Program) : Outline :=
  ⟨program.modulePath, program.packages, program.files.map fun file =>
    (file.source.path, file.source.loaded, file.source.text, file.source.dirty, file.package)⟩

variable {program other : Program}

/-- Files that agree but for their trees agree, if the trees are those of the texts. -/
theorem file_eq_of_outline {file file' : ProgramFile} (parsed : file.source.IsParsed) (parsed' : file'.source.IsParsed)
    (same : (file.source.path, file.source.loaded, file.source.text, file.source.dirty, file.package) =
      (file'.source.path, file'.source.loaded, file'.source.text, file'.source.dirty, file'.package)) :
    file = file' := by
  obtain ⟨⟨path, loaded, text, tree, dirty⟩, package⟩ := file
  obtain ⟨⟨path', loaded', text', tree', dirty'⟩, package'⟩ := file'
  simp only [Prod.mk.injEq] at same
  obtain ⟨rfl, rfl, rfl, rfl, rfl⟩ := same
  simp only [Source.IsParsed] at parsed parsed'
  rw [parsed, parsed']

theorem eq_of_outline (parsed : program.IsParsed) (parsed' : other.IsParsed) (same : program.outline = other.outline) :
    program = other := by
  obtain ⟨modulePath, packages, files⟩ := program
  obtain ⟨modulePath', packages', files'⟩ := other
  simp only [outline, Outline.mk.injEq] at same
  obtain ⟨rfl, rfl, same⟩ := same
  congr 1
  refine List.ext_getElem? fun index => ?_
  have entry := congrArg (·[index]?) same
  rw [List.getElem?_map, List.getElem?_map] at entry
  cases first : files[index]? with
  | none =>
      rw [first] at entry
      exact (Option.map_eq_none_iff.1 entry.symm).symm
  | some file =>
      rw [first] at entry
      obtain ⟨file', second, agree⟩ := Option.map_eq_some_iff.1 entry.symm
      rw [second, file_eq_of_outline (parsed file (List.mem_of_getElem? first))
        (parsed' file' (List.mem_of_getElem? second)) agree.symm]

end Program

namespace Run

def outline (run : Run) : RunOutline := ⟨run.program.outline, run.findings, run.imports, run.seeds, run.widened⟩

theorem eq_of_outline {run other : Run} (parsed : run.program.IsParsed) (parsed' : other.program.IsParsed)
    (same : run.outline = other.outline) : run = other := by
  obtain ⟨program, findings, imports, seeds, widened⟩ := run
  obtain ⟨program', findings', imports', seeds', widened'⟩ := other
  simp only [outline, RunOutline.mk.injEq] at same
  obtain ⟨same, rfl, rfl, rfl, rfl⟩ := same
  have whole : program = program' := Program.eq_of_outline parsed parsed' same
  rw [whole]

end Run

end TraceWeave
