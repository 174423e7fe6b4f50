import TraceWeave.Config.Basic
import TraceWeave.Loader
import TraceWeave.Patch.Basic
import TraceWeave.Weave.Run

/-! A run over a workspace, from its files to a patch. -/
namespace TraceWeave

/-- A directory with a Go program, and how to weave it. -/
structure Workspace where
  root : String
  configuration : Configuration
  catalog : Catalog := Catalog.builtIn

/-- What a run tells while it goes on. -/
inductive Progress where
  /-- A step begins; steps are counted from zero. -/
  | step (index : Nat)
  | loaded (packages files : Nat)
  /-- The difference of a file is there. -/
  | file (diff : FileDiff)
deriving DecidableEq, Repr

namespace Progress

/-- Names of the steps, in order. -/
def stepNames : List String :=
  ["Loading packages", "Detecting dependencies", "Tracing package calls", "Scanning application",
    "Instrumenting application", "Resolving unit tests", "Adding required modules",
    "Writing diff file"]

/-- Steps after the first one. -/
def laterSteps : List Progress := (List.range stepNames.length).tail.map .step

/-- What was done to a file. -/
def describe (diff : FileDiff) : String :=
  "instrumented " ++ diff.path ++ " (+" ++ toString diff.added ++ " -" ++ toString diff.removed ++ ")"

def render : Progress → String
  | .step index =>
      toString index ++ "/" ++ toString stepNames.length ++ " " ++ (stepNames[index]?.getD "")
  | .loaded packages files => "loaded " ++ toString packages ++ " " ++ toString files
  | .file diff => "file " ++ diff.path ++ ": " ++ describe diff

end Progress

/-- What a run that ended well has done. -/
structure Report where
  outputPath : String
  summary : RunSummary
  added : Nat
  removed : Nat
  findings : List Diagnostic
deriving DecidableEq, Repr

/-- How a run has ended, what it told, and the files after it. -/
structure Outcome where
  result : Except Failure Report
  progress : List Progress
  disk : Disk

namespace Workspace

/-- Where the patch goes. -/
def outputPath (workspace : Workspace) : String :=
  Path.join workspace.root workspace.configuration.patchName

/-- Why a patch cannot go to a path. -/
def outputProblem? (disk : Disk) (path : String) : Option Failure :=
  let parent := match Path.parent? path with
    | some "" | none => "."
    | some parent => parent
  if Path.extension? path != some "diff" then some (.outputPath path "file name must end in .diff")
  else if disk.isDirectory path then some (.outputPath path "path is a directory")
  else if !disk.isDirectory parent then
    some (.outputPath path ("directory " ++ parent ++ " does not exist"))
  else none

/-- How a loaded program is woven. -/
def setup (workspace : Workspace) (program : Program) : Setup :=
  Setup.ofProgram program workspace.catalog workspace.configuration.settings

/-- The run over a loaded program. -/
def weave (workspace : Workspace) (program : Program) : Run :=
  let setup := workspace.setup program
  setup.weave (CallGraph.build program setup.settings.handle) (Run.ofProgram program setup)

/-- Write the patch of a run. -/
def write (workspace : Workspace) (disk : Disk) (summary : RunSummary) (run : Run)
    (progress : List Progress) : Outcome :=
  match FileChange.ofProgram run.program with
  | .error failure => ⟨.error failure, progress, disk⟩
  | .ok changes =>
      let patch := Patch.ofChanges FileChange.usualContext changes
      let progress := progress ++ patch.files.map .file
      match disk.write workspace.outputPath patch.text with
      | .error cause => ⟨.error (.unwritable cause), progress, disk⟩
      | .ok written =>
          ⟨.ok ⟨workspace.outputPath, summary, patch.added, patch.removed, run.findings⟩, progress, written⟩

/-- Run every step. Only the last one changes a file, and only if all went well. -/
def run (workspace : Workspace) (disk : Disk) : Outcome :=
  match outputProblem? disk workspace.outputPath with
  | some problem => ⟨.error problem, [], disk⟩
  | none =>
      match Loader.load disk workspace.root workspace.configuration.selection with
      | .error cause => ⟨.error (.load cause), [.step 0], disk⟩
      | .ok program =>
          let woven := workspace.weave program
          workspace.write disk ((workspace.setup program).summary woven) woven
            ([.step 0, .loaded program.packages.length program.files.length] ++ Progress.laterSteps)

end Workspace
end TraceWeave
