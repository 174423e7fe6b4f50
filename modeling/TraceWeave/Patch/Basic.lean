import TraceWeave.Failure
import TraceWeave.Patch.Hunk
import TraceWeave.Program
import TraceWeave.Total

/-! Patches: the differences of all changed files in the unified format. -/
namespace TraceWeave

open LineDiff (Change Pair)

/-- A file before and after a run. `package` is the import path of its package. -/
structure FileChange where
  package : String
  path : String
  old : String
  new : String
deriving DecidableEq, Repr

/-- The difference of one file. -/
structure FileDiff where
  path : String
  text : String
  added : Nat
  removed : Nat
deriving DecidableEq, Repr

namespace FileChange

/-- Kept lines around changes when nothing else is asked for. -/
def usualContext : Nat := 3

/-- The two lines that name a file, before its first hunk. -/
def fileHeader (path : String) : String := "--- a/" ++ path ++ "\n+++ b/" ++ path ++ "\n"

/-- The difference of a file. A file without hunks has no text. -/
def diff (change : FileChange) (context : Nat) : FileDiff :=
  let pair := Pair.ofTexts change.old change.new
  let changes := pair.changes
  let hunks := (Hunk.ofChanges context changes).map (Hunk.render pair)
  { path := change.path
    text := if hunks.isEmpty then "" else fileHeader change.path ++ String.join hunks
    added := Change.added changes
    removed := Change.removed changes }

/-- The order of files in a patch: by package, then by path. -/
def precedes (first second : FileChange) : Bool :=
  first.package < second.package || (first.package == second.package && first.path ≤ second.path)

/-- The changed files of a program, in the order of a patch. A changed file that is not Go any more
makes the program unfit for a patch. -/
def ofProgram (program : Program) : Except Failure (List FileChange) :=
  match program.dirtyFiles.find? (·.source.isBroken) with
  | some file => .error (.unrenderable file.source.path)
  | none =>
      .ok ((program.dirtyFiles.map fun file =>
        { package := ((program.package? file.package).map (·.importPath)).getD ""
          path := file.source.path
          old := file.source.loaded
          new := file.source.text }).mergeSort precedes)

end FileChange

/-- The differences of several files, in order. -/
structure Patch where
  files : List FileDiff
deriving DecidableEq, Repr

namespace Patch

def ofChanges (context : Nat) (changes : List FileChange) : Patch := ⟨changes.map (·.diff context)⟩

def text (patch : Patch) : String := String.join (patch.files.map (·.text))

def added (patch : Patch) : Nat := total (·.added) patch.files

def removed (patch : Patch) : Nat := total (·.removed) patch.files

/-- Length in bytes. -/
def size (patch : Patch) : Nat := Text.size patch.text

end Patch
end TraceWeave
