import TraceWeave.Imports

/-! Loaded programs: packages, and files that each belong to one of them. -/
namespace TraceWeave

/-- A package: the files of one directory with one package clause. `dir` is relative to the
workspace, `.` for its root; `isTest` marks the test package beside another one. -/
structure Package where
  importPath : String
  name : String
  dir : String
  isTest : Bool
deriving DecidableEq, Repr

/-- A file and the position of its package. -/
structure ProgramFile where
  source : Source
  package : Nat

/-- Packages and files, both in a fixed order. -/
structure Program where
  modulePath : Option String
  packages : List Package
  files : List ProgramFile

namespace Program

def package? (program : Program) (index : Nat) : Option Package := program.packages[index]?

def source? (program : Program) (index : Nat) : Option Source := program.files[index]?.map (·.source)

/-- The package of a file. -/
def packageOf? (program : Program) (index : Nat) : Option Package :=
  program.files[index]?.bind fun file => program.package? file.package

/-- Positions of the files of a package. -/
def filesOf (program : Program) (package : Nat) : List Nat :=
  (List.range program.files.length).filter fun index =>
    (program.files[index]?.map (·.package)) == some package

/-- Sources of a package. -/
def sourcesOf (program : Program) (package : Nat) : List Source :=
  (program.files.filter (·.package == package)).map (·.source)

/-- The position of the package with an import path, test packages apart. -/
def packageAt? (program : Program) (importPath : String) : Option Nat :=
  program.packages.findIdx? fun package => !package.isTest && package.importPath == importPath

/-- The declared name of the package with an import path. -/
def declaredName? (program : Program) (importPath : String) : Option String := do
  let index ← program.packageAt? importPath
  return (← program.package? index).name

/-- Imports of a source of the program. -/
def importsOf (program : Program) (source : Source) : Imports :=
  Imports.ofTree program.declaredName? source.text source.root

/-- Import paths of all files, in file order. -/
def importPaths (program : Program) : List String :=
  program.files.flatMap fun file => (program.importsOf file.source).paths

/-- Put another source in the place of a file. -/
def setSource (program : Program) (index : Nat) (source : Source) : Program :=
  { program with files := program.files.modify index fun file => { file with source } }

/-- Files that were changed, with their positions. -/
def dirtyFiles (program : Program) : List ProgramFile := program.files.filter (·.source.dirty)

end Program
end TraceWeave
