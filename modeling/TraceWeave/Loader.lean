import TraceWeave.Failure
import TraceWeave.Program
import TraceWeave.Selection

/-! Programs from directories: every selected file is parsed, and files with one directory and one
package clause are one package. -/
namespace TraceWeave
namespace Loader

/-- Lines of a text. A carriage return before the line feed belongs to the line end. -/
def lines (text : String) : List String :=
  (Text.splitAt '\n' text).map fun line => (Text.before? "\r" line).getD line

/-- The path after `module` on a line. -/
def moduleOnLine? (line : String) : Option String := do
  let rest ← Text.after? "module" (Text.trim line)
  let isQuote (c : Char) : Bool := c.toNat = 34
  let path := Text.dropEnd isQuote (Text.dropStart isQuote (Text.trim rest))
  if (rest.toList.head?.any Text.isBlank) && path != "" then some path else none

/-- The module path that a module file declares. -/
def modulePath? (text : String) : Option String := (lines text).findSome? moduleOnLine?

/-- The module path of a directory, if it has a module file. -/
def readModule (disk : Disk) (root : String) : Except LoadFailure (Option String) :=
  let path := Path.join root "go.mod"
  if disk.isFile path then
    match disk.read path with
    | .ok text => .ok (modulePath? text)
    | .error cause => .error (.unreadable "go.mod" cause)
  else .ok none

/-- Paths of the selected files below a root, relative to it. -/
def discoverWith (disk : Disk) (root : String) (exclude : List String) (globs : List (List Glob.Token)) :
    Except LoadFailure (List String) :=
  match disk.item? root with
  | some (.directory items) => .ok (Selection.filesBelow exclude globs (.directory items))
  | _ => .error (.notDirectory root)

/-- Paths of the selected files below a root. Patterns are looked at first. -/
def discover (disk : Disk) (root : String) (selection : Selection) : Except LoadFailure (List String) :=
  match Selection.globs selection.patterns with
  | .error pattern => .error (.badPattern pattern)
  | .ok globs => discoverWith disk root selection.exclude globs

/-- The directory part of a relative path, `.` if it has none. -/
def directoryOf (path : String) : String :=
  match (Text.splitAt '/' path).dropLast with
  | [] => "."
  | segments => Text.joinWith "/" segments

/-- The import path of a directory. -/
def importPathOf (modulePath : Option String) (directory : String) : String :=
  match modulePath with
  | some path => if directory == "." then path else path ++ "/" ++ directory
  | none => directory

/-- A file with its directory and the name in its package clause. -/
structure LoadedFile where
  source : Source
  directory : String
  package : String

/-- A text as a file of a program. -/
def ofText (path text : String) : Except LoadFailure LoadedFile :=
  let source := Source.load path text
  match source.tree.brokenAt with
  | some line => .error (.brokenSource path line)
  | none =>
      match source.packageName? with
      | some package => .ok ⟨source, directoryOf path, package⟩
      | none => .error (.noPackage path)

/-- Read and parse a file. -/
def readFile (disk : Disk) (root path : String) : Except LoadFailure LoadedFile :=
  match disk.read (Path.join root path) with
  | .error cause => .error (.unreadable path cause)
  | .ok text => ofText path text

/-- Files with one directory and package name. -/
structure Group where
  directory : String
  package : String
  sources : List Source

namespace Group

/-- Whether a group comes before another one: by directory, then by package name. -/
def goesBefore (a b : Group) : Bool :=
  decide (a.directory < b.directory) || (a.directory == b.directory && decide (a.package ≤ b.package))

/-- Add a file to its group, or start one. -/
def add (file : LoadedFile) : List Group → List Group
  | [] => [⟨file.directory, file.package, [file.source]⟩]
  | group :: groups =>
      if group.directory == file.directory && group.package == file.package then
        { group with sources := group.sources ++ [file.source] } :: groups
      else group :: add file groups

/-- Whether the group is the test package beside another one. -/
def isTest (group : Group) : Bool :=
  Text.finishesWith group.package "_test" && group.sources.all Source.isTest

/-- The package of a group. -/
def toPackage (modulePath : Option String) (group : Group) : Package :=
  let base := importPathOf modulePath group.directory
  { importPath := if group.isTest then base ++ "_test" else base
    name := group.package
    dir := group.directory
    isTest := group.isTest }

end Group

/-- Whether a package comes before another one: by import path, then by name. -/
def packageGoesBefore (a b : Package) : Bool :=
  decide (a.importPath < b.importPath) || (a.importPath == b.importPath && decide (a.name ≤ b.name))

/-- The program of loaded files. -/
def assemble (modulePath : Option String) (files : List LoadedFile) : Program :=
  let groups := (files.foldl (fun groups file => Group.add file groups) []).mergeSort Group.goesBefore
  let packages := (groups.map fun group => (group.toPackage modulePath, group.sources)).mergeSort
    fun a b => packageGoesBefore a.1 b.1
  { modulePath
    packages := packages.map (·.1)
    files := packages.zipIdx.flatMap fun ((_, sources), index) =>
      sources.map fun source => ⟨source, index⟩ }

/-- Load the selected files below a root. -/
def loadWith (disk : Disk) (root : String) (exclude : List String) (globs : List (List Glob.Token)) :
    Except LoadFailure Program := do
  let modulePath ← readModule disk root
  let paths ← discoverWith disk root exclude globs
  let files ← paths.mapM (readFile disk root)
  return assemble modulePath files

/-- Load the selected files below a root. Patterns are looked at first. -/
def load (disk : Disk) (root : String) (selection : Selection) : Except LoadFailure Program :=
  match Selection.globs selection.patterns with
  | .error pattern => .error (.badPattern pattern)
  | .ok globs => loadWith disk root selection.exclude globs

end Loader
end TraceWeave
