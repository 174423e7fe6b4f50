import TraceWeave.Source

/-! Imports of a file, and the names by which it refers to packages. -/
namespace TraceWeave

open Go (Node)

/-- One import. `name` is what the file calls the package; `_` and `.` are kept as written. -/
structure Import where
  name : String
  path : String
  explicit : Bool
deriving DecidableEq, Repr

namespace Import

/-- Whether a segment is a version like `v2`. -/
def isMajorVersion (segment : String) : Bool :=
  match segment.toList with
  | 'v' :: digits => !digits.isEmpty && digits.all Char.isDigit
  | _ => false

/-- What stands before the first `.v`. -/
def beforeVersion : List Char → List Char
  | '.' :: 'v' :: _ => []
  | c :: cs => c :: beforeVersion cs
  | [] => []

/-- The name of a package that is not loaded, from its path: the last segment that is no major
version, without the version selector of `gopkg.in`, and with underscores for hyphens. -/
def defaultName (path : String) : String :=
  let segments := (Text.splitAt '/' path).filter (· != "")
  let segments :=
    if segments.length > 1 && (segments.getLast?.map isMajorVersion).getD false then segments.dropLast
    else segments
  let last := (segments.getLast?.getD path).toList
  let last := if Text.beginsWith path "gopkg.in/" then beforeVersion last else last
  String.ofList (last.map fun c => if c == '-' then '_' else c)

/-- A path without its quotation marks. -/
def unquote (literal : String) : String :=
  let isQuote (c : Char) : Bool := c.toNat = 34 || c.toNat = 96
  Text.dropEnd isQuote (Text.dropStart isQuote literal)

/-- The import of a specification. A loaded package is called by its declared name. -/
def ofSpec? (packageName : String → Option String) (source : String) (spec : Node) : Option Import := do
  let path := unquote ((← spec.child? .path).text source)
  match spec.child? .name with
  | some name => return ⟨name.text source, path, true⟩
  | none => return ⟨(packageName path).getD (defaultName path), path, false⟩

end Import

/-- Imports of one file, in document order. -/
structure Imports where
  entries : List Import
deriving Repr

namespace Imports

/-- Imports of a tree, where `packageName` knows the declared names of loaded packages. -/
def ofTree (packageName : String → Option String) (source : String) (root : Node) : Imports :=
  ⟨(root.descendants.filter (·.kind == .importSpec)).filterMap (Import.ofSpec? packageName source)⟩

def paths (imports : Imports) : List String := imports.entries.map (·.path)

def hasPath (imports : Imports) (path : String) : Bool := imports.paths.contains path

/-- Whether an import binds a name that can be used. -/
def binds (entry : Import) : Bool := entry.name != "_" && entry.name != "."

/-- The path behind a package name. -/
def pathFor? (imports : Imports) (name : String) : Option String :=
  if name == "_" || name == "." then none
  else (imports.entries.find? (·.name == name)).map (·.path)

/-- The name behind a path. -/
def nameFor? (imports : Imports) (path : String) : Option String :=
  (imports.entries.find? fun entry => entry.path == path && binds entry).map (·.name)

/-- Names the imports bring into the file. -/
def names (imports : Imports) : List String := (imports.entries.filter binds).map (·.name)

/-- What the file calls a package, or would call it after importing it. -/
def callName (imports : Imports) (path : String) : String :=
  (imports.nameFor? path).getD (Import.defaultName path)

end Imports
end TraceWeave
