import TraceWeave.Disk.Path

/-! Files and directories as values. -/
namespace TraceWeave

/-- What a file holds. -/
inductive Content where
  | text (text : String)
  /-- Bytes that are not UTF-8. -/
  | binary
deriving DecidableEq, Repr

/-- A file, or a directory with its items by name. -/
inductive Item where
  | file (content : Content)
  | directory (items : List (String × Item))
deriving Repr, Inhabited

namespace Item

def empty : Item := .directory []

def isDirectory : Item → Bool
  | .directory _ => true
  | .file _ => false

def isFile (item : Item) : Bool := !item.isDirectory

/-- Items of a directory. -/
def items : Item → List (String × Item)
  | .directory items => items
  | .file _ => []

def item? (item : Item) (name : String) : Option Item :=
  (item.items.find? (·.1 == name)).map (·.2)

/-- A directory with an item put in under a name. -/
def set (item : Item) (name : String) (child : Item) : Item :=
  .directory (item.items.filter (·.1 != name) ++ [(name, child)])

/-- A tree with an item put in at the end of a way. Missing directories on the way are made. -/
def put (item child : Item) : List String → Item
  | [] => child
  | name :: names => item.set name (put ((item.item? name).getD empty) child names)

/-- The item at the end of a way of names. -/
def follow? (item : Item) : List String → Option Item
  | [] => some item
  | name :: names => (item.item? name).bind fun child => follow? child names

end Item

/-- Everything that can be read or written: the tree from `/` on, and the working directory. -/
structure Disk where
  top : Item
  here : List String

namespace Disk

/-- Names from `/` on to where segments lead, going from a directory. Every segment, idle ones
included, has to start from a directory. -/
def wayFrom? (disk : Disk) : List String → List String → Option (List String)
  | way, [] => some way
  | way, segment :: rest =>
      match disk.top.follow? way with
      | some (.directory items) =>
          if Path.isIdle segment then wayFrom? disk way rest
          else if segment == ".." then wayFrom? disk way.dropLast rest
          else if items.any (·.1 == segment) then wayFrom? disk (way ++ [segment]) rest
          else none
      | _ => none

/-- Names from `/` on to where a path leads. The empty path leads nowhere. -/
def way? (disk : Disk) (path : String) : Option (List String) :=
  if path == "" then none
  else disk.wayFrom? (if Path.isAbsolute path then [] else disk.here) (Path.segments path)

def item? (disk : Disk) (path : String) : Option Item := (disk.way? path).bind disk.top.follow?

def has (disk : Disk) (path : String) : Bool := (disk.item? path).isSome

def isDirectory (disk : Disk) (path : String) : Bool := (disk.item? path).any Item.isDirectory

def isFile (disk : Disk) (path : String) : Bool := (disk.item? path).any Item.isFile

/-- The absolute path of the working directory. -/
def workingDirectory (disk : Disk) : String := "/" ++ Path.ofSegments disk.here

/-- Why a text cannot be read. -/
inductive ReadError where
  | missing | directory | notText
deriving DecidableEq, Repr

/-- The text of a file. -/
def read (disk : Disk) (path : String) : Except ReadError String :=
  match disk.item? path with
  | some (.file (.text text)) => .ok text
  | some (.file .binary) => .error .notText
  | some (.directory _) => .error .directory
  | none => .error .missing

/-- Longest name of a file, in bytes. -/
def longestName : Nat := 255

/-- Why a file cannot be written. -/
inductive WriteError where
  /-- There is no directory to write to. -/
  | missing
  /-- The path leads on behind what would be the file. -/
  | notDirectory
  /-- A directory stands in the place of the file. -/
  | directory
  | longName
  /-- No file can have the name. -/
  | badName
deriving DecidableEq, Repr

/-- Why no file can have a name. -/
def nameProblem? (name : String) : Option WriteError :=
  if name == "" || name == "." then some .notDirectory
  else if name == ".." then some .directory
  else if longestName < name.utf8ByteSize then some .longName
  else if name.toList.contains (Char.ofNat 0) then some .badName
  else none

/-- Write a file. Its directory has to be there, no directory may stand in its place, and the path has
to end with its name. -/
def write (disk : Disk) (path text : String) : Except WriteError Disk :=
  let name := (Path.segments path).getLast?.getD ""
  match nameProblem? name with
  | some problem => .error problem
  | none =>
      let parent := (Path.parent? path).getD ""
      let found := do
        let way ← disk.way? (if parent == "" then "." else parent)
        let directory ← disk.top.follow? way
        return (way, directory)
      match found with
      | none => .error .missing
      | some (way, directory) =>
          if !directory.isDirectory then .error .missing
          else if (directory.item? name).any Item.isDirectory then .error .directory
          else .ok { disk with top := disk.top.put (.file (.text text)) (way ++ [name]) }

end Disk
end TraceWeave
