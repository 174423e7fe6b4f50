import TraceWeave.Disk.Basic
import TraceWeave.Glob
import TraceWeave.Text.Blank

/-! Which Go files of a directory are looked at. -/
namespace TraceWeave

/-- Package patterns, of which none means everything, and paths to leave out. -/
structure Selection where
  patterns : List String := []
  exclude : List String := []
deriving Repr

namespace Selection

/-- Directories that are never entered, besides those whose name begins with a dot or underscore. -/
def skippedNames : List String := ["vendor", "testdata", "node_modules"]

def isSkipped (name : String) : Bool :=
  Text.beginsWith name "." || Text.beginsWith name "_" || skippedNames.contains name

/-- The glob for the files that a package pattern selects. -/
def globText (pattern : String) : String :=
  let pattern := Text.dropRepeats "./" (Text.trim pattern)
  if pattern == "" || pattern == "." then "*.go"
  else if pattern == "..." then "**/*.go"
  else
    match Text.before? "/..." pattern with
    | some directory => directory ++ "/**/*.go"
    | none =>
        if Text.finishesWith pattern ".go" then pattern
        else Text.dropEnd (· == '/') pattern ++ "/*.go"

/-- The globs of the patterns; the first pattern that is none is the error. -/
def globs : List String → Except String (List (List Glob.Token))
  | [] => .ok []
  | pattern :: patterns =>
      match Glob.parse (globText pattern) with
      | .error _ => .error pattern
      | .ok glob => (globs patterns).map (glob :: ·)

/-- An exclusion without `./` before it and slashes after it. -/
def bareExclusion (exclusion : String) : String :=
  Text.dropEnd (· == '/') (Text.dropRepeats "./" exclusion)

/-- Whether an entry is left out, by its name or by its path. -/
def isExcluded (exclude : List String) (path name : String) : Bool :=
  exclude.any fun exclusion =>
    let exclusion := bareExclusion exclusion
    exclusion != "" &&
      (exclusion == name || path == exclusion || Text.beginsWith path (exclusion ++ "/"))

/-- Whether a path is selected, where no globs select everything. -/
def isSelected (globs : List (List Glob.Token)) (path : String) : Bool :=
  globs.isEmpty || globs.any fun glob => Glob.matchesPath glob path

/-- A path below a directory, where the empty path is the directory walked. -/
def below (directory name : String) : String := if directory == "" then name else directory ++ "/" ++ name

def isGoFile (name : String) : Bool := Path.extension? name == some "go"

mutual

/-- Selected files of an item that is found at a path, in the order of the walk. -/
def walkItem (exclude : List String) (globs : List (List Glob.Token)) (path name : String) :
    Item → List String
  | .file _ =>
      if !isExcluded exclude path name && isGoFile name && isSelected globs path then [path] else []
  | .directory items =>
      if isSkipped name || isExcluded exclude path name then [] else walkItems exclude globs path items

/-- Selected files of the items of a directory. -/
def walkItems (exclude : List String) (globs : List (List Glob.Token)) (directory : String) :
    List (String × Item) → List String
  | [] => []
  | (name, item) :: items =>
      walkItem exclude globs (below directory name) name item ++ walkItems exclude globs directory items

end

/-- Texts in order of their characters. -/
def inOrder (texts : List String) : List String := texts.mergeSort fun a b => decide (a ≤ b)

/-- Selected Go files below a directory, as paths relative to it, in order. -/
def filesBelow (exclude : List String) (globs : List (List Glob.Token)) (directory : Item) : List String :=
  inOrder (walkItems exclude globs "" directory.items)

end Selection
end TraceWeave
