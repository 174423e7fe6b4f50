import TraceWeave.Text.Search

/-! File paths as texts: segments between slashes, where empty segments and `.` after the first
segment carry no meaning. -/
namespace TraceWeave.Path

def segments (path : String) : List String := Text.splitAt '/' path

def ofSegments (segments : List String) : String := Text.joinWith "/" segments

def isAbsolute (path : String) : Bool := Text.beginsWith path "/"

/-- Segments without meaning when they are not the first one. -/
def isIdle (segment : String) : Bool := segment == "" || segment == "."

/-- `path` below `base`; an absolute path stays as it is. -/
def join (base path : String) : String :=
  if isAbsolute path then path
  else if base == "" || Text.finishesWith base "/" then base ++ path
  else base ++ "/" ++ path

/-- Segments after the first, without idle ones at the end. -/
def trimmed (rest : List String) : List String := (rest.reverse.dropWhile isIdle).reverse

/-- The last segment with a meaning, and the path before it. -/
def split? (path : String) : Option (String × String) :=
  match segments path with
  | [] => none
  | first :: rest =>
      match (trimmed rest).reverse with
      | last :: before =>
          let before := trimmed before.reverse
          some (last, if first == "" && before.isEmpty then "/" else ofSegments (first :: before))
      | [] => if first == "" then none else some (first, "")

/-- The path of the directory that holds a path. -/
def parent? (path : String) : Option String := (split? path).map (·.2)

/-- The name of the file a path leads to; there is none after `.` or `..`. -/
def fileName? (path : String) : Option String :=
  (split? path).bind fun found => if found.1 == "." || found.1 == ".." then none else some found.1

/-- What follows the last dot of a file name, unless the dot is its first character. -/
def extension? (path : String) : Option String := do
  let name ← fileName? path
  let after := name.toList.reverse.takeWhile (· != '.')
  let before := name.toList.take (name.toList.length - after.length - 1)
  if before.isEmpty then none else some (String.ofList after.reverse)

end TraceWeave.Path
