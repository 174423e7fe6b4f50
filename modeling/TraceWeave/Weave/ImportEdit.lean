import TraceWeave.Weave.Basic

/-! Imports for new code. In a block with one import on each line, a new path goes to its place in
the first group of its kind; a lone import becomes a block; a file without imports gets a declaration
after its package clause. -/
namespace TraceWeave

open Go (Node)

namespace ImportEdit

/-- An import as a line of a block. -/
def line (path : String) : String := "\t\"" ++ path ++ "\"\n"

def lines (paths : List String) : String := String.join (paths.map line)

/-- The path of an import specification. -/
def specPath (source : String) (spec : Node) : String :=
  ((spec.child? .path).map fun path => Import.unquote (path.text source)).getD ""

/-- Whether a path belongs to the standard library: no dot in its first segment. -/
def isStandard (path : String) : Bool := !((path.toList.takeWhile (· != '/')).contains '.')

/-- Whether an import has its line to itself. -/
def hasOwnLine (source : String) (spec : Node) : Bool :=
  Text.startsLine source spec.start && Text.restIsTrivia source spec.stop

/-- Whether an import belongs to the group of the one before it: no empty line stands between. -/
def joins (source : String) (previous spec : Node) : Bool :=
  !Text.contains (Text.slice source previous.stop spec.start) "\n\n"

/-- Add an import to the last group, or start a group. -/
def addToGroups (source : String) (groups : List (List Node)) (spec : Node) : List (List Node) :=
  match groups.getLast?.bind List.getLast? with
  | some previous =>
      if joins source previous spec then groups.dropLast ++ [groups.getLast?.getD [] ++ [spec]]
      else groups ++ [[spec]]
  | none => groups ++ [[spec]]

/-- Runs of imports without an empty line between them. -/
def groups (source : String) (specs : List Node) : List (List Node) :=
  specs.foldl (addToGroups source) []

/-- The group for a path: the first of its kind, or else the last. -/
def groupFor (source : String) (groups : List (List Node)) (path : String) : List Node :=
  match groups.find? fun group => group.head?.any fun spec => isStandard (specPath source spec) == isStandard path with
  | some group => group
  | none => groups.getLast?.getD []

/-- Where a path goes in a group: before the first greater one, or after the last. -/
def offsetIn (source : String) (group : List Node) (path : String) : Nat :=
  match group.find? fun spec => decide (path < specPath source spec) with
  | some spec => Text.lineStart source spec.start
  | none =>
      match group.getLast? with
      | some last => min (Text.lineEnd source last.stop + 1) (Text.size source)
      | none => 0

/-- Put a path to those that go to the same offset, where offsets are in order. -/
def addAt (offset : Nat) (path : String) : List (Nat × List String) → List (Nat × List String)
  | [] => [(offset, [path])]
  | (other, paths) :: rest =>
      if offset = other then (other, paths ++ [path]) :: rest
      else if offset < other then (offset, [path]) :: (other, paths) :: rest
      else (other, paths) :: addAt offset path rest

/-- Edits for a block of imports. -/
def intoBlock (source : String) (list : Node) (paths : List String) : List Edit :=
  let specs := list.parts.filter (·.kind == .importSpec)
  if specs.isEmpty || !specs.all (hasOwnLine source) then
    let close := list.stop - 1
    if Text.startsLine source close then [Edit.insertAt (Text.lineStart source close) (lines paths)]
    else [Edit.insertAt close ("\n" ++ lines paths)]
  else
    let found := groups source specs
    let anchors := paths.foldl (fun anchors path =>
      addAt (offsetIn source (groupFor source found path) path) path anchors) []
    anchors.map fun (offset, paths) => Edit.insertAt offset (lines paths)

/-- Edits that make a block of a lone import. -/
def intoLone (source : String) (declaration : Node) (paths : List String) : List Edit :=
  match declaration.parts.find? (·.kind == .importSpec) with
  | none => []
  | some spec =>
      let entries := paths.map (fun path => (path, line path)) ++
        [(specPath source spec, "\t" ++ spec.text source ++ "\n")]
      let sorted := entries.mergeSort fun a b => decide (a.1 ≤ b.1)
      [Edit.replaceNode declaration ("import (\n" ++ String.join (sorted.map (·.2)) ++ ")")]

/-- A declaration of its own. -/
def declaration (paths : List String) : String :=
  match paths with
  | [single] => "\n\nimport \"" ++ single ++ "\""
  | _ => "\n\nimport (\n" ++ lines paths ++ ")"

/-- Edits that add imports of the given paths, which are in order. -/
def forPaths (source : String) (root : Node) (paths : List String) : List Edit :=
  let declarations := root.parts.filter (·.kind == .importDeclaration)
  match declarations.findSome? fun item => item.parts.find? (·.kind == .importSpecList) with
  | some list => intoBlock source list paths
  | none =>
      match declarations with
      | declaration :: _ => intoLone source declaration paths
      | [] =>
          match root.parts.find? (·.kind == .packageClause) with
          | some clause => [Edit.insertAt clause.stop (declaration paths)]
          | none => []

/-- Edits that add imports of the given paths. -/
def ofPaths (source : String) (root : Node) (paths : List String) : List Edit :=
  if paths.isEmpty then [] else forPaths source root (sortedSet paths)

end ImportEdit

namespace Run

/-- Import paths that new code of a file refers to, in order. -/
def importsFor (run : Run) (file : Nat) : List String :=
  sortedSet ((run.imports.filter (·.1 == file)).map (·.2))

/-- Add the imports that a file lacks. -/
def addImportsTo (run : Run) (file : Nat) : Run :=
  match run.program.source? file with
  | none => run
  | some source =>
      let existing := run.program.importsOf source
      let missing := (run.importsFor file).filter fun path => !existing.hasPath path
      (run.applyBatch file (ImportEdit.ofPaths source.text source.root missing) []).2

/-- Add the imports that new code refers to. -/
def addImports (run : Run) : Run :=
  (List.range run.program.files.length).foldl addImportsTo run

end Run
end TraceWeave
