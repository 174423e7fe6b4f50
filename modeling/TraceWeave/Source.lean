import TraceWeave.Edit.Basic
import TraceWeave.Go.Grammar.File
import TraceWeave.Go.Place
import TraceWeave.Text.Search

/-! Source files: the text as it was loaded, the text as it is now, and the tree of the latter. -/
namespace TraceWeave

open Go (Node Place Tree)

/-- A Go file. `path` is relative to the workspace, with slashes. -/
structure Source where
  path : String
  loaded : String
  text : String
  tree : Tree
  dirty : Bool

namespace Source

/-- A file as it is loaded. -/
def load (path text : String) : Source := ⟨path, text, text, Tree.parse text, false⟩

def root (file : Source) : Node := file.tree.root

def rootPlace (file : Source) : Place := Place.ofRoot file.tree.root

def isTest (file : Source) : Bool := Text.finishesWith file.path "_test.go"

def isBroken (file : Source) : Bool := file.tree.isBroken

/-- Name from the package clause. -/
def packageName? (file : Source) : Option String := do
  let clause ← file.root.parts.find? (·.kind == .packageClause)
  let name ← clause.parts.head?
  return name.text file.text

/-- Carry out a batch of edits and parse again. A batch that changes nothing leaves the file clean. -/
def apply (file : Source) (edits : List Edit) : Except EditError Source :=
  if edits.isEmpty then .ok file
  else
    match Edit.perform file.text edits with
    | .error error => .error error
    | .ok updated =>
        if updated = file.text then .ok file
        else .ok { file with text := updated, tree := Tree.parse updated, dirty := true }

/-- Line, from one, of an offset in the current text. -/
def lineOf (file : Source) (offset : Nat) : Nat := Text.lineNumber file.text offset

/-- Line, from one, on which a node of the current tree begins. -/
def nodeLine (file : Source) (node : Node) : Nat := file.lineOf node.start

end Source
end TraceWeave
