import TraceWeave.Document.Yaml.Node

/-! YAML values: nodes with references followed. -/
namespace TraceWeave

/-- A YAML value. What a scalar stands for depends on what is asked for, so its text is kept. A
reference to a node from inside that node is a `cycle`. -/
inductive Yaml where
  | scalar (tag : Option String) (style : Yaml.Style) (text : String)
  | sequence (items : List Yaml)
  | mapping (entries : List (Yaml × Yaml))
  | cycle

namespace Yaml

/-- Values of anchors, in the order in which their nodes begin. -/
abbrev Anchors := Array (String × Yaml)

/-- The value of the last node with an anchor. -/
def Anchors.find? (anchors : Anchors) (name : String) : Option Yaml :=
  (anchors.toList.reverse.find? (·.1 == name)).map (·.2)

/-- A node that may have an anchor begins. -/
def Anchors.enter (anchors : Anchors) (marks : Marks) : Anchors :=
  match marks.anchor with
  | some name => anchors.push (name, .cycle)
  | none => anchors

/-- The node that began when there were `count` anchors has a value. -/
def Anchors.leave (anchors : Anchors) (marks : Marks) (count : Nat) (value : Yaml) : Anchors :=
  match marks.anchor with
  | some name => anchors.setIfInBounds count (name, value)
  | none => anchors

mutual

/-- The value of a node; `none` if a reference leads nowhere. -/
def resolve? (anchors : Anchors) : Node → Option (Yaml × Anchors)
  | .reference name => (anchors.find? name).map (·, anchors)
  | .scalar marks style text =>
      let value := Yaml.scalar marks.tag style text
      some (value, (anchors.enter marks).leave marks anchors.size value)
  | .sequence marks items => do
      let (items, inner) ← resolveItems? (anchors.enter marks) items
      return (.sequence items, inner.leave marks anchors.size (.sequence items))
  | .mapping marks entries => do
      let (entries, inner) ← resolveEntries? (anchors.enter marks) entries
      return (.mapping entries, inner.leave marks anchors.size (.mapping entries))

def resolveItems? (anchors : Anchors) : List Node → Option (List Yaml × Anchors)
  | [] => some ([], anchors)
  | node :: nodes => do
      let (value, anchors) ← resolve? anchors node
      let (values, anchors) ← resolveItems? anchors nodes
      return (value :: values, anchors)

def resolveEntries? (anchors : Anchors) : List (Node × Node) → Option (List (Yaml × Yaml) × Anchors)
  | [] => some ([], anchors)
  | (key, node) :: nodes => do
      let (key, anchors) ← resolve? anchors key
      let (value, anchors) ← resolve? anchors node
      let (values, anchors) ← resolveEntries? anchors nodes
      return ((key, value) :: values, anchors)

end

/-- The value of a text with at most one document. A text without any stands for an empty one. -/
def parse? (s : String) : Option Yaml := do
  match ← Node.document? (← Token.scan? s) with
  | none => return .scalar none .plain ""
  | some node => return (← resolve? #[] node).1

/-- The tag of nothing. -/
def nullTag : String := "tag:yaml.org,2002:null"

/-- The tag of flags. -/
def flagTag : String := "tag:yaml.org,2002:bool"

def isNullText (text : String) : Bool := ["null", "Null", "NULL", "~"].contains text

def flagOfText? (text : String) : Option Bool :=
  if ["true", "True", "TRUE"].contains text then some true
  else if ["false", "False", "FALSE"].contains text then some false
  else none

def text? : Yaml → Option String
  | .scalar _ _ text => some text
  | _ => none

/-- Whether a value stands for nothing. A plain scalar does if it is empty or says so. With a tag,
only the tag of nothing counts, and then the text has to agree. -/
def isNull? : Yaml → Option Bool
  | .scalar tag .plain text =>
      match tag with
      | none => some (text.isEmpty || isNullText text)
      | some tag =>
          if tag == nullTag then if isNullText text then some true else none else some false
  | _ => some false

/-- The flag of a plain scalar, or of a literal one with the tag of flags. -/
def flag? : Yaml → Option Bool
  | .scalar _ .plain text => flagOfText? text
  | .scalar (some tag) .literal text => if tag == flagTag then flagOfText? text else none
  | _ => none

/-- Whether a scalar is left out, which also stands for an empty list or table. -/
def isLeftOut : Yaml → Bool
  | .scalar _ .plain text => text.isEmpty
  | _ => false

def list? : Yaml → Option (List Yaml)
  | .sequence items => some items
  | value => if value.isLeftOut then some [] else none

def entries? : Yaml → Option (List (String × Yaml))
  | .mapping entries => entries.mapM fun (key, value) => key.text?.map (·, value)
  | value => if value.isLeftOut then some [] else none

instance : Readable Yaml := ⟨isNull?, text?, flag?, list?, entries?⟩

end Yaml
end TraceWeave
