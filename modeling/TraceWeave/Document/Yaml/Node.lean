import TraceWeave.Document.Yaml.Token

/-! YAML texts as trees, as they are written. -/
namespace TraceWeave.Yaml

/-- What can stand before a node. -/
structure Marks where
  anchor : Option String := none
  tag : Option String := none
deriving DecidableEq, Repr

/-- A node as it is written. A reference names the anchor of another node. -/
inductive Node where
  | reference (name : String)
  | scalar (marks : Marks) (style : Style) (text : String)
  | sequence (marks : Marks) (items : List Node)
  | mapping (marks : Marks) (entries : List (Node × Node))
deriving Repr, Inhabited

/-- A node that is left out. -/
def Node.empty : Node := .scalar {} .plain ""

/-- Meanings of tag handles. -/
abbrev Handles := List (String × String)

/-- Handles that need no directive. -/
def Handles.usual : Handles := [("!", "!"), ("!!", "tag:yaml.org,2002:")]

/-- The text of a tag; `none` for an unknown handle. -/
def Handles.tag? (handles : Handles) (handle suffix : String) : Option String :=
  if handle == "" then some suffix
  else (handles.find? (·.1 == handle)).map fun found => found.2 ++ suffix

namespace Node

/-- Anchor and tag at the start of tokens, at most one of each, in any order. -/
def marks? (handles : Handles) (tokens : List Token) : Option (Marks × List Token) :=
  match tokens with
  | .anchor name :: .tag handle suffix :: rest =>
      (handles.tag? handle suffix).map fun tag => (⟨some name, some tag⟩, rest)
  | .anchor name :: rest => some (⟨some name, none⟩, rest)
  | .tag handle suffix :: .anchor name :: rest =>
      (handles.tag? handle suffix).map fun tag => (⟨some name, some tag⟩, rest)
  | .tag handle suffix :: rest =>
      (handles.tag? handle suffix).map fun tag => (⟨none, some tag⟩, rest)
  | _ => some ({}, tokens)

/-- Marks of a scalar. The tag that says nothing is none. -/
def scalarMarks (marks : Marks) : Marks := { marks with tag := marks.tag.filter (· != "!") }

/-- Whether the next token is one of some. -/
def isAt (stops : List Token) (tokens : List Token) : Bool := tokens.head?.any stops.contains

mutual

/-- A node at the start of tokens. `block` allows blocks, and `loose` items that are not indented.
`depth` bounds how deep and how long nodes are. -/
def node? (handles : Handles) : Nat → Bool → Bool → List Token → Option (Node × List Token)
  | 0, _, _, _ => none
  | depth + 1, block, loose, tokens =>
      match tokens with
      | .reference name :: rest => some (.reference name, rest)
      | _ => do
          let (marks, rest) ← marks? handles tokens
          match rest with
          | .scalar style text :: rest => some (.scalar (scalarMarks marks) style text, rest)
          | .flowSequence :: rest =>
              (flowItems? handles depth true rest).map fun (items, rest) => (.sequence marks items, rest)
          | .flowMapping :: rest =>
              (flowEntries? handles depth true rest).map fun (entries, rest) => (.mapping marks entries, rest)
          | .item :: _ =>
              if loose then
                (looseItems? handles depth rest).map fun (items, rest) => (.sequence marks items, rest)
              else bare? marks rest
          | .blockSequence :: inner =>
              if block then
                (blockItems? handles depth inner).map fun (items, rest) => (.sequence marks items, rest)
              else bare? marks rest
          | .blockMapping :: inner =>
              if block then
                (blockEntries? handles depth inner).map fun (entries, rest) => (.mapping marks entries, rest)
              else bare? marks rest
          | _ => bare? marks rest

/-- A node of which only anchor or tag is written. -/
def bare? (marks : Marks) (rest : List Token) : Option (Node × List Token) :=
  if marks == {} then none else some (.scalar marks .plain "", rest)

/-- A node, or one that is left out before certain tokens. -/
def nodeUnless? (handles : Handles) (stops : List Token) :
    Nat → Bool → Bool → List Token → Option (Node × List Token)
  | 0, _, _, _ => none
  | depth + 1, block, loose, tokens =>
      if isAt stops tokens then some (.empty, tokens) else node? handles depth block loose tokens

/-- Items of a block up to its end. -/
def blockItems? (handles : Handles) : Nat → List Token → Option (List Node × List Token)
  | 0, _ => none
  | depth + 1, tokens =>
      match tokens with
      | .item :: rest => do
          let (item, rest) ← nodeUnless? handles [.item, .blockEnd] depth true false rest
          let (items, rest) ← blockItems? handles depth rest
          return (item :: items, rest)
      | .blockEnd :: rest => some ([], rest)
      | _ => none

/-- Items that stand at the column of the key before them. -/
def looseItems? (handles : Handles) : Nat → List Token → Option (List Node × List Token)
  | 0, _ => none
  | depth + 1, tokens =>
      match tokens with
      | .item :: rest => do
          let (item, rest) ← nodeUnless? handles [.item, .key, .value, .blockEnd] depth true false rest
          let (items, rest) ← looseItems? handles depth rest
          return (item :: items, rest)
      | _ => some ([], tokens)

/-- The value after a key in a block. -/
def blockValue? (handles : Handles) : Nat → List Token → Option (Node × List Token)
  | 0, _ => none
  | depth + 1, tokens =>
      match tokens with
      | .value :: rest => nodeUnless? handles [.key, .value, .blockEnd] depth true true rest
      | _ => some (.empty, tokens)

/-- Entries of a block up to its end. -/
def blockEntries? (handles : Handles) : Nat → List Token → Option (List (Node × Node) × List Token)
  | 0, _ => none
  | depth + 1, tokens =>
      match tokens with
      | .key :: rest => do
          let (key, rest) ← nodeUnless? handles [.key, .value, .blockEnd] depth true true rest
          let (value, rest) ← blockValue? handles depth rest
          let (entries, rest) ← blockEntries? handles depth rest
          return ((key, value) :: entries, rest)
      | .blockEnd :: rest => some ([], rest)
      | _ => none

/-- The value after a key in brackets, up to a comma or the closing bracket. -/
def flowValue? (handles : Handles) (close : Token) : Nat → List Token → Option (Node × List Token)
  | 0, _ => none
  | depth + 1, tokens =>
      match tokens with
      | .value :: rest => nodeUnless? handles [.comma, close] depth false false rest
      | _ => some (.empty, tokens)

/-- Items up to the closing bracket. `first` tells that no comma is due. An item can be a single
entry; if its key is left out, the token in its place is passed over. -/
def flowItems? (handles : Handles) : Nat → Bool → List Token → Option (List Node × List Token)
  | 0, _, _ => none
  | depth + 1, first, tokens =>
      match tokens with
      | .flowSequenceEnd :: rest => some ([], rest)
      | _ => do
          let tokens ← if first then some tokens else if isAt [.comma] tokens then some (tokens.drop 1) else none
          match tokens with
          | .flowSequenceEnd :: rest => return ([], rest)
          | .key :: rest =>
              let (key, rest) ←
                if isAt [.value, .comma, .flowSequenceEnd] rest then some (.empty, rest.drop 1)
                else node? handles depth false false rest
              let (value, rest) ← flowValue? handles .flowSequenceEnd depth rest
              let (items, rest) ← flowItems? handles depth false rest
              return (.mapping {} [(key, value)] :: items, rest)
          | _ =>
              let (item, rest) ← node? handles depth false false tokens
              let (items, rest) ← flowItems? handles depth false rest
              return (item :: items, rest)

/-- Entries up to the closing bracket. -/
def flowEntries? (handles : Handles) : Nat → Bool → List Token → Option (List (Node × Node) × List Token)
  | 0, _, _ => none
  | depth + 1, first, tokens =>
      match tokens with
      | .flowMappingEnd :: rest => some ([], rest)
      | _ => do
          let tokens ← if first then some tokens else if isAt [.comma] tokens then some (tokens.drop 1) else none
          match tokens with
          | .flowMappingEnd :: rest => return ([], rest)
          | .key :: rest =>
              let (key, rest) ← nodeUnless? handles [.value, .comma, .flowMappingEnd] depth false false rest
              let (value, rest) ← flowValue? handles .flowMappingEnd depth rest
              let (entries, rest) ← flowEntries? handles depth false rest
              return ((key, value) :: entries, rest)
          | _ =>
              let (key, rest) ← node? handles depth false false tokens
              let (entries, rest) ← flowEntries? handles depth false rest
              return ((key, .empty) :: entries, rest)

end

/-! ### Documents -/

/-- Whether a token belongs to no document. -/
def isBetween : Token → Bool
  | .version _ _ | .handle _ _ | .documentStart | .documentEnd => true
  | _ => false

/-- Directives at the start of tokens and the handles they give. At most one of them is about the
version, which has to be known, and none is about a handle that another one is about. -/
def directives? : List Token → Bool → Handles → Option (Handles × List Token)
  | .version major minor :: rest, versioned, handles =>
      if versioned || major != 1 || (minor != 1 && minor != 2) then none
      else directives? rest true handles
  | .handle name meaning :: rest, versioned, handles =>
      if handles.any (·.1 == name) then none else directives? rest versioned ((name, meaning) :: handles)
  | tokens, _, handles => some (handles, tokens)

/-- The first document of a text, which may hold no second one. A document without a start mark
has no directives and cannot be empty. -/
def document? (tokens : List Token) : Option (Option Node) := do
  let depth := 4 * tokens.length + 4
  let content (handles : Handles) (tokens : List Token) : Option (Node × List Token) :=
    node? (handles ++ Handles.usual) depth true false tokens
  let found : Option Node × List Token ← match tokens with
    | [] => some (none, [])
    | token :: _ =>
        if isBetween token && token != .documentEnd then do
          let (handles, rest) ← directives? tokens false []
          match rest with
          | .documentStart :: rest =>
              if rest.head?.all isBetween then some (some .empty, rest)
              else (content handles rest).map fun (node, rest) => (some node, rest)
          | _ => none
        else (content [] tokens).map fun (node, rest) => (some node, rest)
  if found.2.all (· == .documentEnd) then some found.1 else none

end Node
end TraceWeave.Yaml
