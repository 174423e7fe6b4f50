import TraceWeave.Document.Json
import TraceWeave.Document.Yaml.Basic

/-! What the file of a workspace asks for. -/
namespace TraceWeave

/-- Values that a workspace sets; one that is left out keeps its default. -/
structure Preferences where
  agent : Option String := none
  handle : Option String := none
  appName : Option String := none
  patchName : Option String := none
  bootstrap : Option Bool := none
  exclude : Option (List String) := none
  patterns : Option (List String) := none
  debug : Option Bool := none
deriving DecidableEq, Repr

namespace Preferences

/-- Names of the fields, in the order of a list of their values. -/
def fieldNames : List String :=
  ["agentVariable", "handleName", "appName", "diffFileName", "agentBootstrap", "exclude", "patterns",
    "debug"]

section
variable {α : Type} [Readable α]

/-- Preferences from entries. Entries with other names do not matter. -/
def ofEntries? (entries : List (String × α)) : Option Preferences := do
  return {
    agent := ← Readable.field? entries "agentVariable" Readable.text?
    handle := ← Readable.field? entries "handleName" Readable.text?
    appName := ← Readable.field? entries "appName" Readable.text?
    patchName := ← Readable.field? entries "diffFileName" Readable.text?
    bootstrap := ← Readable.field? entries "agentBootstrap" Readable.flag?
    exclude := ← Readable.field? entries "exclude" Readable.texts?
    patterns := ← Readable.field? entries "patterns" Readable.texts?
    debug := ← Readable.field? entries "debug" Readable.flag? }

/-- Preferences from a table, or from a list with a value for every field. -/
def ofValue? (value : α) : Option Preferences :=
  match Readable.entries? value with
  | some entries => ofEntries? entries
  | none => do
      let items ← Readable.list? value
      if items.length = fieldNames.length then ofEntries? (fieldNames.zip items) else none

end

/-- A format for preferences. -/
inductive Format where
  | json | yaml
deriving DecidableEq, Repr

/-- Preferences from a text. -/
def parse? (text : String) : Format → Option Preferences
  | .json => (Json.parse? text).bind ofValue?
  | .yaml => (Yaml.parse? text).bind ofValue?

end Preferences
end TraceWeave
