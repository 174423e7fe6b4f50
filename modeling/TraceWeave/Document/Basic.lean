/-! Values in structured texts, whatever the format. -/
namespace TraceWeave

/-- What can be read off a value of a format. Every operation is `none` for a value that is not of
the kind asked for. -/
class Readable (α : Type) where
  /-- Whether the value stands for nothing. -/
  isNull? : α → Option Bool
  text? : α → Option String
  flag? : α → Option Bool
  list? : α → Option (List α)
  /-- Entries of a table, whose keys have to be texts. -/
  entries? : α → Option (List (String × α))

namespace Readable

variable {α β : Type} [Readable α]

/-- A value that may stand for nothing. -/
def optional? (read : α → Option β) (value : α) : Option (Option β) :=
  match isNull? value with
  | none => none
  | some true => some none
  | some false => (read value).map some

/-- A list of texts. -/
def texts? (value : α) : Option (List String) := (list? value).bind fun items => items.mapM text?

/-- The value of a field that stands at most once among entries and may be left out. -/
def field? (entries : List (String × α)) (name : String) (read : α → Option β) : Option (Option β) :=
  match entries.filter (·.1 == name) with
  | [] => some none
  | [entry] => optional? read entry.2
  | _ => none

end Readable
end TraceWeave
