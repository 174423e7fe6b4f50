import TraceWeave.Diagnostic
import TraceWeave.Integration.Gin
import TraceWeave.Integration.Http
import TraceWeave.Integration.Slog
import TraceWeave.Program
import TraceWeave.Selection

/-! Which integrations a program calls for. -/
namespace TraceWeave

/-- Integrations in a fixed order. -/
abbrev Catalog := List Integration

namespace Catalog

def builtIn : Catalog := [Slog.integration, Gin.integration, Http.server, Http.client]

/-- Positions of the integrations that some import path triggers. -/
def activeFor (catalog : Catalog) (importPaths : List String) : List Nat :=
  (List.range catalog.length).filter fun index =>
    catalog[index]?.any fun integration => integration.triggers.any importPaths.contains

end Catalog

/-- Texts in order, each once. -/
def sortedSet (texts : List String) : List String := Selection.inOrder texts.eraseDups

/-- Active integrations, and the modules they need. -/
structure Detection where
  active : List Nat
  modules : List String
deriving Repr

namespace Detection

/-- The integrations of a program. -/
def ofProgram (program : Program) (catalog : Catalog) : Detection :=
  let active := catalog.activeFor program.importPaths
  let modules := active.filterMap fun index => (catalog[index]?).map (·.requiredModule)
  { active
    modules := if active.isEmpty then [] else sortedSet (Integration.agentModule :: modules) }

/-- What there is to say about a detection: a warning if nothing was found. -/
def notes (detection : Detection) : List Diagnostic :=
  if detection.active.isEmpty then
    [.general .detectionEmpty "no supported library is imported by the selected packages"]
  else []

/-- Whether a module provides an import path. -/
def provides (path module : String) : Bool := path == module || Text.beginsWith path (module ++ "/")

/-- The longest module that provides an import path; of two that are equally long, the later. -/
def providing? (modules : List String) (path : String) : Option String :=
  (modules.filter (provides path)).foldl (fun found module =>
    match found with
    | none => some module
    | some other => if Text.size module < Text.size other then some other else some module) none

end Detection
end TraceWeave
