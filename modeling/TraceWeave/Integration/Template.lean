import TraceWeave.Integration.Basic

/-! Integrations given by a text with blanks to fill in. -/
namespace TraceWeave

/-- A rule for one function of a package. The text may name the statement, fresh names, the variable
that the statement assigns, the agent and the handle. -/
structure Template where
  name : String
  triggers : List String
  requiredModule : String
  package : String
  function : String
  scope : BodyScope
  needsHandle : Bool
  /-- Where the text goes; without a place only names are taken. -/
  placement : Option Placement
  text : String
  /-- Base of a fresh name. -/
  fresh : Option String
  /-- What stands before the assigned variable in the name that takes its place. -/
  bind : Option String
  /-- What the next statement holds if the code is there already. -/
  marker : Option String
  imports : List String

namespace Template

/-- A blank as the text writes it. -/
def blank (name : String) : String := "\x7b" ++ name ++ "\x7d"

def fill (name value text : String) : String := Text.replaceAll text (blank name) value

/-- Fill in the first fresh name, if there is one. -/
def fillFresh (template : Template) (text : String) : Naming String :=
  match template.fresh with
  | none => return text
  | some base => return fill "name" (← Naming.fresh base) text

/-- Fill in the name that takes the place of the assigned variable. -/
def fillBinding (template : Template) (assigned text : String) : Naming (String × Option Binding) :=
  match template.bind with
  | none => return (text, none)
  | some before =>
      if assigned == "" then return (text, none)
      else do
        let name ← Naming.fresh (before ++ assigned)
        return (fill "new" name text, some ⟨assigned, name⟩)

def generate (template : Template) (view : StatementView) (names : AgentNames) : Naming Injection := do
  let assigned := (view.node.assignedNames view.source).head?.getD ""
  let text ← template.fillFresh (fill "stmt" (view.node.text view.source) template.text)
  let (text, binding) ← template.fillBinding assigned text
  let text := fill "handle" names.handle (fill "agent" names.agent (fill "var" assigned text))
  match template.placement with
  | none => return { binding }
  | some placement => return { edits := [(placement, text)], imports := template.imports, binding }

def accepts (template : Template) (view : StatementView) : Bool :=
  (view.packageCall? template.package).any (·.2 == template.function)

def isDone (template : Template) (view : StatementView) : Bool :=
  match template.marker, view.next with
  | some marker, some next => Text.contains (next.text view.source) marker
  | _, _ => false

def toIntegration (template : Template) : Integration where
  name := template.name
  triggers := template.triggers
  requiredModule := template.requiredModule
  scope := template.scope
  needsHandle := template.needsHandle
  accepts := template.accepts
  isDone := template.isDone
  generate := template.generate

end Template
end TraceWeave
