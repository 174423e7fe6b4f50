/-! Findings that do not stop a run, kept in the order in which they were made. -/
namespace TraceWeave

inductive Severity where
  | error | warning | information
deriving DecidableEq, Repr

namespace Severity

/-- Name in a report. -/
def name : Severity → String
  | .error => "error"
  | .warning => "warning"
  | .information => "information"

/-- Name in a line of text. -/
def label : Severity → String
  | .error => "error"
  | .warning => "warning"
  | .information => "info"

end Severity

/-- What a finding is about. -/
inductive DiagnosticKind where
  /-- No supported library is imported anywhere. -/
  | detectionEmpty
  /-- A statement refers to a rebound name in a way that is not changed. -/
  | injectionAmbiguity
  /-- No fresh name was found, and the edits of the file were dropped. -/
  | identifierCollision
  /-- The edits of the file could not be combined and were dropped. -/
  | editConflict
  /-- A match that needs a handle cannot be reached from an entry point. -/
  | unreachableMatch
  /-- A function on the way to a match cannot take a new parameter. -/
  | propagationBarrier
deriving DecidableEq, Repr

namespace DiagnosticKind

def name : DiagnosticKind → String
  | .detectionEmpty => "detection_empty"
  | .injectionAmbiguity => "injection_ambiguity"
  | .identifierCollision => "identifier_collision"
  | .editConflict => "edit_conflict"
  | .unreachableMatch => "unreachable_match"
  | .propagationBarrier => "propagation_barrier"

def all : List DiagnosticKind :=
  [.detectionEmpty, .injectionAmbiguity, .identifierCollision, .editConflict, .unreachableMatch,
    .propagationBarrier]

def ofName? (name : String) : Option DiagnosticKind := all.find? (·.name == name)

def severity : DiagnosticKind → Severity
  | .identifierCollision | .editConflict => .error
  | .detectionEmpty | .injectionAmbiguity | .propagationBarrier => .warning
  | .unreachableMatch => .information

end DiagnosticKind

/-- A finding, with the file and line it belongs to where there is one. -/
structure Diagnostic where
  kind : DiagnosticKind
  file : Option String
  line : Option Nat
  message : String
deriving DecidableEq, Repr

namespace Diagnostic

def general (kind : DiagnosticKind) (message : String) : Diagnostic := ⟨kind, none, none, message⟩

def inFile (kind : DiagnosticKind) (file message : String) : Diagnostic := ⟨kind, some file, none, message⟩

def onLine (kind : DiagnosticKind) (file : String) (line : Nat) (message : String) : Diagnostic :=
  ⟨kind, some file, some line, message⟩

def severity (diagnostic : Diagnostic) : Severity := diagnostic.kind.severity

/-- `file:line: severity: message`, as far as file and line are known. -/
def render (diagnostic : Diagnostic) : String :=
  let rest := diagnostic.severity.label ++ ": " ++ diagnostic.message
  match diagnostic.file, diagnostic.line with
  | some file, some line => file ++ ":" ++ toString line ++ ": " ++ rest
  | some file, none => file ++ ": " ++ rest
  | none, _ => rest

end Diagnostic

/-- Findings of one run, first one first. -/
structure Findings where
  list : List Diagnostic := []

namespace Findings

def record (findings : Findings) (diagnostic : Diagnostic) : Findings := ⟨findings.list ++ [diagnostic]⟩

def count (findings : Findings) (kind : DiagnosticKind) : Nat :=
  (findings.list.filter (·.kind == kind)).length

/-- Hand the findings over and start again. -/
def flush (findings : Findings) : List Diagnostic × Findings := (findings.list, ⟨[]⟩)

@[simp] theorem list_record (findings : Findings) (diagnostic : Diagnostic) :
    (findings.record diagnostic).list = findings.list ++ [diagnostic] := rfl

@[simp] theorem list_flush (findings : Findings) : findings.flush.2.list = [] := rfl

end Findings
end TraceWeave
