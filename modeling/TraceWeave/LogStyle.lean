/-! How log lines are chosen and written. -/
namespace TraceWeave

inductive LogLevel where
  | error | warn | info | debug | trace
deriving DecidableEq, Repr

namespace LogLevel

def name : LogLevel → String
  | .error => "ERROR"
  | .warn => "WARN"
  | .info => "INFO"
  | .debug => "DEBUG"
  | .trace => "TRACE"

def all : List LogLevel := [.error, .warn, .info, .debug, .trace]

/-- The level with a name, in any case, or with its number from one on. -/
def ofName? (name : String) : Option LogLevel :=
  match all.find? fun level => level.name == name.map Char.toUpper with
  | some level => some level
  | none => (all.zipIdx.find? fun (_, index) => toString (index + 1) == name).map (·.1)

end LogLevel

/-- How log lines are chosen and written. The default is quiet. -/
structure LogStyle where
  level : LogLevel := .warn
  /-- Also tell when a step begins and ends. -/
  spanEvents : Bool := false
  /-- Tell where in the program a line comes from. -/
  fileLine : Bool := false
  /-- Tell which part of the program a line comes from. -/
  target : Bool := false
  ansi : Bool := true
  compact : Bool := true
  /-- Chooses lines in place of the level. -/
  filter : Option String := none
deriving DecidableEq, Repr

namespace LogStyle

/-- Everything about edits and decisions. -/
def debug : LogStyle :=
  { level := .debug, target := true, compact := false, filter := some "go_instrument=debug" }

/-- Everything, with where it comes from. -/
def development : LogStyle :=
  { level := .trace, spanEvents := true, fileLine := true, target := true, compact := false }

def withLevel (style : LogStyle) (level : LogLevel) : LogStyle := { style with level }

def withFilter (style : LogStyle) (filter : String) : LogStyle := { style with filter := some filter }

def withAnsi (style : LogStyle) (ansi : Bool) : LogStyle := { style with ansi }

end LogStyle
end TraceWeave
