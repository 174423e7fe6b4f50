/-! Commands and their flags. -/
namespace TraceWeave.CommandLine

inductive Flag where
  | exclude | debug | output | appName | noBootstrap | help | version
deriving DecidableEq, Repr

namespace Flag

def long : Flag → String
  | .exclude => "exclude"
  | .debug => "debug"
  | .output => "output"
  | .appName => "app-name"
  | .noBootstrap => "no-bootstrap"
  | .help => "help"
  | .version => "version"

def short? : Flag → Option Char
  | .debug => some 'D'
  | .output => some 'o'
  | .help => some 'h'
  | .version => some 'V'
  | _ => none

/-- What the value of a flag is called, if it takes one. -/
def valueName? : Flag → Option String
  | .exclude => some "EXCLUDE"
  | .output => some "OUTPUT"
  | .appName => some "APP_NAME"
  | _ => none

def takesValue (flag : Flag) : Bool := flag.valueName?.isSome

/-- Whether a flag may be given more than once. -/
def repeats (flag : Flag) : Bool := flag == .exclude

def about : Flag → String
  | .exclude => "Sub-paths to leave out (comma separated)"
  | .debug => "Show debug output and every diagnostic"
  | .output => "Output diff file, relative to PATH unless absolute"
  | .appName => "Application name reported to New Relic"
  | .noBootstrap => "Do not create the agent in main"
  | .help => "Print help"
  | .version => "Print version"

/-- The environment variable that stands in for a flag. -/
def variableName? : Flag → Option String
  | .debug => some "GO_INSTRUMENT_DEBUG"
  | .appName => some "NEW_RELIC_APP_NAME"
  | _ => none

end Flag

/-- The program itself, or one of its commands. -/
inductive Command where
  | top | instrument | version | help
deriving DecidableEq, Repr

namespace Command

def name : Command → String
  | .top => ""
  | .instrument => "instrument"
  | .version => "version"
  | .help => "help"

def about : Command → String
  | .top => "Add New Relic instrumentation to a Go application"
  | .instrument => "Instrument the application at PATH and write a diff file"
  | .version => "Show version information"
  | .help => "Print this message or the help of the given subcommand(s)"

/-- Commands below the program itself. -/
def below : List Command := [.instrument, .version, .help]

def ofName? (name : String) : Option Command := below.find? (·.name == name)

/-- Flags of a command, in the order of its help. -/
def flags : Command → List Flag
  | .top => [.exclude, .debug, .help, .version]
  | .instrument => [.exclude, .output, .appName, .debug, .noBootstrap, .help]
  | .version => [.exclude, .debug, .help]
  | .help => []

def longFlag? (command : Command) (name : String) : Option Flag := command.flags.find? (·.long == name)

def shortFlag? (command : Command) (c : Char) : Option Flag := command.flags.find? (·.short? == some c)

/-- Words that a command takes besides flags, with what they are. -/
def arguments : Command → List (String × String)
  | .instrument =>
      [("<PATH>", "Workspace root (the directory holding go.mod)"),
        ("[PATTERNS]...", "Package patterns to instrument (default: everything)")]
  | .help => [("[COMMAND]...", "Print help for the subcommand(s)")]
  | _ => []

end Command

/-- Values of environment variables, by name. -/
abbrev Environment := List (String × String)

def Environment.get? (environment : Environment) (name : String) : Option String :=
  (environment.find? (·.1 == name)).map (·.2)

def programName : String := "go-instrument"

def programVersion : String := "0.1.0"

/-! ### Help -/

/-- Rows of two columns. -/
def table (rows : List (String × String)) : String :=
  let width := (rows.map (·.1.length)).foldl max 0
  String.join (rows.map fun (left, right) =>
    "  " ++ left ++ String.ofList (List.replicate (width + 2 - left.length) ' ') ++ right ++ "\n")

/-- A titled table, left out if it has no rows. -/
def titledTable (title : String) (rows : List (String × String)) : String :=
  if rows.isEmpty then "" else "\n" ++ title ++ ":\n" ++ table rows

/-- A flag as help shows it. -/
def Flag.row (environment : Environment) (flag : Flag) : String × String :=
  let short := match flag.short? with
    | some c => "-" ++ c.toString ++ ", "
    | none => "    "
  let value := match flag.valueName? with
    | some name => " <" ++ name ++ ">"
    | none => ""
  let fromEnvironment := match flag.variableName? with
    | some name => " [env: " ++ name ++ "=" ++ (environment.get? name).getD "" ++ "]"
    | none => ""
  (short ++ "--" ++ flag.long ++ value, flag.about ++ fromEnvironment)

/-- How a command is written. -/
def Command.usage (command : Command) : String :=
  let words := [programName, command.name, if command.flags.isEmpty then "" else "[OPTIONS]"] ++
    command.arguments.map (·.1) ++ [if command == .top then "[COMMAND]" else ""]
  " ".intercalate (words.filter (· != ""))

/-- The help of a command. -/
def Command.helpText (command : Command) (environment : Environment) : String :=
  command.about ++ "\n\nUsage: " ++ command.usage ++ "\n" ++
    titledTable "Commands" (if command == .top then Command.below.map fun c => (c.name, c.about) else []) ++
    titledTable "Arguments" command.arguments ++
    titledTable "Options" (command.flags.map (Flag.row environment))

end TraceWeave.CommandLine
