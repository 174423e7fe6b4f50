import TraceWeave.Config.Preferences
import TraceWeave.Failure
import TraceWeave.Selection
import TraceWeave.Text.Letter
import TraceWeave.Weave.Basic

/-! The configuration of a run: defaults, the preferences of the workspace and the options of the
command line, each over those before. -/
namespace TraceWeave

/-- What the command line asks for. -/
structure Options where
  output : Option String := none
  appName : Option String := none
  exclude : List String := []
  patterns : List String := []
  noBootstrap : Bool := false
  debug : Bool := false
deriving DecidableEq, Repr

/-- Everything that a run depends on besides the files. -/
structure Configuration where
  settings : Settings := {}
  selection : Selection := {}
  /-- Where the patch goes, relative to the workspace. -/
  patchName : String := "new-relic-instrumentation.diff"
  debug : Bool := false
deriving Repr

/-- Why there is no configuration. -/
inductive ConfigFailure where
  | unreadable (cause : Disk.ReadError)
  | malformed (format : Preferences.Format)
  /-- A field has a value that cannot be used. -/
  | invalid (field reason : String)
deriving DecidableEq, Repr

namespace ConfigFailure

def message : ConfigFailure → String
  | .unreadable cause => "IO error reading config: " ++ LoadFailure.readMessage cause
  | .malformed .json => "JSON parsing error"
  | .malformed .yaml => "YAML parsing error"
  | .invalid field reason => "Invalid value for " ++ field ++ ": " ++ reason

end ConfigFailure

namespace Configuration

/-- A list followed by the texts that it does not have yet. -/
def addMissing (texts more : List String) : List String :=
  more.foldl (fun texts text => if texts.contains text then texts else texts ++ [text]) texts

/-- Defaults with the preferences of a workspace over them. -/
def ofPreferences (preferences : Preferences) : Configuration :=
  let usual : Configuration := {}
  { settings :=
      { agent := preferences.agent.getD usual.settings.agent
        handle := preferences.handle.getD usual.settings.handle
        appName := preferences.appName
        bootstrap := preferences.bootstrap.getD usual.settings.bootstrap }
    selection :=
      { patterns := preferences.patterns.getD []
        exclude := addMissing [] (preferences.exclude.getD []) }
    patchName := preferences.patchName.getD usual.patchName
    debug := preferences.debug.getD usual.debug }

/-- A configuration with the options of the command line over it. Options add to what is left out, and
take the place of everything else. -/
def withOptions (configuration : Configuration) (options : Options) : Configuration :=
  { settings :=
      { configuration.settings with
        appName := options.appName.or configuration.settings.appName
        bootstrap := configuration.settings.bootstrap && !options.noBootstrap }
    selection :=
      { patterns :=
          if options.patterns.isEmpty then configuration.selection.patterns else options.patterns
        exclude := addMissing configuration.selection.exclude options.exclude }
    patchName := options.output.getD configuration.patchName
    debug := configuration.debug || options.debug }

/-- Whether a name can stand in a string literal of new code. -/
def isPlainName (name : String) : Bool :=
  name.toList.all fun c => c.toNat != 34 && c != '\\' && c != '\n'

/-- The first field, in a fixed order, with a value that cannot be used. -/
def problem? (configuration : Configuration) : Option ConfigFailure :=
  let settings := configuration.settings
  let notIdentifier (field value : String) : ConfigFailure :=
    .invalid field ("`" ++ value ++ "` is not a Go identifier")
  if !Text.isIdentifier settings.agent then some (notIdentifier "agentVariable" settings.agent)
  else if !Text.isIdentifier settings.handle then some (notIdentifier "handleName" settings.handle)
  else if settings.agent = settings.handle then
    some (.invalid "handleName" "must differ from agentVariable")
  else if Text.isAllBlank configuration.patchName then some (.invalid "diffFileName" "must not be empty")
  else if settings.appName.any fun name => !isPlainName name then
    some (.invalid "appName" "must not contain quotes, backslashes or newlines")
  else none

/-- Files that can hold the preferences of a workspace. The first one there counts. -/
def fileNames : List (String × Preferences.Format) :=
  [(".go-instrument.json", .json), (".go-instrument.yaml", .yaml), (".go-instrument.yml", .yaml)]

/-- The preferences of a workspace, none if it has no file for them. -/
def preferences (disk : Disk) (root : String) : Except ConfigFailure Preferences :=
  match fileNames.find? fun file => disk.has (Path.join root file.1) with
  | none => .ok {}
  | some (name, format) =>
      match disk.read (Path.join root name) with
      | .error cause => .error (.unreadable cause)
      | .ok text =>
          match Preferences.parse? text format with
          | some preferences => .ok preferences
          | none => .error (.malformed format)

/-- The configuration for a workspace. -/
def load (disk : Disk) (root : String) (options : Options) : Except ConfigFailure Configuration := do
  let configuration := (ofPreferences (← preferences disk root)).withOptions options
  match configuration.problem? with
  | some problem => .error problem
  | none => .ok configuration

end Configuration
end TraceWeave
