import TraceWeave.CommandLine.Request
import TraceWeave.Workspace

/-! The program as a function from the words on its command line, its environment, its input and the
files to what it prints and the files after it. -/
namespace TraceWeave.CommandLine

/-- What is left when the program has ended. -/
structure Ending where
  /-- Zero if all went well, one after a failure, two if the command line does not fit. -/
  exit : Nat
  output : String := ""
  failure : Option String := none
  /-- The path of the patch that was written. -/
  written : Option String := none
  disk : Disk

/-- A list of indented lines below a title. -/
def titled (title : String) (lines : List String) : String :=
  if lines.isEmpty then "" else "\n" ++ title ++ "\n" ++ String.join (lines.map fun line => "  " ++ line ++ "\n")

/-- What there is to say about findings. Without debugging only their number is told. -/
def renderFindings (findings : List Diagnostic) (debug : Bool) : String :=
  if debug then titled "Diagnostics:" (findings.map Diagnostic.render)
  else
    match (findings.filter (·.severity != .information)).length with
    | 0 => ""
    | count => "\n" ++ toString count ++ " warning(s); rerun with --debug for details\n"

/-- What a run that ended well has to say. -/
def renderReport (report : Report) (debug : Bool) : String :=
  let summary := report.summary
  "Wrote " ++ report.outputPath ++ "\n  " ++ toString summary.filesChanged ++ " file(s) changed, " ++
    toString summary.functionsWidened ++ " function(s) gained a transaction parameter (+" ++
    toString report.added ++ " -" ++ toString report.removed ++ ")\n" ++
    titled "To apply the changes:"
      (if summary.filesChanged = 0 then [] else ["git apply " ++ report.outputPath]) ++
    titled "Then add the required modules:" (summary.requiredModules.map ("go get " ++ ·)) ++
    renderFindings report.findings debug

/-- Instrument a workspace, after `output` was printed. -/
def instrumentAt (disk : Disk) (root : String) (configuration : Configuration) (output : String) : Ending :=
  let outcome := Workspace.run { root, configuration } disk
  match outcome.result with
  | .ok report =>
      { exit := 0
        output := output ++ renderReport report configuration.debug
        written := some report.outputPath
        disk := outcome.disk }
  | .error failure => { exit := 1, output, failure := some failure.report, disk := outcome.disk }

/-- Whether an answer means yes. -/
def isYes (answer : String) : Bool :=
  let answer := (Text.trim answer).map Char.toLower
  answer == "y" || answer == "yes"

/-- The first line of an input. -/
def firstLine (input : String) : String := String.ofList (input.toList.takeWhile (· != '\n'))

/-- What would be looked at, and the question whether to go on. -/
def question (disk : Disk) (configuration : Configuration) (files : List String) : String :=
  "Go files to analyze:\n" ++ String.join (files.map fun file => "  " ++ file ++ "\n") ++
    "\nInstrument " ++ toString files.length ++ " file(s) and write " ++
    Path.join disk.workingDirectory configuration.patchName ++ "? [y/N] "

/-- Show what would be looked at, and go on if the answer is yes. -/
def askFirst (disk : Disk) (input : String) (configuration : Configuration) : Ending :=
  match Loader.discover disk disk.workingDirectory configuration.selection with
  | .error cause => { exit := 1, failure := some (Failure.load cause).report, disk }
  | .ok [] => { exit := 0, output := "No Go files found in the current directory.\n", disk }
  | .ok files =>
      let asked := question disk configuration files
      if isYes (firstLine input) then instrumentAt disk disk.workingDirectory configuration asked
      else { exit := 0, output := asked ++ "Aborted.\n", disk }

/-- The directory that a request is about. -/
def Request.root? (request : Request) (disk : Disk) : Option String :=
  match request with
  | .instrument path _ => some path
  | .interactive _ => some disk.workingDirectory
  | _ => none

/-- The options that come with a request. -/
def Request.options : Request → Options
  | .instrument _ options | .interactive options => options
  | _ => {}

/-- Do what was asked for. -/
def Request.perform (request : Request) (disk : Disk) (environment : Environment) (input : String) :
    Ending :=
  match request.root? disk with
  | none =>
      match request with
      | .help command => { exit := 0, output := command.helpText environment, disk }
      | _ => { exit := 0, output := programName ++ " " ++ programVersion ++ "\n", disk }
  | some root =>
      match Configuration.load disk root request.options with
      | .error failure => { exit := 1, failure := some failure.message, disk }
      | .ok configuration =>
          match request with
          | .interactive _ => askFirst disk input configuration
          | _ => instrumentAt disk root configuration ""

/-- The program. -/
def run (disk : Disk) (environment : Environment) (input : String) (words : List String) : Ending :=
  match Request.parse? environment words with
  | none => { exit := 2, disk }
  | some request => request.perform disk environment input

end TraceWeave.CommandLine
