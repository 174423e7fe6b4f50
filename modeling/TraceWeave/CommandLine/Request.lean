import TraceWeave.CommandLine.Flag
import TraceWeave.Config.Basic

/-! What a list of words on the command line asks for. -/
namespace TraceWeave.CommandLine

/-- What is asked for. -/
inductive Request where
  | help (command : Command)
  | version
  /-- Instrument a workspace. -/
  | instrument (path : String) (options : Options)
  /-- Ask before instrumenting the working directory. -/
  | interactive (options : Options)
deriving DecidableEq, Repr

/-- Flags, with their values, and other words given to a command. -/
structure Given where
  flags : List (Flag × String) := []
  words : List String := []
deriving DecidableEq, Repr

namespace Given

def has (given : Given) (flag : Flag) : Bool := given.flags.any (·.1 == flag)

def value? (given : Given) (flag : Flag) : Option String := (given.flags.find? (·.1 == flag)).map (·.2)

/-- Values of a flag that were given, cut at commas. -/
def list (given : Given) (flag : Flag) : List String :=
  ((given.flags.filter (·.1 == flag)).map (·.2)).flatMap (Text.splitAt ',')

/-- A flag more; `none` if it was given before and does not repeat. -/
def add? (given : Given) (flag : Flag) (value : String) : Option Given :=
  if given.has flag && !flag.repeats then none
  else some { given with flags := given.flags ++ [(flag, value)] }

/-- A word more. Only one command takes words, of which the first may not be empty. -/
def addWord? (given : Given) (command : Command) (word : String) : Option Given :=
  if command != .instrument || (given.words.isEmpty && word == "") then none
  else some { given with words := given.words ++ [word] }

end Given

/-- What reading the words of a command has come to. -/
inductive Reading where
  /-- All words are read. -/
  | finished (given : Given)
  | help (command : Command)
  | version
  /-- A command begins, and these words follow. -/
  | command (given : Given) (command : Command) (rest : List String)

/-- Whether a word looks like a flag, so that it cannot be the value of one. -/
def looksLikeFlag (word : String) : Bool := Text.beginsWith word "-" && word != "-"

/-- What short flags that are written together come to. -/
inductive Cluster where
  | done (given : Given)
  /-- The last of them needs a value. -/
  | needsValue (given : Given) (flag : Flag)
  | stop (flag : Flag)

/-- Read short flags that are written together. Behind a flag that takes a value stands the value,
maybe after an equals sign. -/
def cluster? (command : Command) : Given → List Char → Option Cluster
  | given, [] => some (.done given)
  | given, c :: rest => do
      let flag ← command.shortFlag? c
      if flag == .help || flag == .version then return .stop flag
      else if flag.takesValue then
        match rest with
        | [] => return .needsValue given flag
        | '=' :: value => return .done (← given.add? flag (String.ofList value))
        | value => return .done (← given.add? flag (String.ofList value))
      else cluster? command (← given.add? flag "") rest

/-- What a long flag comes to. -/
def long? (command : Command) (given : Given) (text : List Char) : Option Cluster := do
  let name := text.takeWhile (· != '=')
  let flag ← command.longFlag? (String.ofList name)
  let value? := if name.length < text.length then some (String.ofList (text.drop (name.length + 1))) else none
  match flag.takesValue, value? with
  | true, some value => return .done (← given.add? flag value)
  | true, none => return .needsValue given flag
  | false, some _ => none
  | false, none =>
      if flag == .help || flag == .version then return .stop flag
      else return .done (← given.add? flag "")

/-- Read the words of a command; `none` if they do not fit. -/
def read? (command : Command) : Given → List String → Option Reading
  | given, [] => some (.finished given)
  | given, word :: rest =>
      if word == "--" then do
        return .finished (← rest.foldlM (fun given word => given.addWord? command word) given)
      else if looksLikeFlag word then do
        let found ← match word.toList with
          | '-' :: '-' :: text => long? command given text
          | _ => cluster? command given (word.toList.drop 1)
        match found, rest with
        | .done given, rest => read? command given rest
        | .stop flag, _ => return if flag == .help then .help command else .version
        | .needsValue given flag, value :: rest =>
            if looksLikeFlag value then none else read? command (← given.add? flag value) rest
        | .needsValue _ _, [] => none
      else
        match if command == .top then Command.ofName? word else none with
        | some inner => some (.command given inner rest)
        | none => do read? command (← given.addWord? command word) rest

/-- Whether debugging is asked for by a flag or, without one, by the environment, which may say only
yes or no. -/
def debug? (environment : Environment) (given : Given) : Option Bool :=
  if given.has .debug then some true
  else
    match Flag.debug.variableName?.bind environment.get? with
    | none => some false
    | some "true" => some true
    | some "false" => some false
    | some _ => none

/-- Options from what was given to the program and to a command. A list given to the command takes
the place of one given to the program. -/
def options? (environment : Environment) (outer inner : Given) : Option Options := do
  let outerDebug ← debug? environment outer
  let innerDebug ← debug? environment inner
  return {
    output := inner.value? .output
    appName := (inner.value? .appName).or (Flag.appName.variableName?.bind environment.get?)
    exclude := if inner.has .exclude then inner.list .exclude else outer.list .exclude
    patterns := inner.words.drop 1
    noBootstrap := inner.has .noBootstrap
    debug := outerDebug || innerDebug }

/-- The command to help with. -/
def helpRequest? : List String → Option Request
  | [] => some (.help .top)
  | [name] => (Command.ofName? name).map .help
  | _ => none

/-- What words on the command line ask for; `none` if they do not fit. -/
def Request.parse? (environment : Environment) (words : List String) : Option Request := do
  match ← read? .top {} words with
  | .help command => return .help command
  | .version => return .version
  | .finished given =>
      let debug ← debug? environment given
      return .interactive { exclude := given.list .exclude, debug }
  | .command _ .help rest => helpRequest? rest
  | .command outer command rest =>
      match ← read? command {} rest with
      | .help command => return .help command
      | .version => return .version
      | .command _ _ _ => none
      | .finished inner =>
          let options ← options? environment outer inner
          if command == .version then return .version
          else
            match inner.words with
            | [] => none
            | path :: _ => return .instrument path options

end TraceWeave.CommandLine
