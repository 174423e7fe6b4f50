import TraceWeave.CommandLine.Basic

/-! The program on the files of a machine: what it needs is read first, and the patch is written at
the end. -/
namespace TraceWeave.Main

open CommandLine (Environment Request)

/-- Names from `/` on of a path, seen from a directory. -/
def wayOf (here : List String) (path : String) : List String :=
  (Path.segments path).foldl
    (fun way segment =>
      if Path.isIdle segment then way else if segment == ".." then way.dropLast else way ++ [segment])
    (if Path.isAbsolute path then [] else here)

/-- Whether the text of a file can matter. -/
def isRead (name : String) : Bool :=
  Text.finishesWith name ".go" || name == "go.mod" || Configuration.fileNames.any (·.1 == name)

/-- Read a file; one that cannot matter stays unread. -/
def readFile (path name : String) : IO Content := do
  if isRead name then
    match String.fromUTF8? (← IO.FS.readBinFile path) with
    | some text => return .text text
    | none => return .binary
  else return .binary

/-- Read the files below a path. Directories that are never looked at stay empty. -/
partial def readTree (path : String) : IO Item := do
  let place := (← IO.currentDir) / path
  let mut items := #[]
  for entry in ← place.readDir do
    let inner := path ++ "/" ++ entry.fileName
    if ← entry.path.isDir then
      let below ← if Selection.isSkipped entry.fileName then pure Item.empty else readTree inner
      items := items.push (entry.fileName, below)
    else items := items.push (entry.fileName, .file (← readFile inner entry.fileName))
  return .directory items.toList

def isDirectory (path : String) : IO Bool := do
  ((← IO.currentDir) / path).isDir

/-- Add a directory that is there but holds nothing of interest. -/
def addDirectory (disk : Disk) (path : String) : IO Disk := do
  if path != "" && !disk.isDirectory path && (← isDirectory path) then
    return { disk with top := disk.top.put Item.empty (wayOf disk.here path) }
  else return disk

/-- What a request needs to know about the files. -/
def readDisk (request : Request) : IO Disk := do
  let here := (Path.segments (← IO.currentDir).toString).filter fun name => !Path.isIdle name
  let bare : Disk := ⟨Item.empty.put Item.empty here, here⟩
  match request.root? bare with
  | none => return bare
  | some root =>
      let disk ← if ← isDirectory root then
          pure { bare with top := bare.top.put (← readTree root) (wayOf here root) }
        else pure bare
      match Configuration.load disk root request.options with
      | .error _ => return disk
      | .ok configuration =>
          let output := Path.join root configuration.patchName
          addDirectory (← addDirectory disk output) ((Path.parent? output).getD "")

/-- The question that is asked before the input is read. -/
def question (request : Request) (disk : Disk) : String :=
  match request with
  | .interactive options =>
      match Configuration.load disk disk.workingDirectory options with
      | .error _ => ""
      | .ok configuration =>
          match Loader.discover disk disk.workingDirectory configuration.selection with
          | .ok (file :: files) => CommandLine.question disk configuration (file :: files)
          | _ => ""
  | _ => ""

/-- Write a text beside its place first, so that a reader never sees half of it. -/
def writeFile (path text : String) : IO Unit := do
  let draft := path ++ ".part"
  IO.FS.writeFile draft text
  IO.FS.rename draft path

/-- Do what was asked for. -/
def perform (request : Request) (environment : Environment) : IO UInt32 := do
  let disk ← readDisk request
  let asked := question request disk
  let output ← IO.getStdout
  output.putStr asked
  output.flush
  let input ← if asked == "" then pure "" else (← IO.getStdin).getLine
  let ending := request.perform disk environment input
  if let some path := ending.written then
    if let .ok text := ending.disk.read path then writeFile path text
  output.putStr (String.ofList (ending.output.toList.drop asked.toList.length))
  if let some message := ending.failure then IO.eprintln ("Error: " ++ message)
  return ending.exit.toUInt32

end TraceWeave.Main

def main (words : List String) : IO UInt32 := do
  let names := [TraceWeave.CommandLine.Flag.debug, .appName].filterMap (·.variableName?)
  let environment ← names.filterMapM fun name => return (← IO.getEnv name).map (name, ·)
  match TraceWeave.CommandLine.Request.parse? environment words with
  | none =>
      IO.eprintln ("error: unexpected command line\n\nUsage: " ++ TraceWeave.CommandLine.Command.usage .top)
      return 2
  | some request => TraceWeave.Main.perform request environment
