import TraceWeave.Disk.Basic
import TraceWeave.Edit.Basic
import TraceWeave.NameSupply

/-! Why a run cannot go on, and why the edits of a file are dropped. -/
namespace TraceWeave

/-- Why a program cannot be loaded. -/
inductive LoadFailure where
  | badPattern (pattern : String)
  | notDirectory (path : String)
  | unreadable (path : String) (cause : Disk.ReadError)
  | brokenSource (path : String) (line : Nat)
  | noPackage (path : String)
deriving DecidableEq, Repr

namespace LoadFailure

/-- How the system describes that a text cannot be read. -/
def readMessage : Disk.ReadError → String
  | .missing => "No such file or directory (os error 2)"
  | .directory => "Is a directory (os error 21)"
  | .notText => "stream did not contain valid UTF-8"

def reason : LoadFailure → String
  | .badPattern pattern => "invalid package pattern '" ++ pattern ++ "'"
  | .notDirectory path => path ++ " is not a directory"
  | .unreadable path cause => "failed to read " ++ path ++ ": " ++ readMessage cause
  | .brokenSource path line => path ++ ":" ++ toString line ++ ": syntax error"
  | .noPackage path => path ++ ": missing package clause"

end LoadFailure

/-- A failure that ends a run. -/
inductive Failure where
  | load (cause : LoadFailure)
  | outputPath (path reason : String)
  /-- A file that was changed is no Go file any more. -/
  | unrenderable (path : String)
  /-- The patch could not be written. -/
  | unwritable (cause : Disk.WriteError)
deriving DecidableEq, Repr

namespace Failure

/-- How the system describes that a file cannot be written. -/
def writeMessage : Disk.WriteError → String
  | .missing => "No such file or directory (os error 2)"
  | .notDirectory => "Not a directory (os error 20)"
  | .directory => "Is a directory (os error 21)"
  | .longName => "File name too long (os error 36)"
  | .badName => "file name contained an unexpected NUL byte"

def message : Failure → String
  | .load cause => "failed to load packages: " ++ cause.reason
  | .outputPath path reason => "invalid output path " ++ path ++ ": " ++ reason
  | .unrenderable path => "failed to render " ++ path ++ ": rewritten source does not parse"
  | .unwritable cause => "IO error: " ++ writeMessage cause

/-- The message, followed by what the system says where it is the cause. -/
def report : Failure → String
  | .unwritable cause =>
      message (.unwritable cause) ++ "\n\nCaused by:\n    " ++ writeMessage cause
  | failure => failure.message

end Failure

/-- A failure that only costs the edits of one file. -/
inductive FileFailure where
  | name (collision : NameCollision)
  | edit (path : String) (cause : EditError)
deriving DecidableEq, Repr

namespace FileFailure

def message : FileFailure → String
  | .name collision => collision.message
  | .edit path cause => "conflicting edits in " ++ path ++ ": " ++ cause.message

end FileFailure
end TraceWeave
