import GhciHost.File.Resolve
import GhciHost.Project.Root
import GhciHost.Session.Error
import GhciHost.Suggestion.Rules
import GhciHost.Worker.Command

/-! # Failures

What can go wrong around a session.  Faults come from outside: from the operating system,
from connections, or from a tool in any other way. -/

namespace GhciHost

/-- The kinds of fault that an operating system reports. -/
inductive OsFault
  | general
  | blocking
  | childProcess
  | connection
  | brokenPipe
  | connectionAborted
  | connectionRefused
  | connectionReset
  | fileExists
  | fileNotFound
  | interrupted
  | isDirectory
  | notDirectory
  | permission
  | processLookup
  | timeout
deriving DecidableEq, Repr

/-- The name of a kind of fault. -/
def OsFault.name : OsFault → String
  | .general => "OSError"
  | .blocking => "BlockingIOError"
  | .childProcess => "ChildProcessError"
  | .connection => "ConnectionError"
  | .brokenPipe => "BrokenPipeError"
  | .connectionAborted => "ConnectionAbortedError"
  | .connectionRefused => "ConnectionRefusedError"
  | .connectionReset => "ConnectionResetError"
  | .fileExists => "FileExistsError"
  | .fileNotFound => "FileNotFoundError"
  | .interrupted => "InterruptedError"
  | .isDirectory => "IsADirectoryError"
  | .notDirectory => "NotADirectoryError"
  | .permission => "PermissionError"
  | .processLookup => "ProcessLookupError"
  | .timeout => "TimeoutError"

/-- All kinds of fault that an operating system reports. -/
def OsFault.all : List OsFault :=
  [.general, .blocking, .childProcess, .connection, .brokenPipe, .connectionAborted,
    .connectionRefused, .connectionReset, .fileExists, .fileNotFound, .interrupted, .isDirectory,
    .notDirectory, .permission, .processLookup, .timeout]

theorem OsFault.mem_all (k : OsFault) : k ∈ all := by cases k <;> decide

/-- Something that went wrong outside. -/
inductive Fault
  | os (kind : OsFault) (text : String)
  | other (kind text : String)
deriving DecidableEq, Repr

namespace Fault

/-- The name of the kind of a fault. -/
def name : Fault → String
  | os kind _ => kind.name
  | other kind _ => kind

/-- What a fault says. -/
def text : Fault → String
  | os _ text | other _ text => text

/-- Whether a fault means that nobody reads what is written. -/
def isClosedInput : Fault → Bool
  | os .brokenPipe _ | os .connectionReset _ => true
  | _ => false

end Fault

/-- Why something failed that was asked of the host. -/
inductive Failure
  | timeout
  | session (e : SessionError)
  | badCommand (f : Command.Fault)
  /-- Only queries may have connections of their own. -/
  | notReadOnly (command : String)
  | badMarker
  | badRoot (f : RootFault)
  | path (e : PathError)
  | illegalTransition (key : String) (before after : State)
  | report (e : Suggestion.RuleError)
  | tooManyDigits (e : Text.TooManyDigits)
  | fault (f : Fault)
deriving Repr

namespace Failure

/-- Whether the operating system is to blame; a time limit counts as one of its faults. -/
def isOs : Failure → Bool
  | timeout | fault (.os ..) | path (.file ..) => true
  | _ => false

/-- Whether something was asked for with a value that cannot be used. -/
def isBadValue : Failure → Bool
  | badCommand _ | notReadOnly _ | badMarker | badRoot _ | report _ | tooManyDigits _
  | path .nullByte | fault (.other "ValueError" _) => true
  | _ => false

/-- The message of a failure. -/
def message : Failure → String
  | timeout => ""
  | session e => e.message
  | badCommand f => "Command rejected: " ++ f.message
  | notReadOnly command =>
    "Only read-only queries may use the secondary channel: " ++
      String.ofList (command.toList.take 40)
  | badMarker => "frame marker must be exactly one byte"
  | badRoot f => f.message
  | path e => e.message
  | illegalTransition key before after =>
    "Illegal session transition " ++ before.name ++ " -> " ++ after.name ++ " for " ++ key
  | report (.tooManyDigits e) => e.message
  | report (.negative _) => "a position is negative"
  | tooManyDigits e => e.message
  | fault f => f.text

/-- A fault of the operating system with its kind in front. -/
def described : Failure → String
  | timeout => OsFault.timeout.name ++ ": "
  | fault f => f.name ++ ": " ++ f.text
  | e => OsFault.general.name ++ ": " ++ e.message

end Failure

end GhciHost
