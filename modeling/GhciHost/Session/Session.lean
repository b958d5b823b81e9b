import GhciHost.Output.Transcript
import GhciHost.Path.Pathname
import GhciHost.Session.Snapshot
import GhciHost.Shell.Word
import GhciHost.Text.Scan
import GhciHost.Text.Utf8

/-! # Sessions

A session stands for one worker in one project.  Here is what it knows and how it follows
the worker's output; what it does is told elsewhere. -/

namespace GhciHost

/-- One worker and its project. -/
structure Session where
  kind : String
  root : String
  key : String
  targets : List String := []
  phase : Phase := .absent
  process : Option Nat := none
  /-- The cell of the task that reads the worker's output. -/
  reader : Option Nat := none
  /-- Whether nobody needs to wait for the worker to become ready. -/
  ready : Bool := false
  readyWaiters : List Nat := []
  /-- Whether somebody is starting the worker, and who waits to. -/
  starting : Bool := false
  startWaiters : List Nat := []
  destroyed : Bool := false
  /-- The directory of the session's scratch files. -/
  workDir : List String
  /-- Scratch copies and the source files that they stand for. -/
  staging : List (String × String) := []
  ghcVersion : Option String := none
  extensions : List String := []
  /-- The first response of the worker, without the announced port. -/
  startupOutput : String := ""
  transcript : List Char := []
  decoder : Text.Utf8.Decoder := {}
  /-- The end of the output, in which a missing dependency may be about to be told. -/
  tail : List Char := []
  dependencyMissing : Bool := false

namespace Session

/-- The directory for what the compiler makes. -/
def objectDir (s : Session) : String := Pathname.renderAbsolute (s.workDir ++ ["build"])

/-- What is seen of a session from outside.  `port` and `pending` belong to its channels. -/
def snapshot (s : Session) (port : Option Int) (pending : Nat) : Snapshot where
  key := s.key
  kind := s.kind
  root := s.root
  state := s.phase.state
  startMode := s.phase.mode?
  servicePort := port
  pendingRequests := pending
  ghcVersion := s.ghcVersion
  targets := s.targets
  givenUpReason := s.phase.givenUpReason?

/-- Add to the transcript, of which the last `limit` bytes are kept. -/
def append (s : Session) (limit : Int) (text : List Char) : Session :=
  { s with transcript := Output.truncate limit (s.transcript ++ text) }

/-- Begin with a new worker: nothing of the last one's output is continued. -/
def beginAttempt (s : Session) (limit : Int) (argv : List String) : Session :=
  { s with decoder := {}, tail := [], dependencyMissing := false }.append limit
    (['$', ' '] ++ Shell.join argv ++ ['\n'])

/-- Leave out all occurrences of a phrase. -/
def without (phrase s : List Char) : List Char :=
  if phrase.isEmpty then s
  else Text.replaceAll (fun s => (Text.stripPrefix? phrase s).map fun _ => ([], phrase.length)) s

/-- How many characters of the output are kept to find a phrase in what follows. -/
def tailLength : Nat := 256

/-- The last characters of a text. -/
def lastChars (n : Nat) (s : List Char) : List Char := s.drop (s.length - n)

/-- Follow the worker's output: keep it in the transcript, and look for the phrases that tell
    of a missing dependency. -/
def output (s : Session) (limit : Int) (marker : List Char) (phrases : List (List Char))
    (bytes : List UInt8) : Session :=
  match s.decoder.feed bytes with
  | ([], decoder) => { s with decoder }
  | (text, decoder) =>
    let s := { s with decoder }.append limit (without marker text)
    let window := s.tail ++ text
    { s with
      dependencyMissing := s.dependencyMissing || phrases.any fun p => Text.contains p window
      tail := lastChars tailLength window }

end Session

end GhciHost
