import GhciHost.Session.Phase
import GhciHost.Text.Blank

/-! # Errors of a session

The two errors that a person is to see, those of installing and of a missing dependency,
carry the transcript; their message ends with it.

* `message_of_blank`   the message of an error without a transcript is its text. -/

namespace GhciHost

/-- The kinds of error of a session. -/
inductive SessionError.Kind
  | general
  /-- No live worker stands behind the session. -/
  | processNotRunning
  /-- A response came while no request was pending. -/
  | protocolViolation
  /-- A query's own connection could not be used. -/
  | connectionUnavailable
  /-- The session was destroyed while a caller was waiting. -/
  | sessionDestroyed
  /-- The worker could not be installed or started. -/
  | installFailure
  /-- The worker kept missing a dependency. -/
  | unsatisfiedDependency
deriving DecidableEq, Repr

/-- What went wrong with a session, and with which. -/
structure SessionError where
  kind : SessionError.Kind
  text : String
  transcript : String := ""
  key : Option String := none
deriving DecidableEq, Repr

namespace SessionError

/-- Whether errors of a kind carry a transcript. -/
def Kind.hasTranscript : Kind → Bool
  | .installFailure | .unsatisfiedDependency => true
  | _ => false

/-- The message of an error. -/
def message (e : SessionError) : String :=
  if Text.allBlank e.transcript.toList then e.text
  else e.text ++ "\n\n" ++ String.ofList (Text.trimRight e.transcript.toList)

theorem message_of_blank {e : SessionError} (h : Text.allBlank e.transcript.toList = true) :
    e.message = e.text := by
  simp [message, h]

/-- The error of a session that gave up. -/
def gaveUp (kind : GiveUpKind) (reason transcript : String) (key : Option String) : SessionError :=
  match kind with
  | .installFailure => ⟨.installFailure, reason, transcript, key⟩
  | .unsatisfiedDependency => ⟨.unsatisfiedDependency, reason, transcript, key⟩

end SessionError

end GhciHost
