import GhciHost.Json.Basic

/-! # Events

What is told about a session while it lives. -/

namespace GhciHost

/-- The kinds of event. -/
inductive Event.Kind
  | sessionCreated
  | sessionStateChanged
  | sessionReady
  | sessionGivenUp
  | sessionDestroyed
  /-- Tells subscribers that nothing more will come. -/
  | sessionClosed
  | workerSpawned
  | workerExited
  | workerEscalated
  | installStarted
  | installComplete
  | installFailed
  | protocolViolation
  | secondaryFallback
deriving DecidableEq, Repr

namespace Event.Kind

/-- The name of a kind. -/
def name : Kind → String
  | sessionCreated => "session_created"
  | sessionStateChanged => "session_state_changed"
  | sessionReady => "session_ready"
  | sessionGivenUp => "session_given_up"
  | sessionDestroyed => "session_destroyed"
  | sessionClosed => "session_closed"
  | workerSpawned => "worker_spawned"
  | workerExited => "worker_exited"
  | workerEscalated => "worker_escalated"
  | installStarted => "install_started"
  | installComplete => "install_complete"
  | installFailed => "install_failed"
  | protocolViolation => "protocol_violation"
  | secondaryFallback => "secondary_fallback"

/-- All kinds. -/
def all : List Kind :=
  [sessionCreated, sessionStateChanged, sessionReady, sessionGivenUp, sessionDestroyed,
    sessionClosed, workerSpawned, workerExited, workerEscalated, installStarted, installComplete,
    installFailed, protocolViolation, secondaryFallback]

/-- The kind of a name. -/
def ofName? (name : String) : Option Kind := all.find? (·.name == name)

theorem mem_all (k : Kind) : k ∈ all := by cases k <;> decide

theorem ofName?_name (k : Kind) : ofName? k.name = some k := by cases k <;> decide

end Event.Kind

/-- Something that happened to a session. -/
structure Event where
  kind : Event.Kind
  session : String
  details : List (String × Json) := []

/-- The event that ends a subscription. -/
def Event.closing (session : String) : Event :=
  ⟨.sessionClosed, session, [("reason", .str "session_closed")]⟩

end GhciHost
