import GhciHost.Session.Phase

/-! # Snapshots

What a session shows of itself, for instance in a list of sessions. -/

namespace GhciHost

/-- A session as seen from outside. -/
structure Snapshot where
  key : String
  kind : String
  root : String
  state : State
  startMode : Option StartMode := none
  servicePort : Option Int := none
  pendingRequests : Int := 0
  ghcVersion : Option String := none
  targets : List String := []
  givenUpReason : Option String := none
deriving DecidableEq, Repr

end GhciHost
