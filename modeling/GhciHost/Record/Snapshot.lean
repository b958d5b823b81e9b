import GhciHost.Json.Access
import GhciHost.Record.Scalar
import GhciHost.Session.Snapshot

/-! # Snapshots as records

Snapshots of sessions are written as JSON objects with all their fields, and read back
loosely. -/

namespace GhciHost.Snapshot

open Record

/-- Write a snapshot. -/
def toJson (s : Snapshot) : Json :=
  .obj [("key", .str s.key), ("kind", .str s.kind), ("root", .str s.root),
    ("state", .str s.state.name), ("start_mode", .orNull (.str ·.name) s.startMode),
    ("service_port", .orNull .int s.servicePort), ("pending_requests", .int s.pendingRequests),
    ("ghc_version", .orNull .str s.ghcVersion), ("targets", .ofTexts s.targets),
    ("given_up_reason", .orNull .str s.givenUpReason)]

/-- Read a snapshot. -/
def ofJson (j : Json) : Check Snapshot :=
  (readMembers j).andThen fun ms =>
    Snapshot.mk
      <$> required ms "key" readText
      <*> required ms "kind" readText
      <*> required ms "root" readText
      <*> required ms "state" (readChoice State.ofName?)
      <*> optional ms "start_mode" none (nullable (readChoice StartMode.ofName?))
      <*> optional ms "service_port" none (nullable readInteger)
      <*> optional ms "pending_requests" 0 readInteger
      <*> optional ms "ghc_version" none (nullable readText)
      <*> optional ms "targets" [] (readList readText)
      <*> optional ms "given_up_reason" none (nullable readText)

end GhciHost.Snapshot
