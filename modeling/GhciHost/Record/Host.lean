import GhciHost.Host.Basic
import GhciHost.Json.Access
import GhciHost.Record.Diagnostic
import GhciHost.Record.Snapshot

/-! # What is seen of the host, as records

Counters, events, connections, workers that were started and tools that were run are written
as JSON. -/

namespace GhciHost

/-- Write counters. -/
def Counters.toJson (c : Counters) : Json :=
  .obj [("requests", .int c.requests), ("frames", .int c.frames),
    ("bytes_received", .int c.bytesReceived), ("protocol_violations", .int c.protocolViolations),
    ("secondary_queries", .int c.secondaryQueries),
    ("secondary_fallbacks", .int c.secondaryFallbacks), ("restarts", .int c.restarts),
    ("duration_ms", .int c.durationMs)]

/-- Write the kind and the details of an event. -/
def Event.toPair (e : Event) : Json := .arr [.str e.kind.name, .obj e.details]

/-- Write an event with its session. -/
def Event.toTriple (e : Event) : Json := .arr [.str e.kind.name, .str e.session, .obj e.details]

/-- How many events are written out on both ends of a long list, and from when on a list is
    long. -/
def Event.shownAtEnds : Nat := 3

@[inherit_doc Event.shownAtEnds]
def Event.shownAtMost : Nat := 12

/-- Write a list of events; only the ends of a long one. -/
def Event.listToJson (es : List Event) : Json :=
  let shown := if es.length ≤ shownAtMost then es
    else es.take shownAtEnds ++ es.drop (es.length - shownAtEnds)
  .obj [("size", .ofNat es.length), ("events", .arr (shown.map toTriple))]

/-- Write bytes as the text that they encode. -/
def Json.ofBytes (bs : List UInt8) : Json := .ofChars (Text.Utf8.decode bs)

/-- Write a connection. -/
def Connection.toJson (c : Connection) : Json :=
  .obj [("host", .str c.host), ("port", .int c.port), ("written", .ofBytes c.written),
    ("eof", .bool c.eof), ("closed", .bool c.closed)]

/-- Write the start of a worker. -/
def Journal.spawnToJson : List String × String → Json
  | (argv, cwd) => .obj [("argv", .ofTexts argv), ("cwd", .str cwd)]

/-- Write the run of a tool. -/
def Journal.runToJson : List String × String × Option Seconds → Json
  | (argv, cwd, timeout) => .obj [("argv", .ofTexts argv), ("cwd", .str cwd),
      ("timeout", match timeout with
        | some s => .ofChars s.render
        | none => .str "None")]

/-- Write what a task has come to. -/
def Value.toJson : Value → Json
  | text s => .str s
  | flag b => .bool b
  | snapshot s => s.toJson
  | diagnostics ds => .arr (ds.map Diagnostic.toJson)
  | code n => .int n
  | status s => .str s.name
  | version v => .orNull .str v
  | names ns => .ofTexts ns
  | _ => .null

end GhciHost
