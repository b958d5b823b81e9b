import GhciHost.Channel.Query
import GhciHost.Diagnostic.Basic
import GhciHost.Event.Bus
import GhciHost.Install.Installer
import GhciHost.Loop.Basic
import GhciHost.Metrics.Basic
import GhciHost.Session.Session
import GhciHost.Worker.Launcher

/-! # The host

All sessions with their workers, the channels to them, and the loop on which everything
happens.  A `Frame` is something that a task has still to do; what it does is told in
`Host.Resume`. -/

namespace GhciHost

/-- What a task or a part of it can come to. -/
inductive Value
  | unit
  | text (s : String)
  | flag (b : Bool)
  | code (n : Int)
  | session (s : Nat)
  | process (p : Nat)
  | connection (c : Nat)
  | piece (bytes : List UInt8)
  | run (r : RunResult)
  | status (s : InstallStatus)
  | version (v : Option String)
  | names (ns : List String)
  | diagnostics (ds : List Diagnostic)
  | snapshot (s : Snapshot)

instance : Inhabited Value := ⟨.unit⟩

/-- How something ended on the host. -/
abbrev Ending := Outcome Value Failure

/-- Something that a task has still to do.  It is told how the thing before it ended. -/
inductive Frame
  /-- Wait for a cell that is raced by a timer. -/
  | race (cell : Nat)
  /-- Wait for a cell that was cancelled, after the time was up or the waiting was cancelled. -/
  | reap (cell : Nat) (timeUp : Bool)
  /-- Give a value for whatever came before. -/
  | give (v : Value)
  /-- Give the snapshot of a session. -/
  | snapshot
  /-- Run a tool. -/
  | tool (argv : List String) (cwd : String) (timeout : Option Seconds)
  /-- The tool has run. -/
  | toolEnded (outcome : Except Fault RunResult)
  /-- Read a version, the extensions, the worker's status or the transcript of an installation
      off a run. -/
  | version
  | extensions
  | status
  | installed (header : String)
  /-- Connect to a worker. -/
  | connect (host : String) (port : Int)
  | connectEnded (connection : Nat)
  /-- Exchange a query for its answer. -/
  | exchange (query : Nat)
  | connected (query : Nat)
  | replied (query connection : Nat)
  /-- Query a channel, and wait for the answer. -/
  | query (channel : Nat) (command : String)
  /-- Cancel all queries of a channel, and wait for the end of some of them. -/
  | cancelQueries (channel : Nat)
  | queriesEnd (channel : Nat) (rest : List Nat) (count : Nat)
  /-- Submit a command to a lane, and wait for the response. -/
  | call (lane : Nat) (command : String) (timeout : Option Seconds)
  /-- The same in a session. -/
  | callSession (session : Nat) (command : String) (timeout : Option Seconds)
  | querySession (session : Nat) (command : String)
  /-- Load a file in a session, and read the diagnostics off the response. -/
  | checkFile (session : Nat) (path : String) (contents : Option String)
  | diagnose (session : Nat)
  /-- Read from a worker. -/
  | read (process : Nat)
  | waitExit (process : Nat)
  /-- Follow a worker's output to its end. -/
  | pump (session process : Nat)
  | pumped (session process : Nat)
  | pumpEnd (session process : Nat)
  /-- Find or make a session. -/
  | getOrCreate (root kind : String) (targets : Option (List String))
  /-- Start the session's worker, unless it is started; the session is given. -/
  | startSession
  | startTurn (session cell : Nat)
  | startBody (session : Nat)
  | startEnd (session : Nat)
  | gotVersion (session : Nat)
  | gotExtensions (session : Nat)
  | checkWorker (session : Nat)
  | gotStatus (session : Nat)
  | gotInstall (session : Nat)
  /-- Start a worker in a mode, and submit some requests again. -/
  | launch (session : Nat) (mode : StartMode) (replay : List Request)
  | spawnEnd (script : SpawnScript)
  | launched (session : Nat) (mode : StartMode) (replay : List Request)
  /-- Wait until the session is ready. -/
  | waitReady
  | readyEvent (session : Nat)
  | readyCheck (session : Nat)
  /-- What was asked for once the session is started. -/
  | submitTo (command : String) (state : Json) (reaction : Option Reaction)
  | callOn (command : String) (timeout : Option Seconds)
  | queryOn (command : String) (state : Json) (reaction : Option Reaction)
  /-- Destroy a session. -/
  | destroy (root kind : String)
  | teardown (session : Nat)
  | readerGone (session : Nat) (process : Option Nat)
  | queriesGone (session : Nat)
  | restart (root kind : String) (targets : Option (List String))
  | ensureReady (root kind : String) (targets : Option (List String))
  | cleanup
  | cleanupRest (sessions : List Nat)

/-- What happened since the journal was last taken. -/
structure Journal where
  /-- Responses that were noted, with the states of their requests. -/
  notes : List (Json × String) := []
  /-- What was written to which process. -/
  writes : List (Nat × List UInt8) := []
  events : List Event := []
  /-- Workers that were started: arguments and directory. -/
  spawns : List (List String × String) := []
  /-- Tools that were run: arguments, directory and time limit. -/
  runs : List (List String × String × Option Seconds) := []

/-- The state of everything. -/
structure Host where
  loop : Loop Value Failure Frame := {}
  settings : Settings := {}
  installer : Installer := Installer.choose {} {}
  disk : Disk := {}
  /-- Where the sessions' directories are made, and how many were. -/
  workRoot : List String := []
  workDirs : Nat := 0
  launcher : Launcher := {}
  processes : Table Process := {}
  connectionScripts : List ConnectionScript := []
  connections : Table Connection := {}
  lanes : Table Lane := {}
  channels : Table QueryChannel := {}
  queries : Table Query := {}
  /-- The sessions; a session has the number of its lane and of its query channel. -/
  sessions : Table Session := {}
  /-- The sessions in use, by kind and root. -/
  registry : Keyed (String × String) Nat := {}
  bus : Bus := {}
  /-- The counters, if there are any. -/
  metrics : Option Metrics := none
  journal : Journal := {}

/-- A step on the host, which can fail; what it did until then is done. -/
abbrev Action := EStateM Failure Host

namespace Host

/-- Do something to the loop. -/
def onLoop (f : Loop Value Failure Frame → α × Loop Value Failure Frame) : Action α :=
  modifyGet fun h => let (a, loop) := f h.loop; (a, { h with loop })

/-- Change the loop. -/
def changeLoop (f : Loop Value Failure Frame → Loop Value Failure Frame) : Action Unit :=
  modify fun h => { h with loop := f h.loop }

/-- Finish a cell, unless it is done. -/
def finish (c : Nat) (e : Ending) : Action Unit := changeLoop (·.finish c e)

/-- A new cell. -/
def newCell : Action Nat := onLoop (·.newCell)

/-- Start a task; the cell of its end. -/
def newTask (stack : List Frame) : Action Nat := onLoop (·.newTask stack)

/-- Take note of something. -/
def note (f : Journal → Journal) : Action Unit := modify fun h => { h with journal := f h.journal }

/-- Count something, if anything is counted. -/
def count (key : String) (what : Counted) : Action Unit :=
  modify fun h => { h with metrics := h.metrics.map (·.record key what) }

/-- Publish an event. -/
def publish (e : Event) : Action Unit := do
  modify fun h => { h with bus := h.bus.publish e }
  note fun j => { j with events := j.events ++ [e] }

/-- A session that no number has; it stands where no session can be meant. -/
def noSession : Session := { kind := "", root := "", key := "", workDir := [] }

def noLane : Lane := { key := "", marker := 4 }

/-- The session of a number. -/
def session (s : Nat) : Action Session := return ((← get).sessions.get? s).getD noSession

/-- Change a session. -/
def changeSession (s : Nat) (f : Session → Session) : Action Unit :=
  modify fun h => { h with sessions := h.sessions.modify s f }

/-- The lane of a number. -/
def lane (l : Nat) : Action Lane := return ((← get).lanes.get? l).getD noLane

/-- Change a lane. -/
def changeLane (l : Nat) (f : Lane → Lane) : Action Unit :=
  modify fun h => { h with lanes := h.lanes.modify l f }

/-- Change a query channel. -/
def changeChannel (c : Nat) (f : QueryChannel → QueryChannel) : Action Unit :=
  modify fun h => { h with channels := h.channels.modify c f }

/-- The process of a number. -/
def process (p : Nat) : Action Process := return ((← get).processes.get? p).getD {}

/-- Change a process. -/
def changeProcess (p : Nat) (f : Process → Process) : Action Unit :=
  modify fun h => { h with processes := h.processes.modify p f }

/-- Change a connection. -/
def changeConnection (c : Nat) (f : Connection → Connection) : Action Unit :=
  modify fun h => { h with connections := h.connections.modify c f }

end Host

end GhciHost
