import GhciHost.Host.Run
import GhciHost.Proofs.Host.Parts

/-!
# What later steps depend on

Much of what an action does is only remembered: texts, events for others, files, counters.  The
`view` of a host is what decides who goes on, who is told what, and which phase a session can
enter next.  A relation that is `Blind` has nothing to say about anything else, so the actions
below are known to move the host along it.

* `view`   what counts;
* `margin`   what else is known of sessions and of their channels;
* `Blind`   relations that hold between hosts with one view and one margin;
* `Within.of_view`   an action that is only remembered.
-/

namespace GhciHost

/-- What of a session decides how it goes on. -/
structure Session.Core where
  key : String
  phase : Phase
  process : Option Nat
  destroyed : Bool
  starting : Bool
  startWaiters : List Nat

/-- The part of a session that decides how it goes on. -/
def Session.core (a : Session) : Session.Core :=
  { key := a.key, phase := a.phase, process := a.process, destroyed := a.destroyed
    starting := a.starting, startWaiters := a.startWaiters }

/-- The core of a session that was only just made. -/
def Session.Core.new (key : String) : Session.Core :=
  { key, phase := .absent, process := none, destroyed := false, starting := false
    startWaiters := [] }

/-- A session's core as before, or that of a session whose worker has become ready. -/
def Session.Core.Calm (a b : Session.Core) : Prop :=
  b = a ∨ ∃ m m' port p, a.phase = .starting m ∧ a.process = some p ∧
    b = { a with phase := .ready m' port }

theorem Session.Core.Calm.refl (a : Session.Core) : a.Calm a := .inl rfl

/-- A worker becomes ready once. -/
theorem Session.Core.Calm.trans {a b c : Session.Core} (h : a.Calm b) (k : b.Calm c) : a.Calm c := by
  rcases h with rfl | ⟨m, m', port, p, hm, hp, rfl⟩
  · exact k
  · rcases k with rfl | ⟨n, n', port', q, hn, -, -⟩
    · exact .inr ⟨m, m', port, p, hm, hp, rfl⟩
    · cases hn

/-- Events of this kind do not tell of a change of phase. -/
class Event.Kind.Aside (k : Event.Kind) : Prop where
  ne : k ≠ .sessionStateChanged

namespace Event.Kind

instance : Aside .sessionCreated := ⟨by decide⟩
instance : Aside .sessionReady := ⟨by decide⟩
instance : Aside .sessionGivenUp := ⟨by decide⟩
instance : Aside .sessionDestroyed := ⟨by decide⟩
instance : Aside .workerSpawned := ⟨by decide⟩
instance : Aside .workerExited := ⟨by decide⟩
instance : Aside .workerEscalated := ⟨by decide⟩
instance : Aside .installStarted := ⟨by decide⟩
instance : Aside .installComplete := ⟨by decide⟩
instance : Aside .installFailed := ⟨by decide⟩
instance : Aside .protocolViolation := ⟨by decide⟩
instance : Aside .secondaryFallback := ⟨by decide⟩

end Event.Kind

namespace Host

/-- The core of the session of a number, if there is such a session. -/
def core? (h : Host) (s : Nat) : Option Session.Core := (h.sessions.get? s).map Session.core

/-- The cells of those who wait until a session is ready. -/
def readyWaiters (h : Host) (s : Nat) : List Nat :=
  ((h.sessions.get? s).map (·.readyWaiters)).getD []

/-- The cell of whoever reads from a process, and the cells of those who wait for its end. -/
def processWaiters (h : Host) (p : Nat) : Option Nat × List Nat :=
  ((h.processes.get? p).map fun a => (a.reader, a.exitWaiters)).getD (none, [])

/-- The process of a lane and its queue. -/
def laneState (h : Host) (l : Nat) : Option Nat × List Request :=
  ((h.lanes.get? l).map fun a => (a.process, a.queue)).getD (none, [])

/-- The requests of a lane that wait for their responses. -/
def queueOf (h : Host) (l : Nat) : List Request := (h.laneState l).2

theorem processWaiters_eq (h : Host) (p : Nat) :
    h.processWaiters p = ((h.processOf p).reader, (h.processOf p).exitWaiters) := by
  unfold processWaiters processOf
  cases h.processes.get? p <;> rfl

theorem readyWaiters_eq (h : Host) (s : Nat) :
    h.readyWaiters s = (h.sessionOf s).readyWaiters := by
  unfold readyWaiters sessionOf
  cases h.sessions.get? s <;> rfl

theorem queueOf_eq (h : Host) (l : Nat) : h.queueOf l = (h.laneOf l).queue := by
  unfold queueOf laneState laneOf
  cases h.lanes.get? l <;> rfl

/-- The events that tell of changes of phase, oldest first. -/
def changes (h : Host) : List Event := h.journal.events.filter (·.kind = .sessionStateChanged)

/-- What later steps depend on. -/
structure View where
  loop : Loop Value Failure Frame
  lanes : Nat → Option Nat × List Request
  processes : Nat → Option Nat × List Nat
  queries : Table Query
  cores : Nat → Option Session.Core
  readyWaiters : Nat → List Nat
  registry : Keyed (String × String) Nat
  changes : List Event

/-- The part of a host that later steps depend on. -/
def view (h : Host) : View :=
  { loop := h.loop, lanes := h.laneState, processes := h.processWaiters, queries := h.queries
    cores := h.core?, readyWaiters := h.readyWaiters, registry := h.registry
    changes := h.changes }

/-- What is told to callers besides: the ports that were announced, whether somebody would have to
    wait for a session, the exit codes of processes that have ended, how many lanes, channels
    and sessions there are, and how often the launcher was called and started a process.  What only
    the end of a session asks for comes last: the queries under way, which processes were killed,
    and the tasks that follow the workers of sessions. -/
structure Margin where
  ports : Nat → Option Int
  ready : Nat → Bool
  exits : Nat → Option Int
  sizes : Nat × Nat × Nat
  tally : Nat × Nat
  active : Nat → List Nat
  killed : Nat → Bool
  readers : Nat → Option Nat

/-- The port of the channel of a number. -/
def portOf (h : Host) (c : Nat) : Option Int := (h.channels.get? c).bind (·.port)

/-- Whether nobody would have to wait for the session of a number. -/
def readyOf (h : Host) (s : Nat) : Bool := ((h.sessions.get? s).map (·.ready)).getD false

/-- The exit code of the process of a number, if it has ended. -/
def exitOf (h : Host) (p : Nat) : Option Int := (h.processes.get? p).bind (·.exitCode)

/-- The numbers of lanes, of channels and of sessions. -/
def sizes (h : Host) : Nat × Nat × Nat := (h.lanes.size, h.channels.size, h.sessions.size)

/-- How often the launcher was called, and how many processes it started. -/
def tally (h : Host) : Nat × Nat := (h.journal.spawns.length, h.processes.size)

/-- The queries under way on the channel of a number, oldest first. -/
def activeOf (h : Host) (c : Nat) : List Nat := ((h.channels.get? c).map (·.active)).getD []

/-- Whether the process of a number was killed. -/
def killedOf (h : Host) (p : Nat) : Bool := ((h.processes.get? p).map (·.killed)).getD false

/-- The cell of the task that follows the worker of a session. -/
def readerOf (h : Host) (s : Nat) : Option Nat := (h.sessions.get? s).bind (·.reader)

/-- The part of a host that is told to callers. -/
def margin (h : Host) : Margin :=
  { ports := h.portOf, ready := h.readyOf, exits := h.exitOf, sizes := h.sizes, tally := h.tally
    active := h.activeOf, killed := h.killedOf, readers := h.readerOf }

/-- The relation holds between hosts with one view and one margin. -/
class Blind (R : Host → Host → Prop) : Prop where
  of_view : ∀ {h h'}, h'.view = h.view → h'.margin = h.margin → R h h'

/-- The same, but the relation may tell of the lanes and of what was written to workers. -/
class Nearsighted (R : Host → Host → Prop) : Prop where
  of_traffic : ∀ {h h' : Host}, h'.view = h.view → h'.margin = h.margin → h'.lanes = h.lanes →
    h'.journal.writes = h.journal.writes → R h h'

instance (R : Host → Host → Prop) [hR : Blind R] : Nearsighted R :=
  ⟨fun hv hm _ _ => hR.of_view hv hm⟩

/-- The relation has nothing to say about calls of the launcher, about the queries under way, about
    who is killed, and about who follows a worker. -/
class Tacit (R : Host → Host → Prop) : Prop where
  of_spawns : ∀ {h : Host} (ss : List (List String × String)),
    R h { h with journal := { h.journal with spawns := ss } }
  of_active : ∀ {h : Host} (c : Nat) (f : QueryChannel → List Nat),
    R h { h with channels := h.channels.modify c fun ch => { ch with active := f ch } }
  of_killed : ∀ {h : Host} (p : Nat),
    R h { h with processes := h.processes.modify p fun a => { a with killed := true } }
  of_reader : ∀ {h : Host} (s : Nat) (reader : Option Nat),
    R h { h with sessions := h.sessions.modify s fun a => { a with reader } }

instance : Blind (Same view) := ⟨fun e _ => e⟩

instance (f : View → β) : Blind (Same fun h => f h.view) := ⟨fun e _ => congrArg f e⟩

instance : Blind (Same core?) := ⟨fun e _ => congrArg View.cores e⟩

/-! ## What one component does to the view -/

theorem core?_changeSession (h : Host) (s i : Nat) (f : Session → Session) :
    core? { h with sessions := h.sessions.modify s f } i =
      if s = i then (h.sessions.get? i).map fun a => (f a).core else h.core? i := by
  simp only [core?, Table.get?_modify]
  split
  · rw [Option.map_map]
    rfl
  · rfl

theorem readyWaiters_changeSession (h : Host) (s i : Nat) (f : Session → Session) :
    readyWaiters { h with sessions := h.sessions.modify s f } i =
      if s = i then ((h.sessions.get? i).map fun a => (f a).readyWaiters).getD []
      else h.readyWaiters i := by
  simp only [readyWaiters, Table.get?_modify]
  split
  · rw [Option.map_map]
    rfl
  · rfl

theorem laneState_changeLane (h : Host) (l i : Nat) (f : Lane → Lane) :
    laneState { h with lanes := h.lanes.modify l f } i =
      if l = i then ((h.lanes.get? i).map fun a => ((f a).process, (f a).queue)).getD (none, [])
      else h.laneState i := by
  simp only [laneState, Table.get?_modify]
  split
  · rw [Option.map_map]
    rfl
  · rfl

theorem processWaiters_changeProcess (h : Host) (p i : Nat) (f : Process → Process) :
    processWaiters { h with processes := h.processes.modify p f } i =
      if p = i then
        ((h.processes.get? i).map fun a => ((f a).reader, (f a).exitWaiters)).getD (none, [])
      else h.processWaiters i := by
  simp only [processWaiters, Table.get?_modify]
  split
  · rw [Option.map_map]
    rfl
  · rfl

theorem view_changeSession (h : Host) (s : Nat) {f : Session → Session}
    (hc : ∀ a, (f a).core = a.core) (hr : ∀ a, (f a).readyWaiters = a.readyWaiters) :
    view { h with sessions := h.sessions.modify s f } = h.view := by
  have hcore : core? { h with sessions := h.sessions.modify s f } = h.core? := by
    funext i
    rw [core?_changeSession]
    split
    · simp only [hc]
      rfl
    · rfl
  have hready : readyWaiters { h with sessions := h.sessions.modify s f } = h.readyWaiters := by
    funext i
    rw [readyWaiters_changeSession]
    split
    · simp only [hr]
      rfl
    · rfl
  simp only [view, hcore, hready]
  rfl

theorem view_changeLane (h : Host) (l : Nat) {f : Lane → Lane}
    (hp : ∀ a, (f a).process = a.process) (hq : ∀ a, (f a).queue = a.queue) :
    view { h with lanes := h.lanes.modify l f } = h.view := by
  have hlane : laneState { h with lanes := h.lanes.modify l f } = h.laneState := by
    funext i
    rw [laneState_changeLane]
    split
    · simp only [hp, hq]
      rfl
    · rfl
  simp only [view, hlane]
  rfl

theorem view_changeProcess (h : Host) (p : Nat) {f : Process → Process}
    (hr : ∀ a, (f a).reader = a.reader) (he : ∀ a, (f a).exitWaiters = a.exitWaiters) :
    view { h with processes := h.processes.modify p f } = h.view := by
  have hproc : processWaiters { h with processes := h.processes.modify p f } =
      h.processWaiters := by
    funext i
    rw [processWaiters_changeProcess]
    split
    · simp only [hr, he]
      rfl
    · rfl
  simp only [view, hproc]
  rfl

/-- Who is killed goes on at first as before. -/
theorem view_setKilled (h : Host) (p : Nat) :
    view { h with processes := h.processes.modify p fun a => { a with killed := true } } = h.view :=
  view_changeProcess h p (fun _ => rfl) fun _ => rfl

/-- Who follows a worker goes on by itself. -/
theorem view_setReader (h : Host) (s : Nat) (reader : Option Nat) :
    view { h with sessions := h.sessions.modify s fun a => { a with reader } } = h.view :=
  view_changeSession h s (fun _ => rfl) fun _ => rfl

instance : Tacit (Same view) where
  of_spawns _ := rfl
  of_active _ _ := rfl
  of_killed p := view_setKilled _ p
  of_reader s reader := view_setReader _ s reader

instance (f : View → β) : Tacit (Same fun h => f h.view) where
  of_spawns _ := rfl
  of_active _ _ := rfl
  of_killed p := congrArg f (view_setKilled _ p)
  of_reader s reader := congrArg f (view_setReader _ s reader)

theorem readyOf_changeSession (h : Host) (s i : Nat) (f : Session → Session) :
    readyOf { h with sessions := h.sessions.modify s f } i =
      if s = i then ((h.sessions.get? i).map fun a => (f a).ready).getD false
      else h.readyOf i := by
  simp only [readyOf, Table.get?_modify]
  split
  · rw [Option.map_map]
    rfl
  · rfl

theorem portOf_changeChannel (h : Host) (c i : Nat) (f : QueryChannel → QueryChannel) :
    portOf { h with channels := h.channels.modify c f } i =
      if c = i then (h.channels.get? i).bind fun ch => (f ch).port else h.portOf i := by
  simp only [portOf, Table.get?_modify]
  split
  · rw [Option.bind_map]
    rfl
  · rfl

theorem readerOf_changeSession (h : Host) (s i : Nat) (f : Session → Session) :
    readerOf { h with sessions := h.sessions.modify s f } i =
      if s = i then (h.sessions.get? i).bind fun a => (f a).reader else h.readerOf i := by
  simp only [readerOf, Table.get?_modify]
  split
  · rw [Option.bind_map]
    rfl
  · rfl

theorem margin_changeSession (h : Host) (s : Nat) {f : Session → Session}
    (hf : ∀ a, (f a).ready = a.ready) (hreader : ∀ a, (f a).reader = a.reader) :
    margin { h with sessions := h.sessions.modify s f } = h.margin := by
  have hreaders : readerOf { h with sessions := h.sessions.modify s f } = h.readerOf := by
    funext i
    rw [readerOf_changeSession]
    split
    · simp only [hreader]
      rfl
    · rfl
  have hready : readyOf { h with sessions := h.sessions.modify s f } = h.readyOf := by
    funext i
    rw [readyOf_changeSession]
    split
    · simp only [hf]
      rfl
    · rfl
  simp only [margin, hready, hreaders, sizes, Table.size_modify]
  rfl

theorem margin_changeLane (h : Host) (l : Nat) (f : Lane → Lane) :
    margin { h with lanes := h.lanes.modify l f } = h.margin := by
  simp only [margin, sizes, Table.size_modify]
  rfl

theorem activeOf_changeChannel (h : Host) (c i : Nat) (f : QueryChannel → QueryChannel) :
    activeOf { h with channels := h.channels.modify c f } i =
      if c = i then ((h.channels.get? i).map fun ch => (f ch).active).getD []
      else h.activeOf i := by
  simp only [activeOf, Table.get?_modify]
  split
  · rw [Option.map_map]
    rfl
  · rfl

theorem exitOf_changeProcess (h : Host) (p i : Nat) (f : Process → Process) :
    exitOf { h with processes := h.processes.modify p f } i =
      if p = i then (h.processes.get? i).bind fun a => (f a).exitCode else h.exitOf i := by
  simp only [exitOf, Table.get?_modify]
  split
  · rw [Option.bind_map]
    rfl
  · rfl

theorem killedOf_changeProcess (h : Host) (p i : Nat) (f : Process → Process) :
    killedOf { h with processes := h.processes.modify p f } i =
      if p = i then ((h.processes.get? i).map fun a => (f a).killed).getD false
      else h.killedOf i := by
  simp only [killedOf, Table.get?_modify]
  split
  · rw [Option.map_map]
    rfl
  · rfl

theorem exits_changeProcess (h : Host) (p : Nat) {f : Process → Process}
    (hf : ∀ a, (f a).exitCode = a.exitCode) :
    exitOf { h with processes := h.processes.modify p f } = h.exitOf := by
  funext i
  rw [exitOf_changeProcess]
  split
  · simp only [hf]
    rfl
  · rfl

theorem margin_changeProcess (h : Host) (p : Nat) {f : Process → Process}
    (hf : ∀ a, (f a).exitCode = a.exitCode) (hk : ∀ a, (f a).killed = a.killed) :
    margin { h with processes := h.processes.modify p f } = h.margin := by
  have hkilled : killedOf { h with processes := h.processes.modify p f } = h.killedOf := by
    funext i
    rw [killedOf_changeProcess]
    split
    · simp only [hk]
      rfl
    · rfl
  simp only [margin, exits_changeProcess h p hf, hkilled, tally, Table.size_modify]
  rfl

/-- A process that nobody has waited for yet. -/
theorem view_pushProcess (h : Host) {p : Process} (hr : p.reader = none) (he : p.exitWaiters = []) :
    view { h with processes := h.processes.push p } = h.view := by
  have hproc : processWaiters { h with processes := h.processes.push p } = h.processWaiters := by
    funext i
    simp only [processWaiters, Table.get?_push]
    split
    · next e =>
      subst e
      rw [Table.get?_eq_none (Nat.le_refl _)]
      simp [hr, he]
    · rfl
  simp only [view, hproc]
  rfl

/-- A new session has the next number; nobody waits for it, and its lane is empty. -/
theorem newSession_spec (kind root : String) (targets : List String) (h : Host) :
    (∃ f h', (newSession kind root targets).run h = .error f h' ∧ h' = h) ∨
      ∃ key h', (newSession kind root targets).run h = .ok h.sessions.size h' ∧
        h'.view = { h.view with
          cores := fun s => if s = h.sessions.size then some (.new key) else h.core? s } := by
  unfold newSession
  rw [run_bind_ok (run_get h)]
  split
  · next marker _ =>
    refine .inr ⟨kind ++ ":" ++ root, _, rfl, ?_⟩
    have hlanes (a : Lane) (ha : a.process = none) (hq : a.queue = []) :
        laneState { h with lanes := h.lanes.push a } = h.laneState := by
      funext l
      simp only [laneState, Table.get?_push]
      split
      · next e =>
        subst e
        rw [Table.get?_eq_none (Nat.le_refl _)]
        simp [ha, hq]
      · rfl
    have hready (a : Session) (ha : a.readyWaiters = []) :
        readyWaiters { h with sessions := h.sessions.push a } = h.readyWaiters := by
      funext s
      simp only [readyWaiters, Table.get?_push]
      split
      · next e =>
        subst e
        rw [Table.get?_eq_none (Nat.le_refl _)]
        simp [ha]
      · rfl
    have hcores (a : Session) (ha : a.core = .new (kind ++ ":" ++ root)) :
        core? { h with sessions := h.sessions.push a } = fun s =>
          if s = h.sessions.size then some (.new (kind ++ ":" ++ root)) else h.core? s := by
      funext s
      simp only [core?, Table.get?_push]
      split
      · rw [Option.map_some, ha]
      · rfl
    have hl := hlanes { key := kind ++ ":" ++ root, marker } rfl rfl
    have hr := hready { kind, root, key := kind ++ ":" ++ root, targets, workDir :=
      h.workRoot ++ ["ghcworker-" ++ String.ofList (Text.showNat h.workDirs)] } rfl
    have hc := hcores { kind, root, key := kind ++ ":" ++ root, targets, workDir :=
      h.workRoot ++ ["ghcworker-" ++ String.ofList (Text.showNat h.workDirs)] } rfl
    simp only [view, ← hl, ← hr, ← hc]
    rfl
  · exact .inl ⟨_, _, rfl, rfl⟩

/-! ## Actions that are only remembered -/

namespace Within

variable {R : Host → Host → Prop}

/-- An action on lanes, or on what was written, that leaves the view alone, and the margin. -/
theorem of_view [Blind R] {g : Host → Host} (hg : ∀ h, (g h).view = h.view)
    (hm : ∀ h, (g h).margin = h.margin) : Within R (modify g : Action Unit) :=
  of_modify fun h => Blind.of_view (hg h) (hm h)

theorem blind_changeLane [Blind R] (l : Nat) {f : Lane → Lane}
    (hp : ∀ a, (f a).process = a.process) (hq : ∀ a, (f a).queue = a.queue) :
    Within R (changeLane l f) :=
  of_view (fun h => view_changeLane h l hp hq) fun h => margin_changeLane h l f

instance noteWrites [Blind R] (ws : List (Nat × List UInt8)) :
    Within R (note fun j => { j with writes := j.writes ++ ws }) := of_view (fun _ => rfl) fun _ => rfl

instance setScanned [Blind R] (l n : Nat) : Within R (changeLane l fun a => { a with scanned := n }) :=
  blind_changeLane l (fun _ => rfl) fun _ => rfl

instance appendBuffer [Blind R] (l : Nat) (bytes : List UInt8) :
    Within R (changeLane l fun a => { a with buffer := a.buffer ++ bytes }) :=
  blind_changeLane l (fun _ => rfl) fun _ => rfl

instance cutBuffer [Blind R] (l n : Nat) :
    Within R (changeLane l fun a =>
      { a with buffer := a.buffer.drop n, scanned := a.buffer.length - n }) :=
  blind_changeLane l (fun _ => rfl) fun _ => rfl

variable [Nearsighted R]

/-- An action that leaves the view alone, and the margin, and has nothing to do with lanes. -/
theorem of_traffic {g : Host → Host} (hg : ∀ h, (g h).view = h.view ∧ (g h).margin = h.margin ∧
    (g h).lanes = h.lanes ∧ (g h).journal.writes = h.journal.writes) :
    Within R (modify g : Action Unit) :=
  of_modify fun h => Nearsighted.of_traffic (hg h).1 (hg h).2.1 (hg h).2.2.1 (hg h).2.2.2

theorem blind_changeSession (s : Nat) {f : Session → Session} (hc : ∀ a, (f a).core = a.core)
    (hr : ∀ a, (f a).readyWaiters = a.readyWaiters) (hready : ∀ a, (f a).ready = a.ready)
    (hreader : ∀ a, (f a).reader = a.reader) : Within R (changeSession s f) :=
  of_traffic fun h =>
    ⟨view_changeSession h s hc hr, margin_changeSession h s hready hreader, rfl, rfl⟩

theorem blind_changeProcess (p : Nat) {f : Process → Process} (hr : ∀ a, (f a).reader = a.reader)
    (he : ∀ a, (f a).exitWaiters = a.exitWaiters) (hc : ∀ a, (f a).exitCode = a.exitCode)
    (hk : ∀ a, (f a).killed = a.killed) : Within R (changeProcess p f) :=
  of_traffic fun h => ⟨view_changeProcess h p hr he, margin_changeProcess h p hc hk, rfl, rfl⟩

omit [Nearsighted R] in
instance setActive [hR : Tacit R] (c : Nat) (f : QueryChannel → List Nat) :
    Within R (Host.changeChannel c fun ch => { ch with active := f ch }) :=
  ⟨fun _ => hR.of_active c f⟩

instance changeConnection (c : Nat) (f : Connection → Connection) :
    Within R (Host.changeConnection c f) := of_traffic fun _ => ⟨rfl, rfl, rfl, rfl⟩

instance count (key : String) (what : Counted) : Within R (Host.count key what) :=
  of_traffic fun _ => ⟨rfl, rfl, rfl, rfl⟩

instance noteNotes (ns : List (Json × String)) :
    Within R (note fun j => { j with notes := j.notes ++ ns }) := of_traffic fun _ => ⟨rfl, rfl, rfl, rfl⟩

omit [Nearsighted R] in
instance noteSpawns [hR : Tacit R] (ss : List (List String × String)) :
    Within R (note fun j => { j with spawns := j.spawns ++ ss }) := ⟨fun _ => hR.of_spawns _⟩

instance noteRuns (rs : List (List String × String × Option Seconds)) :
    Within R (note fun j => { j with runs := j.runs ++ rs }) := of_traffic fun _ => ⟨rfl, rfl, rfl, rfl⟩

/-- An event that does not tell of a change of phase. -/
instance publishAside (kind : Event.Kind) [hk : kind.Aside] (key : String)
    (details : List (String × Json)) : Within R (publish ⟨kind, key, details⟩) := by
  refine ⟨fun h => ?_⟩
  have : after (publish ⟨kind, key, details⟩) h =
      { h with
        bus := h.bus.publish ⟨kind, key, details⟩
        journal := { h.journal with events := h.journal.events ++ [⟨kind, key, details⟩] } } := rfl
  refine Nearsighted.of_traffic ?_ rfl rfl rfl
  rw [this]
  simp only [view, changes, List.filter_append, List.filter_cons, List.filter_nil, hk.ne,
    decide_false, Bool.false_eq_true, if_false, List.append_nil]
  rfl

instance setLauncher (launcher : Launcher) :
    Within R (modify fun h => { h with launcher } : Action Unit) := of_traffic fun _ => ⟨rfl, rfl, rfl, rfl⟩

instance setTree (tree : FileTree) :
    Within R (modify fun h => { h with disk := { h.disk with tree } } : Action Unit) :=
  of_traffic fun _ => ⟨rfl, rfl, rfl, rfl⟩

instance pushConnection (connectionScripts : List ConnectionScript) (c : Connection) :
    Within R (modify fun h => { h with connectionScripts, connections := h.connections.push c } :
      Action Unit) := of_traffic fun _ => ⟨rfl, rfl, rfl, rfl⟩

/-! ### Sessions -/

omit [Nearsighted R] in
instance setReader [hR : Tacit R] (s : Nat) (reader : Option Nat) :
    Within R (changeSession s fun a => { a with reader }) := ⟨fun _ => hR.of_reader s reader⟩

instance setVersion (s : Nat) (v : Option String) :
    Within R (changeSession s fun a => { a with ghcVersion := v }) :=
  blind_changeSession s (fun _ => rfl) (fun _ => rfl) (fun _ => rfl) fun _ => rfl

instance setExtensions (s : Nat) (names : List String) :
    Within R (changeSession s fun a => { a with extensions := names }) :=
  blind_changeSession s (fun _ => rfl) (fun _ => rfl) (fun _ => rfl) fun _ => rfl

instance setStartupOutput (s : Nat) (text : String) :
    Within R (changeSession s fun a => { a with startupOutput := text }) :=
  blind_changeSession s (fun _ => rfl) (fun _ => rfl) (fun _ => rfl) fun _ => rfl

instance setStaging (s : Nat) (f : Session → List (String × String)) :
    Within R (changeSession s fun a => { a with staging := f a }) :=
  blind_changeSession s (fun _ => rfl) (fun _ => rfl) (fun _ => rfl) fun _ => rfl

instance append (s : Nat) (limit : Int) (text : List Char) :
    Within R (changeSession s (·.append limit text)) :=
  blind_changeSession s (fun _ => rfl) (fun _ => rfl) (fun _ => rfl) fun _ => rfl

instance appendAttempt (s : Nat) (limit : Int) (argv : List String) :
    Within R (changeSession s (·.beginAttempt limit argv)) :=
  blind_changeSession s (fun _ => rfl) (fun _ => rfl) (fun _ => rfl) fun _ => rfl

instance followOutput (s : Nat) (limit : Int) (marker : List Char) (phrases : List (List Char))
    (bytes : List UInt8) : Within R (changeSession s (·.output limit marker phrases bytes)) := by
  refine blind_changeSession s (fun a => ?_) (fun a => ?_) (fun a => ?_) fun a => ?_
  all_goals
    unfold Session.output
    split <;> rfl

/-! ### Processes -/

omit [Nearsighted R] in
instance setKilled [hR : Tacit R] (p : Nat) :
    Within R (changeProcess p fun a => { a with killed := true }) := ⟨fun _ => hR.of_killed p⟩

instance setOutput (p : Nat) (output : List WorkerOutput) :
    Within R (changeProcess p fun a => { a with output }) :=
  blind_changeProcess p (fun _ => rfl) (fun _ => rfl) (fun _ => rfl) fun _ => rfl

instance setOutputEnded (p : Nat) (output : List WorkerOutput) (ended : Bool) :
    Within R (changeProcess p fun a => { a with output, ended }) :=
  blind_changeProcess p (fun _ => rfl) (fun _ => rfl) (fun _ => rfl) fun _ => rfl

end Within

end Host

end GhciHost
