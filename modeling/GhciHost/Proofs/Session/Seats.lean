import GhciHost.Proofs.Host.Guarding
import GhciHost.Proofs.Host.World
import GhciHost.Proofs.Session.Course

/-!
# What a session, its lane and its channel know of one worker

That a session has a worker is noted in its phase and by its process, by the process of its lane,
by the request for the worker's first response in the queue of the lane, and by the port of its
query channel.  The `Seat` of a session is all that together; a seat is `Good` if its parts agree.

* `Seat.Good`   the parts agree;
* `Neat`   the seats of all sessions are good, and nobody is about to spoil one;
* `Unseen`   relations that have nothing to say about seats;
* `Neat.bump`   one seat changes.
-/

namespace GhciHost

/-- A request of a caller. -/
structure Request.IsAsked (r : Request) : Prop where
  external : r.internal = false
  asked : ∀ x ∈ r.reaction, x.isAsked

/-- The request for the first response of a session's worker. -/
def Request.startup (s p : Nat) (m : StartMode) : Request :=
  { state := .str m.name, reaction := some (.ready s p m), command := "<startup>"
    internal := true }

theorem Request.startup_inj {s p q : Nat} {m n : StartMode}
    (h : Request.startup s p m = .startup s q n) : p = q ∧ m = n := by
  have hr : some (Reaction.ready s p m) = some (.ready s q n) := congrArg Request.reaction h
  cases hr
  exact ⟨rfl, rfl⟩

/-- The port of a session that is ready. -/
def Phase.port? : Phase → Option Int
  | ready _ port => port
  | _ => none

/-- What a session, its lane and its channel know of a worker. -/
structure Seat where
  phase : Phase
  process : Option Nat
  destroyed : Bool
  /-- Whether nobody would have to wait for the session. -/
  ready : Bool
  /-- The process of the lane. -/
  attached : Option Nat
  queue : List Request
  port : Option Int

namespace Seat

/-- The worker whose first response is awaited. -/
def awaited? (a : Seat) : Option (Nat × StartMode) :=
  match a.phase, a.process with
  | .starting m, some p => some (p, m)
  | _, _ => none

/-- The queue holds requests of callers, behind the request for the first response of a worker if
    there is one. -/
def Queued (s : Nat) (first : Option (Nat × StartMode)) (queue : List Request) : Prop :=
  ∃ rest, queue = first.toList.map (fun (p, m) => .startup s p m) ++ rest ∧ ∀ r ∈ rest, r.IsAsked

/-- The parts agree.  A first response can be lost if it is `garbled`. -/
structure Good (garbled : Prop) (s : Nat) (a : Seat) : Prop where
  attached : a.attached = a.process
  manned : a.process.isSome → a.phase.hasWorker = true ∧ a.destroyed = false
  held : ∀ m port, a.phase = .ready m port → a.destroyed = false → a.process.isSome
  port : a.port = if a.destroyed then none else a.phase.port?
  ready : a.destroyed = true ∨ a.phase.state = .givenUp → a.ready = true
  empty : a.phase.hasWorker = false ∨ a.destroyed = false ∧ a.process = none → a.queue = []
  queue : ∃ first, Queued s first a.queue ∧
    (a.destroyed = false → first = a.awaited? ∨ garbled ∧ first = none)

end Seat

/-- Frames that have nothing to ask for but what callers may. -/
structure Frame.Fair (f : Frame) : Prop where
  reaction : ∀ x ∈ f.reaction?, x.isAsked
  replay : ∀ s rs, f.replay? = some (s, rs) → ∀ r ∈ rs, r.IsAsked

namespace Host

/-- The seat of the session of a number, if there is that session. -/
def seat? (h : Host) (s : Nat) : Option Seat :=
  (h.core? s).map fun a =>
    { phase := a.phase, process := a.process, destroyed := a.destroyed, ready := h.readyOf s
      attached := (h.laneState s).1, queue := (h.laneState s).2, port := h.portOf s }

/-- The seats of all sessions, and what can get to them. -/
structure Board where
  seats : Nat → Option Seat
  sizes : Nat × Nat × Nat
  queries : Table Query
  tasks : Nat → Option (List Frame)

def board (h : Host) : Board :=
  { seats := h.seat?, sizes := h.sizes, queries := h.queries, tasks := h.loop.stack? }

/-- Each session has its lane and its channel. -/
structure Board.Even (b : Board) : Prop where
  lanes : b.sizes.1 = b.sizes.2.2
  channels : b.sizes.2.1 = b.sizes.2.2

/-- All seats are good, and callers ask only for what they may. -/
structure Board.Neat (garbled : Prop) (b : Board) : Prop extends b.Even where
  good : ∀ s a, b.seats s = some a → a.Good garbled s
  queries : ∀ q x, b.queries.get? q = some x → ∀ r ∈ x.reaction, r.isAsked
  fair : ∀ t fs f, b.tasks t = some fs → f ∈ fs → f.Fair

/-- The requests queued for a session's worker are all of callers. -/
def Board.Heard (b : Board) (s : Nat) : Prop :=
  ∀ a, b.seats s = some a → ∀ r ∈ a.queue, r.internal = false

/-- The start modes of the workers of all sessions that have one or wait for one. -/
def Board.modes (b : Board) (s : Nat) : Option StartMode := (b.seats s).bind (·.phase.mode?)

/-- No first response is waited for that was not, and no session has a worker of another mode. -/
structure Board.Carries (b b' : Board) : Prop where
  heard : ∀ s, b.Heard s → b'.Heard s
  modes : b'.modes = b.modes

/-- One seat changes. -/
def Board.change (b : Board) (s : Nat) (g : Seat → Seat) : Board :=
  { b with seats := bump s g b.seats }

/-! ## What is not about seats -/

theorem board_of_view {h h' : Host} (hv : h'.view = h.view) (hm : h'.margin = h.margin) :
    h'.board = h.board := by
  have hcore : h'.core? = h.core? := congrArg View.cores hv
  have hlane : h'.laneState = h.laneState := congrArg View.lanes hv
  have hready : h'.readyOf = h.readyOf := congrArg Margin.ready hm
  have hport : h'.portOf = h.portOf := congrArg Margin.ports hm
  have hseat : h'.seat? = h.seat? := by
    funext s
    rw [seat?, seat?, hcore, hlane, hready, hport]
  rw [board, board, hseat, show h'.sizes = h.sizes from congrArg Margin.sizes hm,
    show h'.queries = h.queries from congrArg View.queries hv,
    show h'.loop = h.loop from congrArg View.loop hv]

/-- The relation holds between hosts with one board. -/
class Unseen (R : Host → Host → Prop) : Prop where
  of_board : ∀ {h h'}, h'.board = h.board → R h h'

instance : Unseen (Same board) := ⟨fun e => e⟩

instance (R : Host → Host → Prop) [hR : Unseen R] : Blind R :=
  ⟨fun hv hm => hR.of_board (board_of_view hv hm)⟩

/-- The seats do not tell which queries are under way. -/
theorem board_setActive (h : Host) (c : Nat) (f : QueryChannel → List Nat) :
    board { h with channels := h.channels.modify c fun ch => { ch with active := f ch } } = h.board := by
  have hport : portOf { h with channels := h.channels.modify c fun ch => { ch with active := f ch } } =
      h.portOf := by
    funext i
    rw [portOf_changeChannel]
    split
    · rfl
    · rfl
  have hseat : seat? { h with channels := h.channels.modify c fun ch => { ch with active := f ch } } =
      h.seat? := by
    funext s
    rw [seat?, seat?, hport]
    rfl
  simp only [board, hseat, sizes, Table.size_modify]

/-- Who follows a worker has no seat. -/
theorem board_setReader (h : Host) (s : Nat) (reader : Option Nat) :
    board { h with sessions := h.sessions.modify s fun a => { a with reader } } = h.board := by
  have hcore : core? { h with sessions := h.sessions.modify s fun a => { a with reader } } = h.core? :=
    congrArg View.cores (view_setReader h s reader)
  have hready : readyOf { h with sessions := h.sessions.modify s fun a => { a with reader } } =
      h.readyOf := by
    funext i
    rw [readyOf_changeSession]
    split
    · rfl
    · rfl
  have hseat : seat? { h with sessions := h.sessions.modify s fun a => { a with reader } } =
      h.seat? := by
    funext i
    rw [seat?, seat?, hcore, hready]
    rfl
  simp only [board, hseat, sizes, Table.size_modify]

instance (R : Host → Host → Prop) [hR : Unseen R] : Tacit R where
  of_spawns _ := hR.of_board rfl
  of_active c f := hR.of_board (board_setActive _ c f)
  of_killed _ := hR.of_board rfl
  of_reader s reader := hR.of_board (board_setReader _ s reader)

namespace Unseen

variable {R : Host → Host → Prop} [hR : Unseen R]

/-- The loop changes, but no task has other frames. -/
theorem changeLoop {f : Loop Value Failure Frame → Loop Value Failure Frame}
    (hf : ∀ l, Loop.Grows (fun _ => False) l (f l)) : Within R (Host.changeLoop f) :=
  Within.of_modify fun h => hR.of_board (by
    have : (f h.loop).stack? = h.loop.stack? := by
      funext t
      refine Option.ext fun fs => ⟨fun e => ?_, (hf h.loop).stack t fs⟩
      exact ((hf h.loop).fresh t fs e).resolve_right id
    rw [board, board]
    simp only [this]
    rfl)

instance finish (c : Nat) (e : Ending) : Within R (Host.finish c e) := changeLoop fun l => .finish l c e

instance releaseAll (cells : List Nat) : Within R (Host.releaseAll cells) :=
  changeLoop fun l => .foldl_release l cells

instance hookRelease (c w : Nat) : Within R (Host.changeLoop (·.hook c (.release w))) :=
  changeLoop fun l => .hook l c rfl

instance hookNotify (c q : Nat) : Within R (Host.changeLoop (·.hook c (.notify q))) :=
  changeLoop fun l => .hook l c rfl

instance cancel (c : Nat) : Within R (Host.changeLoop (·.cancel c)) :=
  changeLoop fun l => .cancelWithin l _ c

instance cancelAll (cells : List Nat) :
    Within R (Host.changeLoop fun l => cells.foldl (fun l c => l.cancel c) l) :=
  changeLoop fun l => .foldl_cancel l cells

instance newCell : Within R Host.newCell := ⟨fun _ => hR.of_board rfl⟩

instance newTimer (d : Binary64) : Within R (onLoop (·.newTimer d)) := ⟨fun _ => hR.of_board rfl⟩

instance changeProcess (p : Nat) (f : Process → Process) : Within R (Host.changeProcess p f) :=
  ⟨fun _ => hR.of_board rfl⟩

instance pushProcess (p : Process) :
    Within R (modify fun h => { h with processes := h.processes.push p } : Action Unit) :=
  ⟨fun _ => hR.of_board rfl⟩

instance setRegistry (f : Host → Keyed (String × String) Nat) :
    Within R (modify fun h => { h with registry := f h } : Action Unit) :=
  ⟨fun _ => hR.of_board rfl⟩

instance setRegistryMetrics (f : Host → Keyed (String × String) Nat) (g : Host → Option Metrics) :
    Within R (modify fun h => { h with registry := f h, metrics := g h } : Action Unit) :=
  ⟨fun _ => hR.of_board rfl⟩

instance publish (e : Event) : Within R (Host.publish e) := ⟨fun _ => hR.of_board rfl⟩

/-- Nothing of this is about seats, whatever a worker does with what is written to it. -/
instance write (p : Nat) (text : List Char) [Std.Refl R] [IsTrans Host R] :
    Within R (Host.write p text) := by
  have (line : String) (a : WorkerAct) : Within R (Host.act p line a) := inferInstance
  have : Within R (Host.hear p text) := inferInstance
  infer_instance

end Unseen

/-! ## One component changes -/

/-- A session changes. -/
theorem board_changeSession (h : Host) (s : Nat) {f : Session → Session} {g : Seat → Seat}
    (hg : ∀ (a : Session) attached queue port,
      g ⟨a.phase, a.process, a.destroyed, a.ready, attached, queue, port⟩ =
        ⟨(f a).phase, (f a).process, (f a).destroyed, (f a).ready, attached, queue, port⟩) :
    (after (changeSession s f) h).board = h.board.change s g := by
  have hseat : seat? (after (changeSession s f) h) = bump s g h.seat? := by
    funext i
    have hcore : core? (after (changeSession s f) h) i = _ := core?_changeSession h s i f
    have hready : readyOf (after (changeSession s f) h) i = _ := readyOf_changeSession h s i f
    rw [seat?, hcore, hready]
    by_cases hi : s = i
    · subst hi
      rw [if_pos rfl, if_pos rfl, bump, if_pos rfl]
      unfold seat? core? readyOf
      cases ha : h.sessions.get? s with
      | none => rfl
      | some a => exact congrArg some (hg a _ _ _).symm
    · rw [if_neg hi, if_neg hi, bump_of_ne (Ne.symm hi)]
      rfl
  have hsizes : sizes (after (changeSession s f) h) = h.sizes := by
    show (h.lanes.size, h.channels.size, (h.sessions.modify s f).size) = _
    rw [Table.size_modify]
    rfl
  rw [board, hseat, hsizes]
  rfl

/-- A session that there is has a number below that of the next. -/
theorem lt_of_seat? {h : Host} {s : Nat} {a : Seat} (ha : h.seat? s = some a) :
    s < h.sessions.size := by
  obtain ⟨c, hc, -⟩ := Option.map_eq_some_iff.1 ha
  obtain ⟨b, hb, -⟩ := Option.map_eq_some_iff.1 hc
  exact Table.lt_size_of_get? hb

/-- A lane changes that belongs to a session. -/
theorem board_changeLane {h : Host} (heven : h.board.Even) (s : Nat)
    {f : Lane → Lane} {g : Seat → Seat}
    (hg : ∀ (b : Lane) phase process destroyed ready port,
      g ⟨phase, process, destroyed, ready, b.process, b.queue, port⟩ =
        ⟨phase, process, destroyed, ready, (f b).process, (f b).queue, port⟩) :
    (after (changeLane s f) h).board = h.board.change s g := by
  have hseat : seat? (after (changeLane s f) h) = bump s g h.seat? := by
    funext i
    have hlane : laneState (after (changeLane s f) h) i = _ := laneState_changeLane h s i f
    rw [seat?, hlane, show core? (after (changeLane s f) h) = h.core? from rfl]
    by_cases hi : s = i
    · subst hi
      rw [if_pos rfl, bump, if_pos rfl]
      cases ha : h.seat? s with
      | none =>
        rw [Option.map_eq_none_iff.1 ha]
        rfl
      | some a =>
        have hsizes : h.lanes.size = h.sessions.size := heven.lanes
        have hlt : s < h.lanes.size := hsizes ▸ lt_of_seat? ha
        obtain ⟨b, hb⟩ : ∃ b, h.lanes.get? s = some b := ⟨_, Array.getElem?_eq_getElem hlt⟩
        obtain ⟨c, hc, rfl⟩ := Option.map_eq_some_iff.1 ha
        rw [hc, laneState, hb]
        exact congrArg some (hg b ..).symm
    · rw [if_neg hi, bump_of_ne (Ne.symm hi)]
      rfl
  have hsizes : sizes (after (changeLane s f) h) = h.sizes := by
    show ((h.lanes.modify s f).size, h.channels.size, h.sessions.size) = _
    rw [Table.size_modify]
    rfl
  rw [board, hseat, hsizes]
  rfl

/-- A channel changes that belongs to a session. -/
theorem board_changeChannel {h : Host} (heven : h.board.Even) (s : Nat)
    {f : QueryChannel → QueryChannel} {g : Seat → Seat}
    (hg : ∀ (b : QueryChannel) phase process destroyed ready attached queue,
      g ⟨phase, process, destroyed, ready, attached, queue, b.port⟩ =
        ⟨phase, process, destroyed, ready, attached, queue, (f b).port⟩) :
    (after (changeChannel s f) h).board = h.board.change s g := by
  have hseat : seat? (after (changeChannel s f) h) = bump s g h.seat? := by
    funext i
    have hport : portOf (after (changeChannel s f) h) i = _ := portOf_changeChannel h s i f
    rw [seat?, hport, show core? (after (changeChannel s f) h) = h.core? from rfl]
    by_cases hi : s = i
    · subst hi
      rw [if_pos rfl, bump, if_pos rfl]
      cases ha : h.seat? s with
      | none =>
        rw [Option.map_eq_none_iff.1 ha]
        rfl
      | some a =>
        have hsizes : h.channels.size = h.sessions.size := heven.channels
        have hlt : s < h.channels.size := hsizes ▸ lt_of_seat? ha
        obtain ⟨b, hb⟩ : ∃ b, h.channels.get? s = some b := ⟨_, Array.getElem?_eq_getElem hlt⟩
        obtain ⟨c, hc, rfl⟩ := Option.map_eq_some_iff.1 ha
        rw [hc, portOf, hb]
        exact congrArg some (hg b ..).symm
    · rw [if_neg hi, bump_of_ne (Ne.symm hi)]
      rfl
  have hsizes : sizes (after (changeChannel s f) h) = h.sizes := by
    show (h.lanes.size, (h.channels.modify s f).size, h.sessions.size) = _
    rw [Table.size_modify]
    rfl
  rw [board, hseat, hsizes]
  rfl

/-- Whatever of a session is not about its seat can change. -/
theorem Unseen.changeSession {R : Host → Host → Prop} [hR : Unseen R] (s : Nat)
    {f : Session → Session} (hphase : ∀ a, (f a).phase = a.phase)
    (hproc : ∀ a, (f a).process = a.process) (hd : ∀ a, (f a).destroyed = a.destroyed)
    (hready : ∀ a, (f a).ready = a.ready) : Within R (Host.changeSession s f) :=
  ⟨fun h => hR.of_board (by
    rw [board_changeSession h s (g := id) fun a _ _ _ => by
      rw [hphase, hproc, hd, hready]
      rfl]
    exact congrArg (fun seats => { h.board with seats }) (bump_id s h.seat?))⟩

namespace Unseen

variable {R : Host → Host → Prop} [hR : Unseen R] (s : Nat)

instance setReadyWaiters (f : Session → List Nat) :
    Within R (Host.changeSession s fun a => { a with readyWaiters := f a }) :=
  changeSession s (fun _ => rfl) (fun _ => rfl) (fun _ => rfl) fun _ => rfl

instance setStarting (starting : Bool) :
    Within R (Host.changeSession s fun a => { a with starting }) :=
  changeSession s (fun _ => rfl) (fun _ => rfl) (fun _ => rfl) fun _ => rfl

instance setStartWaiters (f : Session → List Nat) :
    Within R (Host.changeSession s fun a => { a with startWaiters := f a }) :=
  changeSession s (fun _ => rfl) (fun _ => rfl) (fun _ => rfl) fun _ => rfl

end Unseen

namespace Board

theorem change_change (b : Board) (s : Nat) (f g : Seat → Seat) :
    (b.change s f).change s g = b.change s fun a => g (f a) := by
  rw [change, change, change, bump_bump]

theorem change_id (b : Board) (s : Nat) : b.change s id = b := by
  rw [change, bump_id]

theorem Even.change {b : Board} (hb : b.Even) {s : Nat} {g : Seat → Seat} : (b.change s g).Even :=
  ⟨hb.lanes, hb.channels⟩

/-- One seat changes, and is good. -/
theorem Neat.change {garbled : Prop} {b : Board} (hb : b.Neat garbled) {s : Nat} {g : Seat → Seat}
    (hg : ∀ a, b.seats s = some a → (g a).Good garbled s) : (b.change s g).Neat garbled where
  toEven := hb.toEven.change
  queries := hb.queries
  fair := hb.fair
  good i a ha := by
    rcases bump_eq_some ha with ⟨rfl, c, hc, rfl⟩ | ⟨-, ha⟩
    · exact hg c hc
    · exact hb.good i a ha

/-- The seat of a session that there is changes. -/
theorem Neat.change_at {garbled : Prop} {b : Board} (hb : b.Neat garbled) {s : Nat} {a : Seat}
    (ha : b.seats s = some a) {g : Seat → Seat} (hg : (g a).Good garbled s) :
    (b.change s g).Neat garbled :=
  hb.change fun c hc => by rwa [Option.some.inj (hc.symm.trans ha)]

theorem Heard.change {b : Board} {i s : Nat} (hb : b.Heard i) {g : Seat → Seat}
    (hg : ∀ a, b.seats s = some a → ∀ r ∈ (g a).queue, r ∈ a.queue ∨ r.internal = false) :
    (b.change s g).Heard i := fun a ha r hr => by
  rcases bump_eq_some ha with ⟨rfl, c, hc, rfl⟩ | ⟨-, ha⟩
  · exact (hg c hc r hr).elim (hb c hc r) id
  · exact hb a ha r hr

theorem modes_change {b : Board} {s : Nat} {g : Seat → Seat}
    (hg : ∀ a, b.seats s = some a → (g a).phase.mode? = a.phase.mode?) :
    (b.change s g).modes = b.modes := by
  funext i
  unfold modes change bump
  dsimp only
  split
  · next hi =>
    subst hi
    cases ha : b.seats i with
    | none => rfl
    | some a => exact hg a ha
  · rfl

theorem Carries.refl (b : Board) : b.Carries b := ⟨fun _ hs => hs, rfl⟩

theorem Carries.trans {b₁ b₂ b₃ : Board} (h : b₁.Carries b₂) (k : b₂.Carries b₃) : b₁.Carries b₃ :=
  ⟨fun s hs => k.heard s (h.heard s hs), k.modes.trans h.modes⟩

end Board

/-- Frames that have no part in a startup and make no request ask for nothing. -/
theorem fair_of_easy {fs : List Frame} (h : easy fs = true) {f : Frame} (hf : f ∈ fs) : f.Fair where
  reaction x hx := by
    rw [reaction?_of_easy h hf] at hx
    cases hx
  replay s rs hs := by
    rw [replay?_of_isPlain (isPlain_of_tame (tame_of_easy h) hf)] at hs
    cases hs

end Host

end GhciHost
