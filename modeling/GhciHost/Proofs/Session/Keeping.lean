import GhciHost.Proofs.Lane.Delivery
import GhciHost.Proofs.Session.Seats

/-!
# What keeps the seats good

Most actions keep all seats good from wherever they begin.  A request is queued only when it was
written, so there is a worker; and what callers ask for cannot be taken for a worker's first
response.

* `Keeps`   seats that were good still are;
* `Seat.Good.push`, `Seat.Good.pop`, `Seat.Good.becomeReady`   what happens to one seat;
* `Keeps.submit`, `Keeps.startQuery`, `Keeps.answerBy`   what is done for callers;
* `neat_deliverBy`, `neat_feed`   responses are given to the oldest requests.
-/

namespace GhciHost

namespace Host

/-- If the seats were good, they still are, and their first responses and modes are carried on. -/
def Keeps (garbled : Prop) (h h' : Host) : Prop :=
  h.board.Neat garbled → h'.board.Neat garbled ∧ h.board.Carries h'.board

variable {garbled : Prop}

instance : Std.Refl (Keeps garbled) := ⟨fun _ hn => ⟨hn, .refl _⟩⟩

instance : IsTrans Host (Keeps garbled) :=
  ⟨fun _ _ _ h k hn => ⟨(k (h hn).1).1, (h hn).2.trans (k (h hn).1).2⟩⟩

instance : Unseen (Keeps garbled) := ⟨fun e hn => by rw [e]; exact ⟨hn, .refl _⟩⟩

end Host

/-! ## Seats -/

namespace Seat.Good

variable {garbled : Prop} {s : Nat} {a : Seat}

/-- A session that has no worker in its phase, or is destroyed, has no process. -/
theorem unmanned (ha : a.Good garbled s) (hno : a.phase.hasWorker = false ∨ a.destroyed = true) :
    a.process = none ∧ a.attached = none := by
  have hproc : a.process = none := by
    cases hp : a.process with
    | none => rfl
    | some p =>
      obtain ⟨hw, hd⟩ := ha.manned (by rw [hp]; rfl)
      rw [hw, hd] at hno
      simp at hno
  exact ⟨hproc, ha.attached.trans hproc⟩

/-- The queue of a session that is not destroyed tells whether a first response is awaited. -/
theorem awaited (ha : a.Good False s) (hd : a.destroyed = false) :
    Queued s a.awaited? a.queue := by
  obtain ⟨first, hqueue, hfirst⟩ := ha.queue
  rcases hfirst hd with rfl | ⟨hno, -⟩
  · exact hqueue
  · cases hno

/-- A request of a caller is queued. -/
theorem push (ha : a.Good garbled s) (hat : a.attached.isSome) {r : Request} (hr : r.IsAsked) :
    Good garbled s { a with queue := a.queue ++ [r] } where
  attached := ha.attached
  manned := ha.manned
  held := ha.held
  port := ha.port
  ready := ha.ready
  empty he := by
    rw [ha.attached] at hat
    obtain ⟨hw, hd⟩ := ha.manned hat
    rcases he with he | ⟨-, he⟩
    · rw [show a.phase.hasWorker = false from he] at hw
      cases hw
    · rw [show a.process = none from he] at hat
      cases hat
  queue := by
    obtain ⟨first, ⟨rest, hq, hrest⟩, hfirst⟩ := ha.queue
    refine ⟨first, ⟨rest ++ [r], ?_, fun x hx => ?_⟩, hfirst⟩
    · rw [hq, List.append_assoc]
    · rcases List.mem_append.1 hx with hx | hx
      · exact hrest x hx
      · rw [List.mem_singleton.1 hx]
        exact hr

/-- The oldest request is one of a caller, or the one for the first response of a worker. -/
theorem head_cases (ha : a.Good garbled s) {r : Request} {queue : List Request}
    (hq : a.queue = r :: queue) : (∀ x ∈ queue, x.IsAsked) ∧ ((r.IsAsked ∧
      (a.destroyed = false → a.awaited? = none ∨ garbled)) ∨ ∃ p m, r = .startup s p m ∧
        (a.destroyed = false → a.phase = .starting m ∧ a.process = some p)) := by
  obtain ⟨first, ⟨rest, hrest, hasked⟩, hfirst⟩ := ha.queue
  rw [hq] at hrest
  cases first with
  | none =>
    obtain rfl : r :: queue = rest := hrest
    refine ⟨fun x hx => hasked x (List.mem_cons_of_mem _ hx),
      .inl ⟨hasked r List.mem_cons_self, fun hd => ?_⟩⟩
    exact (hfirst hd).imp Eq.symm And.left
  | some first =>
    obtain ⟨p, m⟩ := first
    obtain ⟨rfl, rfl⟩ := List.cons.inj hrest
    refine ⟨hasked, .inr ⟨p, m, rfl, fun hd => ?_⟩⟩
    rcases hfirst hd with e | ⟨-, e⟩
    · unfold awaited? at e
      split at e
      · next hphase hproc =>
        cases e
        exact ⟨hphase, hproc⟩
      · cases e
    · cases e

/-- The oldest request of a caller is answered, or any request that is no longer waited for. -/
theorem pop (ha : a.Good garbled s) {r : Request} {queue : List Request}
    (hq : a.queue = r :: queue)
    (hr : r.internal = true → a.destroyed = false → garbled) :
    Good garbled s { a with queue } where
  attached := ha.attached
  manned := ha.manned
  held := ha.held
  port := ha.port
  ready := ha.ready
  empty he := by
    have := ha.empty he
    rw [hq] at this
    cases this
  queue := by
    obtain ⟨hasked, hhead⟩ := ha.head_cases hq
    refine ⟨none, ⟨queue, rfl, hasked⟩, fun hd => ?_⟩
    rcases hhead with ⟨-, hno⟩ | ⟨p, m, rfl, -⟩
    · exact (hno hd).imp Eq.symm fun hg => ⟨hg, rfl⟩
    · exact .inr ⟨hr rfl hd, rfl⟩

/-- The first response of the worker is there. -/
theorem becomeReady (ha : a.Good garbled s) (hd : a.destroyed = false) {p : Nat} {m : StartMode}
    (hproc : a.process = some p) {r : Request} {queue : List Request} (hq : a.queue = r :: queue)
    (port : Option Int) : Good garbled s
      { a with phase := .ready m port, ready := true, queue, port } where
  attached := ha.attached
  manned _ := ⟨rfl, hd⟩
  held _ _ _ _ := by rw [hproc]; rfl
  port := by rw [hd]; rfl
  ready _ := rfl
  empty he := by
    rcases he with he | ⟨-, he⟩
    · cases he
    · rw [hproc] at he
      cases he
  queue := ⟨none, ⟨queue, rfl, (ha.head_cases hq).1⟩, fun _ => .inl rfl⟩

end Seat.Good

namespace Host

variable {garbled : Prop}

/-- What is known of a seat from its lane. -/
theorem seat?_lane {h : Host} {s : Nat} {a : Seat} (ha : h.seat? s = some a) :
    a.attached = (h.laneOf s).process ∧ a.queue = (h.laneOf s).queue := by
  obtain ⟨c, -, rfl⟩ := Option.map_eq_some_iff.1 ha
  unfold laneState laneOf
  cases h.lanes.get? s with
  | none => exact ⟨rfl, rfl⟩
  | some b => exact ⟨rfl, rfl⟩

theorem seat?_session {h : Host} {s : Nat} {a : Seat} (ha : h.seat? s = some a) :
    a.phase = (h.sessionOf s).phase ∧ a.process = (h.sessionOf s).process ∧
      a.destroyed = (h.sessionOf s).destroyed := by
  obtain ⟨c, hc, rfl⟩ := Option.map_eq_some_iff.1 ha
  exact ⟨(phase_eq hc).symm, (process_eq hc).symm, (destroyed_eq hc).symm⟩

/-! ## Phases -/

/-- A session goes on to a phase that may follow its own. -/
theorem board_transition {h : Host} {s : Nat} (phase : Phase)
    (hok : (h.sessionOf s).phase.allows phase = true) :
    ∃ h', (transition s phase).run h = .ok () h' ∧
      h'.board = h.board.change s fun a => { a with phase, ready := phase.state.settled } := by
  obtain ⟨h', e, -⟩ := run_transition phase hok
  refine ⟨h', e, ?_⟩
  rw [← after_of_ok e]
  unfold transition
  rw [after_bind_ok (run_session s h), hok]
  dsimp only
  rw [if_neg (by simp)]
  refine (same_after_bind (π := board) (fun _ => ?_) h).trans (board_changeSession h s fun _ _ _ _ => rfl)
  infer_instance

/-- A session that starts a worker becomes ready with the first response of the worker, if this can
    be read. -/
theorem run_becomeReady {h : Host} (heven : h.board.Even) {s : Nat} {a : Seat}
    (ha : h.seat? s = some a) {m' : StartMode} (hm : a.phase = .starting m') {p : Nat}
    (hp : a.process = some p) (m : StartMode) {body : String} {port : Option Nat}
    {rest : List Char} (hread : Output.extractPort body.toList = .ok (port, rest)) :
    ∃ h', (becomeReady s p m body).run h = .ok () h' ∧ h'.board = h.board.change s fun a =>
      { a with phase := .ready m (port.map Int.ofNat), ready := true
               port := port.map Int.ofNat } := by
  obtain ⟨hphase, hproc, -⟩ := seat?_session ha
  unfold becomeReady
  rw [run_bind_ok (run_session s h), ← hphase, hm, ← hproc, if_pos hp, hread]
  dsimp only
  rw [run_bind_ok (Succeeds.run_unit ..)]
  generalize hk : after (changeSession s _) h = k
  have hkboard : k.board = h.board := hk ▸ Within.rel_after (R := Same board) h
  have hka : k.seat? s = some a := (congrFun (congrArg Board.seats hkboard) s).trans ha
  rw [run_bind_ok (Succeeds.run_unit ..)]
  obtain ⟨h', e, hb⟩ := board_transition (s := s) (.ready m (port.map Int.ofNat))
    (h := after (changeChannel s fun c => { c with port := port.map Int.ofNat }) k) (by
      show (k.sessionOf s).phase.allows _ = true
      rw [← (seat?_session hka).1, hm]
      rfl)
  rw [run_bind_ok e]
  refine ⟨_, Succeeds.run_unit .., (Within.rel_after (R := Same board) h').trans (hb.trans ?_)⟩
  rw [board_changeChannel (hkboard ▸ heven) s (g := fun a => { a with port := port.map Int.ofNat })
    fun _ _ _ _ _ _ _ => rfl, Board.change_change, hkboard]
  rfl

/-- Where the first response cannot be read, nothing happens but a failure. -/
theorem run_becomeReady_error {h : Host} {s : Nat} {a : Seat} (ha : h.seat? s = some a)
    {m' : StartMode} (hm : a.phase = .starting m') {p : Nat} (hp : a.process = some p)
    (m : StartMode) {body : String} {e : Text.TooManyDigits}
    (hread : Output.extractPort body.toList = .error e) :
    (becomeReady s p m body).run h = .error (.tooManyDigits e) h := by
  obtain ⟨hphase, hproc, -⟩ := seat?_session ha
  unfold becomeReady
  rw [run_bind_ok (run_session s h), ← hphase, hm, ← hproc, if_pos hp, hread]
  rfl

/-- A session becomes ready if it starts the worker whose first response can be read. -/
theorem board_becomeReady {h : Host} (heven : h.board.Even) {s : Nat} {a : Seat}
    (ha : h.seat? s = some a) (p : Nat) (m : StartMode) (body : String) :
    (after (becomeReady s p m body) h).board = h.board ∧ (∀ m', a.phase = .starting m' →
        a.process = some p → ∃ e, Output.extractPort body.toList = .error e) ∨
      a.process = some p ∧ ∃ port, (after (becomeReady s p m body) h).board =
        h.board.change s fun a => { a with phase := .ready m port, ready := true, port } := by
  by_cases hawaited : (∃ m', a.phase = .starting m') ∧ a.process = some p
  · obtain ⟨⟨m', hm⟩, hp⟩ := hawaited
    cases hread : Output.extractPort body.toList with
    | error e =>
      rw [after_of_error (run_becomeReady_error ha hm hp m hread)]
      exact .inl ⟨rfl, fun _ _ _ => ⟨e, rfl⟩⟩
    | ok x =>
      obtain ⟨h', e, hb⟩ := run_becomeReady heven ha hm hp m hread
      rw [after_of_ok e]
      exact .inr ⟨hp, _, hb⟩
  -- nobody waits for it
  · refine .inl ⟨?_, fun m' hm hp => absurd ⟨⟨m', hm⟩, hp⟩ hawaited⟩
    obtain ⟨hphase, hproc, -⟩ := seat?_session ha
    unfold becomeReady
    rw [after_bind_ok (run_session s h), ← hphase, ← hproc]
    split
    · next m' hm =>
      rw [if_neg fun hp => hawaited ⟨⟨m', hm⟩, hp⟩]
      rfl
    · rfl

/-! ## Requests -/

/-- Only to a process that is attached something is written. -/
theorem process_of_writeLine {l : Nat} {command : String} {h h' : Host} {v : Unit}
    (e : (writeLine l command).run h = .ok v h') : (h.laneOf l).process.isSome := by
  unfold writeLine at e
  rw [run_bind_ok (run_lane l h)] at e
  cases hp : (h.laneOf l).process with
  | some p => rfl
  | none =>
    rw [hp] at e
    cases e

theorem process_of_writeRaw {l : Nat} {command : String} {h h' : Host} {v : Unit}
    (e : (writeRaw l command).run h = .ok v h') : (h.laneOf l).process.isSome := by
  unfold writeRaw at e
  rw [run_bind_ok (run_lane l h)] at e
  unfold validate at e
  split at e
  · cases e
  · exact process_of_writeLine e

namespace Keeps

/-- What was written is queued. -/
theorem push {a : Action Unit} [ha : Within (Same board) a] {l : Nat}
    (hok : ∀ h v h', a.run h = .ok v h' → (h.laneOf l).process.isSome) {r : Request}
    (hr : r.IsAsked) {f : Unit → Action α} [hf : ∀ u, Within (Keeps garbled) (f u)] :
    Within (Keeps garbled) (do a; changeLane l (·.push r) >>= f) :=
  ⟨fun h hn => by
    have hboard : (after a h).board = h.board := ha.rel_after h
    rw [after_bind]
    cases e : a.run h with
    | error x h' =>
      rw [after_of_error e] at hboard
      dsimp only
      rw [hboard]
      exact ⟨hn, .refl _⟩
    | ok v h' =>
      rw [after_of_ok e] at hboard
      dsimp only
      rw [← hboard] at hn ⊢
      refine Within.rel_after_bind (R := Keeps garbled) (fun hn => ?_)
        (fun _ h'' _ => (hf ()).rel_after h'') hn
      rw [board_changeLane hn.toEven l (g := fun a => { a with queue := a.queue ++ [r] })
        fun _ _ _ _ _ _ => rfl]
      refine ⟨hn.change fun b hb => (hn.good l b hb).push ?_ hr,
        fun s hs => hs.change ?_, Board.modes_change fun _ _ => rfl⟩
      · have hb : h.seat? l = some b := by
          rw [← show h'.seat? = h.seat? from congrArg Board.seats hboard]
          exact hb
        rw [(seat?_lane hb).1]
        exact hok h v h' e
      · intro b _ x hx
        refine (List.mem_append.1 hx).imp_right fun hx => ?_
        rw [List.mem_singleton.1 hx]
        exact hr.external⟩

theorem submit (l : Nat) (command : String) (state : Json) {reaction : Option Reaction}
    (waiter : Option Nat) (hr : ∀ x ∈ reaction, x.isAsked) :
    Within (Keeps garbled) (Host.submit l command state reaction waiter) :=
  push (fun _ _ _ => process_of_writeRaw) ⟨rfl, hr⟩

instance submitUnasked (l : Nat) (command : String) (state : Json) (waiter : Option Nat) :
    Within (Keeps garbled) (Host.submit l command state none waiter) :=
  submit _ _ _ _ nofun

theorem requeue {l : Nat} {r : Request} (hr : r.IsAsked) :
    Within (Keeps garbled) (Host.requeue l r) := by
  have h : Within (Keeps garbled) (do
      Host.writeLine l r.command
      changeLane l (·.push r) >>= Pure.pure) := push (fun _ _ _ => process_of_writeLine) hr
  rw [bind_pure] at h
  exact h

theorem fallBack (l : Nat) (command : String) (state : Json) {reaction : Option Reaction}
    (waiter : Option Nat) (reason : String) (hr : ∀ x ∈ reaction, x.isAsked) :
    Within (Keeps garbled) (Host.fallBack l command state reaction waiter reason) :=
  have : Within (Keeps garbled) (Host.submit l command state reaction waiter) :=
    submit l command state waiter hr
  Within.fallBack l command state reaction waiter reason

theorem newTask {fs : List Frame} (hfs : ∀ f ∈ fs, f.Fair) :
    Within (Keeps garbled) (Host.newTask fs) :=
  ⟨fun h hn => ⟨⟨⟨hn.lanes, hn.channels⟩, hn.good, hn.queries, fun t gs f ht hf => by
    have hgrows : Loop.Grows (· = fs) h.loop (h.loop.newTask fs).2 := .newTask h.loop rfl
    rcases hgrows.fresh t gs ht with ht | rfl
    · exact hn.fair t gs f ht hf
    · exact hfs f hf⟩, fun _ hs => hs, rfl⟩⟩

theorem newEasyTask {fs : List Frame} (hfs : easy fs = true) :
    Within (Keeps garbled) (Host.newTask fs) :=
  newTask fun _ hf => fair_of_easy hfs hf

instance newPump (s p : Nat) : Within (Keeps garbled) (Host.newTask [.pump s p]) := newEasyTask rfl

instance newReadyEvent (s : Nat) : Within (Keeps garbled) (Host.newTask [.readyEvent s]) :=
  newEasyTask rfl

instance newConnect (host : String) (port : Int) :
    Within (Keeps garbled) (Host.newTask [.connect host port]) := newEasyTask rfl

instance newExchange (q : Nat) : Within (Keeps garbled) (Host.newTask [.exchange q]) :=
  newEasyTask rfl

theorem startQuery (c : Nat) (command : String) (state : Json) {reaction : Option Reaction}
    (waiter : Option Nat) (hr : ∀ x ∈ reaction, x.isAsked) :
    Within (Keeps garbled) (Host.startQuery c command state reaction waiter) := by
  have (task : Nat) (port : Int) : Within (Keeps garbled) (modify fun h =>
      { h with queries := h.queries.push ⟨c, command, state, reaction, waiter, port, task⟩ } :
        Action Unit) :=
    ⟨fun h hn => ⟨⟨⟨hn.lanes, hn.channels⟩, hn.good, fun q x hx => by
      have hx : (h.queries.push ⟨c, command, state, reaction, waiter, port, task⟩).get? q =
        some x := hx
      rw [Table.get?_push] at hx
      split at hx
      · cases hx
        exact hr
      · exact hn.queries q x hx, hn.fair⟩, fun _ hs => hs, rfl⟩⟩
  have (reason : String) :
      Within (Keeps garbled) (Host.fallBack c command state reaction waiter reason) :=
    fallBack c command state waiter reason hr
  infer_instance

instance startQueryUnasked (c : Nat) (command : String) (state : Json) (waiter : Option Nat) :
    Within (Keeps garbled) (Host.startQuery c command state none waiter) :=
  startQuery _ _ _ _ nofun

/-! ## Responses to requests of callers -/

theorem react (l : Nat) (state : Json) (body : String) {x : Reaction} (hx : x.isAsked) :
    Within (Keeps garbled) (Host.react l state body x) := by
  have (command : String) (state : Json) :
      Within (Keeps garbled) (Host.submit l command state (some .note) none) :=
    submit _ _ _ _ fun _ h => by cases h; trivial
  unfold Host.react
  cases x with
  | attach | ready => cases hx
  | note | fail | submit =>
    dsimp only
    infer_instance

theorem answerBy (l : Nat) (state : Json) {reaction : Option Reaction} (waiter : Option Nat)
    (body : String) (hr : ∀ x ∈ reaction, x.isAsked) :
    Within (Keeps garbled) (Host.answerBy Host.react l state reaction waiter body) := by
  unfold Host.answerBy
  cases reaction with
  | none => cases waiter <;> (dsimp only; infer_instance)
  | some x =>
    have : Within (Keeps garbled) (Host.react l state body x) := react l state body (hr x rfl)
    cases waiter <;> (dsimp only; infer_instance)

theorem query_asked {h : Host} (hn : h.board.Neat garbled) {q : Nat} {x : Query}
    (hx : (h.queries.get? q).getD
      { channel := 0, command := "", state := .null, reaction := none, waiter := none, port := 0
        task := 0 } = x) : ∀ r ∈ x.reaction, r.isAsked := by
  cases hq : h.queries.get? q with
  | none =>
    rw [hq] at hx
    cases hx
    exact nofun
  | some y =>
    rw [hq] at hx
    cases hx
    exact hn.queries q _ hq

instance fallBackAfterFailure (q : Nat) (reason : String) :
    Within (Keeps garbled) (Host.fallBackAfterFailure q reason) :=
  ⟨fun h hn => by
    unfold Host.fallBackAfterFailure
    rw [after_bind_ok (Guards.run_query q h)]
    generalize hx : (h.queries.get? q).getD _ = x
    have : Within (Keeps garbled)
        (Host.fallBack x.channel x.command x.state x.reaction x.waiter reason) :=
      fallBack _ _ _ _ _ (query_asked hn hx)
    have (e : Failure) : Within (Keeps garbled) (match x.waiter with
        | some w => Host.finish w (.failed e)
        | none => Pure.pure () : Action Unit) := by
      split <;> infer_instance
    exact Within.rel_after (R := Keeps garbled) h hn⟩

instance endExchange (q : Nat) (e : Ending) : Within (Keeps garbled) (Host.endExchange q e) := by
  unfold Host.endExchange
  split
  · infer_instance
  · refine ⟨fun h hn => ?_⟩
    rw [after_bind_ok (Guards.run_query q h)]
    generalize hx : (h.queries.get? q).getD _ = x
    have (body : String) : Within (Keeps garbled)
        (Host.answer x.channel x.state x.reaction x.waiter body) := answerBy _ _ _ _ (query_asked hn hx)
    exact Within.rel_after (R := Keeps garbled) h hn
  · infer_instance
  · infer_instance

end Keeps

/-! ## Responses of a session's worker -/

section Responses

variable {h : Host} {l : Nat}

/-- If a text is the first response of a worker, its port can be read. -/
def Legible (lane : Lane) (body : String) : Prop :=
  ∀ r ∈ lane.queue.head?, r.internal = true → ∃ x, Output.extractPort body.toList = .ok x

/-- A queue that is not empty is that of a session. -/
theorem seat?_of_queue (hn : h.board.Neat garbled) {r : Request} {queue : List Request}
    (hq : (h.laneOf l).queue = r :: queue) : ∃ a, h.seat? l = some a ∧ a.queue = r :: queue := by
  have hlt : l < h.sessions.size := by
    have hlanes : h.lanes.size = h.sessions.size := hn.lanes
    rw [← hlanes]
    refine Nat.lt_of_not_le fun hle => ?_
    unfold laneOf at hq
    rw [Table.get?_eq_none hle] at hq
    cases hq
  obtain ⟨c, hc⟩ : ∃ c, h.sessions.get? l = some c := ⟨_, Array.getElem?_eq_getElem hlt⟩
  obtain ⟨a, ha⟩ : ∃ a, h.seat? l = some a := by
    unfold seat? core?
    rw [hc]
    exact ⟨_, rfl⟩
  exact ⟨a, ha, (seat?_lane ha).2.trans hq⟩

/-- The first response of a worker is given to the session, if this still waits for it. -/
theorem neat_becomeReady {k : Host} (hn : h.board.Neat garbled) {a : Seat} (ha : h.seat? l = some a)
    {p : Nat} {m : StartMode} {queue : List Request} (hq : a.queue = .startup l p m :: queue)
    (hk : k.board = h.board.change l fun a => { a with queue }) {body : String}
    (hbody : garbled ∨ ∃ x, Output.extractPort body.toList = .ok x) :
    (after (becomeReady l p m body) k).board.Neat garbled ∧
      (after (becomeReady l p m body) k).board.Heard l ∧
        (after (becomeReady l p m body) k).board.modes = h.board.modes := by
  have hgood : a.Good garbled l := hn.good l a ha
  obtain ⟨hasked, hhead⟩ := hgood.head_cases hq
  have hka : k.seat? l = some { a with queue } := by
    rw [show k.seat? = bump l _ h.seat? from congrArg Board.seats hk]
    exact bump_self ha
  have hheard (g : Seat → Seat) (hg : ∀ b, (g b).queue = b.queue) :
      (k.board.change l g).Heard l := fun b hb r hr => by
    obtain ⟨c, hc, rfl⟩ : ∃ c, k.seat? l = some c ∧ b = g c :=
      (bump_eq_some hb).elim And.right fun hno => absurd rfl hno.1
    rw [hg, Option.some.inj (hc.symm.trans hka)] at hr
    exact (hasked r hr).external
  have heven : k.board.Even := by rw [hk]; exact hn.toEven.change
  have hawaited (hd : a.destroyed = false) : a.phase = .starting m ∧ a.process = some p := by
    rcases hhead with ⟨hr, -⟩ | ⟨_, _, hr, hawaited⟩
    · cases hr.external
    · obtain ⟨rfl, rfl⟩ := Request.startup_inj hr
      exact hawaited hd
  rcases board_becomeReady heven hka p m body with ⟨e, hno⟩ | ⟨hproc, port, e⟩
  -- the session does not wait for it, or it cannot be read
  · refine ⟨?_, by rw [e, ← k.board.change_id l]; exact hheard id fun _ => rfl, ?_⟩
    · rw [e, hk]
      refine hn.change_at ha (hgood.pop hq fun _ hd => ?_)
      obtain ⟨hphase, hproc⟩ := hawaited hd
      obtain ⟨x, hx⟩ := hno m hphase hproc
      refine hbody.resolve_right fun ⟨y, hy⟩ => ?_
      rw [hx] at hy
      cases hy
    · rw [e, hk]
      exact Board.modes_change fun _ _ => rfl
  · have hd : a.destroyed = false :=
      (hgood.manned (by rw [show a.process = _ from hproc]; rfl)).2
    refine ⟨?_, by rw [e]; exact hheard _ fun _ => rfl, ?_⟩
    · rw [e, hk, Board.change_change]
      exact hn.change_at ha (hgood.becomeReady hd hproc hq port)
    · rw [e, hk, Board.change_change]
      refine Board.modes_change fun b hb => ?_
      rw [Option.some.inj (hb.symm.trans ha), (hawaited hd).1]
      rfl

/-- A response is given to the oldest request, which is no longer queued then. -/
theorem run_deliverBy_cons (heven : h.board.Even) {r : Request} {queue : List Request}
    (hq : (h.laneOf l).queue = r :: queue) (body : String) :
    ∃ k : Host, k.board = (h.board.change l fun a => { a with queue }) ∧
      (deliverBy react l body).run h =
        (answerBy react l r.state r.reaction r.waiter body).run k := by
  unfold deliverBy
  rw [run_bind_ok (run_lane l h), hq]
  dsimp only
  rw [run_bind_ok (Succeeds.run_unit ..), run_bind_ok (Succeeds.run_unit ..)]
  refine ⟨_, ?_, rfl⟩
  rw [← board_changeLane (f := fun lane => { lane with queue }) heven l fun _ _ _ _ _ _ => rfl]
  exact Within.rel_after (R := Same board) _

/-- The first response of a worker is given to the session; a failure is forgotten. -/
theorem run_deliverBy_startup (heven : h.board.Even) {p : Nat} {m : StartMode}
    {queue : List Request} (hq : (h.laneOf l).queue = .startup l p m :: queue) (body : String) :
    ∃ k : Host, k.board = (h.board.change l fun a => { a with queue }) ∧
      (deliverBy react l body).run h = .ok () (after (becomeReady l p m body) k) := by
  obtain ⟨k, hkboard, e⟩ := run_deliverBy_cons heven hq body
  refine ⟨k, hkboard, e.trans ?_⟩
  unfold answerBy
  dsimp only [Request.startup]
  rw [run_bind_ok (run_attempt ..)]
  rfl

/-- A response is given to the oldest request; the ones behind it are of callers. -/
theorem neat_deliverBy (hn : h.board.Neat garbled) {body : String}
    (hbody : garbled ∨ Legible (h.laneOf l) body) :
    (after (deliverBy react l body) h).board.Neat garbled ∧
      (after (deliverBy react l body) h).board.Heard l ∧
        (after (deliverBy react l body) h).board.modes = h.board.modes := by
  cases hq : (h.laneOf l).queue with
  | nil =>
    unfold deliverBy
    rw [after_bind_ok (run_lane l h), hq]
    obtain ⟨hn', hcarries⟩ := Within.rel_after (R := Keeps garbled) (a := reject l body) h hn
    refine ⟨hn', hcarries.heard l fun a ha r hr => ?_, hcarries.modes⟩
    rw [(seat?_lane ha).2, hq] at hr
    cases hr
  | cons r queue =>
    obtain ⟨a, ha, haq⟩ := seat?_of_queue hn hq
    have hgood : a.Good garbled l := hn.good l a ha
    obtain ⟨hasked, ⟨hr, -⟩ | ⟨p, m, rfl, -⟩⟩ := hgood.head_cases haq
    -- a request of a caller
    · obtain ⟨k, hkboard, e⟩ := run_deliverBy_cons hn.toEven hq body
      rw [after_congr e]
      have : Within (Keeps garbled) (answerBy react l r.state r.reaction r.waiter body) :=
        Keeps.answerBy l r.state r.waiter body hr.asked
      have hkn : k.board.Neat garbled := by
        rw [hkboard]
        exact hn.change_at ha (hgood.pop haq fun hi => by rw [hr.external] at hi; cases hi)
      obtain ⟨hn', hcarries⟩ := this.rel_after k hkn
      refine ⟨hn', hcarries.heard l fun b hb x hx => ?_, hcarries.modes.trans ?_⟩
      rotate_left
      · rw [hkboard]
        exact Board.modes_change fun _ _ => rfl
      rw [hkboard] at hb
      obtain ⟨c, -, rfl⟩ : ∃ c, h.seat? l = some c ∧ b = { c with queue } :=
        (bump_eq_some hb).elim And.right fun hno => absurd rfl hno.1
      exact (hasked x hx).external
    -- the request for the first response
    · obtain ⟨k, hkboard, e⟩ := run_deliverBy_startup hn.toEven hq body
      rw [after_of_ok e]
      refine neat_becomeReady hn ha haq hkboard (hbody.imp_right fun hlegible => ?_)
      exact hlegible _ (by rw [hq]; rfl) rfl

/-- Where all requests are of callers, no text is a first response. -/
theorem legible_of_heard (hn : h.board.Neat garbled) (hh : h.board.Heard l) (body : String) :
    Legible (h.laneOf l) body := fun r hr hi => by
  cases hq : (h.laneOf l).queue with
  | nil =>
    rw [hq] at hr
    cases hr
  | cons r' queue =>
    obtain ⟨a, ha, haq⟩ := seat?_of_queue hn hq
    rw [hq] at hr
    cases hr
    rw [hh a ha r (by rw [haq]; exact List.mem_cons_self)] at hi
    cases hi

/-- All responses in some output are given to the oldest requests. -/
theorem neat_deliverFrom (hn : h.board.Neat garbled) {attachments : Nat} (start scanned : Nat)
    {marker : UInt8} {buffer : List UInt8}
    (hfirst : garbled ∨ ∀ i, Lane.find? marker buffer scanned = some i →
      Legible (h.laneOf l) (bodyOf ((buffer.drop start).take (i - start)))) :
    (after (deliverFrom react l attachments marker buffer start scanned) h).board.Neat garbled ∧
      (after (deliverFrom react l attachments marker buffer start scanned) h).board.modes =
        h.board.modes := by
  induction hm : buffer.length - scanned using Nat.strongRecOn generalizing h start scanned with
  | _ n ih =>
    unfold deliverFrom
    split
    · exact ⟨hn, rfl⟩
    · next i hi =>
      have hlt := Lane.find?_lt hi
      rw [after_bind_ok (Succeeds.run_unit ..)]
      generalize hk : after (changeLane l _) h = k
      have hkboard : k.board = h.board := hk ▸ Within.rel_after (R := Same board) h
      have hkn : k.board.Neat garbled := by rwa [hkboard]
      have hkqueue : (k.laneOf l).queue = (h.laneOf l).queue := by
        rw [← hk, ← queueOf_eq, ← queueOf_eq]
        exact congrArg Prod.snd (congrFun (congrArg View.lanes (Within.rel_after (R := Same view) h)) l)
      have hlegible : garbled ∨ Legible (k.laneOf l)
          (bodyOf ((buffer.drop start).take (i - start))) := by
        unfold Legible
        rw [hkqueue]
        exact hfirst.imp_right fun h => h i hi
      obtain ⟨hn', hheard, hmodes⟩ := neat_deliverBy hkn hlegible
      rw [hkboard] at hmodes
      rw [after_bind_ok (Succeeds.run_unit ..), after_bind_ok (run_lane ..)]
      split
      · rw [same_after_bind (π := board) fun _ => inferInstance]
        obtain ⟨hn'', hmodes'⟩ := ih (buffer.length - (i + 1)) (by omega) hn' (i + 1) (i + 1)
          (.inr fun _ _ => legible_of_heard hn' hheard _) rfl
        exact ⟨hn'', hmodes'.trans hmodes⟩
      · exact ⟨hn', hmodes⟩

/-- The first response of a session's worker, if some output completes it. -/
def announcement? (lane : Lane) (bytes : List UInt8) : Option String :=
  match lane.queue with
  | [] => none
  | r :: _ =>
    if r.internal then
      (Lane.find? lane.marker (lane.buffer ++ bytes) lane.scanned).map
        fun i => bodyOf ((lane.buffer ++ bytes).take i)
    else none

/-- Output of a session's worker is taken. -/
theorem neat_feed (hn : h.board.Neat garbled) {bytes : List UInt8}
    (hfirst : garbled ∨ ∀ body ∈ announcement? (h.laneOf l) bytes,
      ∃ x, Output.extractPort body.toList = .ok x) :
    (after (feed l bytes) h).board.Neat garbled ∧
      (after (feed l bytes) h).board.modes = h.board.modes := by
  by_cases hb : bytes = []
  · rw [hb]
    exact ⟨hn, rfl⟩
  generalize hk : received l bytes h = k
  have hkboard : k.board = h.board := by
    rw [← hk]
    exact (Within.rel_after (R := Same board) _).trans (Within.rel_after (R := Same board) h)
  have hrun := run_feedBy_eq react l hb hk
  have hkeep (left : Option Nat) : Within (Same board) (keepFrom l left) := by
    unfold keepFrom
    split <;> infer_instance
  rw [show after (feed l bytes) h = _ from after_congr hrun,
    same_after_bind (π := board) fun _ => inferInstance, ← hkboard]
  refine neat_deliverFrom (by rwa [hkboard]) _ _ (hfirst.imp_right fun hlegible i hi r hr hint => ?_)
  -- a lane with a request is a lane that there is
  cases hq : (k.laneOf l).queue with
  | nil =>
    rw [hq] at hr
    cases hr
  | cons r' queue =>
    rw [hq] at hr
    cases hr
    have hlane : k.laneOf l = { h.laneOf l with buffer := (h.laneOf l).buffer ++ bytes } := by
      rw [← hk]
      obtain ⟨a, ha, -⟩ := seat?_of_queue (by rwa [hkboard]) hq
      have hlt := lt_of_seat? ((congrFun (congrArg Board.seats hkboard.symm) l).trans ha)
      have hsizes : h.lanes.size = h.sessions.size := hn.lanes
      exact laneOf_received (hsizes ▸ hlt) bytes
    refine hlegible _ ?_
    rw [hlane] at hi hq ⊢
    unfold announcement?
    rw [show (h.laneOf l).queue = r :: queue from hq]
    dsimp only
    rw [if_pos hint, hi]
    rfl

end Responses

end Host

end GhciHost
