import GhciHost.Proofs.Session.InOrder
import GhciHost.Proofs.Session.Keeping

/-!
# Workers come and go

A few frames give a session a worker or take it away; each of them supposes something of the
session (`Fits`), and leaves it with a seat that is good.  All others keep the seats good anyhow.

* `Keeps.resume`   the other frames;
* `launched_neat`, `pumpEnd_neat`, `teardown_neat` …   one lemma for each of these frames;
* `neat_step`   all steps.
-/

namespace GhciHost

/-- Frames that give a session a worker, or take it away. -/
def Frame.reseats : Frame → Bool
  | pumped .. | gotStatus _ | gotInstall _ | launch .. | launched .. | pumpEnd .. | teardown _
  | queriesGone _ => true
  | _ => false

/-- The seat of a session that has no worker. -/
def Seat.vacant (phase : Phase) (destroyed ready : Bool) : Seat :=
  { phase, process := none, destroyed, ready, attached := none, queue := [], port := none }

namespace Seat.Good

variable {garbled : Prop} {s : Nat} {a : Seat}

/-- A session without a worker, and without a port. -/
theorem vacant {phase : Phase} {destroyed ready : Bool} (hphase : destroyed = false →
    ∀ m port, phase ≠ .ready m port) (hready : destroyed = true ∨ phase.state = .givenUp → ready = true) :
    Good garbled s (.vacant phase destroyed ready) where
  attached := rfl
  manned h := by cases h
  held m port e hd := absurd e (hphase hd m port)
  port := by
    show none = _
    split
    · rfl
    · next hd =>
      have hd : destroyed = false := Bool.eq_false_iff.2 hd
      show none = phase.port?
      cases hp : phase with
      | ready m port => exact absurd hp (hphase hd m port)
      | _ => rfl
  ready := hready
  empty _ := rfl
  queue := ⟨none, ⟨[], rfl, nofun⟩, fun _ => .inl (by unfold awaited? Seat.vacant; split <;> simp_all)⟩

/-- A session that is not destroyed and has no process has nothing of a worker. -/
theorem eq_vacant (ha : a.Good garbled s) (hd : a.destroyed = false) (hproc : a.process = none) :
    a = .vacant a.phase false a.ready ∧ ∀ m port, a.phase ≠ .ready m port := by
  have hphase (m : StartMode) (port : Option Int) : a.phase ≠ .ready m port := fun e => by
    have := ha.held m port e hd
    rw [hproc] at this
    cases this
  refine ⟨?_, hphase⟩
  have hport : a.port = none := by
    rw [ha.port, hd]
    cases hp : a.phase with
    | ready m port => exact absurd hp (hphase m port)
    | _ => rfl
  have hq : a.queue = [] := ha.empty (.inr ⟨hd, hproc⟩)
  have hat : a.attached = none := ha.attached.trans hproc
  obtain ⟨phase, process, destroyed, ready, attached, queue, port⟩ := a
  simp only at hd hproc hport hq hat
  subst hd hproc hport hq hat
  rfl

end Seat.Good

namespace Host

variable {garbled : Prop}

/-! ## A session is made -/

theorem margin_newSession {kind root : String} {targets : List String} {h h' : Host} {s : Nat}
    (e : (newSession kind root targets).run h = .ok s h') :
    h'.margin = { h.margin with
      sizes := (h.lanes.size + 1, h.channels.size + 1, h.sessions.size + 1) } := by
  have hready (a : Session) (ha : a.ready = false) :
      readyOf { h with sessions := h.sessions.push a } = h.readyOf := by
    funext i
    simp only [readyOf, Table.get?_push]
    split
    · next e =>
      subst e
      rw [Table.get?_eq_none (Nat.le_refl _)]
      simp [ha]
    · rfl
  have hport (c : QueryChannel) (hc : c.port = none) :
      portOf { h with channels := h.channels.push c } = h.portOf := by
    funext i
    simp only [portOf, Table.get?_push]
    split
    · next e =>
      subst e
      rw [Table.get?_eq_none (Nat.le_refl _)]
      simp [hc]
    · rfl
  have hactive (c : QueryChannel) (hc : c.active = []) :
      activeOf { h with channels := h.channels.push c } = h.activeOf := by
    funext i
    simp only [activeOf, Table.get?_push]
    split
    · next e =>
      subst e
      rw [Table.get?_eq_none (Nat.le_refl _)]
      simp [hc]
    · rfl
  have hreader (a : Session) (ha : a.reader = none) :
      readerOf { h with sessions := h.sessions.push a } = h.readerOf := by
    funext i
    simp only [readerOf, Table.get?_push]
    split
    · next e =>
      subst e
      rw [Table.get?_eq_none (Nat.le_refl _)]
      simp [ha]
    · rfl
  unfold newSession at e
  rw [run_bind_ok (run_get h)] at e
  split at e
  · next marker _ =>
    have hf := hreader { kind, root, key := kind ++ ":" ++ root, targets, workDir :=
      h.workRoot ++ ["ghcworker-" ++ String.ofList (Text.showNat h.workDirs)] } rfl
    have hr := hready { kind, root, key := kind ++ ":" ++ root, targets, workDir :=
      h.workRoot ++ ["ghcworker-" ++ String.ofList (Text.showNat h.workDirs)] } rfl
    have hp := hport { host := h.settings.secondaryHost, enabled := h.settings.allowSecondaryChannel
                       connectTimeout := h.settings.secondaryConnectTimeout } rfl
    have ha := hactive { host := h.settings.secondaryHost, enabled := h.settings.allowSecondaryChannel
                         connectTimeout := h.settings.secondaryConnectTimeout } rfl
    cases e
    rw [margin, margin, ← hr, ← hp, ← ha, ← hf]
    simp only [sizes, Table.size_push]
    rfl
  · cases e

/-- A new session has the next number, and no worker. -/
theorem board_newSession {kind root : String} {targets : List String} {h h' : Host} {s : Nat}
    (hn : h.board.Neat garbled) (e : (newSession kind root targets).run h = .ok s h') :
    h'.board = { h.board with
      seats := fun i => if i = h.sessions.size then some (.vacant .absent false false) else h.seat? i
      sizes := (h.lanes.size + 1, h.channels.size + 1, h.sessions.size + 1) } := by
  have hm := margin_newSession e
  obtain ⟨key, hv⟩ : ∃ key, h'.view = { h.view with
      cores := fun s => if s = h.sessions.size then some (.new key) else h.core? s } := by
    rcases newSession_spec kind root targets h with ⟨x, k, e', -⟩ | ⟨key, k, e', hv⟩
    · rw [e] at e'
      cases e'
    · rw [e] at e'
      cases e'
      exact ⟨key, hv⟩
  have hcore : h'.core? = fun s => if s = h.sessions.size then some (.new key) else h.core? s :=
    congrArg View.cores hv
  have hlane : h'.laneState = h.laneState := congrArg View.lanes hv
  have hready : h'.readyOf = h.readyOf := congrArg Margin.ready hm
  have hport : h'.portOf = h.portOf := congrArg Margin.ports hm
  have hseat : h'.seat? = fun i =>
      if i = h.sessions.size then some (.vacant .absent false false) else h.seat? i := by
    funext i
    rw [seat?, hcore, hlane, hready, hport]
    dsimp only
    split
    · next hi =>
      subst hi
      have hl : h.lanes.get? h.sessions.size = none :=
        Table.get?_eq_none (Nat.le_of_eq hn.lanes)
      have hc : h.channels.get? h.sessions.size = none :=
        Table.get?_eq_none (Nat.le_of_eq hn.channels)
      have hs : h.sessions.get? h.sessions.size = none := Table.get?_eq_none (Nat.le_refl _)
      rw [laneState, readyOf, portOf, hl, hc, hs]
      rfl
    · rfl
  rw [board, board, hseat, show h'.sizes = _ from congrArg Margin.sizes hm,
    show h'.queries = h.queries from congrArg View.queries hv,
    show h'.loop = h.loop from congrArg View.loop hv]

namespace Keeps

instance newSession (kind root : String) (targets : List String) :
    Within (Keeps garbled) (Host.newSession kind root targets) :=
  ⟨fun h hn => by
    cases e : (Host.newSession kind root targets).run h with
    | error x h' =>
      rcases newSession_spec kind root targets h with ⟨_, k, e', rfl⟩ | ⟨_, k, e', -⟩
      · rw [after_of_error e']
        exact ⟨hn, .refl _⟩
      · rw [e] at e'
        cases e'
    | ok s h' =>
      rw [after_of_ok e, board_newSession hn e]
      refine ⟨⟨⟨congrArg (· + 1) hn.lanes, congrArg (· + 1) hn.channels⟩, fun i a ha => ?_,
        hn.queries, hn.fair⟩, fun i hi a ha => ?_, ?_⟩
      · dsimp only at ha
        split at ha
        · cases ha
          exact .vacant (fun _ _ _ => nofun) nofun
        · exact hn.good i a ha
      · dsimp only at ha
        split at ha
        · cases ha
          exact nofun
        · exact hi a ha
      · funext i
        unfold Board.modes
        dsimp only
        split
        · next hi =>
          have hnone : h.seat? i = none := by
            cases hs : h.seat? i with
            | none => rfl
            | some a =>
              have := lt_of_seat? hs
              omega
          rw [show h.board.seats i = none from hnone]
          rfl
        · rfl⟩

/-! ## Frames that keep all seats -/

theorem resumeWith {f : Frame} (hf : f.reseats = false) (hfair : f.Fair) (v : Value) :
    Within (Keeps garbled) (Host.resumeWith f v) := by
  unfold Host.resumeWith
  split
  case h_30 command state reaction s =>
    have : Within (Keeps garbled) (Host.submit s command state reaction none) :=
      submit s command state none hfair.reaction
    infer_instance
  case h_32 command state reaction s =>
    have : Within (Keeps garbled) (Host.startQuery s command state reaction none) :=
      startQuery s command state none hfair.reaction
    infer_instance
  all_goals first
    | infer_instance
    | cases hf

theorem resume {f : Frame} (hf : f.reseats = false) (hfair : f.Fair) (e : Ending) :
    Within (Keeps garbled) (Host.resume f e) := by
  unfold Host.resume
  split
  case h_17 => split <;> infer_instance
  case h_18 =>
    split
    · exact resumeWith hf hfair _
    · infer_instance
  all_goals first
    | infer_instance
    | cases hf

end Keeps

/-! ## Sessions without a worker -/

/-- A session is in a phase and has no worker, and is not destroyed. -/
structure Unmanned (garbled : Prop) (s : Nat) (phase : Phase) (h : Host) : Prop where
  neat : h.board.Neat garbled
  seat : ∃ ready, h.seat? s = some (.vacant phase false ready)

theorem seat?_of_core? {h : Host} {s : Nat} {c : Session.Core} (hc : h.core? s = some c) :
    ∃ a, h.seat? s = some a ∧ a.phase = c.phase ∧ a.process = c.process ∧
      a.destroyed = c.destroyed := by
  unfold seat?
  rw [hc]
  exact ⟨_, rfl, rfl, rfl, rfl⟩

theorem manned_of_neat {h : Host} (hn : h.board.Neat garbled) : Manned h.core? := fun s c hc hp => by
  obtain ⟨a, ha, hphase, hproc, hd⟩ := seat?_of_core? hc
  rw [← hphase, ← hd]
  exact (hn.good s a ha).manned (hproc ▸ hp)

theorem unmanned_of_core? {h : Host} (hn : h.board.Neat garbled) {s : Nat} {c : Session.Core}
    (hc : h.core? s = some c) (hd : c.destroyed = false) (hproc : c.process = none) :
    Unmanned garbled s c.phase h := by
  obtain ⟨a, ha, hphase, hproc', hd'⟩ := seat?_of_core? hc
  obtain ⟨e, -⟩ := (hn.good s a ha).eq_vacant (hd'.trans hd) (hproc'.trans hproc)
  exact ⟨hn, a.ready, ha.trans (congrArg some (e.trans (by rw [hphase])))⟩

namespace Comes

variable {h : Host} {Q : Next → Host → Prop} {s : Nat}

/-- Something that is not about seats cannot fail. -/
theorem still {a : Action α} [Succeeds a] [Within (Same board) a] {f : α → Action Next}
    (hf : ∀ v h', h'.board = h.board → Comes (f v) h' Q) : Comes (a >>= f) h Q :=
  Ends.bind (.of_succeeds (Same board) hf)

/-- A session is changed, and its seat. -/
theorem reseat {f : Session → Session} (g : Seat → Seat)
    (hg : ∀ (a : Session) attached queue port,
      g ⟨a.phase, a.process, a.destroyed, a.ready, attached, queue, port⟩ =
        ⟨(f a).phase, (f a).process, (f a).destroyed, (f a).ready, attached, queue, port⟩)
    {k : Unit → Action Next} (hk : ∀ h', h'.board = h.board.change s g → Comes (k ()) h' Q) :
    Comes (Host.changeSession s f >>= k) h Q :=
  Ends.bind (Ends.of_run (Succeeds.run_unit ..) (hk _ (board_changeSession h s hg)))

/-- The lane of a session is changed. -/
theorem relane {f : Lane → Lane} (g : Seat → Seat) (heven : h.board.Even)
    (hg : ∀ (b : Lane) phase process destroyed ready port,
      g ⟨phase, process, destroyed, ready, b.process, b.queue, port⟩ =
        ⟨phase, process, destroyed, ready, (f b).process, (f b).queue, port⟩)
    {k : Unit → Action Next} (hk : ∀ h', h'.board = h.board.change s g → Comes (k ()) h' Q) :
    Comes (Host.changeLane s f >>= k) h Q :=
  Ends.bind (Ends.of_run (Succeeds.run_unit ..) (hk _ (board_changeLane heven s hg)))

/-- The port of a session's channel is changed. -/
theorem report {port : Option Int} (heven : h.board.Even) {k : Unit → Action Next}
    (hk : ∀ h', h'.board = h.board.change s (fun a => { a with port }) → Comes (k ()) h' Q) :
    Comes (Host.changeChannel s (fun ch => { ch with port }) >>= k) h Q :=
  Ends.bind (Ends.of_run (Succeeds.run_unit ..)
    (hk _ (board_changeChannel heven s fun _ _ _ _ _ _ _ => rfl)))

/-- A session goes on to a phase that may follow its own. -/
theorem goTo {phase : Phase} {a : Seat} (ha : h.seat? s = some a)
    (hok : a.phase.allows phase = true) {k : Unit → Action Next}
    (hk : ∀ h', h'.board =
      h.board.change s (fun a => { a with phase, ready := phase.state.settled }) →
        Comes (k ()) h' Q) : Comes (Host.transition s phase >>= k) h Q := by
  obtain ⟨h', e, hb⟩ := board_transition phase (h := h) (s := s) (by rwa [← (seat?_session ha).1])
  exact Ends.bind (Ends.of_run e (hk h' hb))

/-- All requests to a session are dropped. -/
theorem abandon {e : SessionError} (heven : h.board.Even) {k : Nat → Action Next}
    (hk : ∀ n h', h'.board = h.board.change s (fun a => { a with queue := [] }) →
      Comes (k n) h' Q) : Comes (Host.abandon s e >>= k) h Q := by
  obtain ⟨n, e'⟩ := Succeeds.run_ok (a := Host.abandon s e) h
  refine Ends.bind (Ends.of_run e' (hk n _ ?_))
  unfold Host.abandon
  rw [after_bind_ok (run_takePending s h)]
  refine Eq.trans (Within.rel_after (R := Same board) _) ?_
  exact board_changeLane heven s fun _ _ _ _ _ _ => rfl

/-- A session gives up. -/
theorem resign {reason : String} {kind : GiveUpKind} {a : Seat} (ha : h.seat? s = some a)
    (heven : h.board.Even)
    (hok : ∀ transcript, a.phase.allows (.givenUp reason transcript kind) = true)
    {k : Unit → Action Next} (hk : ∀ transcript h', h'.board = h.board.change s (fun a =>
      { a with phase := .givenUp reason transcript kind, ready := true, queue := [] }) →
        Comes (k ()) h' Q) : Comes (Host.giveUp s reason kind >>= k) h Q := by
  unfold Host.giveUp
  simp only [bind_assoc]
  refine read (run_session s h) (goTo ha (hok _) fun h₁ e₁ => ?_)
  refine abandon (by rw [e₁]; exact heven.change) fun _ h₂ e₂ => still fun _ h₃ e₃ => ?_
  refine hk (String.ofList (h.sessionOf s).transcript) h₃ ?_
  rw [e₃, e₂, e₁, Board.change_change]
  rfl

end Comes

namespace Unmanned

variable {h : Host} {Q : Next → Host → Prop} {s : Nat} {phase : Phase}

theorem of_board {h' : Host} (hu : Unmanned garbled s phase h) (e : h'.board = h.board) :
    Unmanned garbled s phase h' where
  neat := e ▸ hu.neat
  seat := by
    rw [show h'.seat? = h.seat? from congrArg Board.seats e]
    exact hu.seat

/-- A session without a worker goes on to a phase. -/
theorem goTo (hu : Unmanned garbled s phase h) {phase' : Phase}
    (hok : phase.allows phase' = true) (hno : ∀ m port, phase' ≠ .ready m port)
    {k : Unit → Action Next} (hk : ∀ h', Unmanned garbled s phase' h' → Comes (k ()) h' Q) :
    Comes (Host.transition s phase' >>= k) h Q := by
  obtain ⟨ready, ha⟩ := hu.seat
  refine Comes.goTo ha hok fun h' e => hk h' ⟨?_, phase'.state.settled, ?_⟩
  · rw [e]
    refine hu.neat.change_at ha (.vacant (fun _ => hno) fun hready => ?_)
    rw [hready.resolve_left Bool.false_ne_true]
    rfl
  · rw [show h'.seat? = _ from congrArg Board.seats e]
    exact bump_self ha

/-- A session without a worker gives up. -/
theorem resign (hu : Unmanned garbled s phase h) {reason : String} {kind : GiveUpKind}
    (hok : ∀ transcript, phase.allows (.givenUp reason transcript kind) = true)
    {k : Unit → Action Next} (hk : ∀ h', h'.board.Neat garbled → Comes (k ()) h' Q) :
    Comes (Host.giveUp s reason kind >>= k) h Q := by
  obtain ⟨ready, ha⟩ := hu.seat
  refine Comes.resign ha hu.neat.toEven hok fun transcript h' e => hk h' ?_
  rw [e]
  exact hu.neat.change_at ha (.vacant (fun _ _ _ => nofun) fun _ => rfl)

end Unmanned

/-! ## The steps of a startup -/

section Startup

variable {h : Host} {s : Nat}

theorem neat_gotStatus (hn : h.board.Neat garbled) (hf : Fits h.core? (.gotStatus s))
    (status : InstallStatus) : Comes (gotStatus s status) h fun _ h' => h'.board.Neat garbled := by
  obtain ⟨c, hc, hearly⟩ := hf.early s rfl
  unfold gotStatus
  refine Comes.read (run_session s h) ?_
  rw [destroyed_eq hc]
  split
  · exact Comes.done hn
  · next hd =>
    have hd : c.destroyed = false := by simpa using hd
    have hphase : c.phase = .absent := hearly.resolve_left (by simp [hd])
    have hu := unmanned_of_core? hn hc hd (launchable_of_absent (manned_of_neat hn) hc hd hphase).1
    rw [hphase] at hu
    split
    · exact Comes.done hn
    · unfold beginInstall
      refine hu.goTo rfl (fun _ _ e => by cases e) fun h₁ hu₁ => ?_
      refine Comes.read (run_get h₁) (Comes.read (run_session s h₁) ?_)
      split
      · exact hu₁.resign (fun _ => rfl) fun h₂ hn₂ => Comes.done hn₂
      · exact Comes.still fun _ h₂ e₂ => Comes.done (hu₁.of_board e₂).neat

theorem neat_gotInstall (hn : h.board.Neat garbled) (hf : Fits h.core? (.gotInstall s))
    (e : Ending) : Comes (gotInstall s e) h fun _ h' => h'.board.Neat garbled := by
  obtain ⟨c, hc, hstage⟩ := hf.stage s .installing rfl
  unfold gotInstall
  refine Comes.read (run_session s h) ?_
  dsimp only
  split
  · refine Comes.still fun _ h₁ e₁ => Comes.still fun _ h₂ e₂ => ?_
    have hn₂ : h₂.board.Neat garbled := by rwa [e₂, e₁]
    split <;> exact Comes.done hn₂
  · rw [destroyed_eq hc]
    split
    · exact Comes.done hn
    · next hno =>
      obtain ⟨hphase, hproc⟩ := hstage.resolve_left hno
      have hu := unmanned_of_core? hn hc (by simpa using hno) hproc
      rw [hphase] at hu
      refine Comes.still fun _ h₁ e₁ => Comes.still fun _ h₂ e₂ => ?_
      exact (hu.of_board (e₂.trans e₁)).resign (fun _ => rfl) fun h₃ hn₃ => Comes.done hn₃
  · exact Comes.done hn

theorem neat_launch (hn : h.board.Neat garbled) {m : StartMode} {replay : List Request}
    (hf : Fits h.core? (.launch s m replay)) :
    Comes (launch s m replay) h fun _ h' => h'.board.Neat garbled := by
  obtain ⟨c, hc, hlaunch⟩ := hf.launch s m rfl
  have hu := unmanned_of_core? hn hc hlaunch.alive hlaunch.process
  unfold launch
  refine hu.goTo hlaunch.allows (fun _ _ e => by cases e) fun h₁ hu₁ => ?_
  refine Comes.read (run_session s h₁) (Comes.read (run_get h₁) ?_)
  refine Comes.still fun _ h₂ e₂ => Comes.still fun _ h₃ e₃ => Comes.read (run_get h₃) ?_
  refine Comes.still fun _ h₄ e₄ => Ends.of_succeeds (Same board) fun _ h₅ e₅ => ?_
  exact (hu₁.of_board (e₅.trans (e₄.trans (e₃.trans e₂)))).neat

/-- Requests of callers are submitted to a new worker. -/
theorem Keeps.setUp {replay : List Request} (hr : ∀ r ∈ replay, r.IsAsked) :
    Within (Keeps garbled) (Host.setUp s replay) := by
  unfold Host.setUp
  refine @Within.bind _ _ _ _ _ _ _ fun h => ?_
  dsimp only
  refine @Within.bind _ _ _ _ _ _ _ fun _ => ?_
  have hloop : Within (Keeps garbled) (ForIn.forIn replay PUnit.unit fun r _ => do
      Host.requeue s r
      Pure.pure (ForInStep.yield PUnit.unit) : Action PUnit) :=
    Within.forIn_mem _ _ _ fun r hmem _ =>
      have : Within (Keeps garbled) (Host.requeue s r) := Keeps.requeue (hr r hmem)
      inferInstance
  infer_instance

theorem neat_adopt {p : Nat} {m : StartMode} {replay : List Request}
    (hu : Unmanned garbled s (.starting m) h) (hr : ∀ r ∈ replay, r.IsAsked) :
    Comes (adopt s p m replay) h fun _ h' => h'.board.Neat garbled := by
  obtain ⟨ready, ha⟩ := hu.seat
  have heven := hu.neat.toEven
  unfold adopt
  refine Comes.reseat (fun a => { a with process := some p }) (fun _ _ _ _ => rfl) fun h₁ e₁ => ?_
  refine Comes.relane (fun a => { a with attached := some p })
    (by rw [e₁]; exact heven.change) (fun _ _ _ _ _ _ => rfl) fun h₂ e₂ => ?_
  refine Comes.relane (fun a => { a with queue := a.queue ++ [.startup s p m] })
    (by rw [e₂, e₁]; exact heven.change.change) (fun _ _ _ _ _ _ => rfl) fun h₃ e₃ => ?_
  have hn₃ : h₃.board.Neat garbled := by
    rw [e₃, e₂, e₁, Board.change_change, Board.change_change]
    refine hu.neat.change_at ha ⟨rfl, fun _ => ⟨rfl, rfl⟩, nofun, rfl, nofun, nofun, ?_⟩
    exact ⟨some (p, m), ⟨[], rfl, nofun⟩, fun _ => .inl rfl⟩
  have : Within (Keeps garbled) (Host.setUp s replay) := Keeps.setUp hr
  exact Ends.of_lawful (Keeps garbled) (fun _ _ k => (k hn₃).1) fun x h' hx k => ⟨hx, (k hn₃).1⟩

theorem neat_launched (hn : h.board.Neat garbled) {m : StartMode} {replay : List Request}
    (hf : Fits h.core? (.launched s m replay)) (hfair : Frame.Fair (.launched s m replay))
    (e : Ending) : Comes (launched s m replay e) h fun _ h' => h'.board.Neat garbled := by
  obtain ⟨c, hc, hstage⟩ := hf.stage s (.starting m) rfl
  have hu (hno : ¬ c.destroyed = true) : Unmanned garbled s (.starting m) h := by
    obtain ⟨hphase, hproc⟩ := hstage.resolve_left hno
    rw [← hphase]
    exact unmanned_of_core? hn hc (by simpa using hno) hproc
  unfold launched
  split
  · refine Comes.read (run_session s h) ?_
    rw [destroyed_eq hc]
    split
    · exact Comes.still fun _ h₁ e₁ => Comes.done (e₁ ▸ hn)
    · next hno => exact neat_adopt (hu hno) (hfair.replay s replay rfl)
  · split
    · refine Comes.read (run_session s h) ?_
      rw [destroyed_eq hc]
      dsimp only
      split
      · next hno =>
        refine Comes.still fun _ h₁ e₁ => ?_
        exact ((hu (by simpa using hno)).of_board e₁).resign (fun _ => rfl)
          fun h₂ hn₂ => Comes.done hn₂
      · exact Comes.done hn
    · exact Comes.done hn
  · exact Comes.done hn

end Startup

/-! ## Output of a worker -/

theorem neat_pumped {h : Host} {s : Nat} (hn : h.board.Neat garbled) (p : Nat) {e : Ending}
    (hfirst : garbled ∨ ∀ bytes, e = .value (.piece bytes) →
      ∀ body ∈ announcement? (h.laneOf s) bytes, ∃ x, Output.extractPort body.toList = .ok x) :
    (after (pumped s p e) h).board.Neat garbled ∧
      (after (pumped s p e) h).board.modes = h.board.modes := by
  unfold pumped
  split
  · next b bytes =>
    rw [after_bind_ok (Succeeds.run_unit ..)]
    have hrecord : (after (recordOutput s (b :: bytes)) h).board = h.board :=
      Within.rel_after (R := Same board) h
    rw [same_after_bind (π := board) fun _ => inferInstance, ← hrecord]
    exact neat_feed (by rwa [hrecord]) (hfirst.imp_right fun hlegible => hlegible _ rfl)
  · exact ⟨hn, rfl⟩
  · split <;> exact ⟨hn, rfl⟩
  · exact ⟨hn, rfl⟩

/-! ## The end of a worker -/

section Exit

variable {h : Host} {s : Nat}

/-- A worker that has ended leaves nothing behind, whatever comes next. -/
theorem neat_workerExited (hn : h.board.Neat garbled) {a : Seat} (ha : h.seat? s = some a)
    (hproc : a.process.isSome) (code : Int) :
    Comes (workerExited s code) h fun _ h' => h'.board.Neat garbled := by
  obtain ⟨hw, hd⟩ := (hn.good s a ha).manned hproc
  have heven := hn.toEven
  unfold workerExited
  refine Comes.reseat (fun a => { a with process := none }) (fun _ _ _ _ => rfl) fun h₁ e₁ => ?_
  refine Comes.relane (fun a => { a with attached := none }) (by rw [e₁]; exact heven.change)
    (fun _ _ _ _ _ _ => rfl) fun h₂ e₂ => ?_
  refine Comes.report (by rw [e₂, e₁]; exact heven.change.change) fun h₃ e₃ => ?_
  refine Comes.read (run_session s h₃) (Comes.still fun _ h₄ e₄ => ?_)
  have hb : h₄.board = h.board.change s fun a =>
      { a with process := none, attached := none, port := none } := by
    rw [e₄, e₃, e₂, e₁, Board.change_change, Board.change_change]
  have ha₄ : h₄.seat? s = some { a with process := none, attached := none, port := none } := by
    rw [show h₄.seat? = _ from congrArg Board.seats hb]
    exact bump_self ha
  have hphase : (h₃.sessionOf s).phase = a.phase := by
    have ha₃ : h₃.seat? s = some { a with process := none, attached := none, port := none } := by
      rw [← ha₄]
      exact congrFun (congrArg Board.seats e₄.symm) s
    exact (seat?_session ha₃).1.symm
  have hvacant (phase : Phase) (ready : Bool) (hno : ∀ m port, phase ≠ .ready m port)
      (hready : phase.state = .givenUp → ready = true) :
      (h.board.change s fun a => .vacant phase a.destroyed ready).Neat garbled := by
    refine hn.change_at ha (.vacant (fun _ => hno) fun hd' => hready (hd'.resolve_left ?_))
    rw [hd]
    exact Bool.false_ne_true
  have hgive (reason : String) (kind : GiveUpKind) :
      Comes (do giveUp s reason kind; return Next.done .unit) h₄
        fun _ h' => h'.board.Neat garbled := by
    refine Comes.resign ha₄ (by rw [hb]; exact heven.change) (fun _ => ?_)
      fun transcript h₅ e₅ => Comes.done ?_
    · cases e : a.phase <;> rw [e] at hw <;> first | rfl | cases hw
    · rw [e₅, hb, Board.change_change]
      exact hvacant _ _ (fun _ _ he => by cases he) fun _ => rfl
  dsimp only
  rw [hphase]
  split
  case h_3 h₁ h₂ =>
    cases e : a.phase with
    | starting m => exact absurd e (h₁ m)
    | ready m port => exact absurd e (h₂ m port)
    | _ => rw [e] at hw; cases hw
  all_goals
    split
    -- the requests that were pending are submitted again
    · refine Ends.bind (Ends.of_run (run_takePending s h₄) ?_)
      generalize hk : after (changeLane s fun lane => { lane with queue := [] }) h₄ = k
      have hkb : k.board = h₄.board.change s fun a => { a with queue := [] } := by
        rw [← hk]
        exact board_changeLane (by rw [hb]; exact heven.change) s fun _ _ _ _ _ _ => rfl
      have hka : k.seat? s =
          some { a with process := none, attached := none, port := none, queue := [] } := by
        rw [show k.seat? = _ from congrArg Board.seats hkb]
        exact bump_self ha₄
      refine Comes.goTo hka ?_ fun h₅ e₅ => ?_
      · cases e : a.phase <;> rw [e] at hw <;> first | rfl | cases hw
      · refine Comes.still fun _ h₆ e₆ => Comes.still fun _ h₇ e₇ => Comes.done ?_
        rw [e₇, e₆, e₅, hkb, hb, Board.change_change, Board.change_change]
        exact hvacant _ _ (fun _ _ he => by cases he) fun he => by cases he
    · split
      · exact hgive _ _
      · exact hgive _ _

theorem neat_pumpEnd (hn : h.board.Neat garbled) (p : Nat) (code : Int) :
    Comes (pumpEnd s p code) h fun _ h' => h'.board.Neat garbled := by
  unfold pumpEnd
  refine Comes.read (run_session s h) ?_
  split
  · next hcond =>
    obtain ⟨c, hc, hproc⟩ := core?_of_process hcond.1
    obtain ⟨a, ha, -, hproc', -⟩ := seat?_of_core? hc
    exact neat_workerExited hn ha (by rw [hproc', hproc]; rfl) code
  · exact Comes.done hn

end Exit

/-! ## The end of a session -/

section Destruction

variable {h : Host} {s : Nat}

/-- A session that is destroyed has nothing of a worker but its requests. -/
theorem neat_teardown (hn : h.board.Neat garbled) :
    Comes (teardown s) h fun _ h' => h'.board.Neat garbled := by
  have heven := hn.toEven
  unfold teardown
  refine Comes.read (run_session s h) ?_
  refine Comes.reseat (fun a => { a with destroyed := true, ready := true, process := none })
    (fun _ _ _ _ => rfl) fun h₁ e₁ => Comes.still fun _ h₂ e₂ => ?_
  refine Comes.relane (fun a => { a with attached := none })
    (by rw [e₂, e₁]; exact heven.change) (fun _ _ _ _ _ _ => rfl) fun h₃ e₃ => ?_
  refine Comes.report (by rw [e₃, e₂, e₁]; exact heven.change.change) fun h₄ e₄ => ?_
  have hn₄ : h₄.board.Neat garbled := by
    rw [e₄, e₃, e₂, e₁, Board.change_change, Board.change_change]
    refine hn.change fun a ha => ?_
    have hgood := hn.good s a ha
    refine ⟨rfl, nofun, fun _ _ _ => nofun, rfl, fun _ => rfl, ?_, ?_⟩
    · rintro (hw | ⟨hd, -⟩)
      · exact hgood.empty (.inl hw)
      · cases hd
    · obtain ⟨first, hqueue, -⟩ := hgood.queue
      exact ⟨first, hqueue, nofun⟩
  dsimp only
  split
  · refine Comes.still fun _ h₅ e₅ => Comes.read (run_get h₅) ?_
    split
    · exact Comes.done (e₅ ▸ hn₄)
    · exact Comes.still fun _ h₆ e₆ => Comes.done (by rwa [e₆, e₅])
  · exact Comes.done hn₄

theorem neat_queriesGone (hn : h.board.Neat garbled) (hf : Fits h.core? (.queriesGone s)) :
    Comes (queriesGone s) h fun _ h' => h'.board.Neat garbled := by
  obtain ⟨c, hc, hd⟩ := hf.gone s rfl
  obtain ⟨a, ha, -, -, hd'⟩ := seat?_of_core? hc
  have hd : a.destroyed = true := hd'.trans hd
  have hgood := hn.good s a ha
  have hproc : a.process = none := (hgood.unmanned (.inr hd)).1
  -- nothing is left of a worker when the requests are gone
  have hvacant (phase : Phase) (ready : Bool) (hready : ready = true) :
      Seat.Good garbled s { a with phase, ready, queue := [] } := by
    refine ⟨hgood.attached, fun h => ?_, fun _ _ _ hno => ?_, ?_, fun _ => hready, fun _ => rfl, ?_⟩
    · rw [show a.process = none from hproc] at h
      cases h
    · rw [show a.destroyed = true from hd] at hno
      cases hno
    · have := hgood.port
      rw [hd] at this
      show a.port = if a.destroyed then none else _
      rw [hd, this]
      rfl
    · refine ⟨none, ⟨[], rfl, nofun⟩, fun hno => ?_⟩
      rw [show a.destroyed = true from hd] at hno
      cases hno
  have (f : Host → Disk) (g : Host → Option Metrics) : Within (Same board)
      (modify fun h => { h with disk := f h, metrics := g h } : Action Unit) := ⟨fun _ => rfl⟩
  have (f : Host → Bus) :
      Within (Same board) (modify fun h => { h with bus := f h } : Action Unit) := ⟨fun _ => rfl⟩
  unfold queriesGone
  refine Comes.read (run_session s h) ?_
  refine Comes.abandon hn.toEven fun _ h₁ e₁ => Comes.read (run_session s h₁) ?_
  have ha₁ : h₁.seat? s = some { a with queue := [] } := by
    rw [show h₁.seat? = _ from congrArg Board.seats e₁]
    exact bump_self ha
  dsimp only
  split
  · next hphase =>
    refine Comes.goTo ha₁ ?_ fun h₂ e₂ => ?_
    · refine (State.allows_absent_iff _).2 fun e => hphase ?_
      rw [← (seat?_session ha₁).1]
      cases hp : a.phase <;> rw [hp] at e <;> first | rfl | cases e
    · refine Comes.read (run_session s h₂) (Comes.still fun _ h₃ e₃ => ?_)
      refine Comes.still fun _ h₄ e₄ => Comes.still fun _ h₅ e₅ => Comes.done ?_
      rw [e₅, e₄, e₃, e₂, e₁, Board.change_change]
      exact hn.change_at ha (hvacant _ _ rfl)
  · refine Comes.read (run_session s h₁) (Comes.still fun _ h₂ e₂ => ?_)
    refine Comes.still fun _ h₃ e₃ => Comes.still fun _ h₄ e₄ => Comes.done ?_
    rw [e₄, e₃, e₂, e₁]
    exact hn.change_at ha (hvacant a.phase a.ready (hgood.ready (.inl hd)))

end Destruction

end Host

end GhciHost
