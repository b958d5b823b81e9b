import GhciHost.Proofs.Session.Parked
import GhciHost.Proofs.Session.Teardown

/-!
# What is left of a destroyed session

Whoever is told that a session was destroyed finds it `Cleared`, and so it stays.  A worker that is
started for it meanwhile is killed and no session's, and other calls leave it alone.

* `looked_up`   what a call does first;
* `Cleared`, `cleared_of_run`   the session afterwards;
* `late_worker`   workers that come too late;
* `part_resume`   what the steps of other calls leave alone;
* `destroyed_once`   all of this.
-/

namespace GhciHost.Host

open Loop

variable {h h' start : Host} {t s : Nat} {e : Ending} {f : Frame} {below fs : List Frame}
  {ks js : List Host}

/-- The project that a caller means, if its root can be resolved. -/
def projectOf (h : Host) (root kind : String) : Option (String × String) :=
  match h.disk.resolveWritten root with
  | .ok path => some (kind, Pathname.renderAbsolute path)
  | .error _ => none

/-! ## The call begins -/

theorem destroy_run {root kind : String} {q : String × String}
    (hq : h.projectOf root kind = some q) : (destroy root kind).run h =
      match h.registry.find? q with
      | none => .ok (.done (.flag false)) h
      | some s => .ok (.call [.teardown s, .give (.flag true)])
          { h with registry := h.registry.erase q } := by
  unfold projectOf at hq
  cases hpath : h.disk.resolveWritten root with
  | error x =>
    rw [hpath] at hq
    cases hq
  | ok path =>
    rw [hpath] at hq
    cases hq
    have hroot : (resolveRoot root).run h = .ok (Pathname.renderAbsolute path) h := by
      unfold resolveRoot
      rw [run_bind_ok (run_get h), hpath]
      rfl
    unfold destroy
    rw [run_bind_ok hroot, run_bind_ok (run_get h)]
    cases h.registry.find? (kind, Pathname.renderAbsolute path) <;> rfl

theorem destroy_run_error {root kind : String} (hq : h.projectOf root kind = none) :
    ∃ x, (destroy root kind).run h = .error x h := by
  unfold projectOf at hq
  cases hpath : h.disk.resolveWritten root with
  | ok path =>
    rw [hpath] at hq
    cases hq
  | error x =>
    refine ⟨.path x, ?_⟩
    unfold destroy
    refine run_bind_error ?_
    unfold resolveRoot
    rw [run_bind_ok (run_get h), hpath]
    rfl

/-- A task that looks up a session goes on with what it found. -/
theorem LooksUp.tick_of_ok {root kind : String} (k : LooksUp h t root kind below) {n : Next}
    {h₁ : Host} (e : (destroy root kind).run h = .ok n h₁) : h.tick = goOn t below n h₁ := by
  obtain ⟨v, hrun⟩ := k.running
  exact Runs.tick_of_ok ⟨k.top, hrun⟩ e

theorem LooksUp.steps {root kind : String} (k : LooksUp h t root kind below) (r : InOrder h) :
    ∃ v, Steps h t (.value v) (.destroy root kind) below := by
  obtain ⟨v, hrun⟩ := k.running
  exact ⟨v, r, hrun, k.top⟩

/-- What is over at the start stays over: no step is taken above the frames below. -/
theorem Underway.over (hu : Underway start t below js h) (hrun : start.loop.running = some (t, e))
    (hs : start.loop.stack? t = some below) :
    h.loop.running = some (t, e) ∧ LoopOnly start h := by
  obtain ⟨hj, hdeep⟩ := hu
  have hover : (h.loop.running = some (t, e) ∧ h.loop.stack? t = some below) ∧
      LoopOnly start h := by
    induction hj with
    | start e' =>
      rw [e']
      exact ⟨⟨hrun, hs⟩, start.loop, rfl⟩
    | @tick js h hj ih =>
      obtain ⟨⟨-, hs⟩, -⟩ := ih fun j hj => hdeep j (List.mem_append_left _ hj)
      obtain ⟨fs, hfs, hlt⟩ := hdeep h (List.mem_append_right _ List.mem_cons_self)
      cases hfs.symm.trans hs
      exact absurd hlt (Nat.lt_irrefl _)
    | @fire js h u hj hu ih =>
      obtain ⟨⟨hrun, hs⟩, hloop⟩ := ih hdeep
      exact ⟨⟨(running_finish ..).trans hrun, (stack?_finish
        { h.loop with now := u.due, timers := dropTimer u.cell h.loop.timers } u.cell _ t).trans hs⟩,
        hloop.trans ⟨_, rfl⟩⟩
    | act hj hidle ho ih =>
      obtain ⟨⟨hrun, -⟩, -⟩ := ih hdeep
      rw [hidle] at hrun
      cases hrun
  exact ⟨hover.1.1, hover.2⟩

/-- Every query of a session that is not destroyed has ended or is known to be under way. -/
theorem attended_of_reachable {P : Reaction → Prop} (hr : Reachable Fresh (Outside P) h)
    (hs : ∀ a, h.core? s = some a → a.destroyed = false) : AttendedAt s h := by
  have hbefore {h h' : Host} (hf : Fades s h h') (hs : ∀ a, h'.core? s = some a → a.destroyed = false)
      (a : Session.Core) (ha : h.core? s = some a) : a.destroyed = false := by
    cases hd : a.destroyed with
    | false => rfl
    | true =>
      obtain ⟨b, hb, hab⟩ := hf a ha hd
      rw [← hs b hb, hab.destroyed]
  induction hr with
  | start hf =>
    intro q x hx
    rw [hf.queries] at hx
    cases hx
  | @tick h hr ih =>
    have r := inOrder_of_reachable hr
    have halive := hbefore (.tick r) hs
    refine (ih halive).tick (heeded_of_reachable hr) fun t e rest n below hrun htop => ?_
    -- only a destroyed session has its channel cleared
    obtain ⟨a, ha, hd⟩ := (r.stages.fits t _ _ htop List.mem_cons_self).gone s rfl
    rw [halive a ha] at hd
    cases hd
  | @fire h t hr _ ih =>
    exact (Minds.fire h t).attended (ih (hbefore (.of_core? rfl) hs))
  | act hr _ ho ih =>
    exact ho.inquires.attended (ih (hbefore (.outside (inOrder_of_reachable hr) ho) hs))

/-- A task has taken the session of a project out of the registry, and is about to destroy it. -/
structure Popped (h : Host) (q : String × String) (s t : Nat) (below : List Frame) (h' : Host) :
    Prop where
  running : h'.loop.running = some (t, .value .unit)
  top : h'.loop.stack? t = some (.teardown s :: .give (.flag true) :: below)
  sessions : h'.sessions = h.sessions
  registry : h'.registry = h.registry.erase q
  attended : AttendedAt s h'
  sole : Sole s t h'

theorem looked_up (hr : Run Fresh (Outside Reaction.isAsked) ks h) {root kind : String}
    (hl : LooksUp h t root kind below) {q : String × String} (hq : h.projectOf root kind = some q)
    (hs : h.registry.find? q = some s) : Popped h q s t below h.tick := by
  have r := regular_of_run hr
  obtain ⟨v, ks⟩ := hl.steps r.inOrder
  obtain ⟨a, ha, hd⟩ := r.enrolled.alive q s hs
  have hrun := destroy_run hq
  rw [hs] at hrun
  have htick := hl.tick_of_ok hrun
  refine ⟨by rw [htick]; rfl, ?_, by rw [htick]; rfl, by rw [htick]; rfl, ?_, ?_, ?_,
    fun u fs f hu hfs hf hrem => ?_⟩
  · rw [htick]
    exact (stack?_setStack _ t ks.top).trans (if_pos rfl)
  · refine (attended_of_reachable hr.reachable fun b hb => ?_).tick (heeded_of_reachable hr.reachable)
      fun u e rest n below' hu htop => ?_
    · rw [ha] at hb
      cases hb
      exact hd
    · rw [ks.running] at hu
      cases hu
      rw [ks.top] at htop
      cases htop
  · rw [htick]
    exact Option.isSome_iff_exists.2 ⟨a, ha⟩
  · rw [htick]
    exact Keyed.not_mem_values_erase (nodup_of_reachable hr.reachable) hs
  -- nobody else is about to destroy a session in use
  · have hold : h.loop.stack? u = some fs := by
      rw [htick] at hfs
      exact ((stack?_goOn hfs).resolve_left fun k => hu k.1).2
    rcases hrem with htears | hgone
    · exact r.enrolled.spared q s u fs f hs hold hf htears
    · obtain ⟨b, hb, hdead⟩ := (r.inOrder.stages.fits u fs f hold hf).gone s hgone
      rw [show h.core? s = some b from hb] at ha
      cases ha
      rw [hd] at hdead
      cases hdead

/-! ## The session afterwards -/

/-- A session that nobody finds, without a worker and with nobody who waits for anything of it. -/
structure Cleared (s : Nat) (h : Host) : Prop where
  unlisted : ∀ q, h.registry.find? q ≠ some s
  session : ∃ a, h.sessions.get? s = some a ∧ a.destroyed = true ∧ a.phase = .absent ∧
    a.process = none
  lane : (h.laneOf s).process = none ∧ (h.laneOf s).queue = []
  silent : Silent s h

theorem cleared_of_gone (hn : h.board.Neat True) (hs : s ∉ h.registry.values) (hg : Gone s h)
    (hq : Silent s h) : Cleared s h := by
  obtain ⟨c, hc, hd, hp⟩ := hg
  obtain ⟨a, ha, rfl⟩ := Option.map_eq_some_iff.1 hc
  have hd : a.destroyed = true := hd
  have hp : a.phase = .absent := hp
  have hgood := hn.good s _ (seat?_of_get? ha)
  have hnone : a.process = none := by
    cases hproc : a.process with
    | none => rfl
    | some p =>
      have hdead := (hgood.manned (by rw [hproc]; rfl)).2
      dsimp only at hdead
      rw [hd] at hdead
      cases hdead
  refine ⟨fun q hq => hs (Keyed.mem_values_of_find? hq), ⟨a, ha, hd, hp, hnone⟩, ⟨?_, ?_⟩, hq⟩
  · exact hgood.attached.trans hnone
  · exact hgood.empty (.inl (by dsimp only; rw [hp]; rfl))

/-- A destroyed session stays as it is, whatever happens. -/
theorem cleared_of_run (hr : Run Fresh (Outside Reaction.isAsked) ks start)
    (hs : s ∉ start.registry.values) (hg : Gone s start) (hq : Silent s start)
    (hj : Run (· = start) (Outside Reaction.isAsked) js h) : Cleared s h := by
  have hover : s ∉ h.registry.values ∧ Gone s h ∧ Silent s h := by
    induction hj with
    | start e => exact e ▸ ⟨hs, hg, hq⟩
    | @tick js h hj ih =>
      obtain ⟨hs, hg, hq⟩ := ih
      have r := regular_of_run (hr.append hj)
      have hk := heeded_of_reachable (hr.append hj).reachable
      obtain ⟨a, ha, -⟩ := hg.doomed
      exact ⟨(Refiles.tick h).unlisted s (by rw [ha]; rfl) hs, hg.fades (.tick r.inOrder),
        hq.tends (.tick hk s) (hg.doomed.portOf r.neat)⟩
    | @fire js h u hj hu ih =>
      obtain ⟨hs, hg, hq⟩ := ih
      have r := regular_of_run (hr.append hj)
      have hb : Beside s 0 h (h.fire u) := .fire r hu
      exact ⟨hs, hg.fades hb.fades, hq.tends hb.tends (hg.doomed.portOf r.neat)⟩
    | @act js h h' hj hidle ho ih =>
      obtain ⟨hs, hg, hq⟩ := ih
      have r := regular_of_run (hr.append hj)
      have hb : Beside s 0 h h' := .outside r ho
      obtain ⟨a, ha, -⟩ := hg.doomed
      exact ⟨(Refiles.outside ho).unlisted s (by rw [ha]; rfl) hs, hg.fades hb.fades,
        hq.tends hb.tends (hg.doomed.portOf r.neat)⟩
  exact cleared_of_gone (regular_of_run (hr.append hj)).neat hover.1 hover.2.1 hover.2.2

/-! ## Workers that come too late -/

/-- A destroyed session stays so. -/
theorem Doomed.run (hr : Run Fresh (Outside Reaction.isAsked) ks start) (hd : Doomed s start)
    (hj : Run (· = start) (Outside Reaction.isAsked) js h) : Doomed s h := by
  induction hj with
  | start e => exact e ▸ hd
  | tick hj ih => exact ih.fades (.tick (inOrder_of_reachable (hr.append hj).reachable))
  | fire _ _ ih => exact ih.fades (.of_core? rfl)
  | act hj _ ho ih => exact ih.fades (.outside (inOrder_of_reachable (hr.append hj).reachable) ho)

/-- A task that is about to tear down a session does so next. -/
theorem doomed_of_tearing (hr : Run Fresh (Outside Reaction.isAsked) ks start) {v : Value}
    (hrun : start.loop.running = some (t, .value v))
    (htop : start.loop.stack? t = some (.teardown s :: below))
    (hj : Run (· = start) (Outside Reaction.isAsked) js h) :
    h.loop.running = some (t, .value v) ∧ h.loop.stack? t = some (.teardown s :: below) ∨
      Doomed s h := by
  induction hj with
  | start e => exact e ▸ .inl ⟨hrun, htop⟩
  | @tick js h hj ih =>
    have r := inOrder_of_reachable (hr.append hj).reachable
    rcases ih with ⟨hrun, htop⟩ | hd
    · obtain ⟨a, ha⟩ := Option.isSome_iff_exists.1
        ((r.stages.fits t _ _ htop List.mem_cons_self).tears s List.mem_cons_self)
      have ha : h.core? s = some a := ha
      refine .inr ⟨{ a with destroyed := true, process := none }, ?_, rfl⟩
      have hspec := (teardown_spec (s := s) (h := h)).nextOf
      rw [tick_of_running hrun, step_eq htop]
      show (after (teardown s) h).core? s = _
      rw [hspec.2, bump_self ha]
    · exact .inr (hd.fades (.tick r))
  | @fire js h u hj hu ih =>
    refine ih.imp (fun htear => ⟨(running_finish ..).trans htear.1, ?_⟩)
      fun hd => hd.fades (.of_core? rfl)
    exact (stack?_finish
      { h.loop with now := u.due, timers := dropTimer u.cell h.loop.timers } u.cell _ t).trans htear.2
  | act hj hidle ho ih =>
    rcases ih with ⟨hrun, -⟩ | hd
    · rw [hidle] at hrun
      cases hrun
    · exact .inr (hd.fades (.outside (inOrder_of_reachable (hr.append hj).reachable) ho))

/-- The worker of a session was started for it. -/
theorem start_of_process (hr : Run Fresh (Outside Reaction.isAsked) ks h) {a : Session.Core} {p : Nat}
    (ha : h.core? s = some a) (hp : a.process = some p) :
    ∃ m, .start s m p ∈ ks.flatMap dealings := by
  obtain ⟨hworker, halive⟩ := (inOrder_of_reachable hr.reachable).stages.manned s a ha (by rw [hp]; rfl)
  obtain ⟨m, hmode⟩ : ∃ m, a.phase.mode? = some m := by
    cases hphase : a.phase <;> rw [hphase] at hworker <;> first | exact ⟨_, rfl⟩ | cases hworker
  exact ⟨m, ((balanced_of_run hr).accounts.due s a ha halive).process m p hmode hp⟩

/-- A worker that was started for a destroyed session is no session's. -/
theorem unattached (hr : Run Fresh (Outside Reaction.isAsked) ks h) {m : StartMode} {p : Nat}
    (hstart : .start s m p ∈ ks.flatMap dealings) (hd : Doomed s h) (j : Nat) :
    (h.sessionOf j).process ≠ some p ∧ (h.laneOf j).process ≠ some p := by
  have r := regular_of_run hr
  have hn := r.neat
  have hsession {a : Session} (ha : h.sessions.get? j = some a) : a.process ≠ some p := fun hp => by
    have hcore : h.core? j = some a.core := by rw [core?, ha]; rfl
    -- each worker was started for one session, and this one for a destroyed one
    obtain ⟨n, hother⟩ := start_of_process hr hcore hp
    cases start_inj hr hstart hother
    obtain ⟨b, hb, hdead⟩ := hd
    cases hcore.symm.trans hb
    have halive := (r.inOrder.stages.manned s _ hcore (by rw [show a.core.process = some p from hp]; rfl)).2
    rw [hdead] at halive
    cases halive
  constructor
  · intro hp
    unfold sessionOf at hp
    cases ha : h.sessions.get? j with
    | none =>
      rw [ha] at hp
      cases hp
    | some a =>
      rw [ha] at hp
      exact hsession ha hp
  · intro hp
    cases ha : h.sessions.get? j with
    | none =>
      have hlane : h.lanes.get? j = none := by
        refine Table.get?_eq_none (Nat.le_of_not_lt fun hlt => ?_)
        obtain ⟨b, hb⟩ := Table.exists_get? (Nat.lt_of_lt_of_eq hlt hn.lanes)
        rw [ha] at hb
        cases hb
      unfold laneOf at hp
      rw [hlane] at hp
      cases hp
    | some a =>
      exact hsession ha ((hn.good j _ (seat?_of_get? ha)).attached.symm.trans hp)

/-- A worker that is started for a destroyed session is killed at once, and is never a session's. -/
theorem late_worker (hr : Run Fresh (Outside Reaction.isAsked) ks h) (hd : Doomed s h) {u p : Nat}
    {m : StartMode} {replay : List Request} (hrun : h.loop.running = some (u, .value (.process p)))
    (htop : h.loop.stack? u = some (.launched s m replay :: below)) :
    h.tick.killedOf p = true ∧ (h.tick.exitOf p).isSome ∧
      ∀ js i, Run (· = h.tick) (Outside Reaction.isAsked) js i →
        ∀ j, (i.sessionOf j).process ≠ some p ∧ (i.laneOf j).process ≠ some p := by
  have hstart : .start s m p ∈ ks.flatMap dealings := by
    obtain ⟨e, he, hinf⟩ := ((balanced_of_run hr).accounts.heralded u _ _ htop).2 rfl
    cases hrun.symm.trans he
    exact hinf
  have hkill := kill_spec (lt_of_start hr hstart)
  have hafter : after (launched s m replay (.value (.process p))) h = after (kill p) h := by
    obtain ⟨a, ha, hdead⟩ := hd
    show after (session s >>= _) h = _
    rw [after_bind_ok (run_session s h), destroyed_eq ha, hdead, if_pos rfl, after_bind_ok (Succeeds.run_unit ..)]
    rfl
  have htick : ∃ l, h.tick = { after (kill p) h with loop := l } := by
    rw [tick_of_running hrun, step_eq htop, ← hafter]
    exact ⟨_, rfl⟩
  obtain ⟨l, e⟩ := htick
  have r := inOrder_of_reachable hr.reachable
  refine ⟨by rw [e]; exact hkill.1, by rw [e]; exact hkill.2, fun js i hi j => ?_⟩
  refine unattached (hr.tick.append hi) (s := s) (m := m) ?_ (Doomed.run hr.tick (hd.fades (.tick r)) hi) j
  rw [List.append_assoc, List.flatMap_append]
  exact List.mem_append_left _ hstart

/-! ## Other calls -/

/-- The session of a number, with its lane and its channel. -/
def part (s : Nat) (h : Host) : Option Session × Option Lane × Option QueryChannel :=
  (h.sessions.get? s, h.lanes.get? s, h.channels.get? s)

/-- The frames of a call that destroys the session of a number. -/
inductive Tearing (i : Nat) : Frame → Prop
  | teardown : Tearing i (.teardown i)
  | readerGone (p : Option Nat) : Tearing i (.readerGone i p)
  | cancelQueries : Tearing i (.cancelQueries i)
  | queriesEnd (rest : List Nat) (n : Nat) : Tearing i (.queriesEnd i rest n)
  | queriesGone : Tearing i (.queriesGone i)
  | give (v : Value) : Tearing i (.give v)

/-- A step of such a call moves the host along a relation, if changes of the session, its lane, its
    channel, its worker and the loop do, and what is done when all is over. -/
theorem within_tearing {R : Host → Host → Prop} [Std.Refl R] [IsTrans Host R] {i : Nat}
    [∀ g, Within R (changeSession i g)] [∀ g, Within R (changeLane i g)]
    [∀ g, Within R (changeChannel i g)] [∀ g, Within R (changeLoop g)] [∀ e, Within R (publish e)]
    (hworker : ∀ r, f = .readerGone i (some r) → ∀ g, Within R (changeProcess r g))
    (hclear : ∀ (disk : Host → Disk) (metrics : Host → Option Metrics) (bus : Host → Bus),
      Within R (modify fun h =>
        { h with disk := disk h, metrics := metrics h, bus := bus h } : Action Unit))
    (hf : Tearing i f) (e : Ending) : Within R (resume f e) := by
  have (cells : List Nat) : Within R (releaseAll cells) :=
    inferInstanceAs (Within R (changeLoop _))
  have (c : Nat) (e : Ending) : Within R (finish c e) := inferInstanceAs (Within R (changeLoop _))
  cases hf with
  | queriesEnd rest n => exact (inferInstance : Within R (queriesEnd i rest n e))
  | readerGone p =>
    show Within R (readerGone i p e)
    unfold readerGone
    split
    · exact Within.pure _
    · cases p with
      | none => exact Within.pure _
      | some r =>
        have := hworker r rfl
        dsimp only
        infer_instance
  | teardown =>
    cases e with
    | value v => exact (inferInstance : Within R (teardown i))
    | _ => exact Within.pure _
  | cancelQueries =>
    cases e with
    | value v => exact (inferInstance : Within R (cancelQueries i))
    | _ => exact Within.pure _
  | queriesGone =>
    cases e with
    | value v =>
      show Within R (queriesGone i)
      unfold queriesGone
      have (disk : Host → Disk) (metrics : Host → Option Metrics) : Within R (modify fun h =>
          { h with disk := disk h, metrics := metrics h } : Action Unit) :=
        hclear disk metrics Host.bus
      have (bus : Host → Bus) : Within R (modify fun h => { h with bus := bus h } : Action Unit) :=
        hclear Host.disk Host.metrics bus
      refine @Within.bind _ _ _ _ _ _ _ fun before => ?_
      refine @Within.bind _ _ _ _ _ _ _ fun abandoned => ?_
      refine @Within.bind _ _ _ _ _ _ _ fun session => ?_
      dsimp only
      refine @Within.ite _ _ _ _ _ _ ?_ ?_
      · refine @Within.bind _ _ _ _ _ _ _ fun _ => ?_
        infer_instance
      · infer_instance
    | _ => exact Within.pure _
  | give v => cases e <;> exact Within.pure _

/-- Whoever destroys one session leaves all others alone. -/
theorem part_resume {i : Nat} (hi : i ≠ s) (hf : Tearing i f) (e : Ending) :
    Within (Same (part s)) (resume f e) := by
  have hget {α : Type} (table : Table α) (g : α → α) : (table.modify i g).get? s = table.get? s := by
    rw [Table.get?_modify, if_neg hi]
  have (g : Session → Session) : Within (Same (part s)) (changeSession i g) :=
    ⟨fun h => congrArg (·, h.lanes.get? s, h.channels.get? s) (hget h.sessions g)⟩
  have (g : Lane → Lane) : Within (Same (part s)) (changeLane i g) :=
    ⟨fun h => congrArg (h.sessions.get? s, ·, h.channels.get? s) (hget h.lanes g)⟩
  have (g : QueryChannel → QueryChannel) : Within (Same (part s)) (changeChannel i g) :=
    ⟨fun h => congrArg (h.sessions.get? s, h.lanes.get? s, ·) (hget h.channels g)⟩
  have (g : Loop Value Failure Frame → Loop Value Failure Frame) :
      Within (Same (part s)) (changeLoop g) := ⟨fun _ => rfl⟩
  have (e : Event) : Within (Same (part s)) (publish e) := ⟨fun _ => rfl⟩
  exact within_tearing (fun _ _ _ => ⟨fun _ => rfl⟩) (fun _ _ _ => ⟨fun _ => rfl⟩) hf e

theorem tearing_push {i : Nat} (hf : Tearing i f) (e : Ending) (h : Host) {g : Frame}
    (hg : g ∈ (nextOf (resume f e) h).push) : Tearing i g := by
  cases hf with
  | teardown =>
    cases e with
    | value v =>
      have hpush : (nextOf (resume (.teardown i) (.value v)) h).push = _ :=
        (teardown_spec (s := i) (h := h)).nextOf.1
      rw [hpush] at hg
      rw [List.mem_singleton.1 hg]
      exact .readerGone _
    | _ => cases hg
  | readerGone p =>
    by_cases he : ∃ x, e = .failed x
    · obtain ⟨x, rfl⟩ := he
      cases hg
    · rw [show nextOf (resume (.readerGone i p) e) h = _ from
        (readerGone_spec i p (fun x hx => he ⟨x, hx⟩) h).1] at hg
      rcases List.mem_cons.1 hg with rfl | hg
      · exact .cancelQueries
      · rw [List.mem_singleton.1 hg]
        exact .queriesGone
  | cancelQueries =>
    cases e with
    | value v =>
      obtain ⟨tasks, n, hnext, -⟩ := cancelQueries_spec i h
      rw [show nextOf (resume (.cancelQueries i) (.value v)) h = _ from hnext] at hg
      rw [List.mem_singleton.1 hg]
      exact .queriesEnd tasks n
    | _ => cases hg
  | queriesEnd rest n =>
    by_cases he : ∃ x, e = .failed x
    · obtain ⟨x, rfl⟩ := he
      cases rest <;> cases hg
    · have he (x : Failure) : e ≠ .failed x := fun hx => he ⟨x, hx⟩
      cases rest with
      | nil =>
        rw [show nextOf (resume (.queriesEnd i [] n) e) h = _ from (queriesEnd_nil i n he h).1] at hg
        cases hg
      | cons task rest =>
        rw [show nextOf (resume (.queriesEnd i (task :: rest) n) e) h = _ from
          nextOf_of_ok (queriesEnd_cons i task rest n he h)] at hg
        rw [List.mem_singleton.1 hg]
        exact .queriesEnd rest n
  | queriesGone =>
    cases e with
    | value v =>
      rw [show nextOf (resume (.queriesGone i) (.value v)) h = _ from
        (queriesGone_spec (s := i) (h := h)).nextOf.1] at hg
      cases hg
    | _ => cases hg
  | give v => cases e <;> cases hg

/-- A call that destroys another session than one, or none: the call is about to look it up in
    the registry that was there at the start, or has it to tear down. -/
inductive Bypasses (start : Host) (s t : Nat) (root kind : String) (below : List Frame) (h : Host) :
    Prop
  | looking : LooksUp h t root kind below → h.registry = start.registry → h.disk = start.disk →
      Bypasses start s t root kind below h
  | tearing (i : Nat) (fs : List Frame) : i ≠ s → (∀ f ∈ fs, Tearing i f) →
      h.loop.stack? t = some (fs ++ below) → Bypasses start s t root kind below h

namespace Bypasses

variable {root kind : String}

theorem look (hl : LooksUp h t root kind below) {q : String × String}
    (hq : h.projectOf root kind = some q) (hs : s ∉ h.registry.values) :
    Bypasses start s t root kind below h.tick ∧ part s h.tick = part s h := by
  have hrun := destroy_run hq
  cases hfind : h.registry.find? q with
  | none =>
    rw [hfind] at hrun
    have htick := hl.tick_of_ok hrun
    refine ⟨.tearing (s + 1) [] (Nat.succ_ne_self s) (fun f hf => by cases hf) ?_, ?_⟩
    · rw [htick]
      exact (stack?_setStack _ t hl.top).trans (if_pos rfl)
    · rw [htick]
      rfl
  | some i =>
    rw [hfind] at hrun
    have htick := hl.tick_of_ok hrun
    refine ⟨.tearing i [.teardown i, .give (.flag true)] ?_ (fun f hf => ?_) ?_, ?_⟩
    · rintro rfl
      exact hs (Keyed.mem_values_of_find? hfind)
    · rcases List.mem_cons.1 hf with rfl | hf
      · exact .teardown
      · rw [List.mem_singleton.1 hf]
        exact .give _
    · rw [htick]
      exact (stack?_setStack _ t hl.top).trans (if_pos rfl)
    · rw [htick]
      rfl

/-- The call goes on. -/
theorem own {i : Nat} (hi : i ≠ s) (hfs : ∀ f ∈ fs, Tearing i f) (r : InOrder h)
    (hrun : h.loop.running = some (t, e)) (htop : h.loop.stack? t = some (fs ++ below))
    (hdeep : ∃ gs, h.loop.stack? t = some gs ∧ below.length < gs.length) :
    Bypasses start s t root kind below h.tick ∧ part s h.tick = part s h := by
  obtain ⟨gs, hgs, hlt⟩ := hdeep
  cases fs with
  | nil =>
    cases hgs.symm.trans htop
    exact absurd hlt (Nat.lt_irrefl _)
  | cons f fs =>
    have k : Steps h t e f (fs ++ below) := ⟨r, hrun, htop⟩
    have htick : h.tick = step t e h := tick_of_running hrun
    refine ⟨.tearing i ((nextOf (resume f e) h).push ++ fs) hi (fun g hg => ?_) ?_, ?_⟩
    · rcases List.mem_append.1 hg with hg | hg
      · exact tearing_push (hfs f List.mem_cons_self) e h hg
      · exact hfs g (List.mem_cons_of_mem _ hg)
    · rw [htick, k.stack_self, List.append_assoc]
    · rw [htick, step_eq htop]
      exact (part_resume hi (hfs f List.mem_cons_self) e).rel_after h

theorem tick (k : Bypasses start s t root kind below h) (r : Regular h) (hk : Heeded h)
    {q : String × String} (hq : start.projectOf root kind = some q) (hs : s ∉ start.registry.values)
    (hdeep : ∃ gs, h.loop.stack? t = some gs ∧ below.length < gs.length) :
    Bypasses start s t root kind below h.tick ∧
      ((∃ e, h.loop.running = some (t, e)) → part s h.tick = part s h) := by
  cases k with
  | looking hl hreg hdisk =>
    have hq : h.projectOf root kind = some q := by rwa [projectOf, hdisk]
    have hs : s ∉ h.registry.values := by rwa [hreg]
    obtain ⟨hnext, hpart⟩ := look hl hq hs
    exact ⟨hnext, fun _ => hpart⟩
  | tearing i fs hi hfs htop =>
    by_cases hrun : ∃ e, h.loop.running = some (t, e)
    · obtain ⟨e, hrun⟩ := hrun
      obtain ⟨hnext, hpart⟩ := own hi hfs r.inOrder hrun htop hdeep
      exact ⟨hnext, fun _ => hpart⟩
    · refine ⟨.tearing i fs hi hfs ?_, fun h => absurd h hrun⟩
      exact (loop_tick r hk fun e he => hrun ⟨e, he⟩).1 _ htop

theorem fire (k : Bypasses start s t root kind below h) (hf : h.loop.Filed) {u : Timer}
    (hu : u ∈ h.loop.timers) : Bypasses start s t root kind below (h.fire u) := by
  have hm : Onward none h (h.fire u) := .fire hf hu
  cases k with
  | looking hl hreg hdisk =>
    obtain ⟨v, hrun⟩ := hl.running
    exact .looking ⟨⟨v, (running_finish ..).trans hrun⟩, hm.moves.stack t _ nofun hl.top⟩ hreg hdisk
  | tearing i fs hi hfs htop => exact .tearing i fs hi hfs (hm.moves.stack t _ nofun htop)

theorem outside {P : Reaction → Prop} (k : Bypasses start s t root kind below h) (hf : h.loop.Filed)
    (hidle : h.loop.running = none) (ho : Outside P h h') : Bypasses start s t root kind below h' := by
  have hm : Onward none h h' := .outside hf ho
  cases k with
  | looking hl _ _ =>
    obtain ⟨v, hrun⟩ := hl.running
    rw [hidle] at hrun
    cases hrun
  | tearing i fs hi hfs htop => exact .tearing i fs hi hfs (hm.moves.stack t _ nofun htop)

end Bypasses

/-- A call that does not find a session leaves it alone, to its end. -/
theorem spared_of_underway (hr : Run Fresh (Outside Reaction.isAsked) ks start) {root kind : String}
    (hl : LooksUp start t root kind below) {q : String × String}
    (hq : start.projectOf root kind = some q) (hs : s ∉ start.registry.values)
    (hu : Underway start t below js h) :
    ∀ j ∈ js, (∃ e, j.loop.running = some (t, e)) → part s j.tick = part s j := by
  obtain ⟨hj, hdeep⟩ := hu
  have hboth : Bypasses start s t root kind below h ∧
      ∀ j ∈ js, (∃ e, j.loop.running = some (t, e)) → part s j.tick = part s j := by
    induction hj with
    | start e =>
      cases e
      exact ⟨.looking hl rfl rfl, fun j hj => by cases hj⟩
    | @tick js h hj ih =>
      obtain ⟨hcall, hpart⟩ := ih fun j hj => hdeep j (List.mem_append_left _ hj)
      have hrun := hr.append hj
      have hnext := hcall.tick (regular_of_run hrun) (heeded_of_reachable hrun.reachable) hq hs
        (hdeep h (List.mem_append_right _ List.mem_cons_self))
      refine ⟨hnext.1, fun j hj => ?_⟩
      rcases List.mem_append.1 hj with hj | hj
      · exact hpart j hj
      · rw [List.mem_singleton.1 hj]
        exact hnext.2
    | fire hj hu ih =>
      obtain ⟨hcall, hpart⟩ := ih hdeep
      exact ⟨hcall.fire (regular_of_run (hr.append hj)).filed hu, hpart⟩
    | act hj hidle ho ih =>
      obtain ⟨hcall, hpart⟩ := ih hdeep
      exact ⟨hcall.outside (regular_of_run (hr.append hj)).filed hidle ho, hpart⟩
  exact hboth.2

/-! ## Who finds a session -/

/-- Sessions stay. -/
theorem known_tick {i : Nat} (hi : (h.core? i).isSome) : (h.tick.core? i).isSome := by
  rcases tick_cases h with ⟨t, e, f, below, -, hs, e'⟩ | ⟨t, e, -, -, e'⟩ | ⟨-, e'⟩ |
    ⟨j, jobs, -, -, e'⟩
  · rw [e', step_eq hs]
    exact ((Listing.resume f e).rel_after h).known i hi
  · rwa [e']
  · rwa [e']
  · rw [e']
    cases j with
    | notify q =>
      rw [beginJob_notify]
      have hlisting : Listing _ (after (queryEnded q) { h with loop := { h.loop with jobs } }) :=
        Within.rel_after _
      exact hlisting.known i hi
    | _ => exact hi

theorem known_outside {P : Reaction → Prop} {i : Nat} (ho : Outside P h h') (hi : (h.core? i).isSome) :
    (h'.core? i).isSome := by
  cases ho with
  | worker | world | time => exact hi
  | ask | cancel => exact hi
  | submit | query | act => exact (Within.rel_after (R := Listing) h).known i hi

/-- Whoever finds a session of a project that had none finds a new one. -/
theorem new_of_find? {q : String × String} (hq : start.registry.find? q = none)
    (hj : Run (· = start) (Outside Reaction.isAsked) js h) {i : Nat}
    (hi : h.registry.find? q = some i) : start.core? i = none := by
  have hboth : (∀ i, (start.core? i).isSome → (h.core? i).isSome) ∧
      ∀ i, h.registry.find? q = some i → start.core? i = none := by
    have hnew {h : Host} {i : Nat} (hknown : ∀ i, (start.core? i).isSome → (h.core? i).isSome)
        (hi : h.core? i = none) : start.core? i = none := by
      rw [← Option.not_isSome_iff_eq_none]
      intro hsome
      have := hknown i hsome
      rw [hi] at this
      cases this
    clear hi
    induction hj with
    | start e =>
      cases e
      refine ⟨fun _ hi => hi, fun i hi => ?_⟩
      rw [hq] at hi
      cases hi
    | @tick js h hj ih =>
      obtain ⟨hknown, hfind⟩ := ih
      refine ⟨fun i hi => known_tick (hknown i hi), fun i hi => ?_⟩
      exact ((Refiles.tick h).found q i hi).elim (hfind i) (hnew hknown)
    | fire _ _ ih => exact ih
    | act hj _ ho ih =>
      obtain ⟨hknown, hfind⟩ := ih
      refine ⟨fun i hi => known_outside ho (hknown i hi), fun i hi => ?_⟩
      exact ((Refiles.outside ho).found q i hi).elim (hfind i) (hnew hknown)
  exact hboth.2 i hi

/-- Nobody else comes to destroy the session. -/
theorem Sole.run (hr : Run Fresh (Outside Reaction.isAsked) ks start) (k : Sole s t start)
    (hj : Run (· = start) (Outside Reaction.isAsked) js h) : Sole s t h := by
  induction hj with
  | start e => exact e ▸ k
  | tick hj ih => exact ih.tick (inOrder_of_reachable (hr.append hj).reachable)
  | @fire js h u _ _ ih => exact ih.fire u
  | act _ _ ho ih => exact ih.outside ho

/-! ## The whole call -/

/-- What becomes of a session that a call took out of the registry of a host `k` and that was
    destroyed by the call. -/
structure DestroyedOnce (k : Host) (q : String × String) (s : Nat) (js : List Host) (h : Host) :
    Prop where
  /-- It was the session of the project. -/
  popped : k.registry.find? q = some s
  /-- When the call is over, the session's worker has ended and its work directory is gone. -/
  torn : TornDown s (k.sessionOf s).process js h
  /-- From then on it is cleared. -/
  cleared : ∀ is i, Run (· = h) (Outside Reaction.isAsked) is i → Cleared s i
  /-- A worker that was started for it and comes later is killed and never a session's. -/
  late : ∀ is i u m replay below p, Run (· = k.tick) (Outside Reaction.isAsked) is i →
    i.loop.running = some (u, .value (.process p)) →
    i.loop.stack? u = some (.launched s m replay :: below) →
    i.tick.killedOf p = true ∧ (i.tick.exitOf p).isSome ∧
      ∀ is' i', Run (· = i.tick) (Outside Reaction.isAsked) is' i' →
        ∀ j, (i'.sessionOf j).process ≠ some p ∧ (i'.laneOf j).process ≠ some p
  /-- Another call that looks for a session later finds none, or another one, which is new if the
      project is the same; and no step of that call is about this session. -/
  spared : ∀ is i u root kind below q', Run (· = k.tick) (Outside Reaction.isAsked) is i →
    LooksUp i u root kind below → i.projectOf root kind = some q' →
    (i.registry.find? q' = none → Returns i.tick u below (.flag false)) ∧
    (∀ j, i.registry.find? q' = some j → j ≠ s ∧ (q' = q → k.core? j = none)) ∧
    ∀ is' i', Underway i u below is' i' →
      ∀ j ∈ is', (∃ e, j.loop.running = some (u, e)) → part s j.tick = part s j

/-- A call that is told that a session was destroyed has found one. -/
theorem found_of_returns {k : Host} {root kind : String} (hl : LooksUp k t root kind below)
    (hu : Underway k.tick t below js h) (hv : Returns h t below (.flag true)) :
    ∃ q s, k.projectOf root kind = some q ∧ k.registry.find? q = some s := by
  -- otherwise the call is over at once, and is told something else
  have hover {e : Ending} (htick : k.tick = goOn t below (.pass e) k) : e = .value (.flag true) := by
    have hover : Runs k.tick t below e := by
      rw [htick]
      exact .continued hl.top below [] e
    cases (hu.over hover.running hover.stack).1.symm.trans hv.running
    rfl
  cases hq : k.projectOf root kind with
  | none =>
    obtain ⟨x, hrun⟩ := destroy_run_error hq
    obtain ⟨v, hrunning⟩ := hl.running
    cases hover (Runs.tick_of_error ⟨hl.top, hrunning⟩ hrun)
  | some q =>
    cases hs : k.registry.find? q with
    | some s => exact ⟨q, s, rfl, hs⟩
    | none =>
      have hrun := destroy_run hq
      rw [hs] at hrun
      cases hover (hl.tick_of_ok hrun)

/-- A task that destroys a session and is told a value is at the end of its stages. -/
theorem tornDown_of_returns {p : Option Nat} {v : Value} (k : Stage s t p below js h)
    (hv : Returns h t below v) : TornDown s p js h := by
  have hdeep {f : Frame} (fs : List Frame) (htop : h.loop.stack? t = some (f :: fs ++ below)) : False := by
    have hlength := congrArg (Option.map List.length) (htop.symm.trans hv.stack)
    simp only [Option.map_some, Option.some.injEq, List.length_append, List.length_cons] at hlength
    omega
  cases k with
  | tearing _ htop _ _ => exact (hdeep [.give (.flag true)] htop).elim
  | parting htop _ _ => exact (hdeep [.give (.flag true)] htop).elim
  | cancelling _ htop _ _ _ => exact (hdeep [.queriesGone s, .give (.flag true)] htop).elim
  | draining htop _ _ _ => exact (hdeep [.queriesGone s, .give (.flag true)] htop).elim
  | clearing _ htop _ _ _ => exact (hdeep [.give (.flag true)] htop).elim
  | leaving _ htop _ => exact (hdeep [] htop).elim
  | left _ _ hd => exact hd
  | failing _ hrun he _ _ =>
    cases hrun.symm.trans hv.running
    exact absurd rfl (he _)

/-- How far a call is that has found a session to destroy, and that nobody else destroys it. -/
theorem stage_of_looked_up {k : Host} (hr : Run Fresh (Outside Reaction.isAsked) ks k)
    {root kind : String} (hl : LooksUp k t root kind below) {q : String × String}
    (hq : k.projectOf root kind = some q) (hs : k.registry.find? q = some s)
    (hu : Underway k.tick t below js h) :
    Stage s t (k.sessionOf s).process below js h ∧ Sole s t h := by
  have hpop := looked_up hr hl hq hs
  have hstarted (p : Nat) (hp : p ∈ (k.sessionOf s).process) : p < k.tick.processes.size := by
    obtain ⟨a, ha, -⟩ := (regular_of_run hr).enrolled.alive q s hs
    obtain ⟨m, hstart⟩ := start_of_process hr ha (by rw [← process_eq ha]; exact hp)
    refine lt_of_start (m := m) (s := s) hr.tick ?_
    rw [List.flatMap_append]
    exact List.mem_append_left _ hstart
  have hsession : (k.tick.sessionOf s).process = (k.sessionOf s).process := by
    rw [sessionOf, hpop.sessions]
    rfl
  exact stage_of_underway hr.tick hu hpop.sole hstarted
    (.tearing hpop.running hpop.top hsession hpop.attended)

/-- Whoever is told that a session was destroyed has destroyed it, to the end and alone: in every
    run, whatever else happens meanwhile. -/
theorem destroyed_once {k : Host} (hr : Run Fresh (Outside Reaction.isAsked) ks k) {root kind : String}
    (hl : LooksUp k t root kind below) (hu : Underway k.tick t below js h)
    (hv : Returns h t below (.flag true)) :
    ∃ q s, k.projectOf root kind = some q ∧ DestroyedOnce k q s js h := by
  obtain ⟨q, s, hq, hs⟩ := found_of_returns hl hu hv
  have hpop := looked_up hr hl hq hs
  obtain ⟨hend, hsole⟩ := stage_of_looked_up hr hl hq hs hu
  have htorn := tornDown_of_returns hend hv
  refine ⟨q, s, hq, hs, htorn, fun is i hi => ?_, fun is i u m replay below' p hi hrun htop => ?_,
    fun is i u root' kind' below' q' hi hl' hq' => ⟨fun hnone => ?_, fun j hj => ⟨?_, ?_⟩, ?_⟩⟩
  · exact cleared_of_run (hr.tick.append hu.run) hsole.unlisted htorn.gone htorn.silent hi
  · refine late_worker (hr.tick.append hi) ?_ hrun htop
    refine (doomed_of_tearing hr.tick hpop.running hpop.top hi).resolve_left fun htear => ?_
    cases hrun.symm.trans htear.1
  · have htick := hl'.tick_of_ok ((destroy_run hq').trans (by rw [hnone]))
    constructor
    · rw [htick]
      rfl
    · rw [htick]
      exact (stack?_setStack _ u hl'.top).trans (if_pos rfl)
  · rintro rfl
    exact (hpop.sole.run hr.tick hi).unlisted (Keyed.mem_values_of_find? hj)
  · rintro rfl
    have hnone : k.tick.registry.find? q' = none := by rw [hpop.registry, Keyed.find?_erase_self]
    have hnew := new_of_find? hnone hi hj
    rwa [core?, hpop.sessions] at hnew
  · exact fun is' i' hu' => spared_of_underway (hr.tick.append hi) hl' hq'
      (hpop.sole.run hr.tick hi).unlisted hu'

/-! ## A session that serves -/

/-- A session is ready. -/
def served : Host := settleWithin 60 (begun {})

/-- Somebody asks to destroy it. -/
def asksToDestroy : Host := after (newTask [.destroy "/" "ghc"]) served

/-- A query of it is begun. -/
def serving : Host := after (queryOn 0 ":type map" .null none) asksToDestroy

/-- What is told about a flag. -/
def flag? : Ending → Option Bool
  | .value (.flag b) => some b
  | _ => none

theorem eq_of_flag? {b : Bool} (he : flag? e = some b) : e = .value (.flag b) := by
  unfold flag? at he
  split at he
  · cases he
    rfl
  · cases he

theorem projectOf_slash (h : Host) (kind : String) : h.projectOf "/" kind = some (kind, "/") := by
  have hname : Pathname.renderAbsolute [] = "/" := by decide +kernel
  rw [projectOf, resolveWritten_slash]
  dsimp only
  rw [hname]

/-- The next task begins. -/
theorem tick_start {jobs : List Job} (hidle : h.loop.running = none)
    (hjobs : h.loop.jobs = .start t :: jobs) (htop : h.loop.stack? t = some fs)
    (hask : (h.loop.tasks.get? t).map (·.cancelAsked) = some false) :
    h.tick.loop.running = some (t, .value .unit) ∧ h.tick.loop.stack? t = some fs := by
  have htick : h.tick = { h with
      loop := ({ h.loop with jobs } : Loop Value Failure Frame).resume t (.value .unit) } := by
    unfold Host.tick
    rw [hidle, hjobs]
    rfl
  rw [htick]
  refine ⟨?_, ((resume_spec { h.loop with jobs } t _).1 t).trans htop⟩
  obtain ⟨task, htask, hask⟩ := Option.map_eq_some_iff.1 hask
  show (({ h.loop with jobs } : Loop Value Failure Frame).resume t (.value .unit)).running = _
  unfold Loop.resume
  rw [show ({ h.loop with jobs } : Loop Value Failure Frame).tasks.get? t = some task from htask]
  dsimp only
  rw [hask]
  rfl

/-- The call that destroys it looks it up. -/
theorem looksUp_serving : LooksUp serving.tick 3 "/" "ghc" [] := by
  have hbegun : serving.loop.running = none ∧ serving.loop.jobs = [.start 3, .start 4] ∧
      (serving.loop.tasks.get? 3).map (·.cancelAsked) = some false ∧ served.loop.tasks.size = 3 := by
    decide +kernel
  obtain ⟨hidle, hjobs, hask, hsize⟩ := hbegun
  have hnew (h : Host) (hsize : h.loop.tasks.size = 3) :
      (after (newTask [.destroy "/" "ghc"]) h).loop.stack? 3 = some [.destroy "/" "ghc"] :=
    (stack?_newTask h.loop _ 3).trans (if_pos hsize.symm)
  have hasked : asksToDestroy.loop.stack? 3 = some [.destroy "/" "ghc"] := hnew served hsize
  have hkeep (h : Host) (fs : List Frame) (hs : h.loop.stack? 3 = some fs) :
      (after (queryOn 0 ":type map" .null none) h).loop.stack? 3 = some fs :=
    (Within.rel_after (R := Guards {}) h).grows.stack 3 fs hs
  have hserving : serving.loop.stack? 3 = some [.destroy "/" "ghc"] :=
    hkeep asksToDestroy _ hasked
  obtain ⟨hrun, htop⟩ := tick_start hidle hjobs hserving hask
  exact ⟨⟨.unit, hrun⟩, htop⟩

/-- The session is destroyed: its worker is killed, and the query does not go on. -/
theorem destroyed_once_serving : ∃ ks js h, Run Fresh (Outside Reaction.isAsked) ks serving.tick ∧
    LooksUp serving.tick 3 "/" "ghc" [] ∧ Underway serving.tick.tick 3 [] js h ∧
    Returns h 3 [] (.flag true) ∧ serving.tick.activeOf 0 = [0] ∧
    (serving.tick.sessionOf 0).process = some 0 ∧ h.killedOf 0 = true ∧
    DestroyedOnce serving.tick ("ghc", "/") 0 js h := by
  have hready : Run Fresh (Outside Reaction.isAsked) _ served := (run_begun {}).settleWithin 60
  have hserving : Run Fresh (Outside Reaction.isAsked) _ serving :=
    .act (.act hready (by decide +kernel) (.ask (.destroy "/" "ghc"))) (by decide +kernel)
      (.query 0 ":type map" .null none fun r hr => by cases hr)
  have hl := looksUp_serving
  have hserves : serving.tick.registry.find? ("ghc", "/") = some 0 ∧
      serving.tick.activeOf 0 = [0] ∧ (serving.tick.sessionOf 0).process = some 0 := by
    decide +kernel
  obtain ⟨hfind, hactive, hprocess⟩ := hserves
  have htick := hl.tick_of_ok ((destroy_run (projectOf_slash _ "ghc")).trans (by rw [hfind]))
  -- from here on the run evaluates
  have hend : (Run.settling 25 serving.tick.tick).all
        (fun j => (j.loop.stack? 3).any (0 < ·.length)) = true ∧
      ((settleWithin 25 serving.tick.tick).loop.running.map fun x => (x.1, flag? x.2)) =
        some (3, some true) ∧
      ((settleWithin 25 serving.tick.tick).loop.stack? 3).map List.length = some 0 ∧
      (settleWithin 25 serving.tick.tick).killedOf 0 = true := by
    rw [htick]
    decide +kernel
  obtain ⟨hdeep, hflag, hover, hkilled⟩ := hend
  have hu : Underway serving.tick.tick 3 [] (Run.settling 25 serving.tick.tick)
      (settleWithin 25 serving.tick.tick) := by
    have hsettle (h : Host) : Run (· = h) (Outside Reaction.isAsked) (Run.settling 25 h)
        (settleWithin 25 h) := by
      have hstart : Run (· = h) (Outside Reaction.isAsked) [] h := .start rfl
      exact hstart.settleWithin 25
    refine ⟨hsettle _, fun j hj => ?_⟩
    obtain ⟨fs, hfs, hlt⟩ := (Option.any_eq_true _ _).1 (List.all_eq_true.1 hdeep j hj)
    exact ⟨fs, hfs, of_decide_eq_true hlt⟩
  have hv : Returns (settleWithin 25 serving.tick.tick) 3 [] (.flag true) := by
    obtain ⟨x, hx, hflag⟩ := Option.map_eq_some_iff.1 hflag
    obtain ⟨fs, hfs, hlength⟩ := Option.map_eq_some_iff.1 hover
    obtain ⟨ht, he⟩ := Prod.mk.inj hflag
    refine ⟨?_, by rw [hfs, List.length_eq_zero_iff.1 hlength]⟩
    rw [hx, ← ht, ← eq_of_flag? he]
  obtain ⟨q, s, hq, hd⟩ := destroyed_once hserving.tick hl hu hv
  rw [projectOf_slash] at hq
  cases hq
  cases hd.popped.symm.trans hfind
  exact ⟨_, _, _, hserving.tick, hl, hu, hv, hactive, hprocess, hkilled, hd⟩

end GhciHost.Host
