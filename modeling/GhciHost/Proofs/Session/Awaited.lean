import GhciHost.Proofs.Loop.Begun
import GhciHost.Proofs.Session.Parked
import GhciHost.Proofs.Session.Resigned

/-!
# Waiting for a session that is ready

Who waits for a session that nobody has to wait for begins a task that waits, and is woken when this
task has ended.  If there is time to wait, the task comes to its end before the time can be up; if
there is none the task is cancelled, and never begins.

* `waitReady_run`   the wait begins;
* `Helper.tick`   how far the task is;
* `Awaits.tick`, `Awaits.not_idle`   who waits for the task is woken;
* `Woken.told`   what it is told then.
-/

namespace GhciHost.Host

open Loop

variable {h h' : Host} {who : Option Nat} {t s u i w : Nat} {late : Bool} {e : Ending}
  {below : List Frame}

/-- There is no time to wait. -/
def expired (limit : Option Seconds) : Bool := limit.any (·.value.le (.ofInt 0))

/-- The frame of who waits for a task: it races the time, or reaps the task. -/
def awaitFrame (late : Bool) (i : Nat) : Frame := if late then .reap i true else .race i

/-! ## The wait begins -/

theorem run_onLoop {α : Type} (f : Loop Value Failure Frame → α × Loop Value Failure Frame)
    (h : Host) : (onLoop f).run h = .ok (f h.loop).1 { h with loop := (f h.loop).2 } := rfl

/-- A task that was only just made is waited for, or cancelled. -/
theorem waitFor_run (h : Host) (fs : List Frame) (limit : Seconds) :
    ∃ l, (waitFor h.loop.cells.size (some limit)).run { h with loop := (h.loop.newTask fs).2 } =
        .ok (.wait [awaitFrame (expired (some limit)) h.loop.cells.size] (h.loop.cells.size + 1))
          { h with loop := l } ∧
      Begun h.loop fs l ∧ (l.CancelAsked h.loop.tasks.size ↔ expired (some limit) = true) := by
  have hsize : (h.loop.newTask fs).2.cells.size = h.loop.cells.size + 1 := by simp [Loop.newTask]
  have hundone : (h.loop.newTask fs).2.outcome? h.loop.cells.size = none := by
    rw [outcome?_newTask, outcome?_of_size_le (Nat.le_refl _)]
  have hexpired : expired (some limit) = limit.value.le (.ofInt 0) := rfl
  unfold waitFor
  dsimp only
  rw [hexpired]
  cases limit.value.le (.ofInt 0) with
  | true =>
    obtain ⟨hb, hask⟩ := begun_reap h.loop fs rfl
    refine ⟨_, ?_, hb, fun _ => rfl, fun _ => hask⟩
    rw [if_pos rfl, run_bind_ok (run_get _)]
    dsimp only
    rw [hundone]
    show EStateM.Result.ok (Next.wait [.reap h.loop.cells.size true] _) _ = _
    rw [hsize]
    rfl
  | false =>
    have hcalm : ¬ (((h.loop.newTask fs).2.newTimer limit.value).2.hook h.loop.cells.size
        (.release (h.loop.cells.size + 1))).CancelAsked h.loop.tasks.size := fun hask => by
      have hnew : ((h.loop.newTask fs).2.newTimer limit.value).2.CancelAsked h.loop.tasks.size :=
        asked_hook hask
      have hold : h.loop.CancelAsked h.loop.tasks.size := asked_newTask hnew
      exact absurd hold.lt (Nat.lt_irrefl _)
    refine ⟨_, ?_, begun_race h.loop fs limit.value, fun hask => absurd hask hcalm, nofun⟩
    have htimer : ((h.loop.newTask fs).2.newTimer limit.value).1 = h.loop.cells.size + 1 := hsize
    rw [if_neg Bool.false_ne_true, run_bind_ok (run_onLoop _ _)]
    dsimp only
    rw [htimer]
    rfl

/-- A task begins that waits for the session, and is waited for. -/
theorem waitReady_run {limit : Seconds} (hlimit : h.settings.startupTimeout = some limit) :
    ∃ l, (waitReady s).run h = .ok (.wait [awaitFrame (expired (some limit)) h.loop.cells.size,
        .readyCheck s] (h.loop.cells.size + 1)) { h with loop := l } ∧
      Begun h.loop [.readyEvent s] l ∧
      (l.CancelAsked h.loop.tasks.size ↔ expired (some limit) = true) := by
  obtain ⟨l, e, hb⟩ := waitFor_run h [.readyEvent s] limit
  refine ⟨l, ?_, hb⟩
  unfold waitReady
  rw [run_bind_ok (run_get h), hlimit]
  dsimp only
  rw [run_bind_ok (show (newTask [.readyEvent s]).run h = .ok h.loop.cells.size
    { h with loop := (h.loop.newTask [.readyEvent s]).2 } from rfl), run_bind_ok e]
  rfl

/-! ## The task that is waited for -/

/-- How the task may come to its end: it is cancelled, or has waited if there was time. -/
def EndsIn (late : Bool) (e : Ending) : Prop := e = .cancelled ∨ late = false ∧ e = .value .unit

/-- The task that waits for the session for another one.  It begins before that one is woken. -/
inductive Helper (s t u i w : Nat) (late : Bool) (h : Host) : Prop
  | begins : Unended u i h → h.loop.stack? u = some [.readyEvent s] → Parked h u none →
      (late = true → h.loop.CancelAsked u) →
      (late = false → Before (.start u) (.wake t w) h.loop.jobs) → Helper s t u i w late h
  | runs {fs : List Frame} {e : Ending} : Unended u i h → Runs h u fs e →
      fs = [.readyEvent s] ∨ fs = [] → EndsIn late e → Helper s t u i w late h
  | ended {e : Ending} : h.loop.outcome? i = some e → EndsIn late e → Helper s t u i w late h

/-- Nobody has to wait for the session. -/
theorem readyEvent_run (hready : h.readyOf s = true) :
    (readyEvent s).run h = .ok (.done .unit) h := by
  have hsession : (h.sessionOf s).ready = true := by
    unfold readyOf at hready
    unfold sessionOf
    cases hs : h.sessions.get? s with
    | none =>
      rw [hs] at hready
      cases hready
    | some a =>
      rw [hs] at hready
      exact hready
  unfold readyEvent
  rw [run_bind_ok (run_session s h), if_pos hsession]
  rfl

namespace Helper

theorem onward (hp : Helper s t u i w late h) (k : Ordered h) (o : Onward who h h')
    (hs : Loop.Spares who h.loop h'.loop) (hw : who ≠ some u) : Helper s t u i w late h' := by
  cases hp with
  | begins hu hstack hpark hask hbefore =>
    exact .begins (hu.onward k.filed k.owned o hs hw) (o.moves.stack u _ hw hstack)
      (hpark.moves o.moves hw) (fun hl => o.moves.asked u hw (hask hl))
      fun hl => o.moves.before u _ hw (hbefore hl)
  | runs hu hrun hfs he =>
    exact .runs (hu.onward k.filed k.owned o hs hw) (hrun.moves o.moves hw) hfs he
  | ended ho he => exact .ended (o.moves.outcome i _ ho) he

/-- The task takes a step, or somebody else does. -/
theorem tick (hp : Helper s t u i w late h) (k : Ordered h) (hready : h.readyOf s = true) :
    Helper s t u i w late h.tick := by
  by_cases hmover : h.mover = some u
  · cases hp with
    | begins hu hstack hpark hask hbefore =>
      obtain ⟨jobs, o, e, -, -, hrun, htold⟩ := hpark.goes k hmover
      have hmore : ∀ e, h.loop.running ≠ some (u, e) := fun _ => hpark.not_running k.inOrder.sound
      refine .runs (hu.tick k (.inr hmore)) ⟨hpark.stack k hstack, hrun⟩ (.inl rfl) ?_
      rcases htold with he | ⟨hno, ⟨-, he⟩ | ⟨c, hc, -⟩⟩
      · exact .inl he
      · cases late with
        | true => exact absurd (hask rfl) hno
        | false => exact .inr ⟨rfl, he⟩
      · cases hc
    | @runs fs e hu hrun hfs he =>
      rcases hfs with rfl | rfl
      · have hun : Unended u i h.tick := hu.tick k (.inl (by rw [hrun.stack]; nofun))
        rcases he with rfl | ⟨hl, rfl⟩
        · exact .runs hun (hrun.goes k rfl) (.inr rfl) (.inl rfl)
        · exact .runs hun (hrun.goes k (readyEvent_run hready)) (.inr rfl) (.inr ⟨hl, rfl⟩)
      · obtain ⟨o, ho, rfl | ⟨rfl, -⟩⟩ := hu.ended k hrun.running hrun.stack
        · exact .ended ho he
        · exact .ended ho (.inl rfl)
    | ended ho he => exact .ended ((Onward.tick k.inOrder k.filed).moves.outcome i _ ho) he
  · exact hp.onward k (.tick k.inOrder k.filed) (spares_tick k.owned) hmover

/-- When the other task can be woken, the task has ended, unless it is about to be cancelled. -/
theorem outcome (hp : Helper s t u i w late h) {jobs : List Job}
    (hjobs : h.loop.jobs = .wake t w :: jobs) (hidle : h.loop.running = none) :
    (∃ e, h.loop.outcome? i = some e ∧ EndsIn late e) ∨ late = true ∧ Unended u i h := by
  cases hp with
  | begins hu _ _ _ hbefore =>
    cases late with
    | true => exact .inr ⟨rfl, hu⟩
    | false =>
      have hb := hbefore rfl
      rw [hjobs] at hb
      exact absurd rfl (hb.head_ne nofun)
  | runs hu hrun =>
    rw [hrun.running] at hidle
    cases hidle
  | ended ho he => exact .inl ⟨_, ho, he⟩

end Helper

/-! ## Who waits for the task -/

/-- The task waits for another one, and is woken when that one has ended. -/
structure Awaits (s t : Nat) (late : Bool) (h : Host) (u i w : Nat) : Prop where
  stack : h.loop.stack? t = some [awaitFrame late i, .readyCheck s]
  parked : Parked h t (some w)
  linked : h.loop.Linked i w
  helper : Helper s t u i w late h

/-- The task is woken, and is told what has become of the other one, unless it is cancelled. -/
structure Woken (s t : Nat) (late : Bool) (h : Host) (u i : Nat) (e : Ending) : Prop where
  runs : Runs h t [awaitFrame late i, .readyCheck s] e
  ended : (∃ e, h.loop.outcome? i = some e ∧ EndsIn late e) ∨ late = true ∧ Unended u i h

namespace Awaits

theorem onward (ha : Awaits s t late h u i w) (k : Ordered h) (o : Onward none h h')
    (hs : Loop.Spares none h.loop h'.loop) : Awaits s t late h' u i w where
  stack := o.moves.stack t _ nofun ha.stack
  parked := ha.parked.moves o.moves nofun
  linked := o.moves.link i w ha.linked
  helper := ha.helper.onward k o hs nofun

theorem tick (ha : Awaits s t late h u i w) (k : Ordered h) (hready : h.readyOf s = true) :
    Awaits s t late h.tick u i w ∨ ∃ e, Woken s t late h.tick u i e := by
  have o := Onward.tick k.inOrder k.filed
  by_cases hmover : h.mover = some t
  · obtain ⟨jobs, x, e, hjobs, htick, hrun, -⟩ := ha.parked.goes k hmover
    have hidle : h.loop.running = none := by
      cases hr : h.loop.running with
      | none => rfl
      | some y =>
        rw [mover, hr] at hmover
        cases hmover
        exact absurd hr (ha.parked.not_running k.inOrder.sound)
    have houtcome : h.tick.loop.outcome? i = h.loop.outcome? i := by
      rw [htick]
      show (Loop.resume { h.loop with jobs } t x).outcome? i = _
      rw [outcome?, (resume_spec { h.loop with jobs } t x).2.1]
      rfl
    refine .inr ⟨e, ⟨ha.parked.stack k ha.stack, hrun⟩, ?_⟩
    rw [houtcome]
    refine (ha.helper.outcome hjobs hidle).imp_right fun hu => ⟨hu.1, hu.2.tick k (.inr fun y hy => ?_)⟩
    rw [hidle] at hy
    cases hy
  · exact .inl ⟨o.moves.stack t _ hmover ha.stack, ha.parked.moves o.moves hmover,
      o.moves.link i w ha.linked, ha.helper.tick k hready⟩

/-- When nothing is left to do nobody waits. -/
theorem not_idle (ha : Awaits s t late h u i w) : h.loop.isIdle ≠ true := by
  intro hidle
  obtain ⟨c, hc, hno⟩ := ha.parked.undone hidle
  cases hc
  have hquiet := hidle
  rw [Loop.isIdle, Bool.and_eq_true, Option.isNone_iff_eq_none, List.isEmpty_iff] at hquiet
  cases ha.helper with
  | begins _ _ hpark =>
    obtain ⟨c, hc, -⟩ := hpark.undone hidle
    cases hc
  | runs _ hrun =>
    rw [hrun.running] at hquiet
    cases hquiet.1
  | ended ho =>
    rcases ha.linked.2 with hd | ⟨hno', -⟩ | hjob
    · rw [hd] at hno
      cases hno
    · rw [hno'] at ho
      cases ho
    · rw [hquiet.2] at hjob
      cases hjob

end Awaits

/-- The end of a task that was only just made is told by nobody else. -/
theorem Unended.of_grows {P : List Frame → Prop} {l : Loop Value Failure Frame} (k : Ordered h)
    (hg : Grows P h.loop l) (hP : ∀ fs, P fs → ∀ f ∈ fs, f.replay? = none)
    (hresult : l.result? t = some h.loop.cells.size)
    (houtcome : ∀ c, l.outcome? c = h.loop.outcome? c)
    (hholds : l.Holds h.loop.cells.size → h.loop.Holds h.loop.cells.size) :
    Unended t h.loop.cells.size { h with loop := l } where
  result := hresult
  undone := (houtcome _).trans (outcome?_of_size_le (Nat.le_refl _))
  apart p hp := by
    have hold {p : Place} (hp : h.view.Holds p h.loop.cells.size) : False :=
      absurd (k.inOrder.bounded p _ hp) (Nat.lt_irrefl _)
    cases hp with
    | queue hr hc => exact (hold (.queue hr hc)).elim
    | replay ht hf hs hr hc =>
      rcases hg.fresh _ _ ht with ht | hfs
      · exact (hold (.replay ht hf hs hr hc)).elim
      · rw [hP _ hfs _ hf] at hs
        cases hs
    | query hx hc => exact (hold (.query hx hc)).elim
    | ready hc => exact (hold (.ready hc)).elim
    | reader hc => exact (hold (.reader hc)).elim
    | exit hc => exact (hold (.exit hc)).elim
    | task => rfl
    | loop hc => exact (hold (.loop (hholds hc))).elim

/-- The wait begins. -/
theorem Runs.awaits {limit : Seconds} (hr : Runs h t [.waitReady] (.value (.session s)))
    (k : Ordered h) (hlimit : h.settings.startupTimeout = some limit) :
    Awaits s t (expired (some limit)) h.tick h.loop.tasks.size h.loop.cells.size
      (h.loop.cells.size + 1) := by
  have ks := hr.steps k
  obtain ⟨l, e₁, hb, hask⟩ := waitReady_run (s := s) hlimit
  have e₁ : (resume .waitReady (.value (.session s))).run h = _ := e₁
  have hg : Guards { answer := fun c => ∃ s, h.Queued s c } h { h with loop := l } := by
    have := ks.queueGuards fun _ _ => False
    rwa [after_of_ok e₁] at this
  have hrun : Running l t _ .waitReady [] := ks.runningOn hg
  have hstep : h.tick = goOn t [] (.wait [awaitFrame (expired (some limit)) h.loop.cells.size,
      .readyCheck s] (h.loop.cells.size + 1)) { h with loop := l } := by
    rw [hr.tick_eq, step_eq ks.top, nextOf_of_ok e₁, after_of_ok e₁]
    rfl
  generalize hn : (Next.wait [awaitFrame (expired (some limit)) h.loop.cells.size, .readyCheck s]
    (h.loop.cells.size + 1)) = n at hstep e₁
  have hwait := ks.waits (hn ▸ e₁) hb.lt hb.unreleased
  have hself := ks.stack_self
  rw [nextOf_of_ok e₁, ← hn] at hself
  have hne : h.loop.tasks.size ≠ t := (Nat.ne_of_lt (stack?_lt ks.top)).symm
  have hother : some t ≠ some h.loop.tasks.size := fun e => hne (Option.some.inj e).symm
  have hf : l.Filed := hb.grows.filed k.filed
  have hspares : Loop.Spares none h.loop (after (resume .waitReady (.value (.session s))) h).loop :=
    (Looped.resume (fun _ _ => inferInstance) fun _ _ _ _ _ _ => inferInstance).rel_after h
  rw [after_of_ok e₁] at hspares
  have ho : l.Owned := k.owned.spares hspares
  have hjobs : l.jobs <+: (proceed t [] n l).jobs := (lasts_proceed n).jobs
  have hun : Unended h.loop.tasks.size h.loop.cells.size { h with loop := l } :=
    .of_grows k hb.grows (fun fs (e : fs = _) f hf => by subst e; rw [List.mem_singleton.1 hf]; rfl) hb.result
      hb.outcome fun hc => (hb.holds _ hc).resolve_right (Nat.ne_of_lt (Nat.lt_succ_self _))
  rw [← hr.tick_eq] at hwait hself
  rw [hstep] at hwait hself ⊢
  refine ⟨hself, hwait, (moves_proceed hrun n).link _ _ hb.linked, .begins ?_ ?_ ?_ ?_ ?_⟩
  · refine hun.onward hf ho (.goOn hf hrun fun g hg => ?_) (spares_proceed t [] n l) hother
    rw [← hn] at hg
    rcases List.mem_cons.1 hg with rfl | hg
    · unfold awaitFrame
      split <;> rfl
    · rw [List.mem_singleton.1 hg]
      rfl
  · exact (stack?_proceed hrun n _).trans ((if_neg hne).trans hb.stack)
  · refine hjobs.subset ?_
    rw [hb.jobs]
    exact List.mem_append_right _ List.mem_cons_self
  · exact fun hl => asked_proceed n hne (hask.2 hl)
  · refine fun _ => Before.mono ⟨h.loop.jobs, [], hb.jobs, fun hwake => ?_⟩ hjobs
    exact (k.inOrder.sound.running t _ hr.running).2.2 (mem_due.2 (.inr ⟨_, hwake⟩))

/-! ## What is told then -/

namespace Woken

theorem onward (hw : Woken s t late h u i e) (k : Ordered h) (o : Onward none h h')
    (hs : Loop.Spares none h.loop h'.loop) : Woken s t late h' u i e where
  runs := hw.runs.moves o.moves nofun
  ended := hw.ended.imp (fun ⟨y, hy, he⟩ => ⟨y, o.moves.outcome _ _ hy, he⟩)
    fun hu => ⟨hu.1, hu.2.onward k.filed k.owned o hs nofun⟩

/-- What the task is told that waited: that the time is up, or what has become of the other one. -/
inductive Told (late : Bool) (i : Nat) (h : Host) (e : Ending) : Prop
  | timeout : late = true → e = .failed .timeout → Told late i h e
  | ended : late = false → h.loop.outcome? i = some e → e = .cancelled ∨ e = .value .unit →
      Told late i h e

theorem told (hw : Woken s t late h u i e) (he : e ≠ .cancelled) :
    ∃ e', (resume (awaitFrame late i) e).run h = .ok (.pass e') h ∧ Told late i h e' := by
  cases late with
  | true =>
    refine ⟨.failed .timeout, ?_, .timeout rfl rfl⟩
    have houtcome : h.loop.outcome? i = some .cancelled ∨ h.loop.outcome? i = none := by
      rcases hw.ended with ⟨y, hy, rfl | ⟨hno, -⟩⟩ | ⟨-, hu⟩
      · exact .inl hy
      · cases hno
      · exact .inr hu.undone
    show (reaped i true e).run h = _
    unfold reaped
    cases e with
    | cancelled => exact absurd rfl he
    | _ =>
      dsimp only
      rw [run_bind_ok (run_get h)]
      rcases houtcome with ho | ho <;> rw [ho] <;> rfl
  | false =>
    obtain ⟨x, hx, hends⟩ := hw.ended.resolve_right fun hno => by cases hno.1
    refine ⟨x, ?_, .ended rfl hx (hends.imp_right (·.2))⟩
    show (raceOver i e).run h = _
    unfold raceOver
    rw [run_bind_ok (run_get h), hx]
    rfl

end Woken

end GhciHost.Host
