import GhciHost.Proofs.Session.Departed
import GhciHost.Proofs.Session.Queries
import GhciHost.Proofs.Session.Resigned

/-!
# How a session is torn down

Whoever destroys a session stops its reader, kills its worker, cancels its queries and clears up,
and waits twice while it does so.  `Stage` tells how far the task is and what holds then.  The task
goes on from stage to stage, and whatever happens while it waits takes nothing back.

* `kill_spec`, `readerGone_spec`, `cancelQueries_spec`, `queriesEnd_spec`   the steps of the task;
* `Beside.tick`, `Beside.fire`, `Beside.outside`   what happens while it waits;
* `Stage.own`, `Stage.beside`   how far the task is then;
* `stage_of_underway`   how far it is at any time.
-/

namespace GhciHost.Host

open Loop

variable {h h' : Host} {t s : Nat} {p : Option Nat} {e : Ending} {f : Frame} {below fs : List Frame}

/-! ## What holds of the session -/

/-- The session is destroyed. -/
def Doomed (s : Nat) (h : Host) : Prop := ∃ a, h.core? s = some a ∧ a.destroyed = true

/-- The session is destroyed and absent. -/
def Gone (s : Nat) (h : Host) : Prop :=
  ∃ a, h.core? s = some a ∧ a.destroyed = true ∧ a.phase = .absent

/-- The worker that the session had has ended: it was killed, or had ended by itself. -/
def Stopped (js : List Host) (p : Option Nat) (h : Host) : Prop :=
  ∀ q ∈ p, (h.exitOf q).isSome ∧
    (h.killedOf q = true ∨ ∃ j ∈ js, (j.exitOf q).isSome ∧ j.killedOf q = false)

/-- Nothing is left in the work directory of the session, nor is the directory. -/
def Swept (s : Nat) (h : Host) : Prop :=
  h.disk.tree.entries.entries.all (fun x => !(h.sessionOf s).workDir.isPrefixOf x.1) = true

theorem Gone.doomed (k : Gone s h) : Doomed s h :=
  let ⟨a, ha, hd, _⟩ := k
  ⟨a, ha, hd⟩

theorem Doomed.fades (k : Doomed s h) (hf : Fades s h h') : Doomed s h' := by
  obtain ⟨a, ha, hd⟩ := k
  obtain ⟨b, hb, hab⟩ := hf a ha hd
  exact ⟨b, hb, hab.destroyed⟩

theorem Gone.fades (k : Gone s h) (hf : Fades s h h') : Gone s h' := by
  obtain ⟨a, ha, hd, hp⟩ := k
  obtain ⟨b, hb, hab⟩ := hf a ha hd
  exact ⟨b, hb, hab.destroyed, hab.phase.elim (·.trans hp) id⟩

theorem Stopped.stays {js js' : List Host} (k : Stopped js p h) (hjs : js ⊆ js')
    (hexits : ExitsStay h h') (hkilled : KilledStay h h') : Stopped js' p h' := fun q hq => by
  obtain ⟨hend, hk⟩ := k q hq
  obtain ⟨code, hcode⟩ := Option.isSome_iff_exists.1 hend
  exact ⟨Option.isSome_iff_exists.2 ⟨code, hexits q code hcode⟩,
    hk.imp (hkilled q) fun ⟨j, hj, k⟩ => ⟨j, hjs hj, k⟩⟩

/-- The query channel of a destroyed session has no port. -/
theorem Doomed.portOf (k : Doomed s h) (hn : h.board.Neat True) : h.portOf s = none := by
  obtain ⟨a, ha, hd⟩ := k
  have hseat : h.board.seats s = some ⟨a.phase, a.process, a.destroyed, h.readyOf s,
      (h.laneState s).1, (h.laneState s).2, h.portOf s⟩ := by
    show (h.core? s).map _ = _
    rw [ha]
    rfl
  have hport := (hn.good s _ hseat).port
  dsimp only at hport
  rwa [hd, if_pos rfl] at hport

/-! ## The steps of the task -/

theorem exitOf_tick (h : Host) : ExitsStay h h.tick := by
  rcases tick_cases h with ⟨t, e, f, below, -, hs, e'⟩ | ⟨t, e, -, -, e'⟩ | ⟨-, e'⟩ |
    ⟨j, jobs, -, -, e'⟩
  · rw [e', step_eq hs]
    exact (ExitsStay.resume f e).rel_after h
  · exact fun q code hq => by rw [e']; exact hq
  · exact fun q code hq => by rw [e']; exact hq
  · rw [e']
    cases j with
    | notify q =>
      rw [beginJob_notify]
      have : ExitsStay _ (after (queryEnded q) { h with loop := { h.loop with jobs } }) :=
        Within.rel_after _
      exact this
    | _ => exact fun q code hq => hq

theorem Stopped.tick {js : List Host} (k : Stopped js p h) : Stopped (js ++ [h]) p h.tick :=
  k.stays (List.subset_append_left js [h]) (exitOf_tick h) (.tick h)

/-- A process that is killed has ended. -/
theorem kill_spec {q : Nat} (hq : q < h.processes.size) :
    (after (kill q) h).killedOf q = true ∧ ((after (kill q) h).exitOf q).isSome := by
  let k := after (changeProcess q fun a => { a with killed := true }) h
  obtain ⟨a, ha⟩ := Table.exists_get? hq
  have hk : k.killedOf q = true := by
    refine (killedOf_changeProcess h q q _).trans ?_
    rw [if_pos rfl, ha]
    rfl
  have hexit : ((after (exit q (-9)) k).exitOf q).isSome := by
    unfold Host.exit
    rw [after_bind_ok (run_process q k)]
    split
    · have hput : (after (changeProcess q fun a =>
          { a with exitCode := some (-9), exitWaiters := [] }) k).exitOf q = some (-9) := by
        refine (exitOf_changeProcess k q q _).trans ?_
        rw [if_pos rfl, show k.processes.get? q = some { a with killed := true } by
          show (h.processes.modify q _).get? q = _
          rw [Table.get?_modify, if_pos rfl, ha]
          rfl]
        rfl
      rw [after_bind_ok (Succeeds.run_unit ..)]
      have hstay : ExitsStay _ (after (do
          putOutput q (.piece [])
          releaseAll (k.processOf q).exitWaiters) (after (changeProcess q fun a =>
            { a with exitCode := some (-9), exitWaiters := [] }) k)) := Within.rel_after _
      exact Option.isSome_iff_exists.2 ⟨_, hstay q _ hput⟩
    · next hsome =>
      show (k.exitOf q).isSome
      rw [exitOf_eq]
      exact Option.isSome_iff_ne_none.2 (by simpa using hsome)
  exact ⟨(Within.rel_after (R := Minds) (a := exit q (-9)) k).killed q hk, hexit⟩

/-- Whoever destroys a session kills its worker, if that has not ended. -/
theorem readerGone_spec (s : Nat) (p : Option Nat) (he : ∀ x, e ≠ .failed x) (h : Host) :
    nextOf (readerGone s p e) h = .call [.cancelQueries s, .queriesGone s] ∧
      ∀ q ∈ p, q < h.processes.size → ((after (readerGone s p e) h).exitOf q).isSome ∧
        ((h.exitOf q).isSome ∨ (after (readerGone s p e) h).killedOf q = true) := by
  cases p with
  | none =>
    refine ⟨?_, fun q hq => by cases hq⟩
    cases e with
    | failed x => exact absurd rfl (he x)
    | _ => rfl
  | some q =>
    have hgo : readerGone s (some q) e = (process q >>= fun proc =>
        if proc.exitCode.isNone = true then
          kill q >>= fun _ => return .call [.cancelQueries s, .queriesGone s]
        else return .call [.cancelQueries s, .queriesGone s]) := by
      cases e with
      | failed x => exact absurd rfl (he x)
      | _ => rfl
    rw [hgo, nextOf, run_bind_ok (run_process q h), after_bind_ok (run_process q h)]
    by_cases hnone : (h.processOf q).exitCode.isNone = true
    · rw [if_pos hnone, run_bind_ok (Succeeds.run_unit ..), after_bind_ok (Succeeds.run_unit ..)]
      refine ⟨rfl, fun q' hq hlt => ?_⟩
      cases hq
      exact ⟨(kill_spec hlt).2, .inr (kill_spec hlt).1⟩
    · rw [if_neg hnone]
      refine ⟨rfl, fun q' hq _ => ?_⟩
      cases hq
      have hend : (h.exitOf q).isSome := by
        rw [exitOf_eq]
        exact Option.isSome_iff_ne_none.2 (by simpa using hnone)
      exact ⟨hend, .inl hend⟩

/-- All queries that are known to be under way are cancelled, and waited for. -/
theorem cancelQueries_spec (s : Nat) (h : Host) : ∃ tasks n,
    nextOf (cancelQueries s) h = .call [.queriesEnd s tasks n] ∧
      ∀ q ∈ h.activeOf s, ∀ x, h.queries.get? q = some x → x.task ∈ tasks := by
  have hread (qs : List Nat) : ∃ tasks,
      (qs.mapM fun q => return (← query q).task : Action (List Nat)).run h = .ok tasks h ∧
        ∀ q ∈ qs, ∀ x, h.queries.get? q = some x → x.task ∈ tasks := by
    induction qs with
    | nil => exact ⟨[], by rw [List.mapM_nil]; rfl, fun q hq => by cases hq⟩
    | cons q qs ih =>
      obtain ⟨tasks, hrun, htasks⟩ := ih
      rw [List.mapM_cons]
      refine ⟨_, (run_bind_ok rfl).trans ((run_bind_ok hrun).trans rfl), fun q' hq x hx => ?_⟩
      rcases List.mem_cons.1 hq with rfl | hq
      · rw [hx]
        exact List.mem_cons_self
      · exact List.mem_cons_of_mem _ (htasks q' hq x hx)
  obtain ⟨tasks, hrun, htasks⟩ := hread (h.channelOf s).active
  refine ⟨tasks, tasks.length, ?_, fun q hq => htasks q ?_⟩
  · unfold cancelQueries
    rw [nextOf, run_bind_ok (run_channel s h)]
    dsimp only
    rw [run_bind_ok hrun]
    rfl
  · unfold channelOf
    unfold activeOf at hq
    cases hc : h.channels.get? s with
    | none =>
      rw [hc] at hq
      cases hq
    | some ch =>
      rw [hc] at hq
      exact hq

/-- The next of the cancelled queries is waited for. -/
theorem queriesEnd_cons (s task : Nat) (rest : List Nat) (n : Nat) (he : ∀ x, e ≠ .failed x)
    (h : Host) : (queriesEnd s (task :: rest) n e).run h = .ok (.wait [.queriesEnd s rest n] task) h := by
  cases e with
  | failed x => exact absurd rfl (he x)
  | _ => rfl

/-- All cancelled queries have ended. -/
theorem queriesEnd_nil (s n : Nat) (he : ∀ x, e ≠ .failed x) (h : Host) :
    nextOf (queriesEnd s [] n e) h = .done (.code n) ∧
      (after (queriesEnd s [] n e) h).activeOf s = [] := by
  have hgo : (queriesEnd s [] n e).run h = .ok (.done (.code n))
      { h with channels := h.channels.modify s fun ch => { ch with active := [] } } := by
    cases e with
    | failed x => exact absurd rfl (he x)
    | _ => rfl
  refine ⟨nextOf_of_ok hgo, ?_⟩
  rw [after_of_ok hgo, activeOf_changeChannel, if_pos rfl]
  cases h.channels.get? s <;> rfl

/-! ## What happens while the task waits -/

/-- When a task goes on, what it waited for is done. -/
theorem loop_of_mover (r : Regular h) (k : Heeded h) (hmover : h.mover = some t)
    (hrun : ∀ e, h.loop.running ≠ some (t, e)) :
    (∀ fs, h.loop.stack? t = some fs → h.tick.loop.stack? t = some fs) ∧
      ∀ c, h.loop.waiting t = some c → h.tick.loop.isDone c = true := by
  have hnext : ∃ j jobs, h.loop.jobs = j :: jobs ∧ j.task? = some t ∧
      h.tick = Host.beginJob j { h with loop := { h.loop with jobs } } := by
    cases hrunning : h.loop.running with
    | some x =>
      rw [mover, hrunning] at hmover
      cases hmover
      exact absurd hrunning (hrun x.2)
    | none =>
      rw [mover, hrunning] at hmover
      dsimp only at hmover
      cases hjobs : h.loop.jobs with
      | nil =>
        rw [hjobs] at hmover
        cases hmover
      | cons j jobs =>
        rw [hjobs] at hmover
        refine ⟨j, jobs, rfl, hmover, ?_⟩
        unfold Host.tick
        rw [hrunning, hjobs]
  obtain ⟨j, jobs, hjobs, hj, e⟩ := hnext
  have hmem : j ∈ h.loop.jobs := by
    rw [hjobs]
    exact List.mem_cons_self
  rw [e]
  have hspec (o : Ending) := resume_spec { h.loop with jobs } t o
  cases j with
  | start u =>
    cases hj
    refine ⟨fun fs hfs => ((hspec _).1 t).trans hfs, fun c hc => ?_⟩
    rw [(r.inOrder.sound.start t hmem).2] at hc
    cases hc
  | wake u d =>
    cases hj
    refine ⟨fun fs hfs => ((hspec _).1 t).trans hfs, fun c hc => ?_⟩
    rw [r.inOrder.sound.wake t d hmem] at hc
    cases hc
    show Loop.isDone (Loop.resume { h.loop with jobs } t _) d = true
    rw [Loop.isDone, Loop.outcome?, (hspec _).2.1]
    exact k.woken t d hmem
  | release w => cases hj
  | notify q => cases hj

/-- A task that does not run keeps its frames, and waits on or is woken. -/
theorem loop_tick (r : Regular h) (k : Heeded h) (hrun : ∀ e, h.loop.running ≠ some (t, e)) :
    (∀ fs, h.loop.stack? t = some fs → h.tick.loop.stack? t = some fs) ∧
      ∀ c, h.loop.waiting t = some c →
        h.tick.loop.waiting t = some c ∨ h.tick.loop.isDone c = true := by
  have hm := Onward.tick r.inOrder r.filed
  by_cases hmover : h.mover = some t
  · have hgo := loop_of_mover r k hmover hrun
    exact ⟨hgo.1, fun c hc => .inr (hgo.2 c hc)⟩
  · exact ⟨fun fs hfs => hm.moves.stack t fs hmover hfs,
      fun c hc => .inl ((hm.moves.waiting t hmover).trans hc)⟩

/-- What happens while a task does not go on: nothing is taken back of what it did. -/
structure Beside (s t : Nat) (h h' : Host) : Prop where
  fades : Fades s h h'
  exits : ExitsStay h h'
  killed : KilledStay h h'
  attended : AttendedAt s h → AttendedAt s h'
  tends : Tends s h h'
  stack : ∀ fs, h.loop.stack? t = some fs → h'.loop.stack? t = some fs
  waiting : ∀ c, h.loop.waiting t = some c →
    h'.loop.waiting t = some c ∨ h'.loop.isDone c = true

namespace Beside

theorem tick (r : Regular h) (k : Heeded h) (hs : Sole s t h)
    (hrun : ∀ e, h.loop.running ≠ some (t, e)) : Beside s t h h.tick := by
  have hno (u : Nat) (e : Ending) (rest : List Nat) (n : Nat) (below : List Frame)
      (hu : h.loop.running = some (u, e)) :
      h.loop.stack? u ≠ some (.queriesEnd s rest n :: below) := fun htop => by
    have hut : u ≠ t := by
      rintro rfl
      exact hrun e hu
    exact hs.spared u _ _ hut htop List.mem_cons_self (.inr rfl)
  have hloop := loop_tick r k hrun
  exact ⟨.tick r.inOrder, exitOf_tick h, .tick h, fun ha => ha.tick k hno, .tick k s, hloop.1, hloop.2⟩

theorem fire (r : Regular h) {u : Timer} (hu : u ∈ h.loop.timers) : Beside s t h (h.fire u) := by
  have hm : Onward none h (h.fire u) := .fire r.filed hu
  have hi : Inquires h (h.fire u) := .inl (.fire h u)
  exact ⟨.of_core? rfl, fun _ _ hq => hq, hi.killed, hi.attended, .of_inquires hi,
    fun fs => hm.moves.stack t fs nofun, fun c hc => .inl ((hm.moves.waiting t nofun).trans hc)⟩

theorem outside {P : Reaction → Prop} (r : Regular h) (ho : Outside P h h') : Beside s t h h' := by
  have hm : Onward none h h' := .outside r.filed ho
  have hi : Inquires h h' := ho.inquires
  have hexits : ExitsStay h h' := by
    cases ho with
    | worker p responder writeFault =>
      exact (ExitsStay.changeProcess p (f := fun proc => { proc with responder, writeFault })
        fun _ => rfl).rel_after h
    | world | time => exact fun _ _ hq => hq
    | _ => exact Within.rel_after h
  exact ⟨.outside r.inOrder ho, hexits, hi.killed, hi.attended, .of_inquires hi,
    fun fs => hm.moves.stack t fs nofun, fun c hc => .inl ((hm.moves.waiting t nofun).trans hc)⟩

end Beside

/-! ## How far the task is -/

/-- What holds of a session when it is destroyed. -/
structure TornDown (s : Nat) (p : Option Nat) (js : List Host) (h : Host) : Prop where
  gone : Gone s h
  silent : Silent s h
  stopped : Stopped js p h
  swept : Swept s h

/-- How far a task is that destroys a session.  `p` is the worker that the session had, and `below`
    is what the task has to do then. -/
inductive Stage (s t : Nat) (p : Option Nat) (below : List Frame) (js : List Host) (h : Host) : Prop
  | tearing {v : Value} : h.loop.running = some (t, .value v) →
      h.loop.stack? t = some (.teardown s :: .give (.flag true) :: below) →
      (h.sessionOf s).process = p → AttendedAt s h → Stage s t p below js h
  /-- The reader is stopped. -/
  | parting : h.loop.stack? t = some (.readerGone s p :: .give (.flag true) :: below) →
      Doomed s h → AttendedAt s h → Stage s t p below js h
  /-- The worker is killed. -/
  | cancelling {v : Value} : h.loop.running = some (t, .value v) →
      h.loop.stack? t = some
        (.cancelQueries s :: .queriesGone s :: .give (.flag true) :: below) →
      Doomed s h → AttendedAt s h → Stopped js p h → Stage s t p below js h
  /-- Some of the queries have still to end. -/
  | draining {rest : List Nat} {n : Nat} : h.loop.stack? t = some
        (.queriesEnd s rest n :: .queriesGone s :: .give (.flag true) :: below) →
      Doomed s h → Owed s (fun c => c ∈ rest ∨ h.loop.waiting t = some c) h → Stopped js p h →
      Stage s t p below js h
  | clearing {v : Value} : h.loop.running = some (t, .value v) →
      h.loop.stack? t = some (.queriesGone s :: .give (.flag true) :: below) →
      Doomed s h → Silent s h → Stopped js p h → Stage s t p below js h
  | leaving {v : Value} : h.loop.running = some (t, .value v) →
      h.loop.stack? t = some (.give (.flag true) :: below) → TornDown s p js h →
      Stage s t p below js h
  /-- The task is told that the session was destroyed. -/
  | left : h.loop.running = some (t, .value (.flag true)) → h.loop.stack? t = some below →
      TornDown s p js h → Stage s t p below js h
  /-- Something went wrong, and the task is told no value. -/
  | failing {e : Ending} (fs : List Frame) : h.loop.running = some (t, e) → (∀ v, e ≠ .value v) →
      fs <:+ [.cancelQueries s, .queriesGone s, .give (.flag true)] →
      h.loop.stack? t = some (fs ++ below) → Stage s t p below js h

namespace Stage

/-- The task does not go on, and nothing is taken back. -/
theorem beside {js js' : List Host} (k : Stage s t p below js h) (hb : Beside s t h h')
    (hn : h.board.Neat True) (hjs : js ⊆ js')
    (hkeep : (∀ e, h.loop.running ≠ some (t, e)) ∨
      h'.loop.running = h.loop.running ∧ h'.sessions = h.sessions ∧ h'.disk = h.disk) :
    Stage s t p below js' h' := by
  have hstop (k : Stopped js p h) : Stopped js' p h' := k.stays hjs hb.exits hb.killed
  have hgo {e : Ending} (hrun : h.loop.running = some (t, e)) :
      h'.loop.running = some (t, e) ∧ h'.sessionOf s = h.sessionOf s ∧ h'.disk = h.disk := by
    obtain ⟨hrun', hsessions, hdisk⟩ := hkeep.resolve_left fun hno => hno e hrun
    exact ⟨hrun'.trans hrun, by rw [sessionOf, sessionOf, hsessions], hdisk⟩
  have htorn {e : Ending} (hrun : h.loop.running = some (t, e)) (k : TornDown s p js h) :
      TornDown s p js' h' := by
    obtain ⟨-, hs, hdisk⟩ := hgo hrun
    refine ⟨k.gone.fades hb.fades, k.silent.tends hb.tends (k.gone.doomed.portOf hn),
      hstop k.stopped, ?_⟩
    rw [Swept, hs, hdisk]
    exact k.swept
  cases k with
  | tearing hrun hs hp ha =>
    obtain ⟨hrun', hsession, -⟩ := hgo hrun
    exact .tearing hrun' (hb.stack _ hs) (by rw [hsession, hp]) (hb.attended ha)
  | parting hs hd ha => exact .parting (hb.stack _ hs) (hd.fades hb.fades) (hb.attended ha)
  | cancelling hrun hs hd ha hk =>
    exact .cancelling (hgo hrun).1 (hb.stack _ hs) (hd.fades hb.fades) (hb.attended ha) (hstop hk)
  | draining hs hd ho hk =>
    refine .draining (hb.stack _ hs) (hd.fades hb.fades) (fun q x hx hc => ?_) (hstop hk)
    rcases hb.tends.owed (hd.portOf hn) _ ho q x hx hc with hdone | hrest | hwait
    · exact .inl hdone
    · exact .inr (.inl hrest)
    · exact (hb.waiting _ hwait).symm.imp_right .inr
  | clearing hrun hs hd hq hk =>
    exact .clearing (hgo hrun).1 (hb.stack _ hs) (hd.fades hb.fades)
      (hq.tends hb.tends (hd.portOf hn)) (hstop hk)
  | leaving hrun hs k => exact .leaving (hgo hrun).1 (hb.stack _ hs) (htorn hrun k)
  | left hrun hs k => exact .left (hgo hrun).1 (hb.stack _ hs) (htorn hrun k)
  | failing fs hrun he hfs hs => exact .failing fs (hgo hrun).1 he hfs (hb.stack _ hs)

end Stage

/-! ## The task goes on -/

/-- The task that destroys the session is the one that runs. -/
structure Owns (s t : Nat) (p : Option Nat) (e : Ending) (h : Host) : Prop where
  regular : Regular h
  heeded : Heeded h
  sole : Sole s t h
  started : ∀ q ∈ p, q < h.processes.size
  running : h.loop.running = some (t, e)

namespace Owns

variable (k : Owns s t p e h)
include k

theorem tick_eq : h.tick = step t e h := tick_of_running k.running

theorem steps (htop : h.loop.stack? t = some (f :: below)) : Steps h t e f below :=
  ⟨k.regular.inOrder, k.running, htop⟩

theorem waiting : h.loop.waiting t = none := (k.regular.inOrder.sound.running t e k.running).2.1

theorem doomed (hd : Doomed s h) : Doomed s h.tick := hd.fades (.tick k.regular.inOrder)

/-- Only the step that clears the channel forgets queries. -/
theorem attended (htop : h.loop.stack? t = some (f :: below))
    (hf : ∀ rest n, f ≠ .queriesEnd s rest n) (ha : AttendedAt s h) : AttendedAt s h.tick := by
  refine ha.tick k.heeded fun u e' rest n below' hu htop' => ?_
  rw [k.running] at hu
  cases hu
  rw [htop] at htop'
  cases htop'
  exact hf rest n rfl

theorem stack (htop : h.loop.stack? t = some (f :: below)) :
    h.tick.loop.stack? t = some ((nextOf (resume f e) h).push ++ below) := by
  rw [k.tick_eq]
  exact (k.steps htop).stack_self

theorem goes (htop : h.loop.stack? t = some (f :: below)) {push : List Frame} {e' : Ending}
    (hn : nextOf (resume f e) h = .go push e') :
    h.tick.loop.running = some (t, e') ∧ h.tick.loop.stack? t = some (push ++ below) := by
  refine ⟨?_, by rw [k.stack htop, hn]; rfl⟩
  rw [k.tick_eq, step_eq htop, hn]
  rfl

theorem after_eq (htop : h.loop.stack? t = some (f :: below)) :
    ∃ l, h.tick = { after (resume f e) h with loop := l } :=
  ⟨_, k.tick_eq.trans (step_eq htop)⟩

end Owns

namespace Stage

variable {js : List Host}

theorem tear {v : Value} (k : Owns s t p (.value v) h)
    (htop : h.loop.stack? t = some (.teardown s :: .give (.flag true) :: below))
    (hp : (h.sessionOf s).process = p) (ha : AttendedAt s h) :
    Stage s t p below (js ++ [h]) h.tick := by
  have hspec := (teardown_spec (s := s) (h := h)).nextOf
  refine .parting ((k.stack htop).trans ?_) ?_ (k.attended htop (fun _ _ => nofun) ha)
  · rw [show nextOf (resume (.teardown s) (.value v)) h = nextOf (teardown s) h from rfl, hspec.1, hp]
    rfl
  · obtain ⟨a, ha⟩ := Option.isSome_iff_exists.1 k.sole.known
    obtain ⟨l, e⟩ := k.after_eq htop
    refine ⟨{ a with destroyed := true, process := none }, ?_, rfl⟩
    rw [e]
    show (after (teardown s) h).core? s = _
    rw [hspec.2, bump_self ha]

theorem part (k : Owns s t p e h)
    (htop : h.loop.stack? t = some (.readerGone s p :: .give (.flag true) :: below))
    (hd : Doomed s h) (ha : AttendedAt s h) : Stage s t p below (js ++ [h]) h.tick := by
  by_cases he : ∃ x, e = .failed x
  · obtain ⟨x, rfl⟩ := he
    have hpass : nextOf (resume (.readerGone s p) (.failed x)) h = .go [] (.failed x) := rfl
    obtain ⟨hrun, hs⟩ := k.goes htop hpass
    refine .failing [.give (.flag true)] hrun (fun v hv => by cases hv) ?_ hs
    exact ⟨[.cancelQueries s, .queriesGone s], rfl⟩
  obtain ⟨hnext, hstop⟩ := readerGone_spec s p (e := e) (fun x hx => he ⟨x, hx⟩) h
  obtain ⟨hrun, hs⟩ := k.goes htop hnext
  refine .cancelling hrun hs (k.doomed hd) (k.attended htop (fun _ _ => nofun) ha) fun q hq => ?_
  obtain ⟨l, e'⟩ := k.after_eq htop
  obtain ⟨hend, hkill⟩ := hstop q hq (k.started q hq)
  have hkilled (hkill : (after (readerGone s p e) h).killedOf q = true) :
      h.tick.killedOf q = true := by
    rw [e']
    exact hkill
  refine ⟨by rw [e']; exact hend, ?_⟩
  rcases hkill with hend | hkill
  -- the worker has ended by itself, unless it was killed before
  · cases hk : h.killedOf q with
    | true => exact .inl (KilledStay.tick h q hk)
    | false => exact .inr ⟨h, List.mem_append_right _ List.mem_cons_self, hend, hk⟩
  · exact .inl (hkilled hkill)

theorem cancel {v : Value} (k : Owns s t p (.value v) h)
    (htop : h.loop.stack? t = some (.cancelQueries s :: .queriesGone s :: .give (.flag true) :: below))
    (hd : Doomed s h) (ha : AttendedAt s h) (hk : Stopped js p h) :
    Stage s t p below (js ++ [h]) h.tick := by
  obtain ⟨tasks, n, hnext, htasks⟩ := cancelQueries_spec s h
  obtain ⟨-, hs⟩ := k.goes htop hnext
  refine .draining hs (k.doomed hd) (fun q x hx hc => ?_) (hk.tick)
  have howed : Owed s (· ∈ tasks) h := fun q x hx hc =>
    (ha q x hx hc).imp_right fun hq => htasks q hq x hx
  exact ((Tends.tick k.heeded s).owed (hd.portOf k.regular.neat) _ howed q x hx hc).imp_right .inl

theorem drain {rest : List Nat} {n : Nat} (k : Owns s t p e h) (htop : h.loop.stack? t = some
      (.queriesEnd s rest n :: .queriesGone s :: .give (.flag true) :: below)) (hd : Doomed s h)
    (ho : Owed s (fun c => c ∈ rest ∨ h.loop.waiting t = some c) h) (hk : Stopped js p h) :
    Stage s t p below (js ++ [h]) h.tick := by
  by_cases he : ∃ x, e = .failed x
  · obtain ⟨x, rfl⟩ := he
    have hpass : nextOf (resume (.queriesEnd s rest n) (.failed x)) h = .go [] (.failed x) := by
      cases rest <;> rfl
    obtain ⟨hrun, hs⟩ := k.goes htop hpass
    exact .failing [.queriesGone s, .give (.flag true)] hrun (fun v hv => by cases hv)
      ⟨[.cancelQueries s], rfl⟩ hs
  have he (x : Failure) : e ≠ .failed x := fun hx => he ⟨x, hx⟩
  have hrest : Owed s (· ∈ rest) h := fun q x hx hc => (ho q x hx hc).imp_right fun hleft =>
    hleft.resolve_right fun hw => by
      rw [k.waiting] at hw
      cases hw
  have hnext := (Tends.tick k.heeded s).owed (hd.portOf k.regular.neat) _ hrest
  cases rest with
  | nil =>
    obtain ⟨hdone, hactive⟩ := queriesEnd_nil s n he h
    obtain ⟨hrun, hs⟩ := k.goes htop hdone
    obtain ⟨l, e'⟩ := k.after_eq htop
    refine .clearing hrun hs (k.doomed hd) ⟨?_, fun q x hx hc => ?_⟩ (hk.tick)
    · rw [e']
      exact hactive
    · exact (hnext q x hx hc).resolve_right List.not_mem_nil
  | cons task rest =>
    have hwait : (resume (.queriesEnd s (task :: rest) n) e).run h = _ :=
      queriesEnd_cons s task rest n he h
    have hs := k.stack htop
    rw [nextOf_of_ok hwait] at hs
    have hloop : h.tick.loop = proceed t (.queriesGone s :: .give (.flag true) :: below)
        (.wait [.queriesEnd s rest n] task) h.loop := by
      rw [k.tick_eq, step_eq htop, nextOf_of_ok hwait, after_of_ok hwait]
    refine .draining hs (k.doomed hd) (fun q x hx hc => ?_) (hk.tick)
    rcases hnext q x hx hc with hdone | hleft
    · exact .inl hdone
    rcases List.mem_cons.1 hleft with htask | hleft
    -- the query that is next has ended, or the task waits for it from now
    · rw [htask, hloop]
      rcases proceed_cases ⟨k.regular.inOrder.sound, k.running, htop⟩
          (.wait [.queriesEnd s rest n] task) with
        ⟨e', -, -, hgo | ⟨c, hc, hout⟩⟩ | ⟨c, hc, -, -, hwaiting⟩
      · cases hgo
      · cases hc
        exact .inl ((lasts_proceed _).isDone (by rw [Loop.isDone, hout]; rfl))
      · cases hc
        exact .inr (.inr hwaiting)
    · exact .inr (.inl hleft)

theorem clear {v : Value} (k : Owns s t p (.value v) h)
    (htop : h.loop.stack? t = some (.queriesGone s :: .give (.flag true) :: below))
    (hd : Doomed s h) (hsilent : Silent s h) (hk : Stopped js p h) :
    Stage s t p below (js ++ [h]) h.tick := by
  obtain ⟨hdone, hcore, hswept⟩ := (queriesGone_spec (s := s) (h := h)).nextOf
  obtain ⟨hrun, hs⟩ := k.goes htop hdone
  obtain ⟨l, e⟩ := k.after_eq htop
  obtain ⟨a, ha, hdead⟩ := hd
  refine .leaving hrun hs ⟨?_, hsilent.tends (.tick k.heeded s) ?_, hk.tick, ?_⟩
  · have hcore' : h.tick.core? = (after (queriesGone s) h).core? := by
      rw [e]
      rfl
    rcases hcore with hcore | ⟨hcore, hphase⟩
    · exact ⟨{ a with phase := .absent }, by rw [hcore', hcore, bump_self ha], hdead, rfl⟩
    · exact ⟨a, by rw [hcore', hcore, ha], hdead, (phase_eq ha).symm.trans hphase⟩
  · exact Doomed.portOf ⟨a, ha, hdead⟩ k.regular.neat
  · rw [e]
    exact hswept

/-- What the task leaves when nothing else has to be done. -/
theorem leave {v : Value} (k : Owns s t p (.value v) h)
    (htop : h.loop.stack? t = some (.give (.flag true) :: below)) (hd : TornDown s p js h) :
    Stage s t p below (js ++ [h]) h.tick := by
  have hgive : nextOf (resume (.give (.flag true)) (.value v)) h = .go [] (.value (.flag true)) := rfl
  obtain ⟨hrun, hs⟩ := k.goes htop hgive
  obtain ⟨l, e⟩ := k.after_eq htop
  refine .left hrun hs ⟨hd.gone.fades (.tick k.regular.inOrder),
    hd.silent.tends (.tick k.heeded s) (hd.gone.doomed.portOf k.regular.neat), hd.stopped.tick, ?_⟩
  rw [e]
  exact hd.swept

/-- Frames that are told no value pass on what they are told. -/
theorem fail (k : Owns s t p e h) (he : ∀ v, e ≠ .value v) {fs : List Frame}
    (hfs : f :: fs <:+ [.cancelQueries s, .queriesGone s, .give (.flag true)])
    (htop : h.loop.stack? t = some (f :: fs ++ below)) : Stage s t p below (js ++ [h]) h.tick := by
  have hpass : nextOf (resume f e) h = .go [] e := by
    have hf := hfs.subset List.mem_cons_self
    simp only [List.mem_cons, List.not_mem_nil, or_false] at hf
    cases e with
    | value v => exact absurd rfl (he v)
    | _ => rcases hf with rfl | rfl | rfl <;> rfl
  obtain ⟨hrun, hs⟩ := k.goes htop hpass
  exact .failing fs hrun he ((List.suffix_cons f fs).trans hfs) hs

/-- The task goes on. -/
theorem own (k : Stage s t p below js h) (ho : Owns s t p e h)
    (hdeep : ∃ fs, h.loop.stack? t = some fs ∧ below.length < fs.length) :
    Stage s t p below (js ++ [h]) h.tick := by
  have hsame {e' : Ending} (hrun : h.loop.running = some (t, e')) : Owns s t p e' h := by
    cases ho.running.symm.trans hrun
    exact ho
  obtain ⟨fs, hfs, hlt⟩ := hdeep
  have hshallow (hs : h.loop.stack? t = some below) : False := by
    cases hfs.symm.trans hs
    exact Nat.lt_irrefl _ hlt
  cases k with
  | tearing hrun htop hp ha => exact tear (hsame hrun) htop hp ha
  | parting htop hd ha => exact part ho htop hd ha
  | cancelling hrun htop hd ha hk => exact cancel (hsame hrun) htop hd ha hk
  | draining htop hd howed hk => exact drain ho htop hd howed hk
  | clearing hrun htop hd hsilent hk => exact clear (hsame hrun) htop hd hsilent hk
  | leaving hrun htop hd => exact leave (hsame hrun) htop hd
  | left _ htop _ => exact (hshallow htop).elim
  | failing fs hrun he hsuffix htop =>
    cases fs with
    | nil => exact (hshallow htop).elim
    | cons f fs => exact fail (hsame hrun) he hsuffix htop

end Stage

/-! ## A call -/

/-- A task is about to look up the session of a project and to destroy it. -/
structure LooksUp (h : Host) (t : Nat) (root kind : String) (below : List Frame) : Prop where
  running : ∃ v, h.loop.running = some (t, .value v)
  top : h.loop.stack? t = some (.destroy root kind :: below)

/-- A run in which a task never comes back to the frames below. -/
structure Underway (start : Host) (t : Nat) (below : List Frame) (js : List Host) (h : Host) :
    Prop where
  run : Run (· = start) (Outside Reaction.isAsked) js h
  deeper : ∀ j ∈ js, ∃ fs, j.loop.stack? t = some fs ∧ below.length < fs.length

/-- What was called is over, and the frames below are told a value. -/
structure Returns (h : Host) (t : Nat) (below : List Frame) (v : Value) : Prop where
  running : h.loop.running = some (t, .value v)
  stack : h.loop.stack? t = some below

/-- Processes stay. -/
theorem size_processes_le {ks js : List Host} {start : Host}
    (hr : Run Fresh (Outside Reaction.isAsked) ks start)
    (hj : Run (· = start) (Outside Reaction.isAsked) js h) :
    start.processes.size ≤ h.processes.size := by
  have hstart : start.processes.size = _ := congrArg Prod.snd (balanced_of_run hr).tally
  have hend : h.processes.size = _ := congrArg Prod.snd (balanced_of_run (hr.append hj)).tally
  rw [hstart, hend, List.flatMap_append, tallied_append]
  exact Nat.le_add_right _ _

/-- How far a task is that destroys a session, and that nobody else does so. -/
theorem stage_of_underway {ks js : List Host} {start : Host}
    (hr : Run Fresh (Outside Reaction.isAsked) ks start) (hu : Underway start t below js h)
    (hs : Sole s t start) (hp : ∀ q ∈ p, q < start.processes.size)
    (k : Stage s t p below [] start) : Stage s t p below js h ∧ Sole s t h := by
  obtain ⟨hrun, hdeep⟩ := hu
  induction hrun with
  | start e => exact e ▸ ⟨k, hs⟩
  | @tick js h hj ih =>
    obtain ⟨hstage, hsole⟩ := ih fun j hj => hdeep j (List.mem_append_left _ hj)
    have hrun := hr.append hj
    have r := regular_of_run hrun
    have hq := heeded_of_reachable hrun.reachable
    refine ⟨?_, hsole.tick r.inOrder⟩
    by_cases hown : ∃ e, h.loop.running = some (t, e)
    · obtain ⟨e, he⟩ := hown
      exact hstage.own ⟨r, hq, hsole, fun q hq => Nat.lt_of_lt_of_le (hp q hq) (size_processes_le hr hj), he⟩
        (hdeep h (List.mem_append_right _ List.mem_cons_self))
    · have hown (e : Ending) : h.loop.running ≠ some (t, e) := fun he => hown ⟨e, he⟩
      exact hstage.beside (.tick r hq hsole hown) r.neat (List.subset_append_left js [h]) (.inl hown)
  | @fire js h u hj hu ih =>
    obtain ⟨hstage, hsole⟩ := ih hdeep
    have r := regular_of_run (hr.append hj)
    exact ⟨hstage.beside (.fire r hu) r.neat (List.Subset.refl js)
      (.inr ⟨running_finish .., rfl, rfl⟩), hsole.fire u⟩
  | @act js h h' hj hidle ho ih =>
    obtain ⟨hstage, hsole⟩ := ih hdeep
    have r := regular_of_run (hr.append hj)
    exact ⟨hstage.beside (.outside r ho) r.neat (List.Subset.refl js)
      (.inl fun e he => by rw [hidle] at he; cases he), hsole.outside ho⟩

end GhciHost.Host
