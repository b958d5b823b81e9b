import GhciHost.Proofs.Host.Looped
import GhciHost.Proofs.Session.Teardown

/-!
# Who follows a worker

The output of a worker is taken by one task.  It is begun when the worker was started for a
session, does nothing else, and follows the worker to its end.

* `hired_resume`   no other step begins such a task;
* `Newborn`   processes that nobody has taken on yet;
* `Steps.trails`   what a task follows after a step;
* `Tracked`, `tracked_of_run`   one task at most follows a worker, and none one that has ended;
* `follows_process`   the output that is taken for a session is that of its worker.
-/

namespace GhciHost

/-- The sessions and the workers that frames of a stack follow. -/
def followed (fs : List Frame) : List (Nat × Nat) := fs.filterMap Frame.follows?

theorem mem_followed {fs : List Frame} {x : Nat × Nat} :
    x ∈ followed fs ↔ ∃ f ∈ fs, f.follows? = some x := List.mem_filterMap

theorem followed_append (fs gs : List Frame) : followed (fs ++ gs) = followed fs ++ followed gs :=
  List.filterMap_append

theorem followed_of_gentle {fs : List Frame} (h : gentle fs = true) : followed fs = [] :=
  List.filterMap_eq_nil_iff.2 fun _ hf => follows?_of_gentle h hf

/-- Whatever follows no worker is of this kind. -/
class Aloof (P : List Frame → Prop) : Prop where
  of_followed : ∀ {fs : List Frame}, followed fs = [] → P fs

instance : Aloof fun fs => followed fs = [] := ⟨id⟩

instance (s p : Nat) : Aloof fun fs => followed fs = [] ∨ fs = [.pump s p] := ⟨.inl⟩

namespace Host

open Loop

/-- The stacks of new tasks are of a kind. -/
def Hiring (P : List Frame → Prop) (l l' : Loop Value Failure Frame) : Prop :=
  ∀ u fs, l'.stack? u = some fs → l.stack? u = some fs ∨ P fs

@[inherit_doc Hiring]
abbrev Hires (P : List Frame → Prop) : Host → Host → Prop := Looped (Hiring P)

instance (P : List Frame → Prop) : Handles (Hiring P) where
  refl _ _ _ hu := .inl hu
  trans h k u fs hu := (k u fs hu).elim (h u fs) .inr
  finish l c e _ := (Grows.finish l c e).fresh
  hook l c _ hk := (Grows.hook l c hk).fresh
  newCell l := (Grows.newCell l).fresh
  timers _ _ _ _ hu := .inl hu

namespace Hires

variable {P : List Frame → Prop}

instance cancel (c : Nat) : Within (Hires P) (Host.changeLoop (·.cancel c)) :=
  Looped.changeLoop fun l => (Grows.cancelWithin l _ c).fresh

theorem newTask {fs : List Frame} (hfs : P fs) : Within (Hires P) (Host.newTask fs) :=
  ⟨fun h => (Grows.newTask h.loop hfs).fresh⟩

variable [hP : Aloof P]

instance newReadyEvent (s : Nat) : Within (Hires P) (Host.newTask [.readyEvent s]) :=
  newTask (hP.of_followed rfl)

instance newConnect (host : String) (port : Int) :
    Within (Hires P) (Host.newTask [.connect host port]) := newTask (hP.of_followed rfl)

instance newExchange (q : Nat) : Within (Hires P) (Host.newTask [.exchange q]) :=
  newTask (hP.of_followed rfl)

end Hires

variable {h h' : Host} {t u s p q : Nat} {e : Ending} {f : Frame} {below fs : List Frame}
  {ks : List Host}

/-! ## Processes that nobody has yet -/

/-- The process is still to be started, or it was just started and the frame that waits for it is
    about to be told. -/
def Newborn (q : Nat) (h : Host) : Prop :=
  h.processes.size ≤ q ∨ ∃ t s m replay below, h.loop.running = some (t, .value (.process q)) ∧
    h.loop.stack? t = some (.launched s m replay :: below)

/-- Who has frames after a step of the loop went on itself, or had them before or is new. -/
theorem stack_before (k : InOrder h) (hu : h.tick.loop.stack? u = some fs) :
    (∃ e f below, Steps h u e f below ∧ h.tick = step u e h ∧
      fs = (nextOf (resume f e) h).push ++ below) ∨
    (∀ e f below, ¬ Steps h u e f below) ∧ (h.loop.stack? u = some fs ∨ Tame fs) := by
  have hidle (hrun : h.loop.running = none) (e : Ending) (f : Frame) (below : List Frame) :
      ¬ Steps h u e f below := fun k => by
    cases k.running.symm.trans hrun
  rcases tick_cases h with ⟨t, e, f, below, hrun, hs, e'⟩ | ⟨t, e, hrun, hend, e'⟩ | ⟨hrun, e'⟩ |
    ⟨j, jobs, hrun, -, e'⟩
  · have hstep : Steps h t e f below := ⟨k, hrun, hs⟩
    rw [e'] at hu
    rcases hstep.stack_after hu with ⟨rfl, hfs⟩ | ⟨hut, hold⟩
    · exact .inl ⟨e, f, below, hstep, e', hfs⟩
    · refine .inr ⟨fun e f below k => hut ?_, hold⟩
      cases k.running.symm.trans hrun
      rfl
  · rw [e'] at hu
    refine .inr ⟨fun e f below k => ?_, .inl ((stack?_endTask h.loop t e u).symm.trans hu)⟩
    cases k.running.symm.trans hrun
    cases hend _ k.top
  · rw [e'] at hu
    exact .inr ⟨hidle hrun, .inl hu⟩
  · rw [e'] at hu
    refine .inr ⟨hidle hrun, ?_⟩
    cases j with
    | start t => exact .inl (((resume_spec { h.loop with jobs } t _).1 u).symm.trans hu)
    | wake t c => exact .inl (((resume_spec { h.loop with jobs } t _).1 u).symm.trans hu)
    | release c => exact .inl ((stack?_finish { h.loop with jobs } c _ u).symm.trans hu)
    | notify q =>
      rw [beginJob_notify] at hu
      have hg : Guards {} { h with loop := { h.loop with jobs } }
          (after (queryEnded q) { h with loop := { h.loop with jobs } }) := Within.rel_after _
      exact hg.grows.fresh u fs hu

/-- Whatever is done from outside, the same task runs. -/
theorem running_outside {P : Reaction → Prop} (ho : Outside P h h') :
    h'.loop.running = h.loop.running := by
  have hguards {h' : Host} (hg : Guards {} h h') : h'.loop.running = h.loop.running := hg.grows.running
  cases ho with
  | ask hfs =>
    have := Guards.newTask (W := {}) (tame_of_asked hfs)
    exact hguards (Within.rel_after h)
  | worker | world | time => rfl
  | _ => exact hguards (Within.rel_after h)

namespace Newborn

/-- A process that is new after a step was not there before it. -/
theorem before (hr : Run Fresh (Outside Reaction.isAsked) ks h) (hq : Newborn q h.tick) :
    h.processes.size ≤ q := by
  rcases hq with hle | ⟨t, s, m, replay, below, hrun, htop⟩
  · exact Nat.le_trans (size_processes_le hr (.tick (.start rfl))) hle
  have hb := (balanced_of_run hr).accounts
  have hstart : .start s m q ∈ ks.flatMap dealings ++ dealings h := by
    obtain ⟨e, he, hinf⟩ := ((balanced_of_run hr.tick).accounts.heralded t _ _ htop).2 rfl
    cases hrun.symm.trans he
    rwa [List.flatMap_append, List.flatMap_singleton] at hinf
  rcases List.mem_append.1 hstart with hold | hnew
  · -- the frame would have been told of the process before
    exfalso
    have r := inOrder_of_reachable hr.reachable
    rcases stack_before r htop with ⟨e, f, below', k, -, hpush⟩ | ⟨hstill, hbefore | htame⟩
    · cases hp : (nextOf (resume f e) h).push with
      | nil =>
        rw [hp, List.nil_append] at hpush
        refine hb.unstarted t _ s m replay q k.top ?_ hold
        rw [List.tail_cons, ← hpush]
        exact List.mem_cons_self
      | cons g push =>
        rw [hp] at hpush
        cases hpush
        have hg : .launched s m replay ∈ (nextOf (resume f e) h).push := by
          rw [hp]
          exact List.mem_cons_self
        exact k.unspawned hb hg (hb.proper.mem_spawns hold)
    · obtain ⟨e, he, -⟩ := (hb.heralded t _ _ hbefore).2 rfl
      exact hstill e _ _ ⟨r, he, hbefore⟩
    · cases isPlain_of_tame htame List.mem_cons_self
  · have hmem : q ∈ (dealings h).filterMap Dealing.process? := List.mem_filterMap.2 ⟨_, hnew, rfl⟩
    rcases process?_dealings h with e | e
    · rw [e] at hmem
      cases hmem
    · rw [e] at hmem
      exact Nat.le_of_eq (List.mem_singleton.1 hmem).symm

theorem of_fire {v : Timer} (hq : Newborn q (h.fire v)) : Newborn q h := by
  refine hq.imp id fun ⟨t, s, m, replay, below, hrun, htop⟩ => ⟨t, s, m, replay, below, ?_, ?_⟩
  · exact (running_finish { h.loop with now := v.due, timers := dropTimer v.cell h.loop.timers } v.cell
      _).symm.trans hrun
  · exact (stack?_finish
      { h.loop with now := v.due, timers := dropTimer v.cell h.loop.timers } v.cell _ t).symm.trans htop

theorem of_outside (hr : Run Fresh (Outside Reaction.isAsked) ks h) (hidle : h.loop.running = none)
    (ho : Outside Reaction.isAsked h h') (hq : Newborn q h') : Newborn q h := by
  rcases hq with hle | ⟨t, s, m, replay, below, hrun, -⟩
  · exact .inl (Nat.le_trans (size_processes_le hr (.act (.start rfl) hidle ho)) hle)
  · rw [running_outside ho, hidle] at hrun
    cases hrun

end Newborn

/-! ## Who follows a worker -/

/-- A task has a frame that follows a worker of a session. -/
def Follows (h : Host) (u : Nat) (x : Nat × Nat) : Prop :=
  ∃ fs, h.loop.stack? u = some fs ∧ x ∈ followed fs

/-- A frame that was told of output goes on to read, or to wait for the end of the worker. -/
theorem push_pumped (s p : Nat) (e : Ending) (h : Host) : (nextOf (pumped s p e) h).push = [] ∨
    followed (nextOf (pumped s p e) h).push = [(s, p)] := by
  unfold pumped
  split
  · next b bytes =>
    refine .inr ?_
    rw [nextOf, run_bind_ok (Succeeds.run_unit ..)]
    obtain ⟨n, hfeed⟩ := Succeeds.run_ok (a := feed s (b :: bytes)) (after (recordOutput s (b :: bytes)) h)
    rw [run_bind_ok hfeed]
    rfl
  · exact .inr rfl
  · split
    · exact .inr rfl
    · exact .inl rfl
  · exact .inl rfl

theorem follows?_of_early {g : Frame} (hg : g.early? = some s) : g.follows? = none := by
  cases g <;> first | rfl | cases hg

/-- No step that `Course` lists goes on to follow a worker. -/
theorem Course.unfollowed {n : Next} {cores : Cores} (hc : Course h e f n cores) :
    ∀ g ∈ n.push, g.follows? = none := by
  intro g hg
  cases hc with
  | pass | make | giveUp | adopt | die | clear => cases hg
  | route _ _ hgs => exact (hgs g hg).2.2.1
  | ask _ _ _ hgs hearly =>
    rcases List.mem_append.1 hg with hg | hg
    · exact follows?_of_gentle hgs hg
    · rw [List.mem_singleton.1 hg]
      exact follows?_of_early hearly
  | install _ _ _ hgs =>
    rcases List.mem_append.1 hg with hg | hg
    · exact follows?_of_gentle hgs hg
    · rw [List.mem_singleton.1 hg]
      rfl
  | proceed | escalate =>
    rw [List.mem_singleton.1 hg]
    rfl
  | launch hn =>
    rw [hn] at hg
    rcases List.mem_cons.1 hg with rfl | hg
    · rfl
    · rw [List.mem_singleton.1 hg]
      rfl
  | tear hn =>
    rw [hn] at hg
    rw [List.mem_singleton.1 hg]
    rfl

/-- What a frame leaves to its task follows what the frame did, if that has not ended. -/
theorem Steps.followed_push (k : Steps h t e f below) : followed (nextOf (resume f e) h).push = [] ∨
    f.expects? = none ∧ followed (nextOf (resume f e) h).push = f.follows?.toList := by
  cases hord : f.isOrdinary with
  | true =>
    cases hfollow : f.follows? with
    | none =>
      have hgentle : Orderly Next.Gentle (resume f e) := Orderly.resume hord hfollow e
      refine .inl (followed_of_gentle ?_)
      rw [nextOf]
      cases hrun : (resume f e).run h with
      | ok n h' => exact hgentle.ok hrun
      | error x h' => rfl
    | some x =>
      cases f with
      | pump s p =>
        cases hfollow
        cases e with
        | value v => exact .inr ⟨rfl, rfl⟩
        | _ => exact .inl rfl
      | pumped s p =>
        cases hfollow
        refine (push_pumped s p e h).imp (fun hpush => ?_) fun hpush => ⟨rfl, hpush⟩
        show followed (nextOf (pumped s p e) h).push = []
        rw [hpush]
        rfl
      | pumpEnd => cases hord
      | _ => cases hfollow
  | false =>
    cases hturn : f.isTurn with
    | true =>
      refine .inl (List.filterMap_eq_nil_iff.2 fun g hg => ?_)
      have hqueued := queued_nextOf hturn e h g hg
      cases g <;> first | rfl | cases hqueued
    | false => exact .inl (List.filterMap_eq_nil_iff.2 (k.course hord hturn).unfollowed)

/-! ## A worker is taken on -/

/-- The host with a new worker for a session, of which nobody was told but its lane. -/
def manned (s p : Nat) (m : StartMode) (h : Host) : Host :=
  after (changeLane s (·.push (.startup s p m))) (after (changeLane s (·.attach p))
    (after (changeSession s fun a => { a with process := some p }) h))

/-- Begin to read what a worker prints, and tell of the worker. -/
def engage (s p : Nat) (m : StartMode) : Action Next := do
  let reader ← newTask [.pump s p]
  changeSession s fun session => { session with reader := some reader }
  publish ⟨.workerSpawned, (← session s).key,
    [("pid", .int (pid p)), ("mode", .str m.name)]⟩
  return .done .unit

theorem run_adopt (s p : Nat) (m : StartMode) (replay : List Request) (h : Host) :
    (adopt s p m replay).run h =
      (trySetUp s replay >>= fun _ => engage s p m).run (manned s p m h) := by
  unfold adopt
  rw [run_bind_ok (Succeeds.run_unit ..), run_bind_ok (Succeeds.run_unit ..),
    run_bind_ok (Succeeds.run_unit ..)]
  rfl

/-- The only task that is begun for a worker is its reader. -/
theorem hired_launched (s : Nat) (m : StartMode) (replay : List Request) (p : Nat) (h : Host) :
    ∃ n, ∀ u fs, (after (launched s m replay (.value (.process p))) h).loop.stack? u = some fs →
      h.loop.stack? u = some fs ∨ u = n ∧ fs = [.pump s p] := by
  -- nothing else that is done begins a task
  have hold {h h' : Host} (hh : Hires (fun _ => False) h h') {u : Nat} {fs : List Frame}
      (hu : h'.loop.stack? u = some fs) : h.loop.stack? u = some fs :=
    (hh u fs hu).resolve_right id
  unfold launched
  dsimp only
  rw [after_bind_ok (run_session s h)]
  split
  · have hkill : Hires (fun _ => False) h (after (kill p) h) := Within.rel_after h
    refine ⟨0, fun u fs hu => .inl (hold hkill ?_)⟩
    rwa [after_bind_ok (Succeeds.run_unit ..)] at hu
  · have hmanned : Hires (fun _ => False) h (manned s p m h) := .of_loop rfl
    have hsetUp : Hires (fun _ => False) (manned s p m h) (after (trySetUp s replay) (manned s p m h)) :=
      Within.rel_after _
    have hready := trans_of _ hmanned hsetUp
    rw [after, run_adopt, ← after, after_bind]
    cases hrun : (trySetUp s replay).run (manned s p m h) with
    | error x h₁ =>
      rw [after_of_error hrun] at hready
      exact ⟨0, fun u fs hu => .inl (hold hready hu)⟩
    | ok v h₁ =>
      rw [after_of_ok hrun] at hready
      refine ⟨h₁.loop.tasks.size, fun u fs hu => ?_⟩
      have hu : (h₁.loop.newTask [.pump s p]).2.stack? u = some fs := hu
      rw [Loop.stack?_newTask] at hu
      split at hu
      · next he =>
        cases hu
        exact .inr ⟨he, rfl⟩
      · exact .inl (hold hready hu)

/-- The steps of all other frames begin no task that follows a worker. -/
theorem hired_resume (h : Host)
    (hno : ∀ s m replay p, f = .launched s m replay → e ≠ .value (.process p)) :
    Hires (fun fs => followed fs = []) h (after (resume f e) h) :=
  (Looped.resume (fun _ _ => inferInstance)
    fun s m replay p hf he => absurd he (hno s m replay p hf)).rel_after h

/-- What a task follows after the step of a frame. -/
inductive Trails (h : Host) (t : Nat) (e : Ending) (f : Frame) (below : List Frame) (n u : Nat)
    (fs : List Frame) : Prop
  /-- What the frame follows has ended, or the frame follows nothing. -/
  | ended : u = t → followed fs = followed below → Trails h t e f below n u fs
  /-- The task goes on to follow what the frame did. -/
  | onward : u = t → f.expects? = none → followed fs = followed (f :: below) →
      Trails h t e f below n u fs
  | other : u ≠ t → h.loop.stack? u = some fs → Trails h t e f below n u fs
  | fresh : followed fs = [] → Trails h t e f below n u fs
  /-- The worker was started just now. -/
  | reader {s p : Nat} {m : StartMode} {replay : List Request} : u = n → fs = [.pump s p] →
      f = .launched s m replay → e = .value (.process p) → Trails h t e f below n u fs

theorem Steps.trails (k : Steps h t e f below) : ∃ n, ∀ u fs,
    (Host.step t e h).loop.stack? u = some fs → Trails h t e f below n u fs := by
  -- the task itself
  have hself (n : Nat) : Trails h t e f below n t ((nextOf (resume f e) h).push ++ below) := by
    rcases k.followed_push with hnone | ⟨hexp, hfollow⟩
    · refine .ended rfl ?_
      rw [followed_append, hnone]
      rfl
    · refine .onward rfl hexp ?_
      rw [followed_append, hfollow]
      cases hf : f.follows? with
      | none => exact (List.filterMap_cons_none hf).symm
      | some x => exact (List.filterMap_cons_some hf).symm
  by_cases hnew : ∃ s m replay p, f = .launched s m replay ∧ e = .value (.process p)
  · obtain ⟨s, m, replay, p, rfl, rfl⟩ := hnew
    obtain ⟨n, hn⟩ := hired_launched s m replay p h
    refine ⟨n, fun u fs hu => ?_⟩
    rw [step_eq k.top] at hu
    rcases stack?_goOn hu with ⟨rfl, rfl⟩ | ⟨hut, hu⟩
    · exact hself n
    · rcases hn u fs hu with hold | ⟨hun, hfs⟩
      · exact .other hut hold
      · exact .reader hun hfs rfl rfl
  · refine ⟨0, fun u fs hu => ?_⟩
    rw [step_eq k.top] at hu
    rcases stack?_goOn hu with ⟨rfl, rfl⟩ | ⟨hut, hu⟩
    · exact hself 0
    · have hhires : Hires (fun fs => followed fs = []) h (after (resume f e) h) :=
        hired_resume h fun s m replay p hf he => hnew ⟨s, m, replay, p, hf, he⟩
      exact (hhires u fs hu).elim (.other hut) .fresh

/-- One task at most follows a worker, which was started for its session, and none follows one of
    whose end the log tells, or one that is still to be taken on. -/
structure Tracked (log : List Dealing) (h : Host) : Prop where
  started : ∀ u s p, Follows h u (s, p) → ∃ m, .start s m p ∈ log
  single : ∀ u fs, h.loop.stack? u = some fs → (followed fs).length ≤ 1
  one : ∀ u v x, Follows h u x → Follows h v x → u = v
  ended : ∀ s p missing, .exit s p missing ∈ log → ∀ u, ¬ Follows h u (s, p)
  newborn : ∀ q, Newborn q h → ∀ s, (∀ u, ¬ Follows h u (s, q)) ∧ ∀ missing, .exit s q missing ∉ log

namespace Tracked

variable {log : List Dealing}

/-- No task follows another worker. -/
theorem still (k : Tracked log h)
    (hstack : ∀ u fs, h'.loop.stack? u = some fs → h.loop.stack? u = some fs ∨ followed fs = [])
    (hnew : ∀ q, Newborn q h' → Newborn q h) : Tracked log h' := by
  have hold {u : Nat} {x : Nat × Nat} (hu : Follows h' u x) : Follows h u x := by
    obtain ⟨fs, hu, hx⟩ := hu
    rcases hstack u fs hu with hu | hnone
    · exact ⟨fs, hu, hx⟩
    · rw [hnone] at hx
      cases hx
  refine ⟨fun u s p hu => k.started u s p (hold hu), fun u fs hu => ?_,
    fun u v x hu hv => k.one u v x (hold hu) (hold hv),
    fun s p missing hd u hu => k.ended s p missing hd u (hold hu),
    fun q hq s => ⟨fun u hu => (k.newborn q (hnew q hq) s).1 u (hold hu), (k.newborn q (hnew q hq) s).2⟩⟩
  rcases hstack u fs hu with hu | hnone
  · exact k.single u fs hu
  · rw [hnone]
    exact Nat.zero_le 1

/-- What follows a worker has no other frame that does. -/
theorem alone (k : Tracked log h) (ht : h.loop.stack? t = some (f :: below)) {x : Nat × Nat}
    (hf : f.follows? = some x) : followed below = [] := by
  have hlength := k.single t _ ht
  rw [show followed (f :: below) = x :: followed below from List.filterMap_cons_some hf,
    List.length_cons] at hlength
  exact List.length_eq_zero_iff.1 (by omega)

/-- The frame of a step is the one that follows a worker, if the step tells of the worker's end. -/
theorem of_exit {ds : List Dealing} {missing : Bool} {push : List Frame}
    (hds : ds = told h f below e ++ calls h push) (hd : .exit s p missing ∈ ds) :
    f.follows? = some (s, p) ∧ f.expects?.isSome := by
  rw [hds, List.mem_append] at hd
  rcases hd with hd | hd
  · obtain ⟨rfl, -⟩ := exit_of_told hd
    exact ⟨rfl, rfl⟩
  · rcases mem_calls hd with ⟨i, -, e'⟩ | ⟨i, m, replay, -, e'⟩
    · cases e'
    · cases e'

theorem follows_self (ht : h.loop.stack? t = some (f :: below)) {x : Nat × Nat}
    (hf : f.follows? = some x) : Follows h t x :=
  ⟨_, ht, mem_followed.2 ⟨f, List.mem_cons_self, hf⟩⟩

theorem follows_below (ht : h.loop.stack? t = some (f :: below)) {x : Nat × Nat}
    (hx : x ∈ followed below) : Follows h t x := by
  obtain ⟨g, hg, hgx⟩ := mem_followed.1 hx
  exact ⟨_, ht, mem_followed.2 ⟨g, List.mem_cons_of_mem f hg, hgx⟩⟩

/-- Whoever follows a worker did so before the step, or the worker was started just now. -/
theorem follows_before {n : Nat} (ks : Steps h t e f below)
    (hn : ∀ u fs, (Host.step t e h).loop.stack? u = some fs → Trails h t e f below n u fs)
    {x : Nat × Nat} (hu : Follows (Host.step t e h) u x) :
    Follows h u x ∨ u = n ∧ ∃ s m replay p, x = (s, p) ∧ f = .launched s m replay ∧
      e = .value (.process p) := by
  obtain ⟨fs, hu, hx⟩ := hu
  cases hn u fs hu with
  | ended hut hfs =>
    subst hut
    exact .inl (follows_below ks.top (hfs ▸ hx))
  | onward hut _ hfs =>
    subst hut
    exact .inl ⟨_, ks.top, hfs ▸ hx⟩
  | other _ hold => exact .inl ⟨fs, hold, hx⟩
  | fresh hnone =>
    rw [hnone] at hx
    cases hx
  | reader hun hfs hf he =>
    rw [hfs] at hx
    exact .inr ⟨hun, _, _, _, _, List.mem_singleton.1 hx, hf, he⟩

theorem step (k : Tracked log h) (ks : Steps h t e f below)
    (hstarted : ∀ s m replay p, f = .launched s m replay → e = .value (.process p) →
      .start s m p ∈ log ∧ p < h.processes.size)
    (hnew : ∀ q, Newborn q (Host.step t e h) → h.processes.size ≤ q) :
    Tracked (log ++ (told h f below e ++ calls h (nextOf (resume f e) h).push)) (Host.step t e h) := by
  obtain ⟨n, hn⟩ := ks.trails
  have hreader {s p : Nat} {m : StartMode} {replay : List Request} (hf : f = .launched s m replay)
      (he : e = .value (.process p)) : Newborn p h := by
    subst hf he
    exact .inr ⟨t, s, m, replay, below, ks.running, ks.top⟩
  refine ⟨fun u s p hu => ?_, fun u fs hu => ?_, fun u v x hu hv => ?_,
    fun s p missing hd u hu => ?_, fun q hq s => ?_⟩
  · rcases follows_before ks hn hu with hu | ⟨-, s', m, replay, p', hx, hf, he⟩
    · obtain ⟨m, hm⟩ := k.started u s p hu
      exact ⟨m, List.mem_append_left _ hm⟩
    · cases hx
      exact ⟨m, List.mem_append_left _ (hstarted s m replay p hf he).1⟩
  · have htop := k.single t _ ks.top
    cases hn u fs hu with
    | ended _ hfs =>
      have hsub : (followed below).length ≤ (followed (f :: below)).length :=
        ((List.sublist_cons_self f below).filterMap Frame.follows?).length_le
      rw [hfs]
      omega
    | onward _ _ hfs => rwa [hfs]
    | other _ hold => exact k.single u fs hold
    | fresh hnone =>
      rw [hnone]
      exact Nat.zero_le 1
    | reader _ hfs =>
      rw [hfs]
      exact Nat.le_refl 1
  · rcases follows_before ks hn hu with hu | ⟨hun, s, m, replay, p, rfl, hf, he⟩
    · rcases follows_before ks hn hv with hv | ⟨-, s, m, replay, p, rfl, hf, he⟩
      · exact k.one u v x hu hv
      · exact absurd hu ((k.newborn p (hreader hf he) s).1 u)
    · rcases follows_before ks hn hv with hv | ⟨hvn, -⟩
      · exact absurd hv ((k.newborn p (hreader hf he) s).1 v)
      · rw [hun, hvn]
  · rcases List.mem_append.1 hd with hd | hd
    · rcases follows_before ks hn hu with hu | ⟨-, s', m, replay, p', hx, hf, he⟩
      · exact k.ended s p missing hd u hu
      · cases hx
        exact (k.newborn p (hreader hf he) s).2 missing hd
    -- the task that followed the worker does so no longer, and it was the only one
    · obtain ⟨hf, hexp⟩ := of_exit rfl hd
      obtain ⟨fs, hu, hx⟩ := hu
      cases hn u fs hu with
      | ended _ hfs =>
        rw [hfs, k.alone ks.top hf] at hx
        cases hx
      | onward _ hnone =>
        rw [hnone] at hexp
        cases hexp
      | other hut hold => exact hut (k.one u t _ ⟨fs, hold, hx⟩ (follows_self ks.top hf))
      | fresh hnone =>
        rw [hnone] at hx
        cases hx
      | reader _ _ hlaunched =>
        rw [hlaunched] at hf
        cases hf
  · have hborn := k.newborn q (.inl (hnew q hq)) s
    refine ⟨fun u hu => ?_, fun missing hd => ?_⟩
    · rcases follows_before ks hn hu with hu | ⟨-, s', m, replay, p, hx, hf, he⟩
      · exact hborn.1 u hu
      · cases hx
        exact absurd (hnew q hq) (Nat.not_le_of_lt (hstarted s m replay q hf he).2)
    · rcases List.mem_append.1 hd with hd | hd
      · exact hborn.2 missing hd
      · exact hborn.1 t (follows_self ks.top (of_exit rfl hd).1)

end Tracked

theorem Fresh.tracked (hf : Fresh h) : Tracked [] h := by
  have hstack (t : Nat) (fs : List Frame) : h.loop.stack? t ≠ some fs := by
    rw [hf.loop]
    exact nofun
  have hnone (u : Nat) (x : Nat × Nat) : ¬ Follows h u x := fun ⟨fs, hu, _⟩ => hstack u fs hu
  refine ⟨fun u s p hu => absurd hu (hnone u _), fun u fs hu => absurd hu (hstack u fs),
    fun u v x hu => absurd hu (hnone u x), fun s p missing hd => (by cases hd),
    fun q hq s => ⟨fun u => hnone u _, fun missing hd => (by cases hd)⟩⟩

theorem followed_of_asked {P : Reaction → Prop} (hfs : Asked P fs) : followed fs = [] := by
  cases hfs <;> rfl

/-- Whatever is done from outside begins no task that follows a worker. -/
theorem Hires.outside {P : Reaction → Prop} (ho : Outside P h h') :
    Hires (fun fs => followed fs = []) h h' := by
  cases ho with
  | ask hfs => exact (Hires.newTask (followed_of_asked hfs)).rel_after h
  | worker | world => exact Looped.of_loop rfl
  | time => exact fun _ _ hu => .inl hu
  | _ => exact Within.rel_after h

/-- At any time one task at most follows a worker. -/
theorem tracked_of_run (hr : Run Fresh (Outside Reaction.isAsked) ks h) :
    Tracked (ks.flatMap dealings) h := by
  induction hr with
  | start hf => exact hf.tracked
  | @tick ks h hr ih =>
    rw [List.flatMap_append, List.flatMap_singleton]
    have hb := (balanced_of_run hr).accounts
    have hstill (hd : dealings h = [])
        (hstack : ∀ u fs, h.tick.loop.stack? u = some fs → h.loop.stack? u = some fs ∨ followed fs = []) :
        Tracked (ks.flatMap dealings ++ dealings h) h.tick := by
      rw [hd, List.append_nil]
      exact ih.still hstack fun q hq => .inl (hq.before hr)
    rcases tick_cases h with ⟨t, e, f, below, hrun, hs, e'⟩ | ⟨t, e, hrun, hend, e'⟩ | ⟨hrun, e'⟩ |
      ⟨j, jobs, hrun, hjobs, e'⟩
    · have hd : dealings h = told h f below e ++ calls h (nextOf (resume f e) h).push := by
        unfold dealings
        rw [hrun]
        dsimp only
        rw [hs]
      rw [hd, e']
      refine ih.step ⟨inOrder_of_reachable hr.reachable, hrun, hs⟩ (fun s m replay p hf he => ?_)
        fun q hq => Newborn.before hr (e' ▸ hq)
      subst hf he
      obtain ⟨e, he, hinf⟩ := (hb.heralded t _ _ hs).2 rfl
      cases hrun.symm.trans he
      exact ⟨hinf, lt_of_start hr hinf⟩
    · refine hstill ?_ fun u fs hu => .inl ?_
      · unfold dealings
        rw [hrun]
        dsimp only
        split
        · next f below hs => cases hend _ hs
        · rfl
      · rw [e'] at hu
        exact (stack?_endTask h.loop t e u).symm.trans hu
    all_goals
      have hd : dealings h = [] := by
        unfold dealings
        rw [hrun]
    · exact hstill hd fun u fs hu => .inl (e' ▸ hu)
    · refine hstill hd fun u fs hu => ?_
      rw [e'] at hu
      cases j with
      | start t => exact .inl (((resume_spec { h.loop with jobs } t _).1 u).symm.trans hu)
      | wake t c => exact .inl (((resume_spec { h.loop with jobs } t _).1 u).symm.trans hu)
      | release c => exact .inl ((stack?_finish { h.loop with jobs } c _ u).symm.trans hu)
      | notify q =>
        rw [beginJob_notify] at hu
        exact (Within.rel_after (R := Hires fun fs => followed fs = []) (a := queryEnded q)
          { h with loop := { h.loop with jobs } }) u fs hu
  | @fire ks h v hr hv ih =>
    refine ih.still (fun u fs hu => .inl ?_) fun q => .of_fire
    exact (stack?_finish
      { h.loop with now := v.due, timers := dropTimer v.cell h.loop.timers } v.cell _ u).symm.trans hu
  | act hr hidle ho ih =>
    exact ih.still (Hires.outside ho) fun q hq => hq.of_outside hr hidle ho

/-- Whoever follows a worker of a session that has one follows that one. -/
theorem follows_process (hr : Run Fresh (Outside Reaction.isAsked) ks h) {a : Session.Core}
    (ha : h.core? s = some a) (hq : a.process = some q) (hp : Follows h u (s, p)) : p = q := by
  have ht := tracked_of_run hr
  have hb := (balanced_of_run hr).accounts
  obtain ⟨n, hn⟩ := ht.started u s p hp
  obtain ⟨hworker, halive⟩ :=
    (inOrder_of_reachable hr.reachable).stages.manned s a ha (by rw [hq]; rfl)
  have hdue := hb.due s a ha halive
  obtain ⟨m, hmode, hspawned⟩ : ∃ m, a.phase.mode? = some m ∧ a.phase.spawned? = some (m.before ++ [m]) := by
    cases hphase : a.phase <;> rw [hphase] at hworker <;> first | exact ⟨_, rfl, rfl⟩ | cases hworker
  have hstart := hdue.process m q hmode hq
  have hmem : n ∈ m.before ++ [m] := hdue.spawns _ hspawned ▸ hb.proper.mem_spawns hn
  by_cases hnm : n = m
  · subst hnm
    exact hb.proper.start_unique hn hstart
  -- the other worker of the session has ended, and nobody follows it any longer
  · cases m with
    | fast => exact absurd (List.mem_singleton.1 hmem) hnm
    | withBuild =>
      cases n with
      | withBuild => exact absurd rfl hnm
      | fast => exact absurd hp (ht.ended s p true (hb.proper.exit_between hn hstart) u)

end Host

end GhciHost
