import GhciHost.Proofs.Session.Queries
import GhciHost.Proofs.Session.Relay
import GhciHost.Proofs.Session.Spared

/-!
# A task that does not run

A task that does not run was only just made, or waits for a cell.  It is `Parked` if it goes on then:
a task that was made will begin, and one that waits is woken when its cell is done.  As long as a
task has not ended, and nobody holds the cell that tells of its end, this cell is not done.

* `Parked.moves`, `Parked.tick`   a task stays parked until it goes on;
* `Parked.undone`   what it waits for when nothing is left to do;
* `Runs.on`, `Runs.tick_of_ok`, `Runs.advance`   how a task that runs goes on;
* `Unended.onward`, `Unended.tick`   the end of a task is not told before;
* `Unended.ended`   how it is told.
-/

namespace GhciHost.Host

open Loop

variable {h h' : Host} {who : Option Nat} {t c : Nat} {e : Ending} {f : Frame} {below : List Frame}
  {w : Option Nat}

/-- What is known of the tasks of every host. -/
structure Ordered (h : Host) : Prop where
  inOrder : InOrder h
  filed : h.loop.Filed
  owned : h.loop.Owned
  heeded : Heeded h

theorem ordered_of_reachable {P : Reaction → Prop} (hr : Reachable Fresh (Outside P) h) :
    Ordered h :=
  ⟨inOrder_of_reachable hr, filed_of_reachable hr, owned_of_reachable hr, heeded_of_reachable hr⟩

/-- The task goes on when its cell is done; if it was only just made, it will begin. -/
def Parked (h : Host) (t : Nat) : Option Nat → Prop
  | none => .start t ∈ h.loop.jobs
  | some c => h.loop.waiting t = some c ∧ h.loop.Pending c (.wake t)

namespace Parked

theorem not_running (hp : Parked h t w) (hl : h.loop.Sound) : h.loop.running ≠ some (t, e) := by
  intro hrun
  obtain ⟨-, hwait, hdue⟩ := hl.running t e hrun
  cases w with
  | none => exact hdue (mem_due.2 (.inl hp))
  | some c =>
    rw [hp.1] at hwait
    cases hwait

theorem moves (hp : Parked h t w) (hm : h.loop.Moves who h'.loop) (hw : who ≠ some t) :
    Parked h' t w := by
  cases w with
  | none => exact hm.start t hw hp
  | some c => exact ⟨(hm.waiting t hw).trans hp.1, hm.wake t c hw hp.2⟩

/-- The job that lets a parked task go on. -/
def job (t : Nat) : Option Nat → Job
  | none => .start t
  | some c => .wake t c

/-- What a parked task is told when it goes on: what it waited for, unless it is cancelled. -/
def Tells (h : Host) (t : Nat) (w : Option Nat) (e : Ending) : Prop :=
  e = .cancelled ∨ ¬ h.loop.CancelAsked t ∧
    ((w = none ∧ e = .value .unit) ∨ ∃ c, w = some c ∧ h.loop.outcome? c = some e)

/-- A task that goes on is told what it is to be told, unless it was cancelled. -/
theorem running_resume_iff {l : Loop Value Failure Frame} {t : Nat} (ht : t < l.tasks.size)
    (o : Ending) : (l.CancelAsked t ∧ (l.resume t o).running = some (t, .cancelled)) ∨
      ¬ l.CancelAsked t ∧ (l.resume t o).running = some (t, o) := by
  obtain ⟨task, htask⟩ := Table.exists_get? ht
  unfold Loop.resume CancelAsked
  rw [htask]
  dsimp only
  cases hask : task.cancelAsked with
  | true => exact .inl ⟨⟨task, rfl, hask⟩, rfl⟩
  | false =>
    refine .inr ⟨fun ⟨task', e, hask'⟩ => ?_, rfl⟩
    cases e
    rw [hask] at hask'
    cases hask'

/-- The next job lets a parked task go on, and nothing else. -/
theorem goes (hp : Parked h t w) (k : Ordered h) (hmover : h.mover = some t) :
    ∃ jobs o e, h.loop.jobs = job t w :: jobs ∧ h.tick = { h with
        loop := ({ h.loop with jobs } : Loop Value Failure Frame).resume t o } ∧
      h.tick.loop.running = some (t, e) ∧ Tells h t w e := by
  have hidle : h.loop.running = none := by
    cases hrun : h.loop.running with
    | none => rfl
    | some x =>
      rw [mover, hrun] at hmover
      cases hmover
      exact absurd hrun (hp.not_running k.inOrder.sound)
  rw [mover, hidle] at hmover
  dsimp only at hmover
  obtain ⟨j, jobs, hjobs⟩ : ∃ j jobs, h.loop.jobs = j :: jobs := by
    cases hjobs : h.loop.jobs with
    | nil =>
      rw [hjobs] at hmover
      cases hmover
    | cons j jobs => exact ⟨j, jobs, rfl⟩
  have hmem : j ∈ h.loop.jobs := hjobs ▸ List.mem_cons_self
  have hj : j.task? = some t := by rwa [hjobs] at hmover
  have htick : h.tick = beginJob j { h with loop := { h.loop with jobs } } := by
    unfold Host.tick
    rw [hidle, hjobs]
  have hgo {o : Ending} (htick : h.tick = { h with
        loop := ({ h.loop with jobs } : Loop Value Failure Frame).resume t o })
      (hjob : j = job t w) (hlt : t < h.loop.tasks.size)
      (ho : (w = none ∧ o = .value .unit) ∨ ∃ c, w = some c ∧ h.loop.outcome? c = some o) :
      ∃ jobs o e, h.loop.jobs = job t w :: jobs ∧ h.tick = { h with
        loop := ({ h.loop with jobs } : Loop Value Failure Frame).resume t o } ∧
      h.tick.loop.running = some (t, e) ∧ Tells h t w e := by
    rcases running_resume_iff (l := { h.loop with jobs }) hlt o with ⟨-, hrun⟩ | ⟨hask, hrun⟩
    · exact ⟨jobs, o, _, hjob ▸ hjobs, htick, by rw [htick]; exact hrun, .inl rfl⟩
    · exact ⟨jobs, o, _, hjob ▸ hjobs, htick, by rw [htick]; exact hrun, .inr ⟨hask, ho⟩⟩
  cases j with
  | start u =>
    cases hj
    obtain ⟨hlt, hwait⟩ := k.inOrder.sound.start t hmem
    cases w with
    | none => exact hgo htick rfl hlt (.inl ⟨rfl, rfl⟩)
    | some c =>
      rw [hp.1] at hwait
      cases hwait
  | wake u d =>
    cases hj
    have hwait := k.inOrder.sound.wake t d hmem
    cases w with
    | none =>
      rw [(k.inOrder.sound.start t hp).2] at hwait
      cases hwait
    | some c =>
      rw [hp.1] at hwait
      cases hwait
      refine hgo htick rfl (lt_of_waiting hp.1) (.inr ⟨d, rfl, ?_⟩)
      obtain ⟨x, hx⟩ := Option.isSome_iff_exists.1 (k.heeded.woken t d hmem)
      show h.loop.outcome? d = some ((h.loop.outcome? d).getD .cancelled)
      rw [hx]
      rfl
  | _ => cases hj

/-- A parked task stays so, or goes on. -/
theorem tick (hp : Parked h t w) (k : Ordered h) :
    h.mover ≠ some t ∧ Parked h.tick t w ∨
      ∃ e, h.tick.loop.running = some (t, e) ∧ Tells h t w e := by
  by_cases hmover : h.mover = some t
  · obtain ⟨-, -, e, -, -, hrun, ht⟩ := hp.goes k hmover
    exact .inr ⟨e, hrun, ht⟩
  · exact .inl ⟨hmover, hp.moves (Onward.tick k.inOrder k.filed).moves hmover⟩

theorem stack (hp : Parked h t w) (k : Ordered h) {fs : List Frame}
    (hs : h.loop.stack? t = some fs) : h.tick.loop.stack? t = some fs := by
  by_cases hmover : h.mover = some t
  · obtain ⟨jobs, o, -, -, e, -⟩ := hp.goes k hmover
    rw [e]
    exact ((resume_spec { h.loop with jobs } t o).1 t).trans hs
  · exact (Onward.tick k.inOrder k.filed).moves.stack t fs hmover hs

/-- When nothing is left to do, a parked task waits for a cell that is not done. -/
theorem undone (hp : Parked h t w) (hidle : h.loop.isIdle = true) :
    ∃ c, w = some c ∧ h.loop.isDone c = false := by
  rw [Loop.isIdle, Bool.and_eq_true, List.isEmpty_iff] at hidle
  cases w with
  | none =>
    have hmem : Job.start t ∈ h.loop.jobs := hp
    rw [hidle.2] at hmem
    cases hmem
  | some c =>
    refine ⟨c, rfl, ?_⟩
    rcases hp.2 with ⟨hno, -⟩ | hjob
    · rw [Loop.isDone, hno]
      rfl
    · rw [hidle.2] at hjob
      cases hjob

end Parked

/-! ## A task that runs -/

/-- The hosts differ in nothing but the loop. -/
def LoopOnly (h h' : Host) : Prop := ∃ l, h' = { h with loop := l }

theorem LoopOnly.trans {h'' : Host} (a : LoopOnly h h') (b : LoopOnly h' h'') : LoopOnly h h'' := by
  obtain ⟨l, rfl⟩ := a
  obtain ⟨l', rfl⟩ := b
  exact ⟨l', rfl⟩

theorem LoopOnly.registry (hl : LoopOnly h h') : h'.registry = h.registry := by
  obtain ⟨l, rfl⟩ := hl
  rfl

theorem loopOnly_goOn (t : Nat) (below : List Frame) (n : Next) (h : Host) :
    LoopOnly h (goOn t below n h) := ⟨_, rfl⟩

/-- The task runs: its frames, and what the first of them is told. -/
structure Runs (h : Host) (t : Nat) (fs : List Frame) (e : Ending) : Prop where
  stack : h.loop.stack? t = some fs
  running : h.loop.running = some (t, e)

namespace Runs

theorem moves {fs : List Frame} (hr : Runs h t fs e) (hm : h.loop.Moves who h'.loop)
    (hw : who ≠ some t) : Runs h' t fs e :=
  ⟨hm.stack t fs hw hr.stack, hm.running t e hw hr.running⟩

theorem mover {fs : List Frame} (hr : Runs h t fs e) : h.mover = some t := by
  rw [Host.mover, hr.running]

theorem tick_eq {fs : List Frame} (hr : Runs h t fs e) : h.tick = step t e h :=
  tick_of_running hr.running

variable {push : List Frame} {e' : Ending} {h₁ : Host}

theorem steps (hr : Runs h t (f :: below) e) (k : Ordered h) : Steps h t e f below :=
  ⟨k.inOrder, hr.running, hr.stack⟩

/-- The first frame goes on. -/
theorem on (hr : Runs h t (f :: below) e) (k : Ordered h)
    (hgo : nextOf (resume f e) h = .go push e') : Runs h.tick t (push ++ below) e' := by
  have hself := (hr.steps k).stack_self
  rw [hgo] at hself
  rw [hr.tick_eq]
  refine ⟨hself, ?_⟩
  rw [step_eq hr.stack, hgo]
  rfl

theorem goes (hr : Runs h t (f :: below) e) (k : Ordered h)
    (e₁ : (resume f e).run h = .ok (.go push e') h₁) : Runs h.tick t (push ++ below) e' :=
  hr.on k (nextOf_of_ok e₁)

theorem tick_of_ok {n : Next} (hr : Runs h t (f :: below) e) (e₁ : (resume f e).run h = .ok n h₁) :
    h.tick = goOn t below n h₁ := by
  rw [hr.tick_eq, step_eq hr.stack, nextOf_of_ok e₁, after_of_ok e₁]
  rfl

theorem tick_of_error {x : Failure} (hr : Runs h t (f :: below) e)
    (e₁ : (resume f e).run h = .error x h₁) : h.tick = goOn t below (.pass (.failed x)) h₁ := by
  rw [hr.tick_eq, step_eq hr.stack, nextOf, e₁, after_of_error e₁]
  rfl

/-- A task that has frames goes on with others in their place. -/
theorem continued {fs : List Frame} (hs : h.loop.stack? t = some fs) (below push : List Frame)
    (e : Ending) : Runs (goOn t below (.go push e) h) t (push ++ below) e :=
  ⟨(stack?_setStack _ t hs).trans (if_pos rfl), rfl⟩

/-- The first frame goes on, and does nothing else to the loop. -/
theorem advance (hr : Runs h t (f :: below) e) (e₁ : (resume f e).run h = .ok (.go push e') h₁)
    (hl : h₁.loop = h.loop) : Runs h.tick t (push ++ below) e' ∧ LoopOnly h₁ h.tick := by
  rw [hr.tick_of_ok e₁]
  exact ⟨.continued (hl ▸ hr.stack) below push e', loopOnly_goOn ..⟩

/-- The first frame fails, and does nothing else to the loop. -/
theorem fail {x : Failure} (hr : Runs h t (f :: below) e) (e₁ : (resume f e).run h = .error x h₁)
    (hl : h₁.loop = h.loop) : Runs h.tick t below (.failed x) ∧ LoopOnly h₁ h.tick := by
  rw [hr.tick_of_error e₁]
  exact ⟨.continued (hl ▸ hr.stack) below [] _, loopOnly_goOn ..⟩

end Runs

/-! ## The end of a task -/

/-- The end of the task will be told by the cell, which is not done and can be answered by nobody
    else. -/
structure Unended (t c : Nat) (h : Host) : Prop where
  result : h.loop.result? t = some c
  apart : ∀ p, h.view.Holds p c → p = .task
  undone : h.loop.outcome? c = none

namespace Unended

theorem onward (k : Unended t c h) (hf : h.loop.Filed) (ho : h.loop.Owned) (o : Onward who h h')
    (hs : Loop.Spares who h.loop h'.loop) (hw : who ≠ some t) : Unended t c h' where
  result := o.moves.result t c k.result
  apart := o.unheld c (hf.lt t c k.result) k.apart
  undone := o.undone hs ho hw k.result k.apart k.undone

/-- A step of a task, be it the same, does not tell the end. -/
theorem step (k : Unended t c h) (ko : Ordered h) {u : Nat} (ks : Steps h u e f below) :
    Unended t c (Host.step u e h) := by
  have happart := ks.queueHanded.apart (ko.filed.lt t c k.result) k.apart
  refine ⟨ks.moves.result t c k.result, happart.1, ?_⟩
  by_contra hdone
  obtain ⟨x, hx⟩ := Option.ne_none_iff_exists'.1 hdone
  by_cases hcancel : x = .cancelled
  · rw [hcancel] at hx
    have := (spares_step ks.top).cancelled c t (fun e => by cases e) ((ko.owned t c).1 k.result) hx
    rw [k.undone] at this
    cases this
  · rcases happart.2 ⟨x, hx, hcancel⟩ with ⟨y, hy, -⟩ | ⟨s, hq⟩
    · cases k.undone.symm.trans hy
    · exact ks.inOrder.unheld_of_queued hq .task (.task k.result)

/-- The end of a task is not told as long as it has frames. -/
theorem tick (k : Unended t c h) (ko : Ordered h)
    (hmore : h.loop.stack? t ≠ some [] ∨ ∀ e, h.loop.running ≠ some (t, e)) :
    Unended t c h.tick := by
  rcases tick_cases h with ⟨u, e, f, below, hrun, hs, e'⟩ | ⟨u, e, hrun, hend, e'⟩ | ⟨-, e'⟩ |
    ⟨j, jobs, hidle, hjobs, e'⟩
  · rw [e']
    exact k.step ko ⟨ko.inOrder, hrun, hs⟩
  · have hut : u ≠ t := by
      rintro rfl
      rcases hmore with hmore | hmore
      · obtain ⟨task, htask, -⟩ := Option.map_eq_some_iff.1 k.result
        have hs : h.loop.stack? u = some task.stack := by rw [stack?, htask]; rfl
        exact hmore (hs.trans (congrArg some (hend _ hs)))
      · exact hmore e hrun
    rw [e']
    exact k.onward ko.filed ko.owned (.endTask ko.filed hrun) (.endTask ko.owned u e) fun hu =>
      hut (Option.some.inj hu)
  · rw [e']
    exact k
  · have o : Onward j.task? h h.tick := e' ▸ .beginJob ko.filed hjobs hidle
    refine ⟨o.moves.result t c k.result, o.unheld c (ko.filed.lt t c k.result) k.apart, ?_⟩
    rw [e']
    cases j with
    | start u | wake u _ =>
      show (Loop.resume { h.loop with jobs } u _).outcome? c = none
      rw [outcome?, (resume_spec { h.loop with jobs } u _).2.1]
      exact k.undone
    | release | notify =>
      have o : Onward none h _ := .beginJob ko.filed hjobs hidle
      exact (k.onward ko.filed ko.owned o (spares_beginJob _ jobs) fun e => by cases e).undone

/-- A task that has nothing left to do ends as it was told to, or as cancelled. -/
theorem ended (k : Unended t c h) (ko : Ordered h) (hrun : h.loop.running = some (t, e))
    (hs : h.loop.stack? t = some []) :
    ∃ o, h.tick.loop.outcome? c = some o ∧ (o = e ∨ o = .cancelled ∧ ∃ v, e = .value v) := by
  obtain ⟨task, htask, hresult⟩ := Option.map_eq_some_iff.1 k.result
  rw [tick_of_ended hrun hs]
  show ∃ o, (h.loop.endTask t e).outcome? c = some o ∧ _
  unfold Loop.endTask
  dsimp only
  rw [htask]
  dsimp only
  have hlt : c < ({ h.loop with running := none } : Loop Value Failure Frame).cells.size :=
    ko.filed.lt t c k.result
  rw [hresult, outcome?_finish_self _ hlt]
  refine ⟨_, congrArg some (congrArg (Option.getD · _) k.undone), ?_⟩
  cases e with
  | value v =>
    cases task.cancelAsked with
    | true => exact .inr ⟨rfl, v, rfl⟩
    | false => exact .inl rfl
  | _ => cases task.cancelAsked <;> exact .inl rfl

end Unended

end GhciHost.Host
