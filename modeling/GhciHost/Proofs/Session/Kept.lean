import GhciHost.Proofs.Host.World
import GhciHost.Proofs.Session.Taking

/-!
# Everything stays in order

The invariant holds of a host on which nothing was done yet, and whatever happens keeps it: steps
of the loop, timers that fire, and what is done from outside.

* `Quiet`, `InOrder.ofLoop`   the loop changes behind the back of the tasks;
* `InOrder.idle`   something is done while no task runs;
* `inOrder_of_reachable`   every host that can be reached is in order.
-/

namespace GhciHost.Host

open Loop

variable {h h' : Host}

/-- No task is given anything to do, and only cells are answered that may be. -/
structure Quiet (P : Nat → Prop) (l l' : Loop Value Failure Frame) : Prop where
  size_le : l.cells.size ≤ l'.cells.size
  stack : ∀ u, l'.stack? u = l.stack? u
  result : ∀ u, l'.result? u = l.result? u
  holds : ∀ c, l'.Holds c → l.Holds c
  answered : ∀ c, l'.Answered c → l.Answered c ∨ P c

theorem Quiet.trans {P : Nat → Prop} {l l' l'' : Loop Value Failure Frame} (h : Quiet P l l')
    (k : Quiet P l' l'') : Quiet P l l'' where
  size_le := Nat.le_trans h.size_le k.size_le
  stack u := (k.stack u).trans (h.stack u)
  result u := (k.result u).trans (h.result u)
  holds c hc := h.holds c (k.holds c hc)
  answered c hc := (k.answered c hc).elim (h.answered c) .inr

theorem Quiet.handed {P : Nat → Prop} {v : View} {l : Loop Value Failure Frame}
    (hq : Quiet P v.loop l) : Handed { answer := P } v { v with loop := l } where
  size_le := hq.size_le
  holds p c hp := by
    have hold {u : Nat} {gs : List Frame} (hu : l.stack? u = some gs) : v.loop.stack? u = some gs := by
      rw [← hu, hq.stack]
    refine .inl ⟨p, p.flows_refl, .inl ?_⟩
    cases hp with
    | queue hr hc => exact .queue hr hc
    | replay ht hf hs hr hc => exact .replay (hold ht) hf hs hr hc
    | query hx hc => exact .query hx hc
    | ready hc => exact .ready hc
    | reader hc => exact .reader hc
    | exit hc => exact .exit hc
    | task hc => exact .task ((hq.result _).symm.trans hc)
    | loop hc => exact .loop (hq.holds _ hc)
  answered c hc := (hq.answered c hc).imp_right fun hc => .inr (.inl hc)

/-- The loop changes: no task is given anything to do, and only cells are answered that are
    held. -/
theorem InOrder.ofLoop (k : InOrder h) {l : Loop Value Failure Frame} {P : Nat → Prop}
    (hsound : l.Sound) (hq : Quiet P h.loop l) (hP : ∀ c, P c → ∃ p, h.view.Holds p c)
    (hrun : ∀ u gs e, h.loop.stack? u = some gs → gs ≠ [] → h.loop.running = some (u, e) →
      l.running = some (u, e))
    (hawaits : ∀ u gs c, h.loop.stack? u = some gs → gs ≠ [] → h.view.Awaits u c →
      View.Awaits { h.view with loop := l } u c) : InOrder { h with loop := l } := by
  have hold {u : Nat} {gs : List Frame} (hu : l.stack? u = some gs) : h.view.loop.stack? u = some gs := by
    rw [← hu, hq.stack]
    rfl
  have hhand : Handed { answer := P } h.view { h.view with loop := l } := hq.handed
  refine ⟨hsound, hhand.bounded k.bounded, k.listed, ?_, ?_, ?_⟩
  · exact k.turns.move (fun s a ha => ⟨a, ha, rfl⟩) fun u gs hu => .inr ⟨gs, hold hu, rfl⟩
  · exact k.queues.move (.refl _) hP hhand fun u gs g hu hg _ =>
      ⟨hold hu, fun c => hawaits u gs c (hold hu) (List.ne_nil_of_mem hg)⟩
  · exact k.stages.still (fun u gs hu => .inl (hold hu)) k.stages.manned (fun u gs g => k.stages.fits u gs g)
      (fun _ h => h) hrun

/-! ## Jobs and timers -/

/-- What a task waits for does not change with jobs and timers. -/
theorem View.Awaits.of_loop {v : View} {l : Loop Value Failure Frame} {u c : Nat}
    (hw : v.Awaits u c) (hwait : l.waiting u = v.loop.waiting u)
    (hrun : ∀ e, v.loop.running = some (u, e) → l.running = some (u, e))
    (hans : v.loop.Answered c → l.Answered c) : View.Awaits { v with loop := l } u c := by
  rcases hw with hw | ⟨e, he, hc⟩
  · exact .inl (hwait.trans hw)
  · exact .inr ⟨e, hrun e he, fun x hx => hans (hc x hx)⟩

/-- A job or a timer is gone. -/
theorem Quiet.dropped {P : Nat → Prop} {l l' : Loop Value Failure Frame} (hcells : l'.cells = l.cells)
    (htasks : l'.tasks = l.tasks) (hjobs : ∀ j ∈ l'.jobs, j ∈ l.jobs)
    (htimers : ∀ t ∈ l'.timers, t ∈ l.timers) : Quiet P l l' where
  size_le := Nat.le_of_eq (by rw [hcells])
  stack u := by rw [stack?, htasks]; rfl
  result u := by rw [result?, htasks]; rfl
  holds d hd := by
    cases hd with
    | timer ht => exact .timer (htimers _ ht)
    | hook hk =>
      rw [hooks, hcells] at hk
      exact .hook hk
    | job hj => exact .job (hjobs _ hj)
  answered d hd := by
    unfold Answered outcome? at hd ⊢
    rw [hcells] at hd
    exact .inl hd

/-- The next job begins. -/
theorem Quiet.popped {P : Nat → Prop} {l : Loop Value Failure Frame} {j : Job} {jobs : List Job}
    (hjobs : l.jobs = j :: jobs) : Quiet P l { l with jobs } := by
  refine .dropped rfl rfl (fun j' hj' => ?_) fun _ ht => ht
  rw [hjobs]
  exact List.mem_cons_of_mem _ hj'

theorem Quiet.finish (l : Loop Value Failure Frame) (c : Nat) (o : Ending) :
    Quiet (· = c) l (l.finish c o) where
  size_le := Nat.le_of_eq (size_cells_finish l c o).symm
  stack u := by rw [stack?, tasks_finish]; rfl
  result u := by rw [result?, tasks_finish]; rfl
  holds _ hd := holds_finish hd
  answered _ hd := (answered_finish hd).imp_right fun hd => hd.1

/-- A cell is released that the loop holds, when its job or timer is gone. -/
theorem InOrder.release (k : InOrder h) {l : Loop Value Failure Frame} {c : Nat}
    (hsound : l.Sound) (hc : h.loop.Holds c) (hcells : l.cells = h.loop.cells)
    (htasks : l.tasks = h.loop.tasks) (hrun : l.running = h.loop.running)
    (hjobs : ∀ j ∈ l.jobs, j ∈ h.loop.jobs) (htimers : ∀ t ∈ l.timers, t ∈ h.loop.timers) :
    InOrder { h with loop := l.release c } := by
  have hans {d : Nat} (hd : h.loop.Answered d) : l.Answered d := by
    unfold Answered outcome? at hd ⊢
    rwa [hcells]
  have hq : Quiet (· = c) h.loop (l.release c) :=
    (Quiet.dropped hcells htasks hjobs htimers).trans (.finish l c _)
  refine k.ofLoop (hsound.finish c _) hq (fun d hd => ?_) (fun u gs e _ _ he => ?_)
    fun u gs d _ _ hw => hw.of_loop ?_ (fun e he => ?_) fun hd => ?_
  · subst hd
    exact ⟨.other, .loop hc⟩
  · rwa [Loop.release, running_finish, hrun]
  · rw [Loop.release, Loop.waiting, tasks_finish, htasks]
    rfl
  · rwa [Loop.release, running_finish, hrun]
  · exact (hans hd).finish c _

/-- What is left alone when a task goes on. -/
theorem resume_spec (l : Loop Value Failure Frame) (t : Nat) (o : Ending) :
    (∀ u, (l.resume t o).stack? u = l.stack? u) ∧ (l.resume t o).cells = l.cells ∧
      (l.resume t o).jobs = l.jobs ∧ (l.resume t o).timers = l.timers ∧
        ∀ u x, (l.resume t o).running = some (u, x) →
          l.running = some (u, x) ∨ u = t ∧ (x = o ∨ x = .cancelled) := by
  unfold Loop.resume
  split
  · exact ⟨fun _ => rfl, rfl, rfl, rfl, fun u x hx => .inl hx⟩
  · next task ht =>
    refine ⟨fun u => stack?_modify l t u _ fun _ => rfl, rfl, rfl, rfl, fun u x hx => .inr ?_⟩
    cases hx
    refine ⟨rfl, ?_⟩
    split
    · exact .inr rfl
    · exact .inl rfl

/-- What is left alone of the tasks' ends and of other tasks when a task goes on. -/
theorem resume_tasks (l : Loop Value Failure Frame) (t u : Nat) (o : Ending) :
    (l.resume t o).result? u = l.result? u ∧
      (u ≠ t → l.CancelAsked u → (l.resume t o).CancelAsked u) := by
  unfold Loop.resume
  split
  · exact ⟨rfl, fun _ h => h⟩
  · refine ⟨result?_modify l t u _ fun _ => rfl, fun hut h => ?_⟩
    exact h.modify fun e => absurd e hut

theorem Quiet.resume (l : Loop Value Failure Frame) (t : Nat) (o : Ending) :
    Quiet (fun _ => False) l (l.resume t o) := by
  obtain ⟨hstack, hcells, hjobs, htimers, -⟩ := resume_spec l t o
  refine ⟨Nat.le_of_eq (by rw [hcells]), hstack, fun u => (resume_tasks l t u o).1, fun c hc => ?_,
    fun c hc => .inl ?_⟩
  · exact hc.of_eq htimers (fun d => by rw [hooks, hcells]; rfl) hjobs
  · unfold Answered outcome? at hc ⊢
    rwa [hcells] at hc

/-- A task goes on whose job is the next. -/
theorem InOrder.resume (k : InOrder h) {t : Nat} {j : Job} {jobs : List Job} {o : Ending}
    (hjobs : h.loop.jobs = j :: jobs) (hj : j.task? = some t) (hidle : h.loop.running = none)
    (hwake : ∀ c, h.loop.waiting t = some c → ∀ x, o = .value x → h.loop.Answered c) :
    InOrder { h with loop := ({ h.loop with jobs } : Loop Value Failure Frame).resume t o } := by
  have hcells := (resume_spec { h.loop with jobs } t o).2.1
  have hq := (Quiet.popped (P := fun _ => False) hjobs).trans (.resume { h.loop with jobs } t o)
  refine k.ofLoop (k.sound.resume hjobs hj hidle o) hq (fun _ hc => hc.elim)
    (fun u gs e _ _ he => ?_) fun u gs c hu _ hw => ?_
  · rw [hidle] at he
    cases he
  · rcases hw with hw | ⟨e, he, -⟩
    · by_cases hut : u = t
      -- the task that is woken was waiting for the cell that is done
      · subst hut
        obtain ⟨task, htask, -⟩ := Option.map_eq_some_iff.1 hu
        refine .inr ⟨if task.cancelAsked then .cancelled else o, ?_, fun x hx => ?_⟩
        · show (({ h.loop with jobs } : Loop Value Failure Frame).resume u o).running = _
          unfold Loop.resume
          rw [show ({ h.loop with jobs } : Loop Value Failure Frame).tasks.get? u = some task from htask]
        · split at hx
          · cases hx
          · obtain ⟨o', ho, hne⟩ := hwake c hw x hx
            refine ⟨o', ?_, hne⟩
            show (({ h.loop with jobs } : Loop Value Failure Frame).resume u o).outcome? c = _
            rw [outcome?, hcells]
            exact ho
      · refine .inl ?_
        show (({ h.loop with jobs } : Loop Value Failure Frame).resume t o).waiting u = some c
        rw [waiting_resume, if_neg hut]
        exact hw
    · rw [show h.view.loop.running = none from hidle] at he
      cases he

/-- The end of a task is told by its cell. -/
theorem endTask_eq (l : Loop Value Failure Frame) (t : Nat) (e : Ending) :
    (∃ c o, l.result? t = some c ∧
      l.endTask t e = ({ l with running := none } : Loop Value Failure Frame).finish c o) ∨
      l.endTask t e = { l with running := none } := by
  unfold Loop.endTask
  dsimp only
  split
  · exact .inr rfl
  · next task ht => exact .inl ⟨task.result, _, by rw [result?, ht]; rfl, rfl⟩

theorem Quiet.endTask (l : Loop Value Failure Frame) (t : Nat) (e : Ending) :
    Quiet (fun c => l.result? t = some c) l (l.endTask t e) := by
  have hrest {P : Nat → Prop} : Quiet P l { l with running := none } :=
    .dropped rfl rfl (fun _ hj => hj) fun _ ht => ht
  rcases endTask_eq l t e with ⟨c, o, hc, e⟩ | e
  · rw [e]
    have hq := hrest.trans (Quiet.finish { l with running := none } c o)
    refine { hq with answered := fun d hd => (hq.answered d hd).imp_right fun hd => ?_ }
    rw [hd]
    exact hc
  · rw [e]
    exact hrest

/-- A task has ended. -/
theorem InOrder.endTask (k : InOrder h) {t : Nat} {e : Ending}
    (hrun : h.loop.running = some (t, e))
    (hend : ∀ gs, h.loop.stack? t = some gs → gs = []) :
    InOrder { h with loop := h.loop.endTask t e } := by
  have hother {u : Nat} {gs : List Frame} {e' : Ending} (hu : h.loop.stack? u = some gs)
      (hgs : gs ≠ []) (hu' : h.loop.running = some (u, e')) : False := by
    rw [hrun] at hu'
    cases hu'
    exact hgs (hend gs hu)
  refine k.ofLoop (k.sound.endTask t e) (.endTask h.loop t e) (fun c hc => ⟨.task, .task hc⟩)
    (fun u gs e' hu hgs he => (hother hu hgs he).elim) fun u gs d hu hgs hw =>
      hw.of_loop ?_ (fun e' he => (hother hu hgs he).elim) fun hd => ?_
  · rcases endTask_eq h.loop t e with ⟨c, o, -, e⟩ | e <;> rw [e]
    · rw [Loop.waiting, tasks_finish]
      rfl
    · rfl
  · have hd : ({ h.loop with running := none } : Loop Value Failure Frame).Answered d := hd
    rcases endTask_eq h.loop t e with ⟨c, o, -, e⟩ | e <;> rw [e]
    · exact hd.finish c o
    · exact hd

/-! ## What is done while no task runs -/

theorem InOrder.idle (k : InOrder h) (hidle : h.loop.running = none) (hg : Guards {} h h')
    (hc : Calm h h') (hl : Listing h h') : InOrder h' := by
  have hstack {u : Nat} {gs : List Frame} (hu : h'.loop.stack? u = some gs) :
      h.loop.stack? u = some gs ∨ Tame gs := hg.grows.fresh u gs hu
  refine ⟨hg.grows.sound k.sound, hg.toHanded.bounded k.bounded, hl.listed k.listed, ?_, ?_, ?_⟩
  · refine k.turns.move (fun s a ha => ?_) fun u gs hu => ?_
    · obtain ⟨b, hb, e, -⟩ := (SameTurns.of_calm hc).old s a ha
      exact ⟨b, hb, e⟩
    · exact (hstack hu).symm.imp held_of_tame fun hu => ⟨gs, hu, rfl⟩
  · refine k.queues.move (.of_calm hc) (fun _ hc => hc.elim) hg.toHanded fun u gs g hu hg' hturn => ?_
    rcases hstack hu with hu | hu
    · refine ⟨hu, fun c hw => ?_⟩
      rcases hw with hw | ⟨e, he, -⟩
      · exact .inl ((hg.grows.waiting u).trans hw)
      · rw [show h.view.loop.running = none from hidle] at he
        cases he
    · exact absurd (turn?_of_isPlain (isPlain_of_tame hu hg')) hturn
  · refine k.stages.still (fun u gs => hstack) (k.stages.manned.calm hc.old hc.new)
      (fun u gs g hu hg' => (k.stages.fits u gs g hu hg').calm hc.old
        (k.stages.launches_rest hidle hu hg'))
      (fun s hs => hl.known s hs) fun u gs e _ _ he => ?_
    rw [show h.view.loop.running = none from hidle] at he
    cases he

/-! ## All that can happen -/

theorem beginJob_notify (q : Nat) (h : Host) : beginJob (.notify q) h = after (queryEnded q) h := by
  unfold beginJob after
  dsimp only
  cases (queryEnded q).run h <;> rfl

theorem InOrder.beginJob (k : InOrder h) (hidle : h.loop.running = none) {j : Job} {jobs : List Job}
    (hjobs : h.loop.jobs = j :: jobs) :
    InOrder (beginJob j { h with loop := { h.loop with jobs } }) := by
  have hmem : j ∈ h.loop.jobs := by
    rw [hjobs]
    exact List.mem_cons_self
  have hrest (j' : Job) (hj' : j' ∈ jobs) : j' ∈ h.loop.jobs := by
    rw [hjobs]
    exact List.mem_cons_of_mem _ hj'
  cases j with
  | start t =>
    refine k.resume hjobs rfl hidle fun c hw => ?_
    rw [(k.sound.start t hmem).2] at hw
    cases hw
  | wake t c =>
    refine k.resume hjobs rfl hidle fun d hw x hx => ?_
    rw [k.sound.wake t c hmem] at hw
    cases hw
    refine ⟨.value x, ?_, nofun⟩
    have hout : ({ h.loop with jobs } : Loop Value Failure Frame).outcome? c = h.loop.outcome? c := rfl
    rw [hout] at hx
    cases ho : h.loop.outcome? c with
    | none => rw [ho] at hx; cases hx
    | some o => rw [ho] at hx; exact congrArg some hx
  | release c =>
    exact k.release (l := { h.loop with jobs }) (k.sound.dropJob hjobs rfl) (.job hmem) rfl rfl rfl
      hrest fun _ ht => ht
  | notify q =>
    have hdrop : InOrder { h with loop := { h.loop with jobs } } := by
      exact k.ofLoop (k.sound.dropJob hjobs rfl) (.popped hjobs)
        (fun _ hc => False.elim hc) (fun _ _ _ _ _ he => he)
        fun _ _ _ _ _ hw => hw.of_loop rfl (fun _ he => he) fun hd => hd
    rw [beginJob_notify]
    exact hdrop.idle hidle (Within.rel_after _) (Within.rel_after _) (Within.rel_after _)

theorem tick_of_running {t : Nat} {e : Ending} (hrun : h.loop.running = some (t, e)) :
    h.tick = step t e h := by
  unfold Host.tick
  rw [hrun]

theorem tick_of_ended {t : Nat} {e : Ending} (hrun : h.loop.running = some (t, e))
    (hs : h.loop.stack? t = some []) : h.tick = { h with loop := h.loop.endTask t e } := by
  rw [tick_of_running hrun]
  unfold Host.step
  rw [show (h.loop.tasks.get? t).map (·.stack) = some [] from hs]

/-- What a step of the loop is: the top frame of the task that runs goes on, this task ends, or the
    next job begins, if there is one. -/
theorem tick_cases (h : Host) :
    (∃ t e f below, h.loop.running = some (t, e) ∧ h.loop.stack? t = some (f :: below) ∧
      h.tick = step t e h) ∨
    (∃ t e, h.loop.running = some (t, e) ∧ (∀ gs, h.loop.stack? t = some gs → gs = []) ∧
      h.tick = { h with loop := h.loop.endTask t e }) ∨
    (h.loop.running = none ∧ h.tick = h) ∨
    ∃ j jobs, h.loop.running = none ∧ h.loop.jobs = j :: jobs ∧
      h.tick = Host.beginJob j { h with loop := { h.loop with jobs } } := by
  unfold Host.tick
  split
  · next t e hrun =>
    by_cases hs : ∃ f below, h.loop.stack? t = some (f :: below)
    · obtain ⟨f, below, hs⟩ := hs
      exact .inl ⟨t, e, f, below, hrun, hs, rfl⟩
    · refine .inr (.inl ⟨t, e, hrun, fun gs hgs => ?_, ?_⟩)
      · cases gs with
        | nil => rfl
        | cons f below => exact absurd ⟨f, below, hgs⟩ hs
      · unfold Host.step
        split
        · next f below hs' => exact absurd ⟨f, below, hs'⟩ hs
        · rfl
  · next hidle =>
    split
    · exact .inr (.inr (.inl ⟨hidle, rfl⟩))
    · next j jobs hjobs => exact .inr (.inr (.inr ⟨j, jobs, hidle, hjobs, rfl⟩))

theorem InOrder.tick (k : InOrder h) : InOrder h.tick := by
  rcases tick_cases h with ⟨t, e, f, below, hrun, hs, e'⟩ | ⟨t, e, hrun, hend, e'⟩ | ⟨-, e'⟩ |
    ⟨j, jobs, hidle, hjobs, e'⟩
  · exact e'.symm ▸ Steps.step ⟨k, hrun, hs⟩
  · exact e'.symm ▸ k.endTask hrun hend
  · exact e'.symm ▸ k
  · exact e'.symm ▸ k.beginJob hidle hjobs

theorem mem_dropTimer {c : Nat} {t : Timer} {ts : List Timer} (ht : t ∈ dropTimer c ts) : t ∈ ts := by
  induction ts with
  | nil => cases ht
  | cons u us ih =>
    rw [dropTimer] at ht
    split at ht
    · exact List.mem_cons_of_mem _ ht
    · exact (List.mem_cons.1 ht).elim (fun e => e ▸ List.mem_cons_self)
        fun ht => List.mem_cons_of_mem _ (ih ht)

theorem InOrder.fire (k : InOrder h) {t : Timer} (ht : t ∈ h.loop.timers) : InOrder (h.fire t) :=
  k.release (l := { h.loop with now := t.due, timers := dropTimer t.cell h.loop.timers })
    (k.sound.congr rfl (fun _ => rfl) (fun _ => rfl) (Nat.le_refl _) rfl) (.timer ht) rfl rfl rfl
    (fun _ hj => hj) fun _ hu => mem_dropTimer hu

theorem tame_of_asked {P : Reaction → Prop} {fs : List Frame} (hfs : Asked P fs) : Tame fs := by
  cases hfs <;> rfl

theorem InOrder.outside {P : Reaction → Prop} (k : InOrder h) (hidle : h.loop.running = none)
    (ho : Outside P h h') : InOrder h' := by
  cases ho with
  | ask hfs =>
    have := Guards.newTask (W := {}) (tame_of_asked hfs)
    exact k.idle hidle (Within.rel_after _) (Within.rel_after _) (Within.rel_after _)
  | submit s command state reaction _ =>
    exact k.idle hidle (Within.rel_after _) (Within.rel_after _) (Within.rel_after _)
  | query s command state reaction _ =>
    exact k.idle hidle (Within.rel_after _) (Within.rel_after _) (Within.rel_after _)
  | cancel c => exact k.idle hidle (Within.rel_after _) (Within.rel_after _) (Within.rel_after _)
  | act p line a => exact k.idle hidle (Within.rel_after _) (Within.rel_after _) (Within.rel_after _)
  | worker p responder writeFault =>
    have hv : (after (changeProcess p fun proc => { proc with responder, writeFault }) h).view =
        h.view := view_changeProcess h p (fun _ => rfl) fun _ => rfl
    have hm := margin_changeProcess h p (f := fun proc => { proc with responder, writeFault })
      (fun _ => rfl) fun _ => rfl
    exact k.idle hidle (Blind.of_view hv hm) (Blind.of_view hv hm) (Blind.of_view hv hm)
  | world settings installer disk launcher connectionScripts bus =>
    have hv : ({ h with settings, installer, disk, launcher, connectionScripts, bus } : Host).view =
        h.view := rfl
    exact k.idle hidle (Blind.of_view hv rfl) (Blind.of_view hv rfl) (Blind.of_view hv rfl)
  | time now =>
    exact k.ofLoop (k.sound.congr rfl (fun _ => rfl) (fun _ => rfl) (Nat.le_refl _) rfl)
      (.dropped rfl rfl (fun _ hj => hj) fun _ ht => ht) (fun _ hc => False.elim hc)
      (fun _ _ _ _ _ he => he)
      fun _ _ _ _ _ hw => hw.of_loop rfl (fun _ he => he) fun hd => hd

theorem Fresh.core? (k : Fresh h) (s : Nat) : h.core? s = none := by
  unfold Host.core?
  rw [k.sessions]
  rfl

theorem Fresh.inOrder (k : Fresh h) : InOrder h := by
  have hloop : h.view.loop = {} := k.loop
  have hstack (t : Nat) (fs : List Frame) : h.view.loop.stack? t ≠ some fs := by
    rw [hloop]
    exact nofun
  have hcores (s : Nat) (a : Session.Core) : h.view.cores s ≠ some a := by
    rw [show h.view.cores s = none from k.core? s]
    exact nofun
  have hholds (p : Place) (c : Nat) : ¬ h.view.Holds p c := fun hp => by
    cases hp with
    | queue hr hc =>
      rw [show h.view.lanes = h.laneState from rfl] at hr
      unfold laneState at hr
      rw [k.lanes] at hr
      cases hr
    | replay ht => exact hstack _ _ ht
    | query hx =>
      rw [show h.view.queries = h.queries from rfl, k.queries] at hx
      cases hx
    | ready hc =>
      rw [show h.view.readyWaiters = h.readyWaiters from rfl] at hc
      unfold readyWaiters at hc
      rw [k.sessions] at hc
      cases hc
    | reader hc =>
      rw [show h.view.processes = h.processWaiters from rfl] at hc
      unfold processWaiters at hc
      rw [k.processes] at hc
      cases hc
    | exit hc =>
      rw [show h.view.processes = h.processWaiters from rfl] at hc
      unfold processWaiters at hc
      rw [k.processes] at hc
      cases hc
    | task hc =>
      rw [hloop] at hc
      cases hc
    | loop hc =>
      rw [hloop] at hc
      cases hc with
      | timer ht => cases ht
      | hook hk => cases hk
      | job hj => cases hj
  have hsound : h.loop.Sound := by
    rw [k.loop]
    exact ⟨nofun, nofun, List.nodup_nil, nofun, fun c => List.nodup_nil, nofun⟩
  refine ⟨hsound, fun p c hp => (hholds p c hp).elim, fun s hs => ?_, ?_, ?_, ?_⟩
  · rw [k.registry] at hs
    cases hs
  · exact ⟨fun t fs s ht => (hstack t fs ht).elim, fun t u fs gs s ht => (hstack t fs ht).elim,
      fun t fs ht => (hstack t fs ht).elim⟩
  · exact ⟨fun t fs f s c ht => (hstack t fs ht).elim,
      fun t u fs gs f g s s' c ht => (hstack t fs ht).elim, fun s a ha => (hcores s a ha).elim,
      fun s a c ha => (hcores s a ha).elim, fun s s' a b c ha => (hcores s a ha).elim,
      fun s a c ha => (hcores s a ha).elim⟩
  · exact ⟨fun s a ha => (hcores s a ha).elim, fun t fs ht => (hstack t fs ht).elim,
      fun t fs f ht => (hstack t fs ht).elim, fun t fs ht => (hstack t fs ht).elim,
      fun t fs f ht => (hstack t fs ht).elim, fun t u fs gs s ht => (hstack t fs ht).elim,
      fun t fs ht => (hstack t fs ht).elim⟩

/-- Every host that can be reached is in order. -/
theorem inOrder_of_reachable {P : Reaction → Prop} (hr : Reachable Fresh (Outside P) h) :
    InOrder h := by
  induction hr with
  | start hf => exact hf.inOrder
  | tick _ ih => exact ih.tick
  | fire _ ht ih => exact ih.fire ht
  | act _ hidle ho ih => exact ih.outside hidle ho

end GhciHost.Host
