import GhciHost.Proofs.Loop.Moves
import GhciHost.Proofs.Session.Agreement

/-!
# What a step leaves alone

Each step of the loop, each timer that fires and whatever is done from outside is about one task at
most.  All others keep what they have to do and what they wait for, and no cell is answered that
tells of their ends (`Onward`).

* `Steps.queueGuards`   a step answers besides what is held only those who queue for a turn;
* `Onward.step` … `Onward.outside`   one lemma for each kind of step;
* `Onward.tick`   the next step of the loop.
-/

namespace GhciHost.Host

open Loop

variable {h h' : Host} {who : Option Nat} {t : Nat} {e : Ending} {f : Frame} {below : List Frame}

/-- What is left alone of all tasks but one. -/
structure Onward (who : Option Nat) (h h' : Host) : Prop where
  moves : h.loop.Moves who h'.loop
  unheld : ∀ c, c < h.loop.cells.size → (∀ p, h.view.Holds p c → p = .task) →
    ∀ p, h'.view.Holds p c → p = .task
  unanswered : ∀ u c, who ≠ some u → h.loop.result? u = some c →
    (∀ p, h.view.Holds p c → p = .task) → h'.loop.Answered c → h.loop.Answered c
  unfailed : ∀ c x, c < h.loop.cells.size → (∀ p, ¬ h.view.Holds p c) →
    h'.loop.outcome? c = some (.failed x) → h.loop.outcome? c = some (.failed x)

/-- The task that the next step is about. -/
def mover (h : Host) : Option Nat :=
  match h.loop.running with
  | some (t, _) => some t
  | none => h.loop.jobs.head?.bind Job.task?

theorem answered_of_failed {l : Loop Value Failure Frame} {c : Nat} {x : Failure}
    (hx : l.outcome? c = some (.failed x)) : l.Answered c := ⟨_, hx, by simp⟩

/-- What failed has failed before, unless it is only answered now. -/
theorem failed_of_answered {l l' : Loop Value Failure Frame} {c : Nat} {x : Failure}
    (hlasts : ∀ c o, l.outcome? c = some o → l'.outcome? c = some o) (hans : l.Answered c)
    (hx : l'.outcome? c = some (.failed x)) : l.outcome? c = some (.failed x) := by
  obtain ⟨o, ho, -⟩ := hans
  rw [hlasts c o ho] at hx
  rw [ho, hx]

/-- Only what is held is answered, and cells that do not tell of the ends of other tasks. -/
theorem Onward.of_handed {P : Nat → Prop} (hf : h.loop.Filed) (hm : h.loop.Moves who h'.loop)
    (hh : Handed { answer := P } h.view h'.view)
    (hP : ∀ u c, who ≠ some u → h.loop.result? u = some c →
      (∀ p, h.view.Holds p c → p = .task) → ¬ P c)
    (hfail : ∀ c x, P c → c < h.loop.cells.size → (∀ p, ¬ h.view.Holds p c) →
      h'.loop.outcome? c = some (.failed x) → h.loop.outcome? c = some (.failed x)) :
    Onward who h h' where
  moves := hm
  unheld _ hc hp := (hh.apart hc hp).1
  unanswered u c hw hu hp hans :=
    ((hh.apart (hf.lt u c hu) hp).2 hans).resolve_right (hP u c hw hu hp)
  unfailed c x hc hp hx := by
    rcases (hh.private_ hc hp).2 (answered_of_failed hx) with hans | hP'
    · exact failed_of_answered hm.outcome hans hx
    · exact hfail c x hP' hc hp hx

theorem Onward.trans {h'' : Host} (g : Onward who h h')
    (hsize : ∀ u c, h.loop.result? u = some c → c < h.loop.cells.size)
    (hprivate : ∀ c, c < h.loop.cells.size → (∀ p, ¬ h.view.Holds p c) →
      ∀ p, ¬ h'.view.Holds p c) (k : Onward who h' h'') : Onward who h h'' where
  moves := g.moves.trans k.moves
  unheld c hc hp := k.unheld c (Nat.lt_of_lt_of_le hc g.moves.size_le) (g.unheld c hc hp)
  unanswered u c hw hu hp hans := g.unanswered u c hw hu hp
    (k.unanswered u c hw (g.moves.result u c hu) (g.unheld c (hsize u c hu) hp) hans)
  unfailed c x hc hp hx := g.unfailed c x hc hp
    (k.unfailed c x (Nat.lt_of_lt_of_le hc g.moves.size_le) (hprivate c hc hp) hx)

/-- The other tasks have no part in how one goes on. -/
theorem moves_proceed {l : Loop Value Failure Frame} (hrun : Running l t e f below) (n : Next) :
    l.Moves (some t) (proceed t below n l) := by
  have hne {u : Nat} (hu : some t ≠ some u) : u ≠ t := fun e => hu (congrArg some e.symm)
  refine Moves.of_lasts (lasts_proceed n) ⟨Nat.le_of_eq (size_cells_proceed n).symm,
    result?_proceed n, fun u gs hu hs => ?_, fun u hu => waiting_proceed n (hne hu),
    fun u x hu hx => ?_, fun u hu hx => asked_proceed n (hne hu) hx⟩
  · exact (stack?_proceed hrun n u).trans ((if_neg (hne hu)).trans hs)
  · rw [hrun.running] at hx
    cases hx
    exact absurd rfl hu

/-- The task that runs goes on with frames that have nothing to submit again. -/
theorem Onward.goOn (hf : h.loop.Filed) (hrun : Running h.loop t e f below) {n : Next}
    (hn : ∀ g ∈ n.push, g.replay? = none) : Onward (some t) h (goOn t below n h) := by
  refine .of_handed (P := fun _ => False) hf (moves_proceed hrun n) ?_ (fun _ _ _ _ _ hc => hc)
    fun _ _ hc => hc.elim
  refine Handed.proceed (v := h.view) hrun n fun g hg s rs hs => ?_
  rw [hn g hg] at hs
  cases hs

/-! ## Steps of frames -/

/-- Somebody queues with the cell for the turn to start a session. -/
def Queued (h : Host) (s c : Nat) : Prop := ∃ a, h.core? s = some a ∧ c ∈ a.startWaiters

theorem InOrder.unheld_of_queued (k : InOrder h) {s c : Nat} (hc : h.Queued s c) (p : Place) :
    ¬ h.view.Holds p c := by
  obtain ⟨a, ha, hc⟩ := hc
  exact (k.queues.own s a c ha hc).2 p

namespace Steps

/-- A step answers what is held, and those who queue for a turn. -/
theorem queueGuards (k : Steps h t e f below) (Q : Place → Nat → Prop) :
    Guards { answer := fun c => ∃ s, h.Queued s c, hold := Q } h (after (resume f e) h) := by
  cases hturn : f.isTurn with
  | false => exact k.guards hturn _
  | true =>
    cases f with
    | startSession => exact (Guards.resume rfl e).rel_after h
    | startTurn s c =>
      obtain ⟨-, ⟨a, ha, -⟩, -⟩ := k.inOrder.queues.turn t _ _ s c k.top List.mem_cons_self rfl
      have ha : h.core? s = some a := ha
      by_cases hv : ∃ v, e = .value v
      · obtain ⟨v, rfl⟩ := hv
        obtain ⟨h₁, e₁, hv⟩ := startTurn_run s c v h
        rw [after_of_ok (show (resume (.startTurn s c) (.value v)).run h = _ from e₁), Guards, hv]
        exact .of_others _ _ _
      · obtain ⟨h₁, e₁, hv⟩ := startTurn_run_other (c := c) ha fun v he => hv ⟨v, he⟩
        rw [after_of_ok (show (resume (.startTurn s c) e).run h = _ from e₁), Guards, hv]
        cases a.starting with
        | true => exact .of_others _ _ _
        | false =>
          refine guarded_callFirst (fun d hd => ?_) _
          exact ⟨s, a, ha, List.mem_of_mem_erase (List.mem_of_head? hd)⟩
    | startEnd s =>
      obtain ⟨a, ha, -⟩ := k.inOrder.turns.starting t _ s k.top (by simp [Frame.ends?])
      have ha : h.core? s = some a := ha
      obtain ⟨h₁, e₁, hv⟩ := startEnd_run ha e
      rw [after_of_ok (show (resume (.startEnd s) e).run h = _ from e₁), Guards, hv]
      refine guarded_callFirst (fun d hd => ?_) _
      exact ⟨s, a, ha, List.mem_of_head? hd⟩
    | _ => cases hturn

/-- Requests are submitted again that are held. -/
theorem push_replay (k : Steps h t e f below) (g : Frame) (hg : g ∈ (nextOf (resume f e) h).push)
    (s : Nat) (rs : List Request) (hs : g.replay? = some (s, rs)) (r : Request) (hr : r ∈ rs)
    (c : Nat) (hc : r.waiter = some c) : ∃ p, p.flows (.replay s) ∧ h.view.Holds p c := by
  cases hord : f.isOrdinary with
  | true =>
    rw [replay?_of_isPlain (isPlain_of_tame (tame_of_easy (easy_nextOf hord e h)) hg)] at hs
    cases hs
  | false =>
    cases hturn : f.isTurn with
    | true =>
      have hq := queued_nextOf hturn e h g hg
      cases g <;> first | (cases hs; done) | cases hq
    | false =>
      rcases (k.course hord hturn).push_replay g hg s rs hs with ⟨m, rfl⟩ | hq
      · exact ⟨_, Place.flows_refl _, .replay k.top List.mem_cons_self rfl hr hc⟩
      · exact ⟨_, Place.lane_flows s, .queue (hq r hr) hc⟩

theorem queueHanded (k : Steps h t e f below) :
    Handed { answer := fun c => ∃ s, h.Queued s c } h.view (Host.step t e h).view := by
  rw [step_eq k.top]
  exact k.handed k.queueGuards k.push_replay

/-- The other tasks do not take part in the step. -/
theorem moves (k : Steps h t e f below) : h.loop.Moves (some t) (Host.step t e h).loop := by
  rw [step_eq k.top]
  have hg : Guards { answer := fun c => ∃ s, h.Queued s c } h (after (resume f e) h) :=
    k.queueGuards _
  exact (Moves.of_grows hg.grows).trans (moves_proceed (k.runningOn hg) _)

/-- Whoever is called does not fail. -/
theorem unfailed_callFirst {waiters : List Nat} {l : Loop Value Failure Frame} {c : Nat}
    {x : Failure} (hx : (callFirst waiters l).outcome? c = some (.failed x)) :
    l.outcome? c = some (.failed x) := by
  unfold callFirst at hx
  split at hx
  · rw [Loop.release, outcome?_finish] at hx
    split at hx
    · next hc =>
      rw [hc.1]
      cases ho : l.outcome? _ with
      | none =>
        rw [ho] at hx
        cases hx
      | some o =>
        rw [ho] at hx
        exact hx
    · exact hx
  · exact hx

/-- A turn frame lets nobody fail. -/
theorem unfailed_of_turn (k : Steps h t e f below) (hturn : f.isTurn = true) {c : Nat} {x : Failure}
    (hx : (Host.step t e h).loop.outcome? c = some (.failed x)) :
    h.loop.outcome? c = some (.failed x) := by
  rw [step_eq k.top] at hx
  have hx := failed_of_answered (lasts_proceed _).outcome
    ((answered_proceed _ c).1 (answered_of_failed hx)) hx
  cases f with
  | startSession =>
    have hself (he : (resume .startSession e).run h = .ok (.pass e) h) :
        h.loop.outcome? c = some (.failed x) := by
      rwa [after_of_ok he] at hx
    cases e with
    | value v =>
      cases v with
      | session s =>
        obtain ⟨a, ha⟩ := k.core?_of_start
        rcases startSession_run ha with ⟨-, -, h₁, e₁, hv⟩ | ⟨d, h₁, -, -, e₁, hv⟩
        · rw [after_of_ok (show (resume .startSession (.value (.session s))).run h = _ from e₁),
            show h₁.loop = h.loop from congrArg View.loop hv] at hx
          exact hx
        · rw [after_of_ok (show (resume .startSession (.value (.session s))).run h = _ from e₁),
            show h₁.loop = _ from congrArg View.loop hv] at hx
          exact (outcome?_newCell_snd h.loop c).symm.trans hx
      | _ => exact hself rfl
    | _ => exact hself rfl
  | startTurn s d =>
    obtain ⟨-, ⟨a, ha, -⟩, -⟩ := k.inOrder.queues.turn t _ _ s d k.top List.mem_cons_self rfl
    have ha : h.core? s = some a := ha
    by_cases hv : ∃ v, e = .value v
    · obtain ⟨v, rfl⟩ := hv
      obtain ⟨h₁, e₁, hv⟩ := startTurn_run s d v h
      rwa [after_of_ok (show (resume (.startTurn s d) (.value v)).run h = _ from e₁),
        show h₁.loop = h.loop from congrArg View.loop hv] at hx
    · obtain ⟨h₁, e₁, hv⟩ := startTurn_run_other (c := d) ha fun v he => hv ⟨v, he⟩
      rw [after_of_ok (show (resume (.startTurn s d) e).run h = _ from e₁),
        show h₁.loop = _ from congrArg View.loop hv] at hx
      split at hx
      · exact hx
      · exact unfailed_callFirst hx
  | startEnd s =>
    obtain ⟨a, ha, -⟩ := k.inOrder.turns.starting t _ s k.top (by simp [Frame.ends?])
    have ha : h.core? s = some a := ha
    obtain ⟨h₁, e₁, hv⟩ := startEnd_run ha e
    rw [after_of_ok (show (resume (.startEnd s) e).run h = _ from e₁),
      show h₁.loop = _ from congrArg View.loop hv] at hx
    exact unfailed_callFirst hx
  | _ => cases hturn

end Steps

namespace Onward

theorem step (k : Steps h t e f below) (hf : h.loop.Filed) :
    Onward (some t) h (Host.step t e h) := by
  refine .of_handed hf k.moves k.queueHanded (fun u c _ hu _ hq => ?_)
    fun c x _ hcell hp hx => ?_
  · obtain ⟨s, hq⟩ := hq
    exact k.inOrder.unheld_of_queued hq .task (.task hu)
  cases hturn : f.isTurn with
  | true => exact k.unfailed_of_turn hturn hx
  | false =>
    rw [step_eq k.top] at hx
    have hans := (answered_proceed _ c).1 (answered_of_failed hx)
    have hx := failed_of_answered (lasts_proceed _).outcome hans hx
    have hg : Guards {} h (after (resume f e) h) := k.guards hturn {}
    exact failed_of_answered hg.grows.lasts.outcome
      (((hg.toHanded.private_ hcell hp).2 hans).resolve_right fun hc => hc) hx

/-! ## Other steps -/

/-- Whoever acts is no task, and answers only what is held. -/
theorem of_guards (hf : h.loop.Filed) (hg : Guards {} h h') : Onward who h h' :=
  .of_handed hf (.of_grows hg.grows) hg.toHanded (fun _ _ _ _ _ hc => hc) fun _ _ hc => hc.elim

/-- No task is given anything to do, and what is answered is held, or tells of the end of a task. -/
theorem of_quiet {l : Loop Value Failure Frame} {P : Nat → Prop} (hf : h.loop.Filed)
    (hm : h.loop.Moves who l) (hq : Quiet P h.loop l)
    (hP : ∀ c, P c → h.view.Owes c ∨ ∃ u, who = some u ∧ h.loop.result? u = some c) :
    Onward who h { h with loop := l } := by
  refine .of_handed hf hm (Quiet.handed (v := h.view) hq) (fun u c hw hu hp hc => ?_)
    fun c x hc _ hp => ?_
  · rcases hP c hc with ⟨p, hne, hc⟩ | ⟨v, hv, hc⟩
    · exact hne (hp p hc)
    · rw [hf.one u v c hu hc] at hw
      exact hw hv
  · rcases hP c hc with ⟨p, -, hc⟩ | ⟨u, -, hc⟩
    · exact absurd hc (hp p)
    · exact absurd (.task hc) (hp .task)

theorem endTask (hf : h.loop.Filed) (hrun : h.loop.running = some (t, e)) :
    Onward (some t) h { h with loop := h.loop.endTask t e } :=
  of_quiet hf (.endTask (by rw [hrun]; rfl) t e) (.endTask h.loop t e)
    fun _ hc => .inr ⟨t, rfl, hc⟩

/-- A task goes on whose job is the next. -/
theorem resume (hf : h.loop.Filed) {j : Job} {jobs : List Job} (hjobs : h.loop.jobs = j :: jobs)
    (hj : j.task? = some t) (hidle : h.loop.running = none) (o : Ending) :
    Onward j.task? h
      { h with loop := ({ h.loop with jobs } : Loop Value Failure Frame).resume t o } := by
  have hspec := resume_spec { h.loop with jobs } t o
  have htasks (u : Nat) := resume_tasks { h.loop with jobs } t u o
  have hcells : (({ h.loop with jobs } : Loop Value Failure Frame).resume t o).cells = h.loop.cells :=
    hspec.2.1
  have hne {u : Nat} (hu : j.task? ≠ some u) : u ≠ t := fun e => hu (e ▸ hj)
  refine of_quiet (P := fun _ => False) hf (.of_job hjobs (.of_eq hcells hspec.2.2.1)
    ⟨Nat.le_of_eq (by rw [hcells]), fun u => (htasks u).1, fun u gs _ hu => (hspec.1 u).trans hu,
      fun u hu => ?_, fun u x _ hx => ?_, fun u hu hx => (htasks u).2 (hne hu) hx⟩ fun w e => ?_)
    ((Quiet.popped hjobs).trans (.resume _ t o)) fun _ hc => hc.elim
  · rw [waiting_resume, if_neg (hne hu)]
    rfl
  · rw [hidle] at hx
    cases hx
  · rw [e] at hj
    cases hj

theorem beginJob (hf : h.loop.Filed) {j : Job} {jobs : List Job} (hjobs : h.loop.jobs = j :: jobs)
    (hidle : h.loop.running = none) :
    Onward j.task? h (Host.beginJob j { h with loop := { h.loop with jobs } }) := by
  have hmem : j ∈ h.loop.jobs := by
    rw [hjobs]
    exact List.mem_cons_self
  cases j with
  | start t => exact resume hf hjobs rfl hidle _
  | wake t c => exact resume hf hjobs rfl hidle _
  | release w =>
    refine of_quiet hf (.release hjobs)
      ((Quiet.popped hjobs).trans (.finish { h.loop with jobs } w _)) fun c hc => .inl ?_
    rw [hc]
    exact View.Holds.owed (.loop (.job hmem))
  | notify q =>
    rw [beginJob_notify]
    have hquiet : Quiet (fun _ => False) h.loop { h.loop with jobs } := .popped hjobs
    have hdrop : Onward none h { h with loop := { h.loop with jobs } } :=
      of_quiet hf (.drop hjobs) hquiet fun _ hc => hc.elim
    have hg : Guards {} { h with loop := { h.loop with jobs } }
        (after (queryEnded q) { h with loop := { h.loop with jobs } }) := Within.rel_after _
    exact hdrop.trans hf.lt
      (fun _ hc hp => ((Quiet.handed (v := h.view) hquiet).private_ hc hp).1)
      (of_guards (hdrop.moves.filed hf) hg)

theorem refl (h : Host) : Onward who h h :=
  ⟨.refl _, fun _ _ hp => hp, fun _ _ _ _ _ ha => ha, fun _ _ _ _ hx => hx⟩

theorem tick (k : InOrder h) (hf : h.loop.Filed) : Onward h.mover h h.tick := by
  unfold mover
  rcases tick_cases h with ⟨t, e, f, below, hrun, hs, e'⟩ | ⟨t, e, hrun, -, e'⟩ | ⟨-, e'⟩ |
    ⟨j, jobs, hidle, hjobs, e'⟩
  · rw [hrun, e']
    exact step ⟨k, hrun, hs⟩ hf
  · rw [hrun, e']
    exact endTask hf hrun
  · rw [e']
    exact refl h
  · rw [hidle, hjobs, e']
    exact beginJob hf hjobs hidle

theorem fire (hf : h.loop.Filed) {t : Timer} (ht : t ∈ h.loop.timers) : Onward who h (h.fire t) := by
  have hdrop : h.loop.Moves who
      { h.loop with now := t.due, timers := dropTimer t.cell h.loop.timers } :=
    .of_lasts (.of_eq rfl rfl) (.of_tasks (Nat.le_refl _) rfl rfl)
  have hq : Quiet (· = t.cell) h.loop
      { h.loop with now := t.due, timers := dropTimer t.cell h.loop.timers } :=
    .dropped rfl rfl (fun _ hj => hj) fun _ hu => mem_dropTimer hu
  refine of_quiet hf (hdrop.trans (.finish _ _ _)) (hq.trans (.finish _ _ _)) fun c hc => .inl ?_
  rw [hc]
  exact View.Holds.owed (.loop (.timer ht))

theorem outside {P : Reaction → Prop} (hf : h.loop.Filed) (ho : Outside P h h') : Onward who h h' := by
  cases ho with
  | ask hfs =>
    have := Guards.newTask (W := {}) (tame_of_asked hfs)
    exact of_guards hf (Within.rel_after _)
  | submit | query | cancel | act => exact of_guards hf (Within.rel_after _)
  | worker p responder writeFault =>
    have hv : (after (changeProcess p fun proc => { proc with responder, writeFault }) h).view =
        h.view := view_changeProcess h p (fun _ => rfl) fun _ => rfl
    exact of_guards hf (by rw [Guards, hv]; exact .refl _)
  | world settings installer disk launcher connectionScripts bus =>
    exact of_guards hf (Guarded.refl h.view)
  | time now =>
    exact of_quiet (P := fun _ => False) hf
      (.of_lasts (.of_eq rfl rfl) (.of_tasks (Nat.le_refl _) rfl rfl))
      (.dropped rfl rfl (fun _ hj => hj) fun _ ht => ht) fun _ hc => hc.elim

end Onward

/-- Each task has a cell of its own for its end. -/
theorem filed_of_reachable {P : Reaction → Prop} (hr : Reachable Fresh (Outside P) h) :
    h.loop.Filed := by
  induction hr with
  | start hf =>
    rw [hf.loop]
    refine ⟨fun t c ht => ?_, fun t u c ht => ?_⟩ <;> cases ht
  | @tick h hr ih =>
    have k := inOrder_of_reachable hr
    rcases tick_cases h with ⟨t, e, f, below, hrun, hs, e'⟩ | ⟨t, e, hrun, -, e'⟩ | ⟨-, e'⟩ |
      ⟨j, jobs, hidle, hjobs, e'⟩
    · exact e' ▸ (Onward.step ⟨k, hrun, hs⟩ ih).moves.filed ih
    · exact e' ▸ (Onward.endTask ih hrun).moves.filed ih
    · exact e'.symm ▸ ih
    · exact e' ▸ (Onward.beginJob ih hjobs hidle).moves.filed ih
  | @fire h t _ ht ih =>
    have ho : Onward none h (h.fire t) := .fire ih ht
    exact ho.moves.filed ih
  | @act h h' _ _ ho ih =>
    have ho : Onward none h h' := .outside ih ho
    exact ho.moves.filed ih

end GhciHost.Host
