import GhciHost.Proofs.Session.Crowned
import GhciHost.Proofs.Session.Onward

/-!
# Turns are passed on

Nobody waits in vain for the turn to start a session.  Who has the turn has its frames on the stack
until it is over, then the first who waits is called, and who is called goes on.  So when nothing is
left to do, the queue of a session is empty unless somebody who has the turn waits for a tool or a
worker.

* `Relay`   the invariant;
* `Relay.same`   steps that have nothing to do with turns;
* `Relay.turn`   steps that take a turn, end one or queue for one;
* `relay_of_reachable`   turns are passed on in every run.
-/

namespace GhciHost.Host

open Loop

variable {h h' : Host} {who : Option Nat} {t s c : Nat} {e : Ending} {f : Frame}
  {below : List Frame}

/-- A task waits with the cell for the turn to start a session, and goes on when it is called. -/
def Waits (h : Host) (s c : Nat) : Prop :=
  ∃ t below, h.loop.stack? t = some (.startTurn s c :: below) ∧
    ((∃ e, h.loop.running = some (t, e)) ∨
      h.loop.waiting t = some c ∧ h.loop.Pending c (.wake t))

/-- Turns are passed on. -/
structure Relay (h : Host) : Prop where
  queued : ∀ s c, h.Queued s c → h.Waits s c
  called : ∀ s a c cs, h.core? s = some a → a.starting = false → a.startWaiters = c :: cs →
    h.loop.isDone c = true
  unfailed : ∀ s c x, h.Queued s c → h.loop.outcome? c ≠ some (.failed x)
  driven : ∀ s a, h.core? s = some a → a.starting = true →
    ∃ t fs, h.loop.stack? t = some fs ∧ s ∈ held fs

/-- Who waits goes on waiting. -/
theorem Onward.waits (o : Onward who h h') (hw : h.Waits s c)
    (hself : ∀ t below, who = some t → h.loop.stack? t = some (.startTurn s c :: below) →
      h'.loop.stack? t = some (.startTurn s c :: below) ∧ ∃ e, h'.loop.running = some (t, e)) :
    h'.Waits s c := by
  obtain ⟨t, below, ht, hgo⟩ := hw
  by_cases hwho : who = some t
  · obtain ⟨ht', hrun⟩ := hself t below hwho ht
    exact ⟨t, below, ht', .inl hrun⟩
  · refine ⟨t, below, o.moves.stack t _ hwho ht, hgo.imp (fun hrun => ?_) fun hwait => ?_⟩
    · obtain ⟨e, he⟩ := hrun
      exact ⟨e, o.moves.running t e hwho he⟩
    · exact ⟨(o.moves.waiting t hwho).trans hwait.1, o.moves.wake t c hwho hwait.2⟩

theorem Onward.isDone (o : Onward who h h') (hc : h.loop.isDone c = true) :
    h'.loop.isDone c = true := by
  obtain ⟨x, hx⟩ := Option.isSome_iff_exists.1 hc
  rw [Loop.isDone, o.moves.outcome c x hx]
  rfl

/-- The task that took a step has the frames that its top frame left it. -/
theorem Steps.stack_self (k : Steps h t e f below) :
    (Host.step t e h).loop.stack? t = some ((nextOf (resume f e) h).push ++ below) := by
  rw [step_eq k.top]
  have hg : Guards { answer := fun c => ∃ s, h.Queued s c } h (after (resume f e) h) :=
    k.queueGuards _
  exact (stack?_proceed (k.runningOn hg) _ t).trans (if_pos rfl)

/-- A task that waits for a cell that is not done will be woken. -/
theorem Steps.waits (k : Steps h t e f below) {push : List Frame} {c : Nat} {h₁ : Host}
    (e₁ : (resume f e).run h = .ok (.wait push c) h₁) (hlt : c < h₁.loop.cells.size)
    (hnew : h₁.loop.outcome? c = none) : (Host.step t e h).loop.waiting t = some c ∧
      (Host.step t e h).loop.Pending c (.wake t) := by
  have hg : Guards { answer := fun c => ∃ s, h.Queued s c } h h₁ := by
    have := k.queueGuards fun _ _ => False
    rwa [after_of_ok e₁] at this
  have hstep : Host.step t e h = goOn t below (.wait push c) h₁ := by
    rw [step_eq k.top, nextOf_of_ok e₁, after_of_ok e₁]
    rfl
  rw [hstep]
  rcases proceed_cases (k.runningOn hg) (.wait push c) with
    ⟨e', -, -, hno | ⟨d, hd, ho⟩⟩ | ⟨d, hd, -, -, hwait⟩
  · cases hno
  · cases hd
    rw [hnew] at ho
    cases ho
  · cases hd
    exact ⟨hwait, pending_proceed hlt hnew⟩

theorem cores_step {v : View} {h₁ : Host} {n : Next} (hs : h.loop.stack? t = some (f :: below))
    (e₁ : (resume f e).run h = .ok n h₁) (hv : h₁.view = v) : (step t e h).core? = v.cores := by
  rw [step_eq hs, after_of_ok e₁]
  exact congrArg View.cores hv

/-- The first who waits is called. -/
theorem isDone_callFirst {l : Loop Value Failure Frame} {c : Nat} (cs : List Nat)
    (hc : c < l.cells.size) : (callFirst (c :: cs) l).isDone c = true := by
  rw [callFirst, Loop.isDone, Loop.release, outcome?_finish_self _ hc]
  rfl

/-- A task that goes on is the one that runs. -/
theorem running_resume {l : Loop Value Failure Frame} {t : Nat} {fs : List Frame}
    (ht : l.stack? t = some fs) (o : Ending) : ∃ e, (l.resume t o).running = some (t, e) := by
  obtain ⟨task, htask, -⟩ := Option.map_eq_some_iff.1 ht
  rw [Loop.resume, htask]
  exact ⟨_, rfl⟩

namespace Relay

/-- Nobody takes a turn, ends one or queues for one. -/
theorem same (r : Relay h) (k : InOrder h) (o : Onward who h h')
    (hcores : SameTurns h.core? h'.core?)
    (hself : ∀ t s c below, who = some t → h.loop.stack? t = some (.startTurn s c :: below) →
      h'.loop.stack? t = some (.startTurn s c :: below) ∧ ∃ e, h'.loop.running = some (t, e))
    (hheld : ∀ t fs s, who = some t → h.loop.stack? t = some fs → s ∈ held fs →
      ∃ gs, h'.loop.stack? t = some gs ∧ s ∈ held gs) : Relay h' := by
  have hqueued {s c : Nat} (hq : h'.Queued s c) : h.Queued s c := by
    obtain ⟨b, hb, hc⟩ := hq
    rcases hcores.new s b hb with ⟨a, ha, -, e⟩ | ⟨-, e⟩
    · exact ⟨a, ha, e ▸ hc⟩
    · rw [e] at hc
      cases hc
  refine ⟨fun s c hq => o.waits (r.queued s c (hqueued hq)) fun t below => hself t s c below,
    fun s b c cs hb hfree hw => ?_, fun s c x hq hx => ?_, fun s b hb hst => ?_⟩
  · rcases hcores.new s b hb with ⟨a, ha, es, e⟩ | ⟨-, e⟩
    · exact o.isDone (r.called s a c cs ha (es ▸ hfree) (e ▸ hw))
    · rw [e] at hw
      cases hw
  · obtain ⟨a, ha, hc⟩ := hqueued hq
    obtain ⟨hlt, hp⟩ := k.queues.own s a c ha hc
    exact r.unfailed s c x ⟨a, ha, hc⟩ (o.unfailed c x hlt hp hx)
  · rcases hcores.new s b hb with ⟨a, ha, es, -⟩ | ⟨e, -⟩
    · obtain ⟨t, fs, ht, hs⟩ := r.driven s a ha (es ▸ hst)
      by_cases hwho : who = some t
      · exact ⟨t, hheld t fs s hwho ht hs⟩
      · exact ⟨t, fs, o.moves.stack t fs hwho ht, hs⟩
    · rw [e] at hst
      cases hst

/-- The turn of a session is taken, is over, or is queued for. -/
theorem turn (r : Relay h) (k : Steps h t e f below) (hf : h.loop.Filed) (hturn : f.isTurn = true)
    {a : Session.Core} {F : Session.Core → Session.Core} (ha : h.core? s = some a)
    (hcores : (step t e h).core? = bump s F h.core?)
    (hturns : ∀ i c, f = .startTurn i c → i = s)
    (hwait : ∀ c ∈ (F a).startWaiters, (c ∈ a.startWaiters ∧ f ≠ .startTurn s c) ∨
      h.loop.cells.size ≤ c ∧ (step t e h).Waits s c)
    (hcalled : ∀ c cs, (F a).starting = false → (F a).startWaiters = c :: cs →
      (step t e h).loop.isDone c = true)
    (hdriven : (F a).starting = true → a.starting = true ∨
      ∃ fs, (step t e h).loop.stack? t = some fs ∧ s ∈ held fs)
    (hheld : ∀ i, i ∈ held (f :: below) → (i = s → (F a).starting = true) →
      ∃ fs, (step t e h).loop.stack? t = some fs ∧ i ∈ held fs) : Relay (step t e h) := by
  have o : Onward (some t) h (step t e h) := .step k hf
  have hold {i c : Nat} (hq : h.Queued i c) (hne : f ≠ .startTurn i c) : (step t e h).Waits i c :=
    o.waits (r.queued i c hq) fun u gs hu hgs => by
      cases hu
      rw [k.top] at hgs
      cases hgs
      exact absurd rfl hne
  have hqueued {i c : Nat} (hq : (step t e h).Queued i c) :
      h.Queued i c ∧ f ≠ .startTurn i c ∨ h.loop.cells.size ≤ c ∧ (step t e h).Waits i c := by
    obtain ⟨b, hb, hc⟩ := hq
    rw [hcores] at hb
    rcases bump_eq_some hb with ⟨rfl, a', ha', rfl⟩ | ⟨his, hb⟩
    · rw [ha] at ha'
      cases ha'
      exact (hwait c hc).imp_left fun hc => ⟨⟨a, ha, hc.1⟩, hc.2⟩
    · exact .inl ⟨⟨b, hb, hc⟩, fun e => his (hturns i c e)⟩
  refine ⟨fun i c hq => ?_, fun i b c cs hb hfree hw => ?_, fun i c x hq hx => ?_,
    fun i b hb hst => ?_⟩
  · rcases hqueued hq with ⟨hq, hne⟩ | ⟨-, hw⟩
    · exact hold hq hne
    · exact hw
  · rw [hcores] at hb
    rcases bump_eq_some hb with ⟨rfl, a', ha', rfl⟩ | ⟨-, hb⟩
    · rw [ha] at ha'
      cases ha'
      exact hcalled c cs hfree hw
    · exact o.isDone (r.called i b c cs hb hfree hw)
  · have hx := k.unfailed_of_turn hturn hx
    rcases hqueued hq with ⟨hq, -⟩ | ⟨hc, -⟩
    · exact r.unfailed i c x hq hx
    · rw [outcome?_of_size_le hc] at hx
      cases hx
  · have hstays {b : Session.Core} (hb : h.core? i = some b) (hst : b.starting = true)
        (hi : i = s → (F a).starting = true) :
        ∃ u fs, (step t e h).loop.stack? u = some fs ∧ i ∈ held fs := by
      obtain ⟨u, fs, hu, hs⟩ := r.driven i b hb hst
      by_cases hut : u = t
      · subst hut
        rw [k.top] at hu
        cases hu
        exact ⟨u, hheld i hs hi⟩
      · exact ⟨u, fs, o.moves.stack u fs (fun e => hut (Option.some.inj e).symm) hu, hs⟩
    rw [hcores] at hb
    rcases bump_eq_some hb with ⟨rfl, a', ha', rfl⟩ | ⟨his, hb⟩
    · rw [ha] at ha'
      cases ha'
      rcases hdriven hst with hst' | hfs
      · exact hstays ha hst' fun _ => hst
      · exact ⟨t, hfs⟩
    · exact hstays hb hst fun e => absurd e his

/-! ## Steps of frames -/

/-- A frame that has no part in turns goes on. -/
theorem ofApart (r : Relay h) (k : Steps h t e f below) (hf : h.loop.Filed)
    (hturn : ∀ s c, f ≠ .startTurn s c) (hends : f.ends? = none)
    (hcores : SameTurns h.core? (after (resume f e) h).core?) : Relay (step t e h) := by
  refine r.same k.inOrder (.step k hf) ?_ (fun u s c gs hu hgs => ?_) fun u gs s hu hgs hs => ?_
  · rw [step_eq k.top]
    exact hcores
  · cases hu
    rw [k.top] at hgs
    cases hgs
    exact absurd rfl (hturn s c)
  · cases hu
    rw [k.top] at hgs
    cases hgs
    rw [held_cons, hends] at hs
    refine ⟨_, k.stack_self, ?_⟩
    rw [held_append]
    exact List.mem_append_right _ hs

theorem startSession (r : Relay h) (k : Steps h t e .startSession below) (hf : h.loop.Filed) :
    Relay (step t e h) := by
  have hpass (hrun : (resume .startSession e).run h = .ok (.pass e) h) : Relay (step t e h) :=
    r.ofApart k hf nofun rfl (by rw [after_of_ok hrun]; exact .refl _)
  cases e with
  | failed x => exact hpass rfl
  | cancelled => exact hpass rfl
  | value v =>
    cases v with
    | session s =>
      obtain ⟨a, ha⟩ := k.core?_of_start
      have hself := k.stack_self
      rcases startSession_run ha with ⟨hfree, hcancelled, h₁, e₁, hv⟩ | ⟨c, h₁, hc, hne, e₁, hv⟩
      · have e₁ : (resume .startSession (.value (.session s))).run h = _ := e₁
        rw [nextOf_of_ok e₁] at hself
        refine r.turn k hf rfl ha (cores_step k.top e₁ hv) nofun (fun c hc => .inl ⟨hc, nofun⟩)
          (fun c cs hst => by cases hst) (fun _ => .inr ⟨_, hself, ?_⟩) fun i hi _ => ⟨_, hself, ?_⟩
        · exact List.mem_cons_self
        · rw [held_append]
          exact List.mem_append_right _ hi
      · have e₁ : (resume .startSession (.value (.session s))).run h = _ := e₁
        have hloop : h₁.loop = h.loop.newCell.2 := congrArg View.loop hv
        have hnew : h₁.loop.outcome? c = none := by
          rw [hloop, hc]
          exact outcome?_newCell h.loop
        have hlt : c < h₁.loop.cells.size := by
          rw [hloop, hc]
          simp [Loop.newCell]
        rw [nextOf_of_ok e₁] at hself
        refine r.turn k hf rfl ha (cores_step k.top e₁ hv) nofun
          (fun d hd => (List.mem_append.1 hd).imp (fun hd => ⟨hd, nofun⟩) fun hd => ?_)
          (fun d ds hfree hw => ?_) .inl fun i hi _ => ⟨_, hself, ?_⟩
        · rw [List.mem_singleton.1 hd]
          exact ⟨Nat.le_of_eq hc.symm, t, _, hself, .inr (k.waits e₁ hlt hnew)⟩
        · -- whoever was the first stays so
          obtain ⟨d', ds', hw'⟩ := List.exists_cons_of_ne_nil (hne hfree)
          dsimp only at hw
          rw [hw'] at hw
          cases hw
          exact (Onward.step k hf).isDone (r.called s a d ds' ha hfree hw')
        · rw [held_append]
          exact List.mem_append_right _ hi
    | _ => exact hpass rfl

theorem startTurn (r : Relay h) (k : Steps h t e (.startTurn s c) below) (hf : h.loop.Filed) :
    Relay (step t e h) := by
  obtain ⟨-, ⟨a, ha, -⟩, -⟩ := k.inOrder.queues.turn t _ _ s c k.top List.mem_cons_self rfl
  have ha : h.core? s = some a := ha
  have hself := k.stack_self
  have hleft {d : Nat} (hd : d ∈ a.startWaiters.erase c) :
      d ∈ a.startWaiters ∧ Frame.startTurn s c ≠ .startTurn s d := by
    refine ⟨List.mem_of_mem_erase hd, fun e => ?_⟩
    cases e
    exact (k.inOrder.queues.nodup s a ha).not_mem_erase hd
  have hheld {i : Nat} (hi : i ∈ held (Frame.startTurn s c :: below)) :
      i ∈ held ((nextOf (resume (.startTurn s c) e) h).push ++ below) := by
    rw [held_append]
    exact List.mem_append_right _ hi
  by_cases hv : ∃ v, e = .value v
  · obtain ⟨v, rfl⟩ := hv
    obtain ⟨h₁, e₁, hv⟩ := startTurn_run s c v h
    have e₁ : (resume (.startTurn s c) (.value v)).run h = _ := e₁
    refine r.turn k hf rfl ha (cores_step k.top e₁ hv) (fun i d hi => by cases hi; rfl) (fun d hd => .inl (hleft hd))
      (fun d ds hst => by cases hst) (fun _ => .inr ⟨_, hself, ?_⟩) fun i hi _ => ⟨_, hself, hheld hi⟩
    rw [nextOf_of_ok e₁]
    exact List.mem_cons_self
  · obtain ⟨h₁, e₁, hv⟩ := startTurn_run_other (c := c) ha fun v he => hv ⟨v, he⟩
    have e₁ : (resume (.startTurn s c) e).run h = _ := e₁
    refine r.turn k hf rfl ha (cores_step k.top e₁ hv) (fun i d hi => by cases hi; rfl) (fun d hd => .inl (hleft hd))
      (fun d ds hfree hw => ?_) .inl fun i hi _ => ⟨_, hself, hheld hi⟩
    -- the turn is free, so the next one is called
    have hloop : h₁.loop = _ := congrArg View.loop hv
    dsimp only at hfree hw
    rw [hfree, if_neg Bool.false_ne_true, hw] at hloop
    have hmem : d ∈ a.startWaiters.erase c := hw ▸ List.mem_cons_self
    have hlt := (k.inOrder.queues.own s a d ha (hleft hmem).1).1
    rw [step_eq k.top, nextOf_of_ok e₁, after_of_ok e₁]
    refine (lasts_proceed _).isDone ?_
    rw [hloop]
    exact isDone_callFirst ds hlt

theorem startEnd (r : Relay h) (k : Steps h t e (.startEnd s) below) (hf : h.loop.Filed) :
    Relay (step t e h) := by
  obtain ⟨a, ha, -⟩ := k.inOrder.turns.starting t _ s k.top (by simp [Frame.ends?])
  have ha : h.core? s = some a := ha
  obtain ⟨h₁, e₁, hv⟩ := startEnd_run ha e
  have e₁ : (resume (.startEnd s) e).run h = _ := e₁
  have hself := k.stack_self
  refine r.turn k hf rfl ha (cores_step k.top e₁ hv) (fun _ _ he => by cases he)
    (fun d hd => .inl ⟨hd, fun he => by cases he⟩) (fun d ds _ hw => ?_)
    (fun hst => by cases hst) fun i hi his => ⟨_, hself, ?_⟩
  · have hloop : h₁.loop = _ := congrArg View.loop hv
    have hw : a.startWaiters = d :: ds := hw
    rw [hw] at hloop
    have hlt := (k.inOrder.queues.own s a d ha (hw ▸ List.mem_cons_self)).1
    rw [step_eq k.top, nextOf_of_ok e₁, after_of_ok e₁]
    refine (lasts_proceed _).isDone ?_
    rw [hloop]
    exact isDone_callFirst ds hlt
  · rw [nextOf_of_ok e₁]
    refine (List.mem_cons.1 hi).resolve_left fun e => ?_
    cases his e

theorem step (r : Relay h) (k : Steps h t e f below) (hf : h.loop.Filed) :
    Relay (Host.step t e h) := by
  cases hord : f.isOrdinary with
  | true =>
    have hcalm : Calm h (after (resume f e) h) := (Calm.resume hord e).rel_after h
    exact r.ofApart k hf (fun s c hs => by rw [hs] at hord; cases hord)
      (ends?_of_isPlain (isPlain_of_isOrdinary hord)) (.of_calm hcalm)
  | false =>
    cases hturn : f.isTurn with
    | false =>
      exact r.ofApart k hf (fun s c hs => by rw [hs] at hturn; cases hturn)
        (ends?_of_not_turn hturn) (.of_course (k.course hord hturn))
    | true =>
      cases f with
      | startSession => exact r.startSession k hf
      | startTurn s c => exact r.startTurn k hf
      | startEnd s => exact r.startEnd k hf
      | _ => cases hturn

/-! ## Other steps -/

/-- Whatever happens that lets no task go on. -/
theorem idle (r : Relay h) (k : InOrder h) (o : Onward none h h')
    (hcores : SameTurns h.core? h'.core?) : Relay h' :=
  r.same k o hcores (fun _ _ _ _ hno => by cases hno) fun _ _ _ hno => by cases hno

theorem endTask (r : Relay h) (k : InOrder h) (hf : h.loop.Filed)
    (hrun : h.loop.running = some (t, e)) (hend : ∀ gs, h.loop.stack? t = some gs → gs = []) :
    Relay { h with loop := h.loop.endTask t e } := by
  refine r.same k (.endTask hf hrun) (.refl _) (fun u s c gs hu hgs => ?_) fun u gs s hu hgs hs => ?_
  · cases hu
    cases hend _ hgs
  · cases hu
    rw [hend gs hgs] at hs
    cases hs

theorem beginJob (r : Relay h) (k : InOrder h) (hf : h.loop.Filed) {j : Job} {jobs : List Job}
    (hjobs : h.loop.jobs = j :: jobs) (hidle : h.loop.running = none) :
    Relay (Host.beginJob j { h with loop := { h.loop with jobs } }) := by
  have o := Onward.beginJob hf hjobs hidle
  have hgo {t : Nat} {x : Ending} (o : Onward (some t) h
      { h with loop := ({ h.loop with jobs } : Loop Value Failure Frame).resume t x }) :
      Relay { h with loop := ({ h.loop with jobs } : Loop Value Failure Frame).resume t x } := by
    have hspec := resume_spec { h.loop with jobs } t x
    refine r.same k o (.refl _) (fun u s c gs hu hgs => ?_) fun u gs s hu hgs hs => ?_
    · cases hu
      exact ⟨(hspec.1 t).trans hgs, running_resume (l := { h.loop with jobs }) hgs x⟩
    · exact ⟨gs, (hspec.1 u).trans hgs, hs⟩
  cases j with
  | start t => exact hgo o
  | wake t c => exact hgo o
  | release w => exact r.idle k o (.refl _)
  | notify q =>
    refine r.idle k o ?_
    rw [beginJob_notify]
    have hcalm : Calm { h with loop := { h.loop with jobs } }
        (after (queryEnded q) { h with loop := { h.loop with jobs } }) := Within.rel_after _
    exact .of_calm (h := { h with loop := { h.loop with jobs } }) hcalm

theorem tick (r : Relay h) (k : InOrder h) (hf : h.loop.Filed) : Relay h.tick := by
  rcases tick_cases h with ⟨t, e, f, below, hrun, hs, e'⟩ | ⟨t, e, hrun, hend, e'⟩ | ⟨-, e'⟩ |
    ⟨j, jobs, hidle, hjobs, e'⟩
  · exact e' ▸ r.step ⟨k, hrun, hs⟩ hf
  · exact e' ▸ r.endTask k hf hrun hend
  · exact e'.symm ▸ r
  · exact e' ▸ r.beginJob k hf hjobs hidle

theorem fire (r : Relay h) (k : InOrder h) (hf : h.loop.Filed) {t : Timer}
    (ht : t ∈ h.loop.timers) : Relay (h.fire t) :=
  r.idle k (.fire hf ht) (.refl _)

theorem outside {P : Reaction → Prop} (r : Relay h) (k : InOrder h) (hf : h.loop.Filed)
    (ho : Outside P h h') : Relay h' := by
  refine r.idle k (.outside hf ho) ?_
  cases ho with
  | ask hfs => exact .refl _
  | submit | query | cancel | act => exact SameTurns.of_calm (Within.rel_after h)
  | worker | world | time => exact .refl _

end Relay

theorem Fresh.relay (hf : Fresh h) : Relay h := by
  have hnone (s : Nat) : h.core? s = none := hf.core? s
  refine ⟨fun s c hq => ?_, fun s a c cs ha => ?_, fun s c x hq => ?_, fun s a ha => ?_⟩
  · obtain ⟨a, ha, -⟩ := hq
    rw [hnone] at ha
    cases ha
  · rw [hnone] at ha
    cases ha
  · obtain ⟨a, ha, -⟩ := hq
    rw [hnone] at ha
    cases ha
  · rw [hnone] at ha
    cases ha

/-- Turns are passed on in every run. -/
theorem relay_of_reachable {P : Reaction → Prop} (hr : Reachable Fresh (Outside P) h) :
    Relay h := by
  induction hr with
  | start hf => exact hf.relay
  | tick hr ih => exact ih.tick (inOrder_of_reachable hr) (filed_of_reachable hr)
  | fire hr ht ih => exact ih.fire (inOrder_of_reachable hr) (filed_of_reachable hr) ht
  | act hr _ ho ih => exact ih.outside (inOrder_of_reachable hr) (filed_of_reachable hr) ho

end GhciHost.Host
