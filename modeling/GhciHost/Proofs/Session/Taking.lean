import GhciHost.Proofs.Session.InOrder

/-!
# Turns are taken in order

What the frames do that queue for the turn to start a session, take it and end it, and that their
steps keep the invariant: a turn is taken by one task, and whoever is called is the first in the
queue.

* `startSession_run`, `startTurn_run`, `startTurn_run_other`, `startEnd_run`   what they do;
* `Steps.startSession`, `Steps.startTurn`, `Steps.startEnd`   their steps keep the invariant.
-/

namespace GhciHost.Host

open Loop

/-! ## What the frames do -/

theorem run_isCancelled (c : Nat) (h : Host) : ∃ b, (isCancelled c).run h = .ok b h ∧
    (b = true → h.loop.outcome? c = some .cancelled) := by
  unfold isCancelled
  rw [run_bind_ok (run_get h)]
  split
  · next e => exact ⟨true, rfl, fun _ => e⟩
  · exact ⟨false, rfl, fun hb => absurd hb Bool.false_ne_true⟩

theorem run_allM_isCancelled (cells : List Nat) (h : Host) :
    ∃ b, (cells.allM isCancelled).run h = .ok b h ∧
      (b = true → ∀ c ∈ cells, h.loop.outcome? c = some .cancelled) ∧
        (b = false → cells ≠ []) := by
  induction cells with
  | nil => exact ⟨true, rfl, fun _ _ hc => absurd hc List.not_mem_nil, Bool.noConfusion⟩
  | cons c cells ih =>
    rw [List.allM_cons]
    obtain ⟨b, e, hb⟩ := run_isCancelled c h
    rw [run_bind_ok e]
    cases b with
    | false => exact ⟨false, rfl, Bool.noConfusion, fun _ => List.cons_ne_nil _ _⟩
    | true =>
      obtain ⟨b', e', hb', -⟩ := ih
      exact ⟨b', e', fun h' d hd => (List.mem_cons.1 hd).elim (fun hd => hd ▸ hb rfl) (hb' h' d),
        fun _ => List.cons_ne_nil _ _⟩

/-- A session changes, but not those who wait until it is ready. -/
theorem view_bump (h : Host) (s : Nat) {f : Session → Session} {g : Session.Core → Session.Core}
    (hf : ∀ a, (f a).core = g a.core) (hr : ∀ a, (f a).readyWaiters = a.readyWaiters) :
    (after (changeSession s f) h).view = { h.view with cores := bump s g h.core? } := by
  have hready : readyWaiters (after (changeSession s f) h) = h.readyWaiters := by
    funext i
    have e : readyWaiters (after (changeSession s f) h) i = _ := readyWaiters_changeSession h s i f
    rw [e]
    split
    · simp only [hr]
      rfl
    · rfl
  simp only [view, core?_bump h s hf, hready]
  rfl

/-- The first who waits is called, if there is one. -/
def callFirst (waiters : List Nat) (l : Loop Value Failure Frame) : Loop Value Failure Frame :=
  match waiters with
  | c :: _ => l.release c
  | [] => l

theorem callNext_run (s : Nat) (h : Host) : ∃ h', (callNext s).run h = .ok () h' ∧
    h'.view = { h.view with loop := callFirst (h.sessionOf s).startWaiters h.loop } := by
  unfold callNext
  rw [run_bind_ok (run_session s h)]
  cases (h.sessionOf s).startWaiters with
  | nil => exact ⟨_, rfl, rfl⟩
  | cons c cs => exact ⟨_, rfl, rfl⟩

theorem startSession_run {h : Host} {s : Nat} {a : Session.Core} (ha : h.core? s = some a) :
    (a.starting = false ∧ (∀ c ∈ a.startWaiters, h.loop.outcome? c = some .cancelled) ∧
      ∃ h', (startSession s).run h =
          .ok (.call [.startBody s, .startEnd s, .give (.session s)]) h' ∧
        h'.view = { h.view with cores := bump s (fun a => { a with starting := true }) h.core? }) ∨
    ∃ c h', c = h.loop.cells.size ∧ (a.starting = false → a.startWaiters ≠ []) ∧
      (startSession s).run h = .ok (.wait [.startTurn s c, .give (.session s)] c) h' ∧
        h'.view = { h.view with
          loop := h.loop.newCell.2
          cores := bump s (fun a => { a with startWaiters := a.startWaiters ++ [c] }) h.core? } := by
  unfold startSession
  rw [run_bind_ok (run_session s h)]
  obtain ⟨b, e, hb, hne⟩ := run_allM_isCancelled (h.sessionOf s).startWaiters h
  dsimp only
  rw [run_bind_ok e]
  rw [show (h.sessionOf s).starting = a.starting from congrArg Session.Core.starting (core?_eq ha)]
  rw [show (h.sessionOf s).startWaiters = a.startWaiters from
    congrArg Session.Core.startWaiters (core?_eq ha)] at hb hne
  split
  · next hcond =>
    simp only [Bool.and_eq_true, Bool.not_eq_true'] at hcond
    refine .inl ⟨hcond.1, hb hcond.2, _, run_bind_ok (Succeeds.run_unit ..), ?_⟩
    exact view_bump h s (fun _ => rfl) fun _ => rfl
  · next hcond =>
    refine .inr ⟨_, after (changeSession s fun session =>
      { session with startWaiters := session.startWaiters ++ [h.loop.cells.size] })
      { h with loop := h.loop.newCell.2 }, rfl, fun hfree => hne ?_, ?_, ?_⟩
    · simp only [hfree, Bool.not_false, Bool.true_and, Bool.not_eq_true] at hcond
      exact hcond
    · have hnew : newCell.run h = .ok h.loop.cells.size { h with loop := h.loop.newCell.2 } := rfl
      rw [run_bind_ok hnew, run_bind_ok (Succeeds.run_unit ..)]
      rfl
    · exact view_bump { h with loop := h.loop.newCell.2 } s (fun _ => rfl) fun _ => rfl

theorem startTurn_run (s c : Nat) (v : Value) (h : Host) : ∃ h',
    (startTurn s c (.value v)).run h = .ok (.call [.startBody s, .startEnd s]) h' ∧
      h'.view = { h.view with cores := bump s (fun a =>
        { a with startWaiters := a.startWaiters.erase c, starting := true }) h.core? } := by
  unfold startTurn
  rw [run_bind_ok (Succeeds.run_unit ..)]
  refine ⟨_, run_bind_ok (Succeeds.run_unit ..), ?_⟩
  refine (view_bump _ s (f := fun a => { a with starting := true })
    (g := fun a => { a with starting := true }) (fun _ => rfl) fun _ => rfl).trans ?_
  have e := view_bump h s (f := fun a => { a with startWaiters := a.startWaiters.erase c })
    (g := fun a => { a with startWaiters := a.startWaiters.erase c }) (fun _ => rfl) fun _ => rfl
  rw [e, show core? (after (changeSession s fun a =>
    { a with startWaiters := a.startWaiters.erase c }) h) = _ from congrArg View.cores e]
  simp only [bump_bump]

theorem startTurn_run_other {s c : Nat} {e : Ending} {h : Host} {a : Session.Core}
    (ha : h.core? s = some a) (he : ∀ v, e ≠ .value v) : ∃ h',
    (startTurn s c e).run h = .ok (.pass e) h' ∧
      h'.view = { h.view with
        loop := if a.starting then h.loop else callFirst (a.startWaiters.erase c) h.loop
        cores := bump s (fun a => { a with startWaiters := a.startWaiters.erase c }) h.core? } := by
  unfold startTurn
  rw [run_bind_ok (Succeeds.run_unit ..)]
  have hv := view_bump h s (f := fun a => { a with startWaiters := a.startWaiters.erase c })
    (g := fun a => { a with startWaiters := a.startWaiters.erase c }) (fun _ => rfl) fun _ => rfl
  have hc := core?_eq (h := after (changeSession s fun a =>
    { a with startWaiters := a.startWaiters.erase c }) h) (s := s)
    ((congrFun (congrArg View.cores hv) s).trans (bump_self ha))
  generalize after (changeSession s fun a =>
    { a with startWaiters := a.startWaiters.erase c }) h = h₁ at hv hc ⊢
  have hstarting : (h₁.sessionOf s).starting = a.starting := congrArg Session.Core.starting hc
  have hwaiters : (h₁.sessionOf s).startWaiters = a.startWaiters.erase c :=
    congrArg Session.Core.startWaiters hc
  cases e with
  | value v => exact absurd rfl (he v)
  | failed x | cancelled =>
    dsimp only
    rw [run_bind_ok (run_session s h₁), hstarting]
    cases a.starting with
    | true => exact ⟨h₁, rfl, hv⟩
    | false =>
      obtain ⟨h₂, e₂, hv₂⟩ := callNext_run s h₁
      refine ⟨h₂, run_bind_ok e₂, hv₂.trans ?_⟩
      rw [hwaiters, hv, show h₁.loop = h.loop from congrArg View.loop hv]
      rfl

theorem startEnd_run {s : Nat} {h : Host} {a : Session.Core} (ha : h.core? s = some a)
    (e : Ending) : ∃ h', (startEnd s e).run h = .ok (.pass e) h' ∧
      h'.view = { h.view with
        loop := callFirst a.startWaiters h.loop
        cores := bump s (fun a => { a with starting := false }) h.core? } := by
  unfold startEnd
  rw [run_bind_ok (Succeeds.run_unit ..)]
  have hv := view_bump h s (f := fun a => { a with starting := false })
    (g := fun a => { a with starting := false }) (fun _ => rfl) fun _ => rfl
  have hc := core?_eq (h := after (changeSession s fun a => { a with starting := false }) h) (s := s)
    ((congrFun (congrArg View.cores hv) s).trans (bump_self ha))
  generalize after (changeSession s fun a => { a with starting := false }) h = h₁ at hv hc ⊢
  have hwaiters : (h₁.sessionOf s).startWaiters = a.startWaiters :=
    congrArg Session.Core.startWaiters hc
  obtain ⟨h₂, e₂, hv₂⟩ := callNext_run s h₁
  refine ⟨h₂, run_bind_ok e₂, hv₂.trans ?_⟩
  rw [hwaiters, hv, show h₁.loop = h.loop from congrArg View.loop hv]

/-! ## Steps of the frames -/

theorem nextOf_of_ok {a : Action Next} {h h' : Host} {n : Next} (e : a.run h = .ok n h') :
    nextOf a h = n := by
  simp [nextOf, e]

theorem stack?_callFirst (waiters : List Nat) (l : Loop Value Failure Frame) (u : Nat) :
    (callFirst waiters l).stack? u = l.stack? u := by
  unfold callFirst
  split
  · rw [stack?, release, tasks_finish]
    rfl
  · rfl

/-- The first who waits is called, and a session changes. -/
theorem guarded_callFirst {W : Leave} {v : View} {waiters : List Nat}
    (hw : ∀ c, waiters.head? = some c → W.answer c) (cores : Cores) :
    Guarded W v { v with loop := callFirst waiters v.loop, cores } := by
  have hloop : Guarded W v { v with loop := callFirst waiters v.loop } := by
    unfold callFirst
    split
    · next c cs =>
      refine .of_loop (.finish v.loop c _) (fun _ hd => .inl (holds_finish hd)) fun d hd => ?_
      rcases answered_finish hd with hd | ⟨rfl, -⟩
      · exact .inl hd
      · exact .inr (.inl (hw _ rfl))
    · exact .refl v
  exact hloop.trans (.of_others cores _ _)

/-- Frames are pushed that neither start a session that is given above them nor take one to a
    phase. -/
theorem Pushed.quiet {v v' : View} {t : Nat} {e : Ending} {f : Frame} {below push : List Frame}
    (k : Replaced v v' t e f below push) (hf : f.isFind = false)
    (hpush : ∀ g ∈ push, Fits v'.cores g ∧ g.isStart = false ∧ g.launches? = none ∧
      g.staged? = none) (hmounted : Mounted (push ++ below)) : Pushed v v' t f below push where
  fits g hg := (hpush g hg).1
  mounted := hmounted
  fed := by
    have hfed := k.fed
    rw [hf] at hfed
    exact .inl (fed_append (fed_of_not_start (fun g hg => (hpush g hg).2.1) false) hfed)
  launch := .inl fun g hg => (hpush g hg).2.2.1
  staged := .inl (List.filterMap_eq_nil_iff.2 fun g hg => (hpush g hg).2.2.2)

/-- A session changes, but for its phase and its worker. -/
theorem Replaced.kept {v v' : View} {t : Nat} {e : Ending} {f : Frame} {below push : List Frame}
    (k : Replaced v v' t e f below push) (hp : Pushed v v' t f below push) {s : Nat}
    {a : Session.Core} (ha : v.cores s = some a) {F : Session.Core → Session.Core}
    (hF : ∀ a, (F a).phase = a.phase ∧ (F a).process = a.process ∧ (F a).destroyed = a.destroyed)
    (hc : v'.cores = bump s F v.cores) : v'.Stages := by
  obtain ⟨hphase, hproc, hdest⟩ := hF a
  refine k.step hp ?_ fun g _ hl hfits => ?_
  · rw [hc]
    refine k.stages.manned.bump fun b hb hb' => ?_
    obtain ⟨hphase, hproc, hdest⟩ := hF b
    rw [hphase, hdest]
    exact k.stages.manned s b hb (hproc ▸ hb')
  · rw [hc]
    exact hfits.bump ha F (fun h => hdest.trans h) (fun _ _ h => .inr (hphase.trans h))
      (fun _ _ _ h h' => .inr ⟨hphase.trans h, hproc.trans h'⟩) hl

namespace Steps

variable {h h₁ : Host} {t s c : Nat} {e : Ending} {f : Frame} {below : List Frame} {n : Next}
  {a : Session.Core} {P : Nat → Prop} {F : Session.Core → Session.Core}

theorem stack_eq {W : Leave} (k : Steps h t e f below) (hg : Guards W h h₁)
    (hs : ∀ u, h₁.loop.stack? u = h.loop.stack? u) (n : Next) (u : Nat) :
    (goOn t below n h₁).view.loop.stack? u =
      if u = t then some (n.push ++ below) else h.view.loop.stack? u :=
  (stack?_proceed (k.runningOn hg) n u).trans (by rw [hs]; rfl)

/-- A step that takes a turn, ends one or queues for one keeps what is not about turns. -/
theorem turned (k : Steps h t e f below) (hg : ∀ Q, Guards { answer := P, hold := Q } h h₁)
    (hlisted : h₁.Listed) (ha : h.core? s = some a) (hcores : h₁.core? = bump s F h.core?)
    (hF : ∀ a, (F a).phase = a.phase ∧ (F a).process = a.process ∧ (F a).destroyed = a.destroyed)
    (hf : f.isFind = false)
    (hpush : ∀ g ∈ n.push, (∀ i, g.startup? = some i → i = s) ∧ g.early? = none ∧ g.stage? = none ∧
      g.tears = [] ∧ g.gone? = none ∧ g.isStart = false ∧ g.launches? = none ∧ g.staged? = none ∧
        g.replay? = none)
    (hmounted : Mounted below → Mounted (n.push ++ below))
    (hturns : (goOn t below n h₁).view.Turns)
    (hqueues : Handed { answer := P } h.view (goOn t below n h₁).view →
      (goOn t below n h₁).view.Queues) : InOrder (goOn t below n h₁) := by
  have hhand : Handed { answer := P } h.view (goOn t below n h₁).view :=
    k.handed hg fun g hg i rs hi => by
      rw [(hpush g hg).2.2.2.2.2.2.2.2] at hi
      cases hi
  have hr := k.replaced (hg fun _ _ => False) n
  refine ⟨k.sound (hg fun _ _ => False) n, hhand.bounded k.inOrder.bounded, hlisted, hturns,
    hqueues hhand, ?_⟩
  refine hr.kept (.quiet hr hf (fun g hg => ?_) (hmounted hr.mounted)) ha hF hcores
  obtain ⟨hup, hearly, hstage, htears, hgone, hstart, hlaunch, hstaged, -⟩ := hpush g hg
  refine ⟨⟨fun i hi => ?_, ?_, ?_, ?_, ?_, ?_⟩, hstart, hlaunch, hstaged⟩
  · rw [hup i hi]
    show (h₁.core? s).isSome
    rw [hcores, bump_self ha]
    rfl
  · rw [hearly]; exact nofun
  · rw [hstage]; exact nofun
  · rw [hlaunch]; exact nofun
  · rw [htears]; exact nofun
  · rw [hgone]; exact nofun

/-- The frames with which one who has the turn goes on. -/
theorem startFrames_kinds {g : Frame} (hg : g ∈ [Frame.startBody s, .startEnd s, .give (.session s)]) :
    (∀ i, g.startup? = some i → i = s) ∧ g.early? = none ∧ g.stage? = none ∧ g.tears = [] ∧
      g.gone? = none ∧ g.isStart = false ∧ g.launches? = none ∧ g.staged? = none ∧
        g.replay? = none := by
  simp only [List.mem_cons, List.not_mem_nil, or_false] at hg
  rcases hg with rfl | rfl | rfl
  · exact ⟨fun i hi => by cases hi; rfl, rfl, rfl, rfl, rfl, rfl, rfl, rfl, rfl⟩
  · exact ⟨nofun, rfl, rfl, rfl, rfl, rfl, rfl, rfl, rfl⟩
  · exact ⟨nofun, rfl, rfl, rfl, rfl, rfl, rfl, rfl, rfl⟩

theorem turn_below (k : Steps h t e f below) {g : Frame} (hg : g ∈ below) : g.turn? = none :=
  k.inOrder.queues.turn_below k.top hg

/-- What is given to the frame that starts a session is a session that there is. -/
theorem core?_of_start (k : Steps h t (.value (.session s)) .startSession below) :
    ∃ a, h.core? s = some a := by
  refine Option.isSome_iff_exists.1 ?_
  rcases k.inOrder.stages.fed t _ k.top with hfed | ⟨x, hx, hvalid, -⟩
  · cases hfed.1 rfl
  · rw [show h.view.loop.running = some (t, _) from k.running] at hx
    cases hx
    exact hvalid s rfl

/-- Nothing happens but that the frame ends. -/
theorem passed (k : Steps h t e f below) (hf : f.isFind = false) (hends : f.ends? = none)
    {e' : Ending} : InOrder (goOn t below (.pass e') h) := by
  have hg (W : Leave) : Guards W h h := Guarded.refl _
  have hr : Replaced h.view (goOn t below (.pass e') h).view t e f below [] :=
    k.replaced (hg {}) (.pass e')
  have hp : Pushed h.view (goOn t below (.pass e') h).view t f below [] :=
    .nil hr fun hfind => by rw [hf] at hfind; cases hfind
  exact k.apart (fun _ => hg _) k.inOrder.listed (.refl _) hends (fun g hg => by cases hg)
    (fun g hg => by cases hg) (hr.same hp rfl)

/-- A task queues for the turn to start a session. -/
theorem queued (k : Steps h t e .startSession below) (ha : h.core? s = some a)
    (hg : ∀ Q, Guards { hold := Q } h h₁) (hlisted : h₁.Listed)
    (hv : h₁.view = { h.view with
      loop := h.loop.newCell.2
      cores := bump s (fun a => { a with startWaiters := a.startWaiters ++ [h.loop.cells.size] })
        h.core? }) :
    InOrder (goOn t below (.wait [.startTurn s h.loop.cells.size, .give (.session s)]
      h.loop.cells.size) h₁) := by
  have hcores : h₁.core? = bump s (fun a =>
      { a with startWaiters := a.startWaiters ++ [h.loop.cells.size] }) h.core? :=
    congrArg View.cores hv
  have hloop : h₁.loop = h.loop.newCell.2 := congrArg View.loop hv
  have hstack := k.stack_eq (hg fun _ _ => False) (fun u => by rw [hloop]; rfl)
    (.wait [.startTurn s h.loop.cells.size, .give (.session s)] h.loop.cells.size)
  -- the cell is new, so it is done and held nowhere
  have hnew : h₁.loop.outcome? h.loop.cells.size = none := by
    rw [hloop]
    exact outcome?_newCell h.loop
  have hlt : h.loop.cells.size < h₁.view.size := by
    show _ < h₁.loop.cells.size
    rw [hloop]
    show _ < (h.loop.cells.push {}).size
    rw [Table.size_push]
    exact Nat.lt_succ_self _
  have hfree (p : Place) : ¬ h₁.view.Holds p h.loop.cells.size := fun hp => by
    have : h.view.Holds p h.loop.cells.size := by
      rw [hv] at hp
      cases hp with
      | queue hr hc => exact .queue hr hc
      | replay ht hf hs hr hc => exact .replay ht hf hs hr hc
      | query hx hc => exact .query hx hc
      | ready hc => exact .ready hc
      | reader hc => exact .reader hc
      | exit hc => exact .exit hc
      | task hc => exact .task hc
      | loop hc => exact .loop (holds_newCell hc)
    exact Nat.lt_irrefl _ (k.inOrder.bounded p _ this)
  refine k.turned (P := fun _ => False) hg hlisted ha hcores (fun _ => ⟨rfl, rfl, rfl⟩) rfl
    (fun g hg => ?_) (fun hm => ⟨nofun, nofun, hm⟩) ?_ fun hhand => ?_
  · simp only [Next.push, List.mem_cons, List.not_mem_nil, or_false] at hg
    rcases hg with rfl | rfl
    · exact ⟨nofun, rfl, rfl, rfl, rfl, rfl, rfl, rfl, rfl⟩
    · exact ⟨nofun, rfl, rfl, rfl, rfl, rfl, rfl, rfl, rfl⟩
  · refine k.inOrder.turns.move (fun i b hb => ?_) fun u gs hu => .inr ?_
    · rw [show (goOn t below _ h₁).view.cores = h₁.core? from rfl, hcores]
      by_cases his : i = s
      · subst his
        exact ⟨_, bump_self hb, rfl⟩
      · exact ⟨b, by rw [bump_of_ne his]; exact hb, rfl⟩
    · rw [hstack] at hu
      split at hu
      · next hut =>
        cases hu
        subst hut
        exact ⟨_, k.top, rfl⟩
      · exact ⟨gs, hu, rfl⟩
  · have hpriv := (Handed.proceed (W := {}) (v := h₁.view) (k.runningOn (hg fun _ _ => False))
      (.wait [.startTurn s h.loop.cells.size, .give (.session s)] h.loop.cells.size)
      (fun g hg i rs hi => by
        simp only [Next.push, List.mem_cons, List.not_mem_nil, or_false] at hg
        rcases hg with rfl | rfl <;> cases hi)).private_ hlt hfree
    refine k.inOrder.queues.push ha (Nat.le_refl _) ?_ hpriv.1 (fun hans => ?_) rfl
      (fun g hg => ?_) hstack (.inl ?_) (fun u d hut => k.awaits (hg fun _ _ => False) _ hut) hhand
      hcores
    · exact Nat.lt_of_lt_of_eq hlt (size_cells_proceed _).symm
    · obtain ⟨o, ho, -⟩ := (hpriv.2 hans).resolve_right nofun
      rw [show h₁.view.loop.outcome? _ = _ from hnew] at ho
      cases ho
    · rcases List.mem_cons.1 hg with rfl | hg
      · rfl
      · exact k.turn_below hg
    · rcases proceed_cases (k.runningOn (hg fun _ _ => False))
        (.wait [.startTurn s h.loop.cells.size, .give (.session s)] h.loop.cells.size) with
        ⟨e', -, -, he | ⟨c, he, ho⟩⟩ | ⟨c, he, -, -, hw⟩
      · cases he
      · cases he
        rw [hnew] at ho
        cases ho
      · cases he
        exact hw

theorem startSession (k : Steps h t e .startSession below) : InOrder (step t e h) := by
  rw [step_eq k.top]
  have hg (W : Leave) : Guards W h (after (resume .startSession e) h) :=
    (Guards.resume rfl e).rel_after h
  have hlisted := ((Listing.resume .startSession e).rel_after h).listed k.inOrder.listed
  have hpass (e' : Ending) (hrun : (resume .startSession e).run h = .ok (.pass e') h) :
      InOrder (goOn t below (nextOf (resume .startSession e) h)
        (after (resume .startSession e) h)) := by
    rw [nextOf_of_ok hrun, after_of_ok hrun]
    exact k.passed rfl rfl
  cases e with
  | failed x => exact hpass _ rfl
  | cancelled => exact hpass _ rfl
  | value v =>
    cases v with
    | session s =>
      obtain ⟨a, ha⟩ := k.core?_of_start
      rcases startSession_run ha with ⟨hfree, hcancelled, h₁, e₁, hv⟩ | ⟨c, h₁, rfl, -, e₁, hv⟩
      -- the turn is free, and those who waited for it do so no longer
      · have e₁ : (resume .startSession (.value (.session s))).run h = _ := e₁
        rw [after_of_ok e₁] at hg hlisted
        rw [nextOf_of_ok e₁, after_of_ok e₁]
        have hcores : h₁.core? = _ := congrArg View.cores hv
        have hstack := k.stack_eq (hg {}) (fun u => by
          rw [show h₁.loop = h.loop from congrArg View.loop hv])
          (.call [.startBody s, .startEnd s, .give (.session s)])
        refine k.turned (P := fun _ => False) (fun _ => hg _) hlisted ha hcores
          (fun _ => ⟨rfl, rfl, rfl⟩) rfl (fun g => startFrames_kinds)
          (fun hm => ⟨fun i hi => by cases hi; exact ⟨_, rfl⟩, nofun, nofun, hm⟩) ?_ fun hhand => ?_
        · exact k.inOrder.turns.take ha hfree (fun _ => rfl) k.top rfl hstack hcores
        · refine k.inOrder.queues.shrink ha (.refl _) rfl nofun (fun c hc hans => ?_)
            (fun u gs g c hut hu hg hi => ?_) (fun g hg => ?_) hstack
            (fun u c hut => k.awaits (hg {}) _ hut) hhand hcores
          · rcases hans with ⟨o, ho, hne⟩ | hans
            · rw [show h.view.loop.outcome? c = _ from hcancelled c hc] at ho
              cases ho
              exact absurd rfl hne
            · cases hans
          · obtain ⟨-, ⟨b, hb, hc⟩, -⟩ := k.inOrder.queues.turn u gs g s c hu hg hi
            rw [show h.view.cores s = some a from ha] at hb
            cases hb
            exact hc
          · rcases List.mem_append.1 hg with hg | hg
            · simp only [Next.call, Next.push, List.mem_cons, List.not_mem_nil, or_false] at hg
              rcases hg with rfl | rfl | rfl <;> rfl
            · exact k.turn_below hg
      -- the task queues
      · have e₁ : (resume .startSession (.value (.session s))).run h = _ := e₁
        rw [after_of_ok e₁] at hg hlisted
        rw [nextOf_of_ok e₁, after_of_ok e₁]
        exact k.queued ha (fun _ => hg _) hlisted hv
    | _ => exact hpass _ rfl

/-- A task that waited for its turn goes on. -/
theorem startTurn (k : Steps h t e (.startTurn s c) below) : InOrder (step t e h) := by
  rw [step_eq k.top]
  have hlisted := ((Listing.resume (.startTurn s c) e).rel_after h).listed k.inOrder.listed
  obtain ⟨⟨below', htop, -⟩, ⟨a, ha, hc⟩, haw⟩ :=
    k.inOrder.queues.turn t _ _ s c k.top List.mem_cons_self rfl
  have ha : h.core? s = some a := ha
  -- whoever else waits does so at another cell
  have hother {u : Nat} {gs : List Frame} {g : Frame} {d : Nat} (hut : u ≠ t)
      (hu : h.view.loop.stack? u = some gs) (hg : g ∈ gs) (hi : g.turn? = some (s, d)) :
      d ∈ a.startWaiters.erase c := by
    obtain ⟨-, ⟨b, hb, hd⟩, -⟩ := k.inOrder.queues.turn u gs g s d hu hg hi
    rw [show h.view.cores s = some a from ha] at hb
    cases hb
    refine (List.mem_erase_of_ne fun hdc => hut ?_).2 hd
    subst hdc
    exact k.inOrder.queues.turn_one u t gs _ g _ s s d hu k.top hg List.mem_cons_self hi rfl
  have hcalled {d : Nat} (hd : d ∈ a.startWaiters.erase c) (hans : h.loop.Answered d) :
      a.starting = false ∧ (a.startWaiters.erase c).head? = some d := by
    obtain ⟨hfree, hhead⟩ := k.inOrder.queues.called s a d ha (List.mem_of_mem_erase hd) hans
    refine ⟨hfree, ?_⟩
    have hdc : d ≠ c := fun e => (k.inOrder.queues.nodup s a ha).not_mem_erase (e ▸ hd)
    cases hw : a.startWaiters with
    | nil => rw [hw] at hhead; cases hhead
    | cons d' ds =>
      rw [hw] at hhead
      cases hhead
      rw [List.erase_cons_tail (by simpa using hdc)]
      rfl
  by_cases hv : ∃ v, e = .value v
  -- the task was called, so it is the first and the turn is free
  · obtain ⟨v, rfl⟩ := hv
    obtain ⟨h₁, e₁, hv⟩ := startTurn_run s c v h
    have e₁ : (resume (.startTurn s c) (.value v)).run h = _ := e₁
    have hg (W : Leave) : Guards W h h₁ := by
      rw [Guards, hv]
      exact .of_others _ _ _
    rw [after_of_ok e₁] at hlisted
    rw [nextOf_of_ok e₁, after_of_ok e₁]
    have hcores : h₁.core? = bump s (fun a =>
      { a with startWaiters := a.startWaiters.erase c, starting := true }) h.core? :=
      congrArg View.cores hv
    have hans : h.loop.Answered c := by
      rcases haw with hw | ⟨x, hx, hans⟩
      · rw [show h.view.loop.waiting t = none from
          (k.inOrder.sound.running t _ k.running).2.1] at hw
        cases hw
      · rw [show h.view.loop.running = some (t, _) from k.running] at hx
        cases hx
        exact hans v rfl
    obtain ⟨hfree, hhead⟩ := k.inOrder.queues.called s a c ha hc hans
    have hstack := k.stack_eq (hg {}) (fun u => by
      rw [show h₁.loop = h.loop from congrArg View.loop hv]) (.call [.startBody s, .startEnd s])
    refine k.turned (P := fun _ => False) (fun _ => hg _) hlisted ha hcores
      (fun _ => ⟨rfl, rfl, rfl⟩) rfl (fun g hg => startFrames_kinds ?_)
      (fun hm => ⟨fun i hi => by cases hi; exact ⟨_, rfl⟩, nofun, hm⟩) ?_ fun hhand => ?_
    · exact List.mem_append_left [.give (.session s)] hg
    · exact k.inOrder.turns.take ha hfree (fun _ => rfl) k.top rfl hstack hcores
    · refine k.inOrder.queues.shrink ha List.erase_sublist rfl nofun (fun d hd hans => ?_)
        (fun u gs g d => hother) (fun g hg => ?_) hstack (fun u d hut => k.awaits (hg {}) _ hut)
        hhand hcores
      -- nobody else was called
      · obtain ⟨-, hhead'⟩ := k.inOrder.queues.called s a d ha (List.mem_of_mem_erase hd)
          (hans.resolve_right nofun)
        rw [hhead] at hhead'
        cases hhead'
        exact absurd hd (k.inOrder.queues.nodup s a ha).not_mem_erase
      · rcases List.mem_append.1 hg with hg | hg
        · simp only [Next.call, Next.push, List.mem_cons, List.not_mem_nil, or_false] at hg
          rcases hg with rfl | rfl <;> rfl
        · exact k.turn_below hg
  -- the task gives up its place, and the next one is called if the turn is free
  · have hno (v : Value) : e ≠ .value v := fun he => hv ⟨v, he⟩
    obtain ⟨h₁, e₁, hv⟩ := startTurn_run_other (c := c) ha hno
    have e₁ : (resume (.startTurn s c) e).run h = _ := e₁
    have hg (Q : Place → Nat → Prop) : Guards
        { answer := fun d => a.starting = false ∧ (a.startWaiters.erase c).head? = some d
          hold := Q } h h₁ := by
      rw [Guards, hv]
      cases hst : a.starting with
      | true => exact .of_others _ _ _
      | false =>
        refine guarded_callFirst (fun d hd => ?_) _
        exact ⟨rfl, hd⟩
    rw [after_of_ok e₁] at hlisted
    rw [nextOf_of_ok e₁, after_of_ok e₁]
    have hcores : h₁.core? = bump s (fun a => { a with startWaiters := a.startWaiters.erase c })
      h.core? := congrArg View.cores hv
    have hstack := k.stack_eq (hg fun _ _ => False) (fun u => by
      rw [show h₁.loop = _ from congrArg View.loop hv]
      split
      · rfl
      · exact stack?_callFirst _ _ u) (.pass e)
    refine k.turned hg hlisted ha hcores (fun _ => ⟨rfl, rfl, rfl⟩) rfl
      (fun g hg => by cases hg) (fun hm => hm) ?_ fun hhand => ?_
    · refine k.inOrder.turns.move (fun i b hb => ?_) fun u gs hu => .inr ?_
      · rw [show (goOn t below _ h₁).view.cores = h₁.core? from rfl, hcores]
        by_cases his : i = s
        · subst his
          exact ⟨_, bump_self hb, rfl⟩
        · exact ⟨b, by rw [bump_of_ne his]; exact hb, rfl⟩
      · rw [hstack] at hu
        split at hu
        · next hut =>
          cases hu
          subst hut
          exact ⟨_, k.top, rfl⟩
        · exact ⟨gs, hu, rfl⟩
    · refine k.inOrder.queues.shrink ha List.erase_sublist rfl
        (fun d hd => List.mem_of_head? hd.2) (fun d hd hans => ?_)
        (fun u gs g d => hother) (fun g hg => k.turn_below hg) hstack
        (fun u d hut => k.awaits (hg fun _ _ => False) _ hut) hhand hcores
      exact hans.elim (hcalled hd) fun h => h

/-- A turn is over. -/
theorem startEnd (k : Steps h t e (.startEnd s) below) : InOrder (step t e h) := by
  rw [step_eq k.top]
  have hlisted := ((Listing.resume (.startEnd s) e).rel_after h).listed k.inOrder.listed
  obtain ⟨a, ha, -⟩ := k.inOrder.turns.starting t _ s k.top (by simp [Frame.ends?])
  have ha : h.core? s = some a := ha
  obtain ⟨h₁, e₁, hv⟩ := startEnd_run ha e
  have e₁ : (resume (.startEnd s) e).run h = _ := e₁
  have hg (Q : Place → Nat → Prop) :
      Guards { answer := fun d => a.startWaiters.head? = some d, hold := Q } h h₁ := by
    rw [Guards, hv]
    exact guarded_callFirst (fun d hd => hd) _
  rw [after_of_ok e₁] at hlisted
  rw [nextOf_of_ok e₁, after_of_ok e₁]
  have hcores : h₁.core? = bump s (fun a => { a with starting := false }) h.core? :=
    congrArg View.cores hv
  have hstack := k.stack_eq (hg fun _ _ => False) (fun u => by
    rw [show h₁.loop = _ from congrArg View.loop hv]
    exact stack?_callFirst _ _ u) (.pass e)
  refine k.turned hg hlisted ha hcores (fun _ => ⟨rfl, rfl, rfl⟩) rfl (fun g hg => by cases hg)
    (fun hm => hm) ?_ fun hhand => ?_
  · exact k.inOrder.turns.drop k.top (by simp [Next.pass, Next.push, Frame.ends?]) hstack hcores
  · refine k.inOrder.queues.shrink ha (.refl _) rfl (fun d hd => List.mem_of_head? hd)
      (fun d hd hans => ⟨rfl, ?_⟩) (fun u gs g d hut hu hg hi => ?_)
      (fun g hg => k.turn_below hg) hstack
      (fun u d hut => k.awaits (hg fun _ _ => False) _ hut) hhand hcores
    · exact hans.elim (fun hans => (k.inOrder.queues.called s a d ha hd hans).2) fun h => h
    · obtain ⟨-, ⟨b, hb, hd⟩, -⟩ := k.inOrder.queues.turn u gs g s d hu hg hi
      rw [show h.view.cores s = some a from ha] at hb
      cases hb
      exact hd

/-- Every step keeps the invariant. -/
theorem step (k : Steps h t e f below) : InOrder (Host.step t e h) := by
  cases hord : f.isOrdinary with
  | true => exact k.ordinary hord
  | false =>
    cases hturn : f.isTurn with
    | false => exact k.ofCourse hord hturn
    | true =>
      cases f with
      | startSession => exact k.startSession
      | startTurn s c => exact k.startTurn
      | startEnd s => exact k.startEnd
      | _ => cases hturn

end Steps

end GhciHost.Host
