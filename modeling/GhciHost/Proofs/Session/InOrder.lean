import GhciHost.Proofs.Session.Stepping

/-!
# What holds between steps

`InOrder` puts together what is known of a host between any two steps.  A step of a frame that has
nothing to do with turns keeps it: such a frame is ordinary, or its step is one that `Course` lists.

* `InOrder`   the invariant;
* `Steps.replaced`, `Steps.handed`, `Steps.awaits`   what a step leaves alone;
* `Steps.ordinary`, `Steps.ofCourse`   a step keeps the invariant.
-/

namespace GhciHost.Host

open Loop

/-- Everything is in order: tasks are woken once, cells are answered by who holds them, one task
    at a time starts a session, and frames find their sessions as they suppose. -/
structure InOrder (h : Host) : Prop where
  sound : h.loop.Sound
  bounded : h.view.Bounded
  listed : h.Listed
  turns : h.view.Turns
  queues : h.view.Queues
  stages : h.view.Stages

/-- The task that runs goes on after its top frame did. -/
def goOn (t : Nat) (below : List Frame) (n : Next) (h : Host) : Host :=
  { h with loop := proceed t below n h.loop }

/-- The top frame of the task that runs is about to go on. -/
structure Steps (h : Host) (t : Nat) (e : Ending) (f : Frame) (below : List Frame) : Prop where
  inOrder : InOrder h
  running : h.loop.running = some (t, e)
  top : h.loop.stack? t = some (f :: below)

/-! ## Frames by their kinds -/

theorem isPlain_of_isOrdinary {f : Frame} (h : f.isOrdinary = true) : f.isPlain = true := by
  cases f <;> first | rfl | cases h

theorem isFind_of_isOrdinary {f : Frame} (h : f.isOrdinary = true) : f.isFind = false := by
  cases f <;> first | rfl | cases h

theorem special_of_isOrdinary {f : Frame} (h : f.isOrdinary = true) : Guards.special f = false := by
  cases f <;> first | rfl | cases h

theorem ends?_of_not_turn {f : Frame} (h : f.isTurn = false) : f.ends? = none := by
  cases f <;> first | rfl | cases h

theorem launched_of_special {f : Frame} (h : Guards.special f = true) (hturn : f.isTurn = false) :
    ∃ s m replay, f = .launched s m replay := by
  cases f <;> first | exact ⟨_, _, _, rfl⟩ | (cases hturn; done) | cases h

/-- What an ordinary frame pushes can stand on the stack of a new task, and makes no request. -/
theorem easy_nextOf {f : Frame} (hf : f.isOrdinary = true) (e : Ending) (h : Host) :
    easy (nextOf (resume f e) h).push = true := by
  rw [nextOf]
  cases hr : (resume f e).run h with
  | ok n h' => exact (Orderly.resume_easy hf e).ok hr
  | error x h' => rfl

/-- Frames are pushed that can stand on the stack of a new task. -/
theorem Pushed.tame {v v' : View} {t : Nat} {e : Ending} {f : Frame} {below push : List Frame}
    (k : Replaced v v' t e f below push) (hf : f.isFind = false) (hpush : Tame push) :
    Pushed v v' t f below push where
  fits g hg := .of_isPlain (isPlain_of_tame hpush hg)
  mounted := mounted_append (fun g hg => startup?_of_isPlain (isPlain_of_tame hpush hg)) k.mounted
  fed := by
    have hfed := k.fed
    rw [hf] at hfed
    exact .inl (fed_append (fed_of_tame hpush) hfed)
  launch := .inl fun g hg => launches?_of_isPlain (isPlain_of_tame hpush hg)
  staged := .inl (staged_of_tame hpush)

namespace Course

variable {h : Host} {e : Ending} {f : Frame} {n : Next} {cores : Cores}

/-- No step that `Course` lists leaves a turn to be queued for or to be ended. -/
theorem push_apart (hc : Course h e f n cores) : ∀ g ∈ n.push, g.turn? = none ∧ g.ends? = none := by
  have haside {g : Frame} (hg : g.isAside = true) : g.turn? = none ∧ g.ends? = none := by
    obtain ⟨-, -, -, he, ht, -⟩ := kinds_of_isAside hg
    exact ⟨ht, he⟩
  have hplain {gs : List Frame} (hgs : gentle gs = true) {g : Frame} (hg : g ∈ gs) :
      g.turn? = none ∧ g.ends? = none :=
    ⟨turn?_of_isPlain (isPlain_of_tame (tame_of_gentle hgs) hg), ends?_of_isPlain (isPlain_of_tame (tame_of_gentle hgs) hg)⟩
  intro g hg
  cases hc with
  | pass | make | giveUp | adopt | die | clear => cases hg
  | route _ _ hgs => exact haside (hgs g hg).1
  | ask _ _ _ hgs hearly =>
    rcases List.mem_append.1 hg with hg | hg
    · exact hplain hgs hg
    · rw [List.mem_singleton.1 hg]
      obtain ⟨-, -, he, ht, -⟩ := kinds_of_early hearly
      exact ⟨ht, he⟩
  | install _ _ _ hgs =>
    rcases List.mem_append.1 hg with hg | hg
    · exact hplain hgs hg
    · rw [List.mem_singleton.1 hg]
      exact ⟨rfl, rfl⟩
  | proceed | escalate =>
    rw [List.mem_singleton.1 hg]
    exact ⟨rfl, rfl⟩
  | launch hn =>
    rw [hn] at hg
    rcases List.mem_cons.1 hg with rfl | hg
    · exact ⟨rfl, rfl⟩
    · rw [List.mem_singleton.1 hg]
      exact ⟨rfl, rfl⟩
  | tear hn =>
    rw [hn] at hg
    rw [List.mem_singleton.1 hg]
    exact ⟨rfl, rfl⟩

/-- Requests are submitted again that the frame had to submit, or that its lane had queued. -/
theorem push_replay (hc : Course h e f n cores) (g : Frame) (hg : g ∈ n.push) (s : Nat)
    (rs : List Request) (hs : g.replay? = some (s, rs)) :
    (∃ m, f = .launch s m rs) ∨ ∀ r ∈ rs, r ∈ h.queueOf s := by
  have hplain {gs : List Frame} (hgs : gentle gs = true) (hg : g ∈ gs) : g.replay? = none :=
    replay?_of_isPlain (isPlain_of_tame (tame_of_gentle hgs) hg)
  cases hc with
  | pass | make | giveUp | adopt | die | clear => cases hg
  | route _ _ hgs =>
    obtain ⟨-, -, -, -, -, -, hno⟩ := kinds_of_isAside (hgs g hg).1
    rw [hno] at hs
    cases hs
  | ask _ _ _ hgs hearly =>
    rcases List.mem_append.1 hg with hg | hg
    · rw [hplain hgs hg] at hs
      cases hs
    · rw [List.mem_singleton.1 hg] at hs
      obtain ⟨-, -, -, -, -, -, -, -, -, hno⟩ := kinds_of_early hearly
      rw [hno] at hs
      cases hs
  | install _ _ _ hgs =>
    rcases List.mem_append.1 hg with hg | hg
    · rw [hplain hgs hg] at hs
      cases hs
    · rw [List.mem_singleton.1 hg] at hs
      cases hs
  | proceed =>
    rw [List.mem_singleton.1 hg] at hs
    cases hs
    exact .inr fun r hr => absurd hr List.not_mem_nil
  | launch hn =>
    rw [hn] at hg
    rcases List.mem_cons.1 hg with rfl | hg
    · cases hs
    · rw [List.mem_singleton.1 hg] at hs
      cases hs
      exact .inl ⟨_, rfl⟩
  | escalate _ _ _ _ _ _ hq =>
    rw [List.mem_singleton.1 hg] at hs
    cases hs
    exact .inr fun r hr => (hq r hr).1
  | tear hn =>
    rw [hn] at hg
    rw [List.mem_singleton.1 hg] at hs
    cases hs

end Course

namespace Steps

variable {h h₁ : Host} {t : Nat} {e : Ending} {f : Frame} {below : List Frame} {W : Leave}
  {n : Next}

/-- What is known of the loop when the frame has gone on, but not yet the task. -/
theorem runningOn (k : Steps h t e f below) (hg : Guards W h h₁) :
    Running h₁.loop t e f below where
  sound := hg.grows.sound k.inOrder.sound
  running := hg.grows.running.trans k.running
  stack := hg.grows.stack t _ k.top

/-- The other tasks have the frames that they had, or are new. -/
theorem stack (k : Steps h t e f below) (hg : Guards W h h₁) (n : Next) {u : Nat}
    {gs : List Frame} (hu : (goOn t below n h₁).loop.stack? u = some gs) :
    (u = t ∧ gs = n.push ++ below) ∨ u ≠ t ∧ (h.loop.stack? u = some gs ∨ Tame gs) := by
  rw [goOn, stack?_proceed (k.runningOn hg)] at hu
  split at hu
  · next e =>
    cases hu
    exact .inl ⟨e, rfl⟩
  · next hut => exact .inr ⟨hut, hg.grows.fresh u gs hu⟩

theorem replaced (k : Steps h t e f below) (hg : Guards W h h₁) (n : Next) :
    Replaced h.view (goOn t below n h₁).view t e f below n.push where
  stages := k.inOrder.stages
  turns := k.inOrder.turns
  running := k.running
  top := k.top
  stack _ _ := k.stack hg n

theorem sound (k : Steps h t e f below) (hg : Guards W h h₁) (n : Next) :
    (goOn t below n h₁).loop.Sound :=
  Sound.proceed (k.runningOn hg) n

/-- The other tasks wait for what they waited for. -/
theorem awaits (k : Steps h t e f below) (hg : Guards W h h₁) (n : Next) {u c : Nat} (hu : u ≠ t)
    (hc : h.view.Awaits u c) : (goOn t below n h₁).view.Awaits u c := by
  rcases hc with hc | ⟨x, hx, -⟩
  · exact .inl ((waiting_proceed n hu).trans ((hg.grows.waiting u).trans hc))
  · rw [show h.view.loop.running = some (t, e) from k.running] at hx
    cases hx
    exact absurd rfl hu

/-- What is answered and handed on by the frame, and by the frames that it leaves to the task. -/
theorem handed {P : Nat → Prop} (k : Steps h t e f below)
    (hg : ∀ Q, Guards { answer := P, hold := Q } h h₁)
    (hn : ∀ g ∈ n.push, ∀ s rs, g.replay? = some (s, rs) → ∀ r ∈ rs, ∀ c, r.waiter = some c →
      ∃ p, p.flows (.replay s) ∧ h.view.Holds p c) :
    Handed { answer := P } h.view (goOn t below n h₁).view := by
  have hgo := hg fun p c => ∃ p', p'.flows p ∧ h.view.Holds p' c
  refine (hgo.toHanded.trans (Handed.proceed (v := h₁.view) (k.runningOn hgo) n ?_)).absorb
    (fun c hc => .inl hc) fun p c hc => .inr (.inl hc)
  exact fun g hg s rs hs r hr c hc => hn g hg s rs hs r hr c hc

/-! ## Frames that have nothing to do with turns -/

/-- The task that runs goes on with frames that have nothing to do with turns either. -/
theorem apart (k : Steps h t e f below) (hg : ∀ Q, Guards { hold := Q } h h₁)
    (hlisted : h₁.Listed) (hcores : SameTurns h.core? h₁.core?) (hends : f.ends? = none)
    (hpush : ∀ g ∈ n.push, g.turn? = none ∧ g.ends? = none)
    (hn : ∀ g ∈ n.push, ∀ s rs, g.replay? = some (s, rs) → ∀ r ∈ rs, ∀ c, r.waiter = some c →
      ∃ p, p.flows (.replay s) ∧ h.view.Holds p c)
    (hstages : (goOn t below n h₁).view.Stages) : InOrder (goOn t below n h₁) := by
  have hg₀ : Guards {} h h₁ := hg _
  have hhand : Handed {} h.view (goOn t below n h₁).view := k.handed hg hn
  have hnone : held n.push = [] := List.filterMap_eq_nil_iff.2 fun g hg => (hpush g hg).2
  refine ⟨k.sound hg₀ n, hhand.bounded k.inOrder.bounded, hlisted, ?_, ?_, hstages⟩
  · refine k.inOrder.turns.move (fun s a ha => ?_) fun u gs hu => ?_
    · obtain ⟨b, hb, e, -⟩ := hcores.old s a ha
      exact ⟨b, hb, e⟩
    · rcases k.stack hg₀ n hu with ⟨rfl, rfl⟩ | ⟨-, hu | hu⟩
      · refine .inr ⟨_, k.top, ?_⟩
        rw [held_append, hnone, held_cons, hends]
        rfl
      · exact .inr ⟨gs, hu, rfl⟩
      · exact .inl (held_of_tame hu)
  · refine k.inOrder.queues.move hcores (fun _ hc => hc.elim) hhand fun u gs g hu hg hturn => ?_
    rcases k.stack hg₀ n hu with ⟨rfl, rfl⟩ | ⟨hut, hu | hu⟩
    · rcases List.mem_append.1 hg with hg | hg
      · exact absurd (hpush g hg).1 hturn
      · exact absurd (k.inOrder.queues.turn_below k.top hg) hturn
    · exact ⟨hu, fun c => k.awaits hg₀ n hut⟩
    · exact absurd (turn?_of_isPlain (isPlain_of_tame hu hg)) hturn

/-! ## Ordinary frames -/

theorem ordinary (k : Steps h t e f below) (hf : f.isOrdinary = true) : InOrder (step t e h) := by
  rw [step_eq k.top]
  have hg (W : Leave) : Guards W h (after (resume f e) h) :=
    (Guards.resume (special_of_isOrdinary hf) e).rel_after h
  have hcalm : Calm h (after (resume f e) h) := (Calm.resume hf e).rel_after h
  have htame : Tame (nextOf (resume f e) h).push := tame_of_easy (easy_nextOf hf e h)
  have hplain {g : Frame} (hg : g ∈ (nextOf (resume f e) h).push) : g.isPlain = true :=
    isPlain_of_tame htame hg
  refine k.apart (fun _ => hg _) ((Listing.resume f e).rel_after h |>.listed k.inOrder.listed) (.of_calm hcalm)
    (ends?_of_isPlain (isPlain_of_isOrdinary hf))
    (fun g hg => ⟨turn?_of_isPlain (hplain hg), ends?_of_isPlain (hplain hg)⟩)
    (fun g hg s rs hs => ?_) ?_
  · rw [replay?_of_isPlain (hplain hg)] at hs
    cases hs
  · have hr := k.replaced (hg {}) (nextOf (resume f e) h)
    exact hr.step (.tame hr (isFind_of_isOrdinary hf) htame)
      (k.inOrder.stages.manned.calm hcalm.old hcalm.new)
      fun g _ hl hfits => hfits.calm hcalm.old hl

/-! ## Frames of a startup and of a session's end -/

/-- What comes of the step. -/
theorem course (k : Steps h t e f below) (hord : f.isOrdinary = false) (hturn : f.isTurn = false) :
    Course h e f (nextOf (resume f e) h) (after (resume f e) h).core? :=
  (Host.course k.inOrder.listed k.inOrder.stages.manned
    (k.inOrder.stages.fits t _ f k.top List.mem_cons_self) hord hturn e).nextOf

/-- What the step answers and hands on. -/
theorem guards (k : Steps h t e f below) (hturn : f.isTurn = false) (W : Leave) :
    Guards W h (after (resume f e) h) := by
  cases hs : Guards.special f with
  | false => exact (Guards.resume hs e).rel_after h
  | true =>
    obtain ⟨s, m, replay, rfl⟩ := launched_of_special hs hturn
    exact Guards.launched k.top

theorem ofCourse (k : Steps h t e f below) (hord : f.isOrdinary = false)
    (hturn : f.isTurn = false) : InOrder (step t e h) := by
  rw [step_eq k.top]
  have hcourse := k.course hord hturn
  have hg (W : Leave) : Guards W h (after (resume f e) h) := k.guards hturn W
  refine k.apart (fun _ => hg _) ((Listing.resume f e).rel_after h |>.listed k.inOrder.listed)
    (.of_course hcourse) (ends?_of_not_turn hturn) hcourse.push_apart
    (fun g hg s rs hs r hr c hc => ?_) ?_
  · rcases hcourse.push_replay g hg s rs hs with ⟨m, rfl⟩ | hq
    · exact ⟨_, Place.flows_refl _, .replay k.top List.mem_cons_self rfl hr hc⟩
    · exact ⟨_, Place.lane_flows s, .queue (hq r hr) hc⟩
  · refine Replaced.course (k.replaced (hg {}) _) hcourse rfl fun e' he => ?_
    show (proceed t below _ _).running = _
    rw [he]
    rfl

end Steps

end GhciHost.Host
