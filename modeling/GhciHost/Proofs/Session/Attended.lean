import GhciHost.Proofs.Session.Refused

/-!
# Calls that nobody cancels

The cells that a call waits for are known to the call alone, and to the task that it begins to wait for
the session.  So nothing that happens to a host cancels the call, unless somebody outside does.

* `Attended`   what is known of the call's task and of those that it begins;
* `Attended.goes`, `Attended.queues`, `Attended.awaits`, `Attended.woken`   the steps of the call;
* `Attended.tick`, `Attended.fire`, `Attended.outside`   whatever happens keeps it so.
-/

namespace GhciHost.Host

open Loop

variable {h h' : Host} {t c : Nat} {e : Ending} {f : Frame} {fs below : List Frame}
  {r : Resignation} {root : String} {limit : Option Seconds} {x : Failure} {D S : Nat → Prop}

/-- A task that does not run keeps its frames. -/
theorem stack?_tick (k : Ordered h) (hrun : ∀ e, h.loop.running ≠ some (t, e))
    (hs : h.loop.stack? t = some fs) : h.tick.loop.stack? t = some fs := by
  by_cases hmover : h.mover = some t
  · rcases tick_cases h with ⟨u, e, f, below, hu, -, -⟩ | ⟨u, e, hu, -, -⟩ | ⟨-, e'⟩ |
      ⟨j, jobs, hidle, hjobs, e'⟩
    · rw [mover, hu] at hmover
      cases hmover
      exact absurd hu (hrun e)
    · rw [mover, hu] at hmover
      cases hmover
      exact absurd hu (hrun e)
    · rwa [e']
    · rw [mover, hidle] at hmover
      dsimp only at hmover
      rw [hjobs] at hmover
      rw [e']
      cases j with
      | start u | wake u _ => exact ((resume_spec { h.loop with jobs } u _).1 t).trans hs
      | _ => cases hmover
  · exact (Onward.tick k.inOrder k.filed).moves.stack t fs hmover hs

/-- The tasks are the call's own and those that it begins, which only wait for the session.  Among the
    cells is what the call races. -/
structure Attended (s t : Nat) (D S : Nat → Prop) (h : Host) : Prop where
  safe : Safe D S h
  self : S t
  helpers : ∀ u fs, S u → u ≠ t → h.loop.stack? u = some fs → ∀ f ∈ fs, f = .readyEvent s
  races : ∀ fs i, h.loop.stack? t = some fs → .race i ∈ fs → D i

namespace Attended

variable {s : Nat}

/-- A task that is one of them has frames. -/
theorem stack (k : Attended s t D S h) {u : Nat} (hu : S u) : ∃ fs, h.loop.stack? u = some fs := by
  obtain ⟨task, htask⟩ := Table.exists_get? (k.safe.secluded.begun u hu)
  exact ⟨task.stack, by rw [stack?, htask]; rfl⟩

/-- Their frames are as they were. -/
theorem keep (k : Attended s t D S h) (hsafe : Safe D S h')
    (hstack : ∀ u fs, S u → h.loop.stack? u = some fs → h'.loop.stack? u = some fs) :
    Attended s t D S h' := by
  have hback {u : Nat} {fs : List Frame} (hu : S u) (hs : h'.loop.stack? u = some fs) :
      h.loop.stack? u = some fs := by
    obtain ⟨gs, hgs⟩ := k.stack hu
    cases (hstack u gs hu hgs).symm.trans hs
    exact hgs
  exact ⟨hsafe, k.self, fun u fs hu hut hs => k.helpers u fs hu hut (hback hu hs),
    fun fs i hs => k.races fs i (hback k.self hs)⟩

/-- One of the tasks goes on, and comes to race nothing. -/
theorem goes {push : List Frame} {e' : Ending} {u : Nat} (k : Attended s t D S h)
    (ks : Steps h u e f below) (hev : Looped (Loop.Evades D S) h (after (resume f e) h))
    (hgo : nextOf (resume f e) h = .go push e') (he : e' ≠ .cancelled) (hu : S u)
    (hhelper : u ≠ t → push = []) (hrace : ∀ i, .race i ∉ push) :
    Attended s t D S (Host.step u e h) := by
  have hself : (Host.step u e h).loop.stack? u = some (push ++ below) := by
    rw [ks.stack_self, hgo]
    rfl
  have hback {v : Nat} {fs : List Frame} (hv : S v) (hvu : v ≠ u)
      (hs : (Host.step u e h).loop.stack? v = some fs) : h.loop.stack? v = some fs := by
    obtain ⟨gs, hgs⟩ := k.stack hv
    cases (ks.moves.stack v gs (fun e => hvu (Option.some.inj e).symm) hgs).symm.trans hs
    exact hgs
  refine ⟨k.safe.goes ks hev hgo he hu, k.self, fun v fs hv hvt hs g hg => ?_, fun fs i hs hi => ?_⟩
  · by_cases hvu : v = u
    · subst hvu
      cases hself.symm.trans hs
      rw [hhelper hvt] at hg
      exact k.helpers v _ hv hvt ks.top g (List.mem_cons_of_mem _ hg)
    · exact k.helpers v fs hv hvt (hback hv hvu hs) g hg
  · by_cases htu : t = u
    · subst htu
      cases hself.symm.trans hs
      refine k.races _ i ks.top (List.mem_cons_of_mem _ ?_)
      exact (List.mem_append.1 hi).resolve_left (hrace i)
    · exact k.races fs i (hback k.self htu hs) hi

/-- A task that only waits for the session goes on or ends. -/
theorem helperTick (k : Attended s t D S h) (ko : Ordered h) {u : Nat} (hu : S u) (hut : u ≠ t)
    (hrun : h.loop.running = some (u, e)) (hready : h.readyOf s = true) :
    Attended s t D S h.tick := by
  obtain ⟨fs, hs⟩ := k.stack hu
  cases fs with
  | nil =>
    refine k.keep (k.safe.ends hrun hs hu) fun v fs _ hv => ?_
    rw [tick_of_ended hrun hs]
    exact (stack?_endTask h.loop u e v).trans hv
  | cons f below =>
    have hf : f = .readyEvent s := k.helpers u _ hu hut hs f List.mem_cons_self
    subst hf
    have ks : Steps h u e (.readyEvent s) below := ⟨ko.inOrder, hrun, hs⟩
    have hev : Looped (Loop.Evades D S) h (after (resume (.readyEvent s) e) h) :=
      (Looped.resume (fun hc => by cases hc) fun _ _ _ _ _ _ => inferInstance).rel_after h
    rw [tick_of_running hrun]
    cases e with
    | value v =>
      exact k.goes ks hev (nextOf_of_ok (readyEvent_run hready)) (fun e => by cases e) hu
        (fun _ => rfl) (by simp)
    | failed y =>
      exact k.goes ks hev rfl (fun e => by cases e) hu (fun _ => rfl) (by simp)
    | cancelled => exact absurd hrun (k.safe.running u hu)

/-- The task waits for one of the cells, which may be new, and may have begun other tasks. -/
theorem waits {D' S' : Nat → Prop} {push : List Frame} {d : Nat} {h₁ : Host}
    (ks : Steps h t e f below) (e₁ : (resume f e).run h = .ok (.wait push d) h₁)
    (ksafe : Safe D' S' h₁) (hself : S' t)
    (hhelpers : ∀ u fs, S' u → u ≠ t → h₁.loop.stack? u = some fs → ∀ f ∈ fs, f = .readyEvent s)
    (hraces : ∀ i, .race i ∈ push ++ below → D' i) (hno : h₁.loop.outcome? d = none) (hd : D' d) :
    Attended s t D' S' (Host.step t e h) := by
  have hrun : Running (after (resume f e) h).loop t e f below :=
    ks.runningOn (ks.queueGuards fun _ _ => False)
  have hstep : Host.step t e h = goOn t below (.wait push d) h₁ := by
    rw [step_eq ks.top, nextOf_of_ok e₁, after_of_ok e₁]
    rfl
  have hstack (u : Nat) : (Host.step t e h).loop.stack? u =
      if u = t then some (push ++ below) else h₁.loop.stack? u := by
    rw [hstep]
    rw [after_of_ok e₁] at hrun
    exact stack?_proceed hrun (.wait push d) u
  refine ⟨?_, hself, fun u fs hu hut hs => ?_, fun fs i hs hi => ?_⟩
  · rw [hstep]
    rw [after_of_ok e₁] at hrun
    exact ksafe.waitsFor hrun hno hself hd
  · rw [hstack, if_neg hut] at hs
    exact hhelpers u fs hu hut hs
  · rw [hstack, if_pos rfl] at hs
    cases hs
    exact hraces i hi

/-- The task queues for its turn, with a cell that only it knows. -/
theorem queues {push : List Frame} {h₁ : Host} (k : Attended s t D S h) (ko : Ordered h)
    (kn : Named h) (ks : Steps h t e f below)
    (e₁ : (resume f e).run h = .ok (.wait push h.loop.cells.size) h₁)
    (hloop : h₁.loop = h.loop.newCell.2) (ht : Traceless h h₁) (hrace : ∀ i, .race i ∉ push) :
    Attended s t (fun c => D c ∨ c = h.loop.cells.size) S (Host.step t e h) := by
  have hsize : h₁.loop.cells.size = h.loop.cells.size + 1 := by
    rw [hloop]
    simp [Loop.newCell]
  have houtcome (c : Nat) : h₁.loop.outcome? c = h.loop.outcome? c := by
    rw [hloop]
    exact outcome?_newCell_snd h.loop c
  have hstack (u : Nat) : h₁.loop.stack? u = h.loop.stack? u := by rw [hloop]; rfl
  have ksafe : Safe (fun c => D c ∨ c = h.loop.cells.size) S h₁ := by
    refine k.safe.grow ko kn (by rw [hsize]; exact Nat.le_succ _) (by rw [hloop]; exact Nat.le_refl _)
      (fun _ => .inl) (fun c hc => hc.imp_right fun e => ?_) (fun _ hu => hu) (fun _ => .inl)
      (fun c u hc => .inl ?_) (fun u => by rw [hloop]; rfl) houtcome (fun u _ ha => ?_)
      (by rw [hloop]; rfl) (fun u fs _ hs => .inl ((hstack u).symm.trans hs)) fun c hc => ht.recalls hc
    · rw [e, hsize]
      exact ⟨Nat.le_refl _, Nat.lt_succ_self _⟩
    · rw [hloop] at hc
      exact (owner?_newCell h.loop c).symm.trans hc
    · rw [hloop] at ha
      exact ha
  refine waits ks e₁ ksafe k.self (fun u fs hu hut hs => ?_) (fun i hi => .inl ?_) ?_ (.inr rfl)
  · exact k.helpers u fs hu hut ((hstack u).symm.trans hs)
  · exact k.races _ i ks.top (List.mem_cons_of_mem _ ((List.mem_append.1 hi).resolve_left (hrace i)))
  · rw [houtcome, outcome?_of_size_le (Nat.le_refl _)]

/-- The task begins to wait for the session: it knows the cell that it waits for, and begins a task
    with the cell of its end, unless it is too late. -/
theorem awaits {l : Seconds} (k : Attended s t D S h) (ko : Ordered h) (kn : Named h)
    (hr : Runs h t [.waitReady] (.value (.session s))) (hlimit : h.settings.startupTimeout = some l) :
    Attended s t
      (fun c => D c ∨ c = h.loop.cells.size + 1 ∨ expired (some l) = false ∧ c = h.loop.cells.size)
      (fun u => S u ∨ expired (some l) = false ∧ u = h.loop.tasks.size) h.tick := by
  have ks := hr.steps ko
  obtain ⟨loop, e₁, hb, hask⟩ := waitReady_run (s := s) hlimit
  have hnewcell : ¬ D h.loop.cells.size := k.safe.fresh (Nat.le_refl _)
  have hnewtask : ¬ S h.loop.tasks.size := fun hs =>
    absurd (k.safe.secluded.begun _ hs) (Nat.lt_irrefl _)
  rw [hr.tick_eq]
  refine waits ks e₁ (k.safe.grow ko kn hb.grows.size_le (Nat.le_of_lt hb.lt_tasks) (fun _ => .inl)
    (fun c hc => hc.imp_right fun hc => ?_) (fun _ => .inl) (fun u hu => hu.imp_right fun hu => ?_)
    (fun c u hc => ?_) hb.grows.waiting hb.outcome (fun u hu ha => ?_) hb.grows.running
    (fun u fs _ hs => ?_) fun c hc => ?_) (.inl k.self) (fun u fs hu hut hs => ?_) (fun i hi => ?_)
    hb.unreleased (.inr (.inl rfl))
  · have hlt := hb.lt
    show _ ∧ c < loop.cells.size
    rcases hc with rfl | ⟨-, rfl⟩ <;> omega
  · rw [hu.2]
    exact ⟨Nat.le_refl _, hb.lt_tasks⟩
  · replace hc : loop.owner? c = some u := hc
    rw [hb.owner] at hc
    split at hc
    · next hcell =>
      cases hc
      subst hcell
      refine .inr ⟨fun hd => .inr ⟨?_, rfl⟩, fun hs => .inr (.inr ⟨?_, rfl⟩)⟩
      · exact ((hd.resolve_left hnewcell).resolve_left (Nat.ne_of_lt (Nat.lt_succ_self _))).1
      · exact (hs.resolve_left hnewtask).1
    · exact .inl hc
  · refine (hb.calm u ha).resolve_right fun e => ?_
    subst e
    have hlate := (hu.resolve_left hnewtask).1
    rw [hask.1 ha] at hlate
    cases hlate
  · exact (hb.grows.fresh u fs hs).imp_right fun e => by rw [e]; rfl
  · exact .of_loop hc
  · intro f hf
    rcases hb.grows.fresh u fs hs with hs | e
    · refine k.helpers u fs (hu.resolve_right fun hnew => ?_) hut hs f hf
      rw [hnew.2] at hs
      exact absurd (stack?_lt hs) (Nat.lt_irrefl _)
    · rw [e] at hf
      exact List.mem_singleton.1 hf
  · refine .inr (.inr ?_)
    cases hlate : expired (some l) with
    | true => simp [awaitFrame, hlate] at hi
    | false =>
      simp only [awaitFrame, hlate, Bool.false_eq_true, if_false] at hi
      exact ⟨rfl, by simpa using hi⟩

/-- The task goes on that waited for the session. -/
theorem woken {late : Bool} {u i : Nat} (k : Attended s t D S h) (ko : Ordered h)
    (hw : Woken s t late h u i e) (he : e ≠ .cancelled) : Attended s t D S h.tick := by
  obtain ⟨e', e₁, htold⟩ := hw.told he
  rw [hw.runs.tick_eq]
  have hgo : nextOf (resume (awaitFrame late i) e) h = .go [] e' := nextOf_of_ok e₁
  refine k.goes (hw.runs.steps ko) ?_ hgo ?_ k.self (fun _ => rfl)
    fun _ => List.not_mem_nil
  · rw [after_of_ok e₁]
    exact Std.Refl.refl h
  · cases htold with
    | timeout _ he' =>
      rw [he']
      nofun
    | ended hl ho _ =>
      rintro rfl
      refine k.safe.outcome i (k.races _ i hw.runs.stack ?_) ho
      rw [hl]
      exact List.mem_cons_self

/-- The next step of the loop. -/
theorem tick (k : Attended r.session t D S h) (hst : Calling r root limit x t h) (ko : Ordered h)
    (kn : Named h) (hreg : Regular h) (hg : Resigned r h) (hs : Steady r root limit h) :
    ∃ D' S', Attended r.session t D' S' h.tick := by
  by_cases hrun : ∃ u e, h.loop.running = some (u, e) ∧ S u
  · obtain ⟨u, e, hrun, hu⟩ := hrun
    by_cases hut : u = t
    · subst hut
      cases hst with
      | enters _ hp => exact absurd hrun (hp.not_running ko.inOrder.sound)
      | queues _ hp => exact absurd hrun (hp.not_running ko.inOrder.sound)
      | awaits _ ha => exact absurd hrun (ha.parked.not_running ko.inOrder.sound)
      | woken _ hw he => exact ⟨D, S, k.woken ko hw he⟩
      | @runs fs e hr hh =>
        cases fs with
        | nil =>
          refine ⟨D, S, k.keep (k.safe.ends hr.running hr.stack hu) fun v fs _ hv => ?_⟩
          rw [tick_of_ended hr.running hr.stack]
          exact (stack?_endTask h.loop u e v).trans hv
        | cons f below =>
          have ks := hr.steps ko
          cases hh.next hreg hg hs with
          | goes hgo hev hh =>
            rw [hr.tick_eq]
            exact ⟨D, S, k.goes ks (hev D S) hgo hh.calm hu (fun hne => absurd rfl hne)
              fun i hi => hh.raceless i (List.mem_append_left _ hi)⟩
          | @queues last h₁ hf hbelow e₁ hloop hw =>
            subst hf
            have ht : Traceless h h₁ := by
              have := (traceless_resume (f := .startSession) rfl e).rel_after h
              rwa [after_of_ok e₁] at this
            rw [hr.tick_eq]
            exact ⟨_, _, k.queues ko kn ks e₁ hloop ht (by simp)⟩
          | @awaits l hf hbelow he hlimit hx =>
            subst hf hbelow he hlimit
            exact ⟨_, _, k.awaits ko kn hr hs.limit⟩
    · exact ⟨D, S, k.helperTick ko hu hut hrun (hg.vacant hreg).2⟩
  · have hother (u : Nat) (e : Ending) (hr : h.loop.running = some (u, e)) : ¬ S u :=
      fun hu => hrun ⟨u, e, hr, hu⟩
    exact ⟨D, S, k.keep (k.safe.tick ko kn hother) fun u fs hu hs =>
      stack?_tick ko (fun e hr => hother u e hr hu) hs⟩

theorem fire (k : Attended s t D S h) (v : Timer) : Attended s t D S (h.fire v) :=
  k.keep (k.safe.fire v) fun u _ _ hs => (stack?_finish
    { h.loop with now := v.due, timers := dropTimer v.cell h.loop.timers } v.cell _ u).trans hs

theorem outside {P : Reaction → Prop} (k : Attended s t D S h) (hfiled : h.loop.Filed)
    (ho : Outside P h h') (hf : Forbears h.loop h'.loop) : Attended s t D S h' :=
  have o : Onward none h h' := .outside hfiled ho
  k.keep (k.safe.outside hfiled ho hf) fun u fs _ hs => o.moves.stack u fs nofun hs

end Attended

end GhciHost.Host
