import GhciHost.Proofs.Session.Accounting

/-!
# Sessions in use

A session leaves the registry before it is destroyed, so a session that is there is not destroyed,
and nobody is about to destroy it.  It is there for one project.

* `Enrolled`   the invariant;
* `Enrolled.keep`   steps that put no session into the registry;
* `Enrolled.step`   steps of frames;
* `enrolled_of_reachable`   the invariant holds in every run.
-/

namespace GhciHost.Host

open Loop

variable {h h' : Host} {t s : Nat} {e : Ending} {f : Frame} {below : List Frame}

/-- Sessions in use are not destroyed, nor about to be, and each is that of one project. -/
structure Enrolled (h : Host) : Prop where
  alive : ∀ q s, h.registry.find? q = some s → ∃ a, h.core? s = some a ∧ a.destroyed = false
  spared : ∀ q s t fs f, h.registry.find? q = some s → h.loop.stack? t = some fs → f ∈ fs →
    s ∉ f.tears
  one : ∀ q q' s, h.registry.find? q = some s → h.registry.find? q' = some s → q = q'

/-- No session comes into use, and those that stay in use are left alone. -/
theorem Enrolled.keep (k : Enrolled h)
    (hreg : ∀ q s, h'.registry.find? q = some s → h.registry.find? q = some s)
    (hcore : ∀ q s a, h'.registry.find? q = some s → h.core? s = some a → a.destroyed = false →
      ∃ b, h'.core? s = some b ∧ b.destroyed = false)
    (hstack : ∀ q s u gs g, h'.registry.find? q = some s → h'.loop.stack? u = some gs → g ∈ gs →
      s ∈ g.tears → ∃ u gs g, h.loop.stack? u = some gs ∧ g ∈ gs ∧ s ∈ g.tears) : Enrolled h' where
  alive q s hs := by
    obtain ⟨a, ha, hd⟩ := k.alive q s (hreg q s hs)
    exact hcore q s a hs ha hd
  spared q s u gs g hs hu hg htears := by
    obtain ⟨u, gs, g, hu, hg, htears⟩ := hstack q s u gs g hs hu hg htears
    exact k.spared q s u gs g (hreg q s hs) hu hg htears
  one q q' s hs hs' := k.one q q' s (hreg q s hs) (hreg q' s hs')

/-- Sessions become ready at most. -/
theorem Calm.alive (hc : Calm h h') {a : Session.Core} (ha : h.core? s = some a)
    (hd : a.destroyed = false) : ∃ b, h'.core? s = some b ∧ b.destroyed = false := by
  obtain ⟨b, hb, hab⟩ := hc.old s a ha
  refine ⟨b, hb, ?_⟩
  rcases hab with rfl | ⟨m, m', port, p, -, -, rfl⟩ <;> exact hd

theorem tears_of_early (hf : f.early? = some s) : f.tears = [] := by
  cases f <;> first | rfl | cases hf

theorem tears_of_isQueued (hf : isQueued f = true) : f.tears = [] := by
  cases f <;> first | rfl | cases hf

namespace Course

variable {n : Next} {cores : Cores}

/-- A session is destroyed by a frame that is there for that. -/
theorem alive (hc : Course h e f n cores) {a : Session.Core} (ha : h.core? s = some a)
    (hd : a.destroyed = false) (hs : s ∉ f.tears) : ∃ b, cores s = some b ∧ b.destroyed = false := by
  have hbump {i : Nat} {F : Session.Core → Session.Core}
      (hF : i = s → (F a).destroyed = false) :
      ∃ b, bump i F h.core? s = some b ∧ b.destroyed = false := by
    by_cases hi : s = i
    · subst hi
      exact ⟨_, bump_self ha, hF rfl⟩
    · exact ⟨a, by rw [bump_of_ne hi, ha], hd⟩
  cases hc with
  | pass | route | ask | proceed => exact ⟨a, ha, hd⟩
  | make _ hnone =>
    next i key _ =>
    refine ⟨a, ?_, hd⟩
    dsimp only
    rw [if_neg, ha]
    rintro rfl
    rw [hnone] at ha
    cases ha
  | install | giveUp | launch | adopt | escalate | die | clear => exact hbump fun _ => hd
  | tear => exact hbump fun hi => absurd (List.mem_singleton.2 hi.symm) hs

/-- Nobody else comes to be about to destroy a session than who was, or takes it out of use. -/
theorem tears (hc : Course h e f n cores) (hdrop : f.isDrop = false) {g : Frame} (hg : g ∈ n.push)
    (hs : s ∈ g.tears) : s ∈ f.tears := by
  have hnone {g : Frame} (hg : g.tears = []) (hs : s ∈ g.tears) : s ∈ f.tears := by
    rw [hg] at hs
    cases hs
  have heasy {gs : List Frame} (hgs : gentle gs = true) (hg : g ∈ gs) : s ∈ f.tears :=
    hnone (tears_of_isPlain (isPlain_of_tame (tame_of_gentle hgs) hg)) hs
  cases hc with
  | pass | make | giveUp | adopt | die | clear => cases hg
  | route _ _ hgs =>
    refine ((hgs g hg).2.2.2.2.1 s hs).resolve_right ?_
    rw [hdrop]
    exact Bool.false_ne_true
  | ask _ _ _ hgs hearly =>
    rcases List.mem_append.1 hg with hg | hg
    · exact heasy hgs hg
    · rw [List.mem_singleton.1 hg] at hs
      exact hnone (tears_of_early hearly) hs
  | install _ _ _ hgs =>
    rcases List.mem_append.1 hg with hg | hg
    · exact heasy hgs hg
    · rw [List.mem_singleton.1 hg] at hs
      exact hnone rfl hs
  | proceed | escalate =>
    rw [List.mem_singleton.1 hg] at hs
    exact hnone rfl hs
  | launch hpush =>
    rw [hpush] at hg
    simp only [List.mem_cons, List.not_mem_nil, or_false] at hg
    rcases hg with rfl | rfl <;> exact hnone rfl hs
  | tear hpush =>
    rw [hpush] at hg
    rw [List.mem_singleton.1 hg] at hs
    exact hnone rfl hs

end Course

/-! ## The frames that change the registry -/

/-- A session is found, or one is made and put into use. -/
theorem getOrCreate_enrolls (root kind : String) (targets : Option (List String)) (h : Host) :
    ((after (getOrCreate root kind targets) h).registry = h.registry ∧
      (after (getOrCreate root kind targets) h).core? = h.core?) ∨
    ∃ q s key, h.core? s = none ∧
      (after (getOrCreate root kind targets) h).registry = h.registry.put q s ∧
      (after (getOrCreate root kind targets) h).core? =
        fun i => if i = s then some (.new key) else h.core? i := by
  unfold getOrCreate
  rw [after_bind_ok (run_get h)]
  split
  · exact .inl ⟨rfl, rfl⟩
  · exact .inl ⟨rfl, rfl⟩
  · next path _ =>
    dsimp only
    split
    · exact .inl ⟨rfl, rfl⟩
    · rcases newSession_spec kind (Pathname.renderAbsolute path) (targets.getD []) h with
        ⟨x, h', e, rfl⟩ | ⟨key, h', e, hv⟩
      · rw [after_bind, e]
        exact .inl ⟨rfl, rfl⟩
      · rw [after_bind_ok e, after_bind_ok (run_session _ h')]
        have hregistry : h'.registry = h.registry := congrArg View.registry hv
        refine .inr ⟨(kind, Pathname.renderAbsolute path), h.sessions.size, key, ?_, ?_,
          congrArg View.cores hv⟩
        · unfold core?
          rw [Table.get?_eq_none (Nat.le_refl _)]
          rfl
        · rw [← hregistry]
          rfl

/-- A session is taken out of use, and is about to be destroyed then. -/
theorem destroy_routes (root kind : String) (h : Host) :
    Comes (destroy root kind) h fun n h' => (h'.registry = h.registry ∧ n.push = []) ∨
      ∃ q s, h.registry.find? q = some s ∧ h'.registry = h.registry.erase q ∧
        n.push = [.teardown s, .give (.flag true)] := by
  unfold destroy
  refine Ends.bind (Ends.of_lawful (Same fun h => h) (fun path h' e => ?_) fun x h' hx e => ?_)
  · rw [show h' = h from e]
    refine Comes.read (run_get h) ?_
    split
    · exact Comes.done (.inl ⟨rfl, rfl⟩)
    · next s hs => exact Comes.run (Comes.done (.inr ⟨_, s, hs, rfl, rfl⟩))
  · rw [show h' = h from e]
    exact ⟨hx, .inl ⟨rfl, rfl⟩⟩

/-! ## Steps -/

namespace Enrolled

/-- Other tasks than the one that took a step are not about to destroy anything new. -/
theorem stack_elsewhere (k : Steps h t e f below) {u : Nat} {gs : List Frame} {g : Frame}
    (hu : (step t e h).loop.stack? u = some gs) (hg : g ∈ gs) (hs : s ∈ g.tears) :
    g ∈ (nextOf (resume f e) h).push ∨
      ∃ u gs g, h.loop.stack? u = some gs ∧ g ∈ gs ∧ s ∈ g.tears := by
  rcases k.stack_after hu with ⟨rfl, rfl⟩ | ⟨-, hu | hu⟩
  · refine (List.mem_append.1 hg).imp_right fun hg => ?_
    exact ⟨u, _, g, k.top, List.mem_cons_of_mem _ hg, hs⟩
  · exact .inr ⟨u, gs, g, hu, hg, hs⟩
  · rw [tears_of_isPlain (isPlain_of_tame hu hg)] at hs
    cases hs

/-- A step of a frame that leaves the registry alone. -/
theorem stepKeep (r : Enrolled h) (k : Steps h t e f below) (hreg : isRegistrar f = false) :
    Enrolled (step t e h) := by
  have hregistry : (after (resume f e) h).registry = h.registry :=
    (registry_resume hreg e).rel_after h
  have hspared {q : String × String} {i : Nat} (hi : h.registry.find? q = some i) : i ∉ f.tears :=
    r.spared q i t _ f hi k.top List.mem_cons_self
  have hold {q : String × String} {i : Nat} (hi : (step t e h).registry.find? q = some i) :
      h.registry.find? q = some i := by
    rw [step_eq k.top] at hi
    exact (congrArg (Keyed.find? · q) hregistry).symm.trans hi
  have hcores {a : Session.Core} {i : Nat} (ha : h.core? i = some a) (hd : a.destroyed = false)
      (hi : i ∉ f.tears) : ∃ b, (step t e h).core? i = some b ∧ b.destroyed = false := by
    rw [step_eq k.top]
    show ∃ b, (after (resume f e) h).core? i = some b ∧ b.destroyed = false
    cases hord : f.isOrdinary with
    | true => exact ((Calm.resume hord e).rel_after h).alive ha hd
    | false =>
      cases hturn : f.isTurn with
      | false => exact (k.course hord hturn).alive ha hd hi
      | true =>
        have hboard : (after (resume f e) h).board = h.board :=
          (board_resume_of_isTurn hturn e).rel_after h
        have hseat : (after (resume f e) h).seat? i = h.seat? i :=
          congrFun (congrArg Board.seats hboard) i
        rw [seat?, seat?, ha] at hseat
        obtain ⟨b, hb, hseat⟩ := Option.map_eq_some_iff.1 hseat
        exact ⟨b, hb, (congrArg Seat.destroyed hseat).trans hd⟩
  refine r.keep (fun _ _ => hold) (fun q i a hi ha hd => hcores ha hd (hspared (hold hi)))
    fun q i u gs g hi hu hg htears => ?_
  refine (stack_elsewhere k hu hg htears).elim (fun hg => ?_) id
  refine ⟨t, _, f, k.top, List.mem_cons_self, ?_⟩
  cases hord : f.isOrdinary with
  | true =>
    rw [tears_of_isPlain (isPlain_of_tame (tame_of_easy (easy_nextOf hord e h)) hg)] at htears
    cases htears
  | false =>
    cases hturn : f.isTurn with
    | false =>
      refine (k.course hord hturn).tears ?_ hg htears
      cases f <;> first | rfl | cases hreg
    | true =>
      rw [tears_of_isQueued (queued_nextOf hturn e h g hg)] at htears
      cases htears

theorem getOrCreate (r : Enrolled h) {root kind : String} {targets : Option (List String)} {v : Value}
    (k : Steps h t (.value v) (.getOrCreate root kind targets) below) :
    Enrolled (step t (.value v) h) := by
  have hpush : ∀ {g}, g ∈ (nextOf (resume (.getOrCreate root kind targets) (.value v)) h).push →
      ∀ {s}, s ∈ g.tears → False := fun hg _ hs => by
    have := (k.course rfl rfl).tears rfl hg hs
    cases this
  have hstack {q : String × String} {i u : Nat} {gs : List Frame} {g : Frame}
      (hi : h.registry.find? q = some i) (hu : (step t (.value v) h).loop.stack? u = some gs)
      (hg : g ∈ gs) : i ∉ g.tears := fun hs => by
    rcases stack_elsewhere k hu hg hs with hg | ⟨u, gs, g, hu, hg, hs⟩
    · exact hpush hg hs
    · exact r.spared q i u gs g hi hu hg hs
  have hafter : (step t (.value v) h).registry = (after (Host.getOrCreate root kind targets) h).registry ∧
      (step t (.value v) h).core? = (after (Host.getOrCreate root kind targets) h).core? := by
    rw [step_eq k.top]
    exact ⟨rfl, rfl⟩
  rcases getOrCreate_enrolls root kind targets h with ⟨hreg, hcore⟩ | ⟨q, i, key, hnone, hreg, hcore⟩
  · rw [← hafter.1] at hreg
    rw [← hafter.2] at hcore
    refine ⟨fun q i hi => ?_, fun q i u gs g hi hu hg => ?_, fun q q' i hi hi' => ?_⟩
    · rw [hcore]
      exact r.alive q i (hreg ▸ hi)
    · exact hstack (hreg ▸ hi) hu hg
    · exact r.one q q' i (hreg ▸ hi) (hreg ▸ hi')
  · rw [← hafter.1] at hreg
    rw [← hafter.2] at hcore
    -- the session is new, so it was not in use, and nobody is about to destroy it
    have hfind {q' : String × String} {j : Nat}
        (hj : (step t (.value v) h).registry.find? q' = some j) :
        q' = q ∧ j = i ∨ j ≠ i ∧ h.registry.find? q' = some j := by
      rw [hreg] at hj
      by_cases hq : q' = q
      · rw [hq, Keyed.find?_put_self] at hj
        exact .inl ⟨hq, (Option.some.inj hj).symm⟩
      · rw [Keyed.find?_put_of_ne hq] at hj
        refine .inr ⟨?_, hj⟩
        rintro rfl
        obtain ⟨a, ha, -⟩ := r.alive q' _ hj
        rw [hnone] at ha
        cases ha
    refine ⟨fun q' j hj => ?_, fun q' j u gs g hj hu hg hs => ?_, fun q' q'' j hj hj' => ?_⟩
    · rw [hcore]
      rcases hfind hj with ⟨-, rfl⟩ | ⟨hne, hj⟩
      · exact ⟨_, if_pos rfl, rfl⟩
      · dsimp only
        rw [if_neg hne]
        exact r.alive q' j hj
    · rcases hfind hj with ⟨-, rfl⟩ | ⟨-, hj⟩
      · rcases stack_elsewhere k hu hg hs with hg | ⟨u, gs, g, hu, hg, hs⟩
        · exact hpush hg hs
        · have := (k.inOrder.stages.fits u gs g hu hg).tears _ hs
          rw [show h.view.cores _ = none from hnone] at this
          cases this
      · exact hstack hj hu hg hs
    · rcases hfind hj with ⟨rfl, rfl⟩ | ⟨hne, hj⟩
      · exact ((hfind hj').resolve_right fun h => h.1 rfl).1.symm
      · rcases hfind hj' with ⟨-, rfl⟩ | ⟨-, hj'⟩
        · exact absurd rfl hne
        · exact r.one q' q'' j hj hj'

theorem destroy (r : Enrolled h) {root kind : String} {v : Value}
    (k : Steps h t (.value v) (.destroy root kind) below) : Enrolled (step t (.value v) h) := by
  have hroutes := (destroy_routes root kind h).nextOf
  have hreg : (step t (.value v) h).registry = (after (Host.destroy root kind) h).registry := by
    rw [step_eq k.top]
    rfl
  have hcore {q : String × String} {i : Nat} {a : Session.Core} (_ : h.registry.find? q = some i)
      (ha : h.core? i = some a) (hd : a.destroyed = false) :
      ∃ b, (step t (.value v) h).core? i = some b ∧ b.destroyed = false := by
    rw [step_eq k.top]
    exact (k.course rfl rfl).alive ha hd List.not_mem_nil
  rcases hroutes with ⟨hsame, hpush⟩ | ⟨q, i, hi, herase, hpush⟩
  · have hold {q : String × String} {j : Nat} (hj : (step t (.value v) h).registry.find? q = some j) :
        h.registry.find? q = some j := by
      rwa [hreg, hsame] at hj
    refine r.keep (fun _ _ => hold) (fun q j a hj => hcore (hold hj))
      fun q j u gs g hj hu hg hs => (stack_elsewhere k hu hg hs).elim (fun hg => ?_) id
    have hg : g ∈ (nextOf (Host.destroy root kind) h).push := hg
    rw [hpush] at hg
    cases hg
  · have hold {q' : String × String} {j : Nat}
        (hj : (step t (.value v) h).registry.find? q' = some j) :
        q' ≠ q ∧ h.registry.find? q' = some j := by
      rw [hreg, herase] at hj
      have hne : q' ≠ q := by
        rintro rfl
        rw [Keyed.find?_erase_self] at hj
        cases hj
      rw [Keyed.find?_erase_of_ne hne] at hj
      exact ⟨hne, hj⟩
    refine r.keep (fun _ _ hj => (hold hj).2) (fun q' j a hj => hcore (hold hj).2)
      fun q' j u gs g hj hu hg hs => (stack_elsewhere k hu hg hs).elim (fun hg => ?_) id
    have hg : g ∈ (nextOf (Host.destroy root kind) h).push := hg
    rw [hpush] at hg
    obtain ⟨hne, hj⟩ := hold hj
    rcases List.mem_cons.1 hg with rfl | hg
    · rw [List.mem_singleton.1 hs] at hj
      exact absurd (r.one q' q i hj hi) hne
    · rw [List.mem_singleton.1 hg] at hs
      cases hs

/-- When all sessions are taken out of use, none is in use. -/
theorem of_empty (he : h.registry = {}) : Enrolled h := by
  have hnone {q : String × String} {i : Nat} (hi : h.registry.find? q = some i) : False := by
    rw [he] at hi
    cases hi
  exact ⟨fun q i hi => (hnone hi).elim, fun q i u gs g hi => (hnone hi).elim,
    fun q q' i hi => (hnone hi).elim⟩

theorem step (r : Enrolled h) (k : Steps h t e f below) : Enrolled (Host.step t e h) := by
  cases hreg : isRegistrar f with
  | false => exact r.stepKeep k hreg
  | true =>
    -- a frame that is told of a failure passes it on
    have hpass (hrun : (resume f e).run h = .ok (.pass e) h) : Enrolled (Host.step t e h) := by
      have hstep : Host.step t e h = goOn t below (.pass e) h := by
        rw [step_eq k.top, nextOf_of_ok hrun, after_of_ok hrun]
        rfl
      have hregistry : (Host.step t e h).registry = h.registry := by rw [hstep]; rfl
      have hcore : (Host.step t e h).core? = h.core? := by rw [hstep]; rfl
      refine r.keep (fun q i hi => hregistry ▸ hi)
        (fun q i a _ ha hd => ⟨a, by rw [hcore, ha], hd⟩) fun q i u gs g _ hu hg hs => ?_
      refine (stack_elsewhere k hu hg hs).elim (fun hg => ?_) id
      rw [nextOf_of_ok hrun] at hg
      cases hg
    cases e with
    | value v =>
      cases f with
      | getOrCreate root kind targets => exact r.getOrCreate k
      | destroy root kind => exact r.destroy k
      | cleanup => exact of_empty (by rw [step_eq k.top]; rfl)
      | _ => cases hreg
    | _ => cases f <;> first | exact hpass rfl | cases hreg

/-- Sessions become ready at most, and no task is given anything to destroy. -/
theorem calm (r : Enrolled h) (hreg : h'.registry = h.registry) (hcalm : Calm h h')
    (hstack : ∀ u gs, h'.loop.stack? u = some gs → h.loop.stack? u = some gs ∨ Tame gs) :
    Enrolled h' := by
  refine r.keep (fun q i hi => hreg ▸ hi) (fun q i a _ ha hd => hcalm.alive ha hd)
    fun q i u gs g _ hu hg hs => ?_
  rcases hstack u gs hu with hu | hu
  · exact ⟨u, gs, g, hu, hg, hs⟩
  · rw [tears_of_isPlain (isPlain_of_tame hu hg)] at hs
    cases hs

theorem ofLoop (r : Enrolled h) {l : Loop Value Failure Frame}
    (hl : ∀ u, l.stack? u = h.loop.stack? u) : Enrolled { h with loop := l } :=
  r.calm rfl (.of_core? rfl) fun u _ hu => .inl ((hl u).symm.trans hu)

theorem beginJob (r : Enrolled h) (j : Job) (jobs : List Job) :
    Enrolled (Host.beginJob j { h with loop := { h.loop with jobs } }) := by
  cases j with
  | start t => exact r.ofLoop (resume_spec { h.loop with jobs } t _).1
  | wake t c => exact r.ofLoop (resume_spec { h.loop with jobs } t _).1
  | release w => exact r.ofLoop (stack?_finish { h.loop with jobs } w _)
  | notify q =>
    rw [beginJob_notify]
    have hdrop : Enrolled { h with loop := { h.loop with jobs } } := r.ofLoop fun _ => rfl
    refine hdrop.calm (Within.rel_after (R := Same Host.registry) _) (Within.rel_after _) fun u gs => ?_
    exact (Within.rel_after (R := Guards {}) { h with loop := { h.loop with jobs } }).grows.fresh u gs

theorem tick (r : Enrolled h) (k : InOrder h) : Enrolled h.tick := by
  rcases tick_cases h with ⟨t, e, f, below, hrun, hs, e'⟩ | ⟨t, e, -, -, e'⟩ | ⟨-, e'⟩ |
    ⟨j, jobs, -, -, e'⟩
  · exact e' ▸ r.step ⟨k, hrun, hs⟩
  · exact e' ▸ r.ofLoop (stack?_endTask h.loop t e)
  · exact e'.symm ▸ r
  · exact e' ▸ r.beginJob j jobs

theorem fire (r : Enrolled h) (t : Timer) : Enrolled (h.fire t) :=
  r.ofLoop fun u => stack?_finish
    { h.loop with now := t.due, timers := dropTimer t.cell h.loop.timers } t.cell _ u

theorem outside {P : Reaction → Prop} (r : Enrolled h) (ho : Outside P h h') : Enrolled h' := by
  cases ho with
  | ask hfs =>
    have := Guards.newTask (W := {}) (tame_of_asked hfs)
    exact r.calm rfl (.of_core? rfl)
      (Within.rel_after (R := Guards {}) (a := Host.newTask _) h).grows.fresh
  | cancel c =>
    have hg : Guards {} h (after (changeLoop (·.cancel c)) h) := Within.rel_after h
    exact r.calm rfl (.of_core? rfl) hg.grows.fresh
  | submit | query | act =>
    exact r.calm (Within.rel_after (R := Same Host.registry) h) (Within.rel_after h)
      (Within.rel_after (R := Guards {}) h).grows.fresh
  | worker | world | time => exact r.calm rfl (.of_core? rfl) fun _ _ hu => .inl hu

end Enrolled

/-- Sessions in use are not destroyed, in every run. -/
theorem enrolled_of_reachable {P : Reaction → Prop} (hr : Reachable Fresh (Outside P) h) :
    Enrolled h := by
  induction hr with
  | start hf => exact .of_empty hf.registry
  | tick hr ih => exact ih.tick (inOrder_of_reachable hr)
  | fire _ _ ih => exact ih.fire _
  | act _ _ ho ih => exact ih.outside ho

end GhciHost.Host
