import GhciHost.Proofs.Session.Enrolled
import GhciHost.Proofs.Session.Onward

/-!
# Sessions that are destroyed

A session that is destroyed stays so, and if it is absent besides it is absent for good.  Before that
it is taken out of the registry, which it was in once: nobody finds it again, and nobody else than
who took it out comes to destroy it.

* `Course.fades`, `Fades.tick`   what becomes of a destroyed session;
* `nodup_of_reachable`   the registry has each session once;
* `Course.removes`, `Sole.tick`   one task destroys the session.
-/

namespace GhciHost

/-- A session that is destroyed keeps its phase, until it is absent. -/
structure Session.Core.Fades (a b : Session.Core) : Prop where
  destroyed : b.destroyed = true
  phase : b.phase = a.phase ∨ b.phase = .absent

/-- The frame destroys the session, or is about to. -/
def Frame.Removes (f : Frame) (s : Nat) : Prop := s ∈ f.tears ∨ f.gone? = some s

namespace Host

open Loop

variable {h h' : Host} {t s : Nat} {e : Ending} {f : Frame} {below : List Frame}

/-! ## Destroyed sessions -/

/-- The session is destroyed, and goes on in this way. -/
def Fades (s : Nat) (h h' : Host) : Prop :=
  ∀ a, h.core? s = some a → a.destroyed = true → ∃ b, h'.core? s = some b ∧ a.Fades b

theorem Fades.of_core? (e : h'.core? = h.core?) : Fades s h h' := fun a ha hd =>
  ⟨a, by rw [e, ha], hd, .inl rfl⟩

theorem Course.fades {n : Next} {cores : Cores} (hc : Course h e f n cores) (hf : Fits h.core? f)
    {a : Session.Core} (ha : h.core? s = some a) (hd : a.destroyed = true) :
    ∃ b, cores s = some b ∧ a.Fades b := by
  have hsame : ∃ b, h.core? s = some b ∧ a.Fades b := ⟨a, ha, hd, .inl rfl⟩
  -- the other frames suppose that their sessions are alive
  have halive {i : Nat} {F : Session.Core → Session.Core} {c : Session.Core}
      (hc : h.core? i = some c) (hcd : c.destroyed = false) :
      ∃ b, bump i F h.core? s = some b ∧ a.Fades b := by
    have hi : s ≠ i := by
      rintro rfl
      cases hc.symm.trans ha
      rw [hd] at hcd
      cases hcd
    rwa [bump_of_ne hi]
  have hbump {i : Nat} {F : Session.Core → Session.Core} (hF : a.Fades (F a)) :
      ∃ b, bump i F h.core? s = some b ∧ a.Fades b := by
    by_cases hi : s = i
    · subst hi
      exact ⟨_, bump_self ha, hF⟩
    · rwa [bump_of_ne hi]
  cases hc with
  | pass | route | ask | proceed => exact hsame
  | make _ hnone =>
    next i key _ =>
    refine ⟨a, ?_, hd, .inl rfl⟩
    dsimp only
    rw [if_neg, ha]
    rintro rfl
    rw [hnone] at ha
    cases ha
  | install hi hid => exact halive hi hid
  | giveUp _ _ _ _ hi hid => exact halive hi hid
  | launch =>
    obtain ⟨c, hc, hl⟩ := hf.launch _ _ rfl
    exact halive hc hl.alive
  | adopt _ hi hid => exact halive hi hid
  | escalate _ hi hid => exact halive hi hid
  | die _ _ _ hi hid => exact halive hi hid
  | tear => exact hbump ⟨rfl, .inl rfl⟩
  | clear => exact hbump ⟨hd, .inr rfl⟩

theorem Calm.fades (hc : Calm h h') (hm : Manned h.core?) : Fades s h h' := fun a ha hd => by
  obtain ⟨b, hb, hab⟩ := hc.old s a ha
  rcases hab with rfl | ⟨m, m', port, p, -, hp, rfl⟩
  · exact ⟨b, hb, hd, .inl rfl⟩
  -- a destroyed session has no worker that could become ready
  · have := (hm s a ha (by rw [hp]; rfl)).2
    rw [hd] at this
    cases this

theorem Steps.fades (k : Steps h t e f below) : Fades s h (Host.step t e h) := by
  rw [step_eq k.top]
  show Fades s h (after (resume f e) h)
  cases hord : f.isOrdinary with
  | true => exact ((Calm.resume hord e).rel_after h).fades k.inOrder.stages.manned
  | false =>
    intro a ha hd
    cases hturn : f.isTurn with
    | false =>
      exact (k.course hord hturn).fades (k.inOrder.stages.fits t _ f k.top List.mem_cons_self) ha hd
    | true =>
      have hboard : (after (resume f e) h).board = h.board :=
        (board_resume_of_isTurn hturn e).rel_after h
      have hseat : (after (resume f e) h).seat? s = h.seat? s :=
        congrFun (congrArg Board.seats hboard) s
      rw [seat?, seat?, ha] at hseat
      obtain ⟨b, hb, hseat⟩ := Option.map_eq_some_iff.1 hseat
      exact ⟨b, hb, (congrArg Seat.destroyed hseat).trans hd, .inl (congrArg Seat.phase hseat)⟩

namespace Fades

theorem tick (k : InOrder h) : Fades s h h.tick := by
  rcases tick_cases h with ⟨t, e, f, below, hrun, hs, e'⟩ | ⟨t, e, -, -, e'⟩ | ⟨-, e'⟩ |
    ⟨j, jobs, -, -, e'⟩
  · exact e' ▸ Steps.fades ⟨k, hrun, hs⟩
  · exact e' ▸ .of_core? rfl
  · exact .of_core? (congrArg core? e')
  · rw [e']
    cases j with
    | notify q =>
      rw [beginJob_notify]
      exact .of_core? (Within.rel_after (R := Same core?) { h with loop := { h.loop with jobs } })
    | _ => exact .of_core? rfl

theorem outside {P : Reaction → Prop} (k : InOrder h) (ho : Outside P h h') : Fades s h h' := by
  cases ho with
  | submit | query | act => exact Calm.fades (Within.rel_after h) k.stages.manned
  | _ => exact .of_core? rfl

end Fades

/-! ## The registry -/

/-- The registry has each session once, and no session comes back that there was. -/
structure Refiles (h h' : Host) : Prop where
  nodup : h.Listed → h.registry.values.Nodup → h'.registry.values.Nodup
  unlisted : ∀ s, (h.core? s).isSome → s ∉ h.registry.values → s ∉ h'.registry.values
  found : ∀ project s, h'.registry.find? project = some s →
    h.registry.find? project = some s ∨ h.core? s = none

theorem Refiles.of_eq (e : h'.registry = h.registry) : Refiles h h' :=
  ⟨fun _ hn => by rwa [e], fun _ _ hs => by rwa [e], fun _ _ hs => .inl (by rwa [← e])⟩

theorem Refiles.resume (f : Frame) (e : Ending) (h : Host) : Refiles h (after (Host.resume f e) h) := by
  cases hreg : isRegistrar f with
  | false => exact .of_eq ((registry_resume hreg e).rel_after h)
  | true =>
    cases e with
    | value v =>
      cases f with
      | getOrCreate root kind targets =>
        show Refiles h (after (Host.getOrCreate root kind targets) h)
        rcases getOrCreate_enrolls root kind targets h with ⟨hreg, -⟩ | ⟨q, i, key, hnone, hreg, -⟩
        · exact .of_eq hreg
        · have hold {j : Nat} (hj : (h.core? j).isSome) : j ≠ i := by
            rintro rfl
            rw [hnone] at hj
            cases hj
          refine ⟨fun hl hn => ?_, fun j hj hs hmem => ?_, fun q' j hj => ?_⟩
          · rw [hreg]
            exact Keyed.nodup_values_put hn q fun hi => hold (hl i hi) rfl
          · rw [hreg] at hmem
            exact (Keyed.mem_values_put hmem).elim (hold hj) hs
          · rw [hreg] at hj
            by_cases hq : q' = q
            · rw [hq, Keyed.find?_put_self] at hj
              cases hj
              exact .inr hnone
            · rw [Keyed.find?_put_of_ne hq] at hj
              exact .inl hj
      | destroy root kind =>
        show Refiles h (after (Host.destroy root kind) h)
        rcases (destroy_routes root kind h).nextOf with ⟨hreg, -⟩ | ⟨q, i, -, hreg, -⟩
        · exact .of_eq hreg
        · refine ⟨fun _ hn => ?_, fun j _ hs hmem => ?_, fun q' j hj => .inl ?_⟩
          · rw [hreg]
            exact Keyed.nodup_values_erase hn q
          · rw [hreg] at hmem
            exact hs (Keyed.mem_values_erase hmem)
          · rw [hreg] at hj
            by_cases hq : q' = q
            · rw [hq, Keyed.find?_erase_self] at hj
              cases hj
            · rwa [Keyed.find?_erase_of_ne hq] at hj
      | cleanup =>
        exact ⟨fun _ _ => List.nodup_nil, fun _ _ _ => List.not_mem_nil, fun _ _ hj => by cases hj⟩
      | _ => cases hreg
    | _ => cases f <;> first | exact .of_eq rfl | cases hreg

theorem Refiles.tick (h : Host) : Refiles h h.tick := by
  rcases tick_cases h with ⟨t, e, f, below, hrun, hs, e'⟩ | ⟨t, e, -, -, e'⟩ | ⟨-, e'⟩ |
    ⟨j, jobs, -, -, e'⟩
  · rw [e', step_eq hs]
    have k := resume f e h
    exact ⟨k.nodup, k.unlisted, k.found⟩
  · exact e' ▸ .of_eq rfl
  · exact .of_eq (congrArg Host.registry e')
  · rw [e']
    cases j with
    | notify q =>
      rw [beginJob_notify]
      exact .of_eq (Within.rel_after (R := Same Host.registry) { h with loop := { h.loop with jobs } })
    | _ => exact .of_eq rfl

theorem Refiles.outside {P : Reaction → Prop} (ho : Outside P h h') : Refiles h h' := by
  cases ho with
  | submit | query | act => exact .of_eq (Within.rel_after (R := Same Host.registry) h)
  | _ => exact .of_eq rfl

theorem nodup_of_reachable {P : Reaction → Prop} (hr : Reachable Fresh (Outside P) h) :
    h.registry.values.Nodup := by
  induction hr with
  | start hf =>
    rw [hf.registry]
    exact List.nodup_nil
  | tick hr ih => exact (Refiles.tick _).nodup (inOrder_of_reachable hr).listed ih
  | fire _ _ ih => exact ih
  | act hr _ ho ih => exact (Refiles.outside ho).nodup (inOrder_of_reachable hr).listed ih

/-! ## Who destroys a session -/

theorem not_removes_of_isPlain (hf : f.isPlain = true) : ¬ f.Removes s := by
  rintro (hs | hs)
  · rw [tears_of_isPlain hf] at hs
    cases hs
  · rw [gone?_of_isPlain hf] at hs
    cases hs

theorem not_removes_of_early {i : Nat} (hf : f.early? = some i) : ¬ f.Removes s := by
  obtain ⟨-, -, -, -, -, -, ht, hg, -⟩ := kinds_of_early hf
  rintro (hs | hs)
  · rw [ht] at hs
    cases hs
  · rw [hg] at hs
    cases hs

theorem not_removes_of_isQueued (hf : isQueued f = true) : ¬ f.Removes s := by
  rintro (hs | hs)
  · rw [tears_of_isQueued hf] at hs
    cases hs
  · cases f <;> first | (cases hs; done) | cases hf

/-- Nobody else comes to be about to destroy a session than who was, or takes it out of use. -/
theorem Course.removes {n : Next} {cores : Cores} (hc : Course h e f n cores) (hdrop : f.isDrop = false)
    {g : Frame} (hg : g ∈ n.push) (hs : g.Removes s) : f.Removes s := by
  have heasy {gs : List Frame} (hgs : gentle gs = true) (hg : g ∈ gs) : f.Removes s :=
    absurd hs (not_removes_of_isPlain (isPlain_of_tame (tame_of_gentle hgs) hg))
  rcases hs with ht | hgone
  · exact .inl (hc.tears hdrop hg ht)
  · cases hc with
    | pass | make | giveUp | adopt | die | clear => cases hg
    | route _ _ hgs =>
      have := (hgs g hg).2.2.2.2.2 (by rw [hgone]; rfl)
      exact .inr (this.symm.trans hgone)
    | ask _ _ _ hgs hearly =>
      rcases List.mem_append.1 hg with hg | hg
      · exact heasy hgs hg
      · rw [List.mem_singleton.1 hg] at hgone
        exact absurd (.inr hgone) (not_removes_of_early hearly)
    | install _ _ _ hgs =>
      rcases List.mem_append.1 hg with hg | hg
      · exact heasy hgs hg
      · rw [List.mem_singleton.1 hg] at hgone
        cases hgone
    | proceed | escalate =>
      rw [List.mem_singleton.1 hg] at hgone
      cases hgone
    | launch hpush =>
      rw [hpush] at hg
      simp only [List.mem_cons, List.not_mem_nil, or_false] at hg
      rcases hg with rfl | rfl <;> cases hgone
    | tear hpush =>
      rw [hpush] at hg
      rw [List.mem_singleton.1 hg] at hgone
      cases hgone
      exact .inl List.mem_cons_self

/-- A session that is not in use is not about to be destroyed by whoever was not. -/
theorem Steps.removes (k : Steps h t e f below) (hunlisted : s ∉ h.registry.values)
    (hf : ¬ f.Removes s) {g : Frame} (hg : g ∈ (nextOf (resume f e) h).push) : ¬ g.Removes s := by
  cases hord : f.isOrdinary with
  | true => exact not_removes_of_isPlain (isPlain_of_tame (tame_of_easy (easy_nextOf hord e h)) hg)
  | false =>
    cases hturn : f.isTurn with
    | true => exact not_removes_of_isQueued (queued_nextOf hturn e h g hg)
    | false =>
      cases hdrop : f.isDrop with
      | false => exact fun hs => hf ((k.course hord hturn).removes hdrop hg hs)
      | true =>
        have hpass (hrun : (resume f e).run h = .ok (.pass e) h) : ¬ g.Removes s := by
          rw [nextOf_of_ok hrun] at hg
          cases hg
        have hteardown {fs : List Frame} {i : Nat} (hi : i ∈ h.registry.values)
            (hfs : fs = [.teardown i, .give (.flag true)]) (hg : g ∈ fs) : ¬ g.Removes s := by
          rw [hfs] at hg
          rcases List.mem_cons.1 hg with rfl | hg
          · rintro (hs | hs)
            · rw [List.mem_singleton.1 hs] at hunlisted
              exact hunlisted hi
            · cases hs
          · rw [List.mem_singleton.1 hg]
            exact not_removes_of_isPlain rfl
        cases e with
        | value v =>
          cases f with
          | destroy root kind =>
            have hg : g ∈ (nextOf (Host.destroy root kind) h).push := hg
            rcases (destroy_routes root kind h).nextOf with ⟨-, hpush⟩ | ⟨q, i, hi, -, hpush⟩
            · rw [hpush] at hg
              cases hg
            · exact hteardown (Keyed.mem_values_of_find? hi) hpush hg
          | cleanup =>
            cases List.mem_singleton.1 hg
            rintro (hs | hs)
            · exact hunlisted hs
            · cases hs
          | _ => cases hdrop
        | _ => cases f <;> first | exact hpass rfl | cases hdrop

/-- The session is not in use, and no other task than one destroys it or is about to. -/
structure Sole (s t : Nat) (h : Host) : Prop where
  known : (h.core? s).isSome
  unlisted : s ∉ h.registry.values
  spared : ∀ u fs f, u ≠ t → h.loop.stack? u = some fs → f ∈ fs → ¬ f.Removes s

namespace Sole

/-- Whatever happens, tasks have frames that they had, or frames that destroy nothing. -/
theorem keep (k : Sole s t h) (hknown : ∀ s, (h.core? s).isSome → (h'.core? s).isSome)
    (hreg : Refiles h h') (hstack : ∀ u fs f, u ≠ t → h'.loop.stack? u = some fs → f ∈ fs →
      f.Removes s → ∃ fs, h.loop.stack? u = some fs ∧ f ∈ fs) : Sole s t h' where
  known := hknown s k.known
  unlisted := hreg.unlisted s k.known k.unlisted
  spared u fs f hu hs hf hr := by
    obtain ⟨fs, hs, hf⟩ := hstack u fs f hu hs hf hr
    exact k.spared u fs f hu hs hf hr

theorem step {u : Nat} (r : Sole s t h) (k : Steps h u e f below) : Sole s t (Host.step u e h) := by
  have hreg : Refiles h (Host.step u e h) := by
    rw [step_eq k.top]
    have k := Refiles.resume f e h
    exact ⟨k.nodup, k.unlisted, k.found⟩
  have hknown (i : Nat) (hi : (h.core? i).isSome) : ((Host.step u e h).core? i).isSome := by
    rw [step_eq k.top]
    exact ((Listing.resume f e).rel_after h).known i hi
  refine ⟨hknown s r.known, hreg.unlisted s r.known r.unlisted, fun i fs g hi hs hg => ?_⟩
  rcases k.stack_after hs with ⟨rfl, rfl⟩ | ⟨-, hs | hs⟩
  · rcases List.mem_append.1 hg with hg | hg
    · exact k.removes r.unlisted (r.spared i _ f hi k.top List.mem_cons_self) hg
    · exact r.spared i _ g hi k.top (List.mem_cons_of_mem _ hg)
  · exact r.spared i fs g hi hs hg
  · exact not_removes_of_isPlain (isPlain_of_tame hs hg)

theorem ofLoop (r : Sole s t h) {l : Loop Value Failure Frame}
    (hl : ∀ u, l.stack? u = h.loop.stack? u) : Sole s t { h with loop := l } :=
  r.keep (fun _ hs => hs) (.of_eq rfl) fun u fs _ _ hu hf _ => ⟨fs, (hl u).symm.trans hu, hf⟩

/-- New tasks destroy nothing. -/
theorem grows (r : Sole s t h) (hknown : ∀ s, (h.core? s).isSome → (h'.core? s).isSome)
    (hreg : h'.registry = h.registry)
    (hstack : ∀ u fs, h'.loop.stack? u = some fs → h.loop.stack? u = some fs ∨ Tame fs) :
    Sole s t h' :=
  r.keep hknown (.of_eq hreg) fun u fs f _ hu hf hr => by
    rcases hstack u fs hu with hu | hu
    · exact ⟨fs, hu, hf⟩
    · exact absurd hr (not_removes_of_isPlain (isPlain_of_tame hu hf))

theorem tick (r : Sole s t h) (k : InOrder h) : Sole s t h.tick := by
  rcases tick_cases h with ⟨u, e, f, below, hrun, hs, e'⟩ | ⟨u, e, -, -, e'⟩ | ⟨-, e'⟩ |
    ⟨j, jobs, -, -, e'⟩
  · exact e' ▸ r.step ⟨k, hrun, hs⟩
  · exact e' ▸ r.ofLoop (stack?_endTask h.loop u e)
  · exact e'.symm ▸ r
  · rw [e']
    cases j with
    | start u => exact r.ofLoop (resume_spec { h.loop with jobs } u _).1
    | wake u c => exact r.ofLoop (resume_spec { h.loop with jobs } u _).1
    | release w => exact r.ofLoop (stack?_finish { h.loop with jobs } w _)
    | notify q =>
      rw [beginJob_notify]
      have hdrop : Sole s t { h with loop := { h.loop with jobs } } := r.ofLoop fun _ => rfl
      have hlisting : Listing _ (after (queryEnded q) { h with loop := { h.loop with jobs } }) :=
        Within.rel_after _
      exact hdrop.grows hlisting.known (Within.rel_after (R := Same Host.registry) _)
        (Within.rel_after (R := Guards {}) { h with loop := { h.loop with jobs } }).grows.fresh

theorem fire (r : Sole s t h) (t' : Timer) : Sole s t (h.fire t') :=
  r.ofLoop fun u => stack?_finish
    { h.loop with now := t'.due, timers := dropTimer t'.cell h.loop.timers } t'.cell _ u

theorem outside {P : Reaction → Prop} (r : Sole s t h) (ho : Outside P h h') : Sole s t h' := by
  cases ho with
  | ask hfs =>
    have := Guards.newTask (W := {}) (tame_of_asked hfs)
    exact r.grows (fun _ hs => hs) rfl
      (Within.rel_after (R := Guards {}) (a := newTask _) h).grows.fresh
  | cancel c =>
    exact r.grows (fun _ hs => hs) rfl
      (Within.rel_after (R := Guards {}) (a := changeLoop (·.cancel c)) h).grows.fresh
  | submit | query | act =>
    exact r.grows (Within.rel_after (R := Listing) h).known
      (Within.rel_after (R := Same Host.registry) h) (Within.rel_after (R := Guards {}) h).grows.fresh
  | worker | world | time => exact r.grows (fun _ hs => hs) rfl fun _ _ hu => .inl hu

end Sole

end Host

end GhciHost
