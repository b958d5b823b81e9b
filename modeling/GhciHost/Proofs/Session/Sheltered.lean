import GhciHost.Proofs.Loop.Secluded
import GhciHost.Proofs.Session.Parked
import GhciHost.Proofs.Session.Recalled

/-!
# Tasks that nobody cancels

A cancellation comes to a task by the cells that it waits for, and by the one that tells of its end.
If nobody is told of these cells, in no frame of another task and not by the host, then no step of
another task cancels any of them: the cells and their tasks are `Sheltered`, and `Safe` as long as
nothing happened to them yet.

* `Sheltered.evades`   the actions of other tasks evade the cells;
* `Safe.tick`, `Safe.fire`, `Safe.outside`   whatever happens besides;
* `Safe.goes`, `Safe.waitsFor`, `Safe.ends`   what the tasks do themselves;
* `Safe.grow`   they come to know new cells and tasks.
-/

namespace GhciHost

namespace Host

open Loop

variable {h h' : Host} {t u c : Nat} {e : Ending} {f : Frame} {fs below : List Frame}
  {D S : Nat → Prop}

/-- Nobody knows of the cells but the tasks. -/
structure Sheltered (D S : Nat → Prop) (h : Host) : Prop where
  secluded : Secluded D S h.loop
  frames : ∀ u fs, ¬ S u → h.loop.stack? u = some fs → ∀ c ∈ cellsOf fs, ¬ D c
  recalled : ∀ c, h.Recalls c → ¬ D c

/-! ## What other tasks do -/

instance : Handles (Evades D S) where
  refl := .refl
  trans h k := h.trans k
  finish l _ _ he := .finish l fun _ => he
  hook l c k _ := .hook l c k
  newCell := .newCell
  timers _ _ := .of_eq rfl rfl

namespace Evades

instance newTask (fs : List Frame) : Within (Looped (Evades D S)) (Host.newTask fs) :=
  ⟨fun h => .newTask h.loop fs⟩

theorem cancel (hc : ¬ D c) : Within (Looped (Evades D S)) (Host.changeLoop (·.cancel c)) :=
  Looped.changeLoop fun l => .cancelWithin l _ hc

theorem cancelAll {cells : List Nat} (hcells : ∀ c ∈ cells, ¬ D c) :
    Within (Looped (Evades D S))
      (Host.changeLoop fun l => cells.foldl (fun l c => l.cancel c) l) :=
  Looped.changeLoop fun l => by
    induction cells generalizing l with
    | nil => exact .refl l
    | cons c cells ih =>
      exact (Evades.cancelWithin l _ (hcells c List.mem_cons_self)).trans
        (ih (fun d hd => hcells d (List.mem_cons_of_mem _ hd)) _)

theorem waitFor (hc : ¬ D c) (limit : Option Seconds) :
    Within (Looped (Evades D S)) (Host.waitFor c limit) := by
  have := cancel (S := S) hc
  infer_instance

/-- A cell that was only just made is not one of them. -/
theorem bindNew {α : Type} {a : Action Nat} {g : Nat → Action α} [ha : Makes a]
    [Within (Looped (Evades D S)) a] (hg : ∀ c, ¬ D c → Within (Looped (Evades D S)) (g c)) (h : Host) :
    Looped (Evades D S) h (after (a >>= g) h) := by
  refine Loop.Evades.of_secluded fun hl => ?_
  rw [after_bind]
  cases e : a.run h with
  | error x k => exact Within.of_error (R := Looped (Evades D S)) e
  | ok c k =>
    have hnew : ¬ D c := by
      rw [(ha.makes e).1]
      exact fun hd => absurd (hl.old _ hd) (Nat.lt_irrefl _)
    have hfirst : Looped (Evades D S) h k := Within.of_ok e
    exact trans_of (Looped (Evades D S)) hfirst ((hg c hnew).rel_after k)

theorem call (l : Nat) (command : String) (timeout : Option Seconds) :
    Within (Looped (Evades D S)) (Host.call l command timeout) := by
  refine ⟨fun h => ?_⟩
  unfold Host.call
  refine bindNew (fun w hw => ?_) h
  have := waitFor (S := S) hw timeout
  infer_instance

theorem callSession (s : Nat) (command : String) (timeout : Option Seconds) :
    Within (Looped (Evades D S)) (Host.callSession s command timeout) := by
  have (timeout : Option Seconds) := call (D := D) (S := S) s command timeout
  infer_instance

theorem waitReady (s : Nat) : Within (Looped (Evades D S)) (Host.waitReady s) := by
  refine ⟨fun h => ?_⟩
  unfold Host.waitReady
  refine after_bind_still (Std.Refl.refl h) fun k => ?_
  split
  · exact Std.Refl.refl h
  · refine bindNew (fun i hi => ?_) h
    have := waitFor (S := S) hi k.settings.startupTimeout
    infer_instance

theorem beginExchange (q : Nat) : Within (Looped (Evades D S)) (Host.beginExchange q) := by
  refine ⟨fun h => ?_⟩
  unfold Host.beginExchange
  refine after_bind_still (Std.Refl.refl h) fun query => ?_
  refine after_bind_still (Std.Refl.refl h) fun ch => ?_
  dsimp only
  split
  · exact Std.Refl.refl h
  · refine bindNew (fun i hi => ?_) h
    have := waitFor (S := S) hi ch.connectTimeout
    infer_instance

/-- Whoever ends a session cancels a task that follows a worker. -/
theorem teardown {s : Nat} (hs : ∀ c, h.readerOf s = some c → ¬ D c) :
    Looped (Evades D S) h (after (Host.teardown s) h) := by
  unfold Host.teardown
  rw [after_bind_ok (run_session s h)]
  refine @Within.rel_after _ (Looped (Evades D S)) _ ?_ h
  refine @Within.bind _ _ _ _ _ _ _ fun _ => ?_
  refine @Within.bind _ _ _ _ _ _ _ fun _ => ?_
  refine @Within.bind _ _ _ _ _ _ _ fun _ => ?_
  refine @Within.bind _ _ _ _ _ _ _ fun _ => ?_
  dsimp only
  split
  · next c hc =>
    have := cancel (S := S) (hs c (readerOf_of_sessionOf hc))
    infer_instance
  · infer_instance

end Evades

/-- A frame that knows none of the cells does nothing to them. -/
theorem Sheltered.evades (k : Sheltered D S h) (hl : Tabled h) (hf : ∀ c ∈ f.cells, ¬ D c)
    (e : Ending) : Looped (Evades D S) h (after (resume f e) h) := by
  cases hcancel : f.cancels with
  | false => exact (Looped.resume (fun hc => by rw [hcancel] at hc; cases hc)
      fun _ _ _ _ _ _ => inferInstance).rel_after h
  | true =>
    have hrefl : Looped (Evades D S) h h := Std.Refl.refl h
    cases f with
    | race c =>
      have := Evades.cancel (S := S) (hf c List.mem_cons_self)
      exact Within.rel_after (a := raceOver c e) h
    | exchange q =>
      cases e with
      | value v => exact (Evades.beginExchange q).rel_after h
      | _ => exact hrefl
    | call l command timeout =>
      cases e with
      | value v => exact (Evades.call l command timeout).rel_after h
      | _ => exact hrefl
    | callSession s command timeout =>
      cases e with
      | value v => exact (Evades.callSession s command timeout).rel_after h
      | _ => exact hrefl
    | callOn command timeout =>
      cases e with
      | value v =>
        cases v with
        | session s => exact (Evades.callSession s command timeout).rel_after h
        | _ => exact hrefl
      | _ => exact hrefl
    | waitReady =>
      cases e with
      | value v =>
        cases v with
        | session s => exact (Evades.waitReady s).rel_after h
        | _ => exact hrefl
      | _ => exact hrefl
    | cancelQueries c =>
      cases e with
      | value v =>
        obtain ⟨tasks, e₁, htasks⟩ := cancelQueries_run c h
        have hclear : ∀ d ∈ tasks, ¬ D d := fun d hd => by
          obtain ⟨q, hq, hx⟩ := htasks d hd
          exact k.recalled d (hl.recalls hq hx)
        rw [after_of_ok (show (resume (.cancelQueries c) (.value v)).run h = _ from e₁)]
        exact (Evades.cancelAll hclear).rel_after h
      | _ => exact hrefl
    | teardown s =>
      cases e with
      | value v => exact Evades.teardown fun c hc => k.recalled c (.reader hc)
      | _ => exact hrefl
    | _ => cases hcancel

/-! ## What happens to the tasks -/

/-- None of the cells was cancelled, and none of the tasks is asked to end. -/
structure Safe (D S : Nat → Prop) (h : Host) : Prop extends Sheltered D S h where
  outcome : ∀ c, D c → h.loop.outcome? c ≠ some .cancelled
  asked : ∀ u, S u → ¬ h.loop.CancelAsked u
  running : ∀ u, S u → h.loop.running ≠ some (u, .cancelled)
  waits : ∀ u c, S u → h.loop.waiting u = some c → D c

/-- A task goes on, or waits for another cell. -/
theorem evades_proceed (l : Loop Value Failure Frame) {n : Next} (hn : ∀ c ∈ n.cells, ¬ D c) :
    Loop.Evades D S l (proceed t below n l) := by
  cases n with
  | go push e => exact .setStack l t _ _
  | wait push c =>
    simp only [proceed]
    split
    · exact .setStack l t _ _
    · exact (Loop.Evades.setStack l t (push ++ below) l.running).trans
        (.suspend _ (hn c List.mem_cons_self))

namespace Safe

/-- Nothing is done to the tasks, and no other task is told of the cells. -/
theorem move (k : Safe D S h) (hev : Loop.Evades D S h.loop h'.loop)
    (hframes : ∀ u fs, ¬ S u → h'.loop.stack? u = some fs →
      h.loop.stack? u = some fs ∨ ∀ c ∈ cellsOf fs, ¬ D c)
    (hrecalls : ∀ c, h'.Recalls c → h.Recalls c ∨ h.loop.cells.size ≤ c)
    (hrun : ∀ u, S u → h'.loop.running ≠ some (u, .cancelled))
    (hwaits : ∀ u c, S u → h'.loop.waiting u = some c → h.loop.waiting u = some c ∨ D c) :
    Safe D S h' where
  secluded := hev.secluded k.secluded
  frames u fs hu hs := (hframes u fs hu hs).elim (fun hs => k.frames u fs hu hs) id
  recalled c hc := (hrecalls c hc).elim (k.recalled c) fun hle hd =>
    absurd (k.secluded.old c hd) (Nat.not_lt_of_le hle)
  outcome c hc ho := k.outcome c hc (hev.cancelled k.secluded c hc ho)
  asked u hu ha := k.asked u hu (hev.asked k.secluded u hu ha)
  running := hrun
  waits u c hu hw := (hwaits u c hu hw).elim (k.waits u c hu) id

/-- A cell that is new is not among them. -/
theorem fresh (k : Safe D S h) (hc : h.loop.cells.size ≤ c) : ¬ D c := fun hd =>
  absurd (k.secluded.old c hd) (Nat.not_lt_of_le hc)

/-- Another task takes a step. -/
theorem step (k : Safe D S h) (ks : Steps h t e f below) (kn : Named h) (ht : ¬ S t) :
    Safe D S (Host.step t e h) := by
  have htick : h.tick = Host.step t e h := tick_of_running ks.running
  have hknown : ∀ c ∈ cellsOf (f :: below), ¬ D c := k.frames t _ ht ks.top
  have hf : ∀ c ∈ f.cells, ¬ D c := fun c hc => hknown c (List.mem_append_left _ hc)
  have hcells : ∀ c ∈ (nextOf (resume f e) h).cells, ¬ D c := fun c hc =>
    (ks.cells hf k.recalled kn.tabled c hc).elim id fun hnew => k.fresh hnew.1
  have hev : Loop.Evades D S h.loop (Host.step t e h).loop := by
    rw [step_eq ks.top]
    exact Loop.Evades.trans (k.evades kn.tabled hf e) (evades_proceed _ hcells)
  refine k.move hev (fun u fs _ hs => ?_) (fun c hc => ?_) (fun u hu hrun => ?_) fun u c hu hw => ?_
  · rcases ks.frames hs with ⟨-, rfl⟩ | ⟨-, hs | e⟩
    · refine .inr fun c hc => ?_
      rw [cellsOf_append] at hc
      rcases List.mem_append.1 hc with hc | hc
      · exact hcells c (Next.mem_cells hc)
      · exact hknown c (List.mem_append_right _ hc)
    · exact .inl hs
    · exact .inr fun c hc => by rw [e] at hc; cases hc
  · exact (recalls_tick (htick ▸ hc)).imp_right (·.1)
  · rw [step_eq ks.top] at hrun
    rcases proceed_cases (ks.runningOn (ks.queueGuards fun _ _ => False))
      (nextOf (resume f e) h) with ⟨e', hrun', -⟩ | ⟨d, -, -, hrun', -⟩
    · cases hrun'.symm.trans hrun
      exact ht hu
    · cases hrun'.symm.trans hrun
  · refine .inl ((ks.moves.waiting u fun e => ht ?_).symm.trans hw)
    rw [Option.some.inj e]
    exact hu

/-- A job begins. -/
theorem beginJob (k : Safe D S h) (ko : Ordered h) {j : Job} {jobs : List Job}
    (hidle : h.loop.running = none) (hjobs : h.loop.jobs = j :: jobs)
    (htick : h.tick = Host.beginJob j { h with loop := { h.loop with jobs } }) : Safe D S h.tick := by
  have hno : ∀ t e f below, ¬ (h.loop.running = some (t, e) ∧
      h.loop.stack? t = some (f :: below) ∧ h.tick = Host.step t e h) := fun t e f below hk => by
    cases hidle.symm.trans hk.1
  obtain ⟨hframes, hwaiting⟩ := tick_unstepped hno
  have hdrop : Loop.Evades D S h.loop { h.loop with jobs } := .of_eq rfl rfl
  have hmem : j ∈ h.loop.jobs := hjobs ▸ List.mem_cons_self
  have hmove (hev : Loop.Evades D S h.loop h.tick.loop)
      (hrun : ∀ u, S u → h.tick.loop.running ≠ some (u, .cancelled)) : Safe D S h.tick := by
    refine k.move hev (fun u fs _ hs => ?_) (fun c hc => (recalls_tick hc).imp_right (·.1)) hrun
      fun u c _ hw => .inl (hwaiting u c hw)
    exact (hframes u fs hs).imp_right fun e c hc => by rw [e] at hc; cases hc
  -- a task of these goes on that was not cancelled, and neither was what it waited for
  have hgo (t : Nat) (o : Ending) (ht : t < h.loop.tasks.size) (ho : S t → o ≠ .cancelled) :
      ∀ u, S u → (({ h.loop with jobs } : Loop Value Failure Frame).resume t o).running ≠
        some (u, .cancelled) := fun u hu hrun => by
    rcases Parked.running_resume_iff (l := { h.loop with jobs }) ht o with ⟨hask, e⟩ | ⟨-, e⟩
    · cases e.symm.trans hrun
      exact k.asked t hu hask
    · cases e.symm.trans hrun
      exact ho hu rfl
  rw [htick] at hmove ⊢
  cases j with
  | start t =>
    exact hmove (hdrop.trans (.resume _ t _)) (hgo t _ (ko.inOrder.sound.start t hmem).1 nofun)
  | wake t c =>
    have hwait := ko.inOrder.sound.wake t c hmem
    refine hmove (hdrop.trans (.resume _ t _)) (hgo t _ (lt_of_waiting hwait) fun hu ho => ?_)
    obtain ⟨x, hx⟩ := Option.isSome_iff_exists.1 (ko.heeded.woken t c hmem)
    refine k.outcome c (k.waits t c hu hwait) (hx.trans ?_)
    rw [show (({ h with loop := { h.loop with jobs } } : Host).loop.outcome? c) = some x from hx] at ho
    exact congrArg some ho
  | release w =>
    refine hmove (hdrop.trans (.finish _ fun _ => nofun)) fun u hu hrun => k.running u hu ?_
    exact (running_finish { h.loop with jobs } w _).symm.trans hrun
  | notify q =>
    rw [beginJob_notify] at hmove ⊢
    have hended : Looped (Loop.Evades D S) { h with loop := { h.loop with jobs } }
        (after (queryEnded q) { h with loop := { h.loop with jobs } }) := Within.rel_after _
    have hg : Guards {} { h with loop := { h.loop with jobs } }
        (after (queryEnded q) { h with loop := { h.loop with jobs } }) := Within.rel_after _
    exact hmove (hdrop.trans hended) fun u hu hrun =>
      k.running u hu (hg.grows.running.symm.trans hrun)

/-- A task ends. -/
theorem endTask (k : Safe D S h) (hev : Loop.Evades D S h.loop (h.loop.endTask t e)) :
    Safe D S { h with loop := h.loop.endTask t e } := by
  obtain ⟨hrun, hwaiting⟩ := endTask_rest h.loop t e
  refine k.move hev (fun u fs _ hs => .inl ?_) (fun c hc => .inl ?_) (fun u _ hu => ?_)
    fun u c _ hw => .inl ((hwaiting u).symm.trans hw)
  · exact (stack?_endTask h.loop t e u).symm.trans hs
  · exact .of_loop hc
  · cases hrun.symm.trans hu

/-- The next step of the loop, if it is not one of the tasks that runs. -/
theorem tick (k : Safe D S h) (ko : Ordered h) (kn : Named h)
    (hother : ∀ t e, h.loop.running = some (t, e) → ¬ S t) : Safe D S h.tick := by
  rcases tick_cases h with ⟨t, e, f, below, hrun, hs, e'⟩ | ⟨t, e, hrun, -, e'⟩ | ⟨-, e'⟩ |
    ⟨j, jobs, hidle, hjobs, e'⟩
  · rw [e']
    exact k.step ⟨ko.inOrder, hrun, hs⟩ kn (hother t e hrun)
  · rw [e']
    exact k.endTask (.endTask ko.owned (hother t e hrun) e)
  · exact e'.symm ▸ k
  · exact k.beginJob ko hidle hjobs e'

theorem fire (k : Safe D S h) (v : Timer) : Safe D S (h.fire v) := by
  have hdrop : Loop.Evades D S h.loop
      { h.loop with now := v.due, timers := dropTimer v.cell h.loop.timers } := .of_eq rfl rfl
  refine k.move (hdrop.trans (.finish _ fun _ => nofun)) (fun u fs _ hs => .inl ?_)
    (fun c hc => .inl (.of_loop hc)) (fun u hu hrun => k.running u hu ?_) fun u c _ hw => .inl ?_
  · exact (stack?_finish
      { h.loop with now := v.due, timers := dropTimer v.cell h.loop.timers } v.cell _ u).symm.trans hs
  · exact (running_finish
      { h.loop with now := v.due, timers := dropTimer v.cell h.loop.timers } v.cell _).symm.trans hrun
  · exact (Grows.finish (P := fun _ => False)
      { h.loop with now := v.due, timers := dropTimer v.cell h.loop.timers } v.cell _).waiting u ▸ hw

/-- Whatever is done from outside but to cancel something. -/
theorem evades_outside {P : Reaction → Prop} (ho : Outside P h h') (hf : Forbears h.loop h'.loop) :
    Loop.Evades D S h.loop h'.loop := by
  have hacts {α : Type} {a : Action α} [hw : Within (Looped (Loop.Evades D S)) a] :
      Loop.Evades D S h.loop (after a h).loop := hw.rel_after h
  cases ho with
  | ask => exact hacts
  | submit | query | act => exact hacts
  | cancel c =>
    exact ⟨fun hl => hl.cancelWithin _ c, fun _ d _ hd => hf.outcome d hd, fun _ t _ ht => hf.asked t ht⟩
  | worker | world => exact .refl _
  | time => exact .of_eq rfl rfl

theorem outside {P : Reaction → Prop} (k : Safe D S h) (hfiled : h.loop.Filed)
    (ho : Outside P h h') (hf : Forbears h.loop h'.loop) : Safe D S h' := by
  have o : Onward none h h' := .outside hfiled ho
  refine k.move (evades_outside ho hf) (fun u fs _ hs => ?_)
    (fun c hc => (recalls_outside ho hc).imp_right (·.1)) (fun u hu hrun => k.running u hu ?_)
    fun u c _ hw => .inl ((o.moves.waiting u nofun).symm.trans hw)
  · exact (blank_outside ho u fs hs).imp_right fun e c hc => by rw [e] at hc; cases hc
  · exact (running_outside ho).symm.trans hrun

/-! ## What the tasks do themselves -/

/-- One of the tasks goes on, and nothing is cancelled. -/
theorem goes {push : List Frame} {e' : Ending} (k : Safe D S h) (ks : Steps h t e f below)
    (hev : Looped (Loop.Evades D S) h (after (resume f e) h))
    (hgo : nextOf (resume f e) h = .go push e') (he : e' ≠ .cancelled) (ht : S t) :
    Safe D S (Host.step t e h) := by
  have htick : h.tick = Host.step t e h := tick_of_running ks.running
  have hstep : (Host.step t e h).loop =
      { (after (resume f e) h).loop.setStack t (push ++ below) with running := some (t, e') } := by
    rw [step_eq ks.top, hgo]
    rfl
  refine k.move ?_ (fun u fs hu hs => ?_) (fun c hc => ?_) (fun u hu hrun => ?_) fun u c hu hw => ?_
  · rw [hstep]
    exact Loop.Evades.trans hev (.setStack _ t _ _)
  · rcases ks.frames hs with ⟨rfl, -⟩ | ⟨-, hs | e⟩
    · exact absurd ht hu
    · exact .inl hs
    · exact .inr fun c hc => by rw [e] at hc; cases hc
  · exact (recalls_tick (htick ▸ hc)).imp_right (·.1)
  · rw [hstep] at hrun
    cases hrun
    exact he rfl
  · refine .inl ?_
    by_cases hut : u = t
    · subst hut
      rw [step_eq ks.top, hgo] at hw
      have hnone := (ks.runningOn (ks.queueGuards fun _ _ => False)).waiting
      cases (((waiting_setStack ..).trans hnone).symm.trans hw)
    · exact (ks.moves.waiting u fun e => hut (Option.some.inj e).symm).symm.trans hw

/-- One of the tasks ends. -/
theorem ends (k : Safe D S h) (hrun : h.loop.running = some (t, e))
    (hs : h.loop.stack? t = some []) (ht : S t) : Safe D S h.tick := by
  rw [tick_of_ended hrun hs]
  refine k.endTask ?_
  have hrest : Loop.Evades D S h.loop { h.loop with running := none } := .of_eq rfl rfl
  unfold Loop.endTask
  dsimp only
  split
  · exact hrest
  · next task htask =>
    refine hrest.trans (.finish _ fun _ => ?_)
    have hask : task.cancelAsked = false := by
      rw [← Bool.not_eq_true]
      exact fun hask => k.asked t ht ⟨task, htask, hask⟩
    rw [hask]
    rintro rfl
    exact k.running t ht hrun

/-- One of the tasks waits for one of the cells. -/
theorem waitsFor {push : List Frame} (k : Safe D S h) (hrun : Running h.loop t e f below)
    (hno : h.loop.outcome? c = none) (ht : S t) (hc : D c) :
    Safe D S (goOn t below (.wait push c) h) := by
  have hset : Loop.Evades D S h.loop (h.loop.setStack t (push ++ below)) :=
    .setStack h.loop t _ h.loop.running
  have hcalm : ¬ (h.loop.setStack t (push ++ below)).CancelAsked t := fun ha =>
    k.asked t ht (hset.asked k.secluded t ht ha)
  have hwait : (goOn t below (.wait push c) h).loop =
      (h.loop.setStack t (push ++ below)).await t c := by
    show proceed t below (.wait push c) h.loop = _
    simp only [proceed]
    rw [show (h.loop.setStack t (push ++ below)).outcome? c = none from hno]
    exact suspend_of_calm hcalm c
  refine k.move ?_ (fun u fs hu hs => .inl ?_) (fun c hc => .inl ?_) (fun u _ hu => ?_)
    fun u d hu hw => ?_
  · rw [hwait]
    exact hset.trans (.await _ fun _ => ht)
  · replace hs := (stack?_proceed hrun (.wait push c) u).symm.trans hs
    rwa [if_neg (by rintro rfl; exact hu ht)] at hs
  · exact .of_loop hc
  · rw [hwait] at hu
    simp [Loop.await] at hu
  · by_cases hut : u = t
    · subst hut
      rcases proceed_cases hrun (.wait push c) with ⟨e', -, hnone, -⟩ | ⟨d', hn, -, -, hd⟩
      · cases hnone.symm.trans hw
      · cases hd.symm.trans hw
        cases hn
        exact .inr hc
    · exact .inl ((waiting_proceed (.wait push c) hut).symm.trans hw)

/-- Cells and tasks that were only just made come to be among them. -/
theorem grow {D' S' : Nat → Prop} (k : Safe D S h) (ko : Ordered h) (kn : Named h)
    (hsize : h.loop.cells.size ≤ h'.loop.cells.size) (htasks : h.loop.tasks.size ≤ h'.loop.tasks.size)
    (hD : ∀ c, D c → D' c)
    (hD' : ∀ c, D' c → D c ∨ h.loop.cells.size ≤ c ∧ c < h'.loop.cells.size)
    (hS : ∀ u, S u → S' u)
    (hS' : ∀ u, S' u → S u ∨ h.loop.tasks.size ≤ u ∧ u < h'.loop.tasks.size)
    (howner : ∀ c u, h'.loop.owner? c = some u → h.loop.owner? c = some u ∨ (D' c ↔ S' u))
    (hwaiting : ∀ u, h'.loop.waiting u = h.loop.waiting u)
    (houtcome : ∀ c, h'.loop.outcome? c = h.loop.outcome? c)
    (hasked : ∀ u, S' u → h'.loop.CancelAsked u → h.loop.CancelAsked u)
    (hrun : h'.loop.running = h.loop.running)
    (hframes : ∀ u fs, ¬ S' u → h'.loop.stack? u = some fs →
      h.loop.stack? u = some fs ∨ cellsOf fs = [])
    (hrecalls : ∀ c, h'.Recalls c → h.Recalls c) : Safe D' S' h' := by
  have hcell {c : Nat} (hlt : c < h.loop.cells.size) (hc : D' c) : D c :=
    (hD' c hc).resolve_right fun hnew => Nat.not_lt_of_le hnew.1 hlt
  have htask {u : Nat} (hlt : u < h.loop.tasks.size) (hu : S' u) : S u :=
    (hS' u hu).resolve_right fun hnew => Nat.not_lt_of_le hnew.1 hlt
  refine ⟨⟨⟨fun c hc => ?_, fun u hu => ?_, fun c u hc => ?_, fun u c hu hc => ?_⟩,
    fun u fs hu hs c hc hd => ?_, fun c hc hd => ?_⟩, fun c hc ho => ?_, fun u hu ha => ?_,
    fun u hu hr => ?_, fun u c hu hw => ?_⟩
  · exact (hD' c hc).elim (fun hc => Nat.lt_of_lt_of_le (k.secluded.old c hc) hsize) (·.2)
  · exact (hS' u hu).elim (fun hu => Nat.lt_of_lt_of_le (k.secluded.begun u hu) htasks) (·.2)
  · rcases howner c u hc with hc | hiff
    · obtain ⟨cell, hcell', -⟩ := Option.bind_eq_some_iff.1 hc
      obtain ⟨task, htask', -⟩ := Option.map_eq_some_iff.1 ((ko.owned u c).2 hc)
      have hiff := k.secluded.owner c u hc
      exact ⟨fun hd => hS u (hiff.1 (hcell (Table.lt_size_of_get? hcell') hd)),
        fun hs => hD c (hiff.2 (htask (Table.lt_size_of_get? htask') hs))⟩
    · exact hiff
  · rw [hwaiting] at hu
    exact hS u (k.secluded.waiting u c hu (hcell (kn.waiting u c hu) hc))
  · rcases hframes u fs hu hs with hs | e
    · exact k.frames u fs (fun hu' => hu (hS u hu')) hs c hc (hcell (kn.frames u fs hs c hc) hd)
    · rw [e] at hc
      cases hc
  · have hc := hrecalls c hc
    exact k.recalled c hc (hcell (kn.recalled c hc) hd)
  · rw [houtcome] at ho
    rcases hD' c hc with hc | hnew
    · exact k.outcome c hc ho
    · rw [outcome?_of_size_le hnew.1] at ho
      cases ho
  · have ha := hasked u hu ha
    exact k.asked u (htask ha.lt hu) ha
  · rw [hrun] at hr
    exact k.running u (htask (ko.inOrder.sound.running u _ hr).1 hu) hr
  · rw [hwaiting] at hw
    exact hD c (k.waits u c (htask (lt_of_waiting hw) hu) hw)

end Safe

end Host

end GhciHost
