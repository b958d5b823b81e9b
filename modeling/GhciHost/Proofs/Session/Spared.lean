import GhciHost.Proofs.Host.Looped
import GhciHost.Proofs.Session.Onward

/-!
# A task ends by itself

The cell of a task's end is done when the task has ended and not before, unless somebody holds the
cell to answer it: whoever cancels a task does not cancel its cell.

* `spares_tick`, `spares_fire`, `spares_outside`   whatever happens spares the cells of other tasks;
* `owned_of_reachable`   tasks own the cells of their ends, and no others, in every run;
* `Onward.undone`   the end of another task is not told before it ends.
-/

namespace GhciHost.Host

open Loop

variable {h h' : Host} {who : Option Nat} {t u c : Nat} {e : Ending} {f : Frame}
  {below : List Frame}

instance : Handles (Spares none) where
  refl := .refl
  trans h k := h.trans k
  finish l _ _ he := .finish l fun _ _ _ => he
  hook l c k _ := .hook l c k
  newCell := .newCell
  timers _ _ := .of_eq rfl fun _ => rfl

namespace Spares

instance newTask (fs : List Frame) : Within (Looped (Loop.Spares none)) (Host.newTask fs) :=
  ⟨fun h => .newTask h.loop fs⟩

instance cancel (c : Nat) : Within (Looped (Loop.Spares none)) (Host.changeLoop (·.cancel c)) :=
  Looped.changeLoop fun l => .cancelWithin l _ c

end Spares

/-- A step of a frame spares the cells of all tasks. -/
theorem spares_step (hs : h.loop.stack? t = some (f :: below)) :
    Spares none h.loop (Host.step t e h).loop := by
  have hstep : Spares none h.loop (after (resume f e) h).loop :=
    (Looped.resume (fun _ _ => inferInstance) fun _ _ _ _ _ _ => inferInstance).rel_after h
  rw [step_eq hs]
  exact hstep.trans (spares_proceed t below _ _)

/-- A job that begins spares the cells of all tasks. -/
theorem spares_beginJob (j : Job) (jobs : List Job) :
    Spares none h.loop (beginJob j { h with loop := { h.loop with jobs } }).loop := by
  have hdrop : Spares none h.loop { h.loop with jobs } := .of_eq rfl fun _ => rfl
  cases j with
  | start t => exact hdrop.trans (.resume _ t _)
  | wake t c => exact hdrop.trans (.resume _ t _)
  | release c => exact hdrop.trans (.finish _ fun _ _ _ => nofun)
  | notify q =>
    rw [beginJob_notify]
    have hnotify : Looped (Spares none) { h with loop := { h.loop with jobs } }
        (after (queryEnded q) { h with loop := { h.loop with jobs } }) := Within.rel_after _
    exact hdrop.trans hnotify

/-- A step of the loop spares the cells of the tasks that it is not about. -/
theorem spares_tick (ho : h.loop.Owned) : Spares h.mover h.loop h.tick.loop := by
  unfold mover
  rcases tick_cases h with ⟨t, e, f, below, hrun, hs, e'⟩ | ⟨t, e, hrun, -, e'⟩ | ⟨-, e'⟩ |
    ⟨j, jobs, -, -, e'⟩
  · rw [e']
    exact (spares_step hs).mono
  · rw [hrun, e']
    exact .endTask ho t e
  · rw [e']
    exact .refl _
  · rw [e']
    exact (spares_beginJob j jobs).mono

theorem spares_fire (h : Host) (t : Timer) : Spares none h.loop (h.fire t).loop := by
  have hdrop : Spares none h.loop
      { h.loop with now := t.due, timers := dropTimer t.cell h.loop.timers } :=
    .of_eq rfl fun _ => rfl
  exact hdrop.trans (.finish _ fun _ _ _ => nofun)

theorem spares_outside {P : Reaction → Prop} (ho : Outside P h h') :
    Spares none h.loop h'.loop := by
  have hacts {a : Action Unit} [hw : Within (Looped (Spares none)) a] :
      Spares none h.loop (after a h).loop := hw.rel_after h
  cases ho with
  | ask => exact .newTask _ _
  | query => exact Within.rel_after (R := Looped (Spares none)) h
  | submit | cancel | act => exact hacts
  | worker | world => exact .refl _
  | time => exact .of_eq rfl fun _ => rfl

/-- Tasks own the cells of their ends, and no others. -/
theorem owned_of_reachable {P : Reaction → Prop} (hr : Reachable Fresh (Outside P) h) :
    h.loop.Owned := by
  induction hr with
  | start hf =>
    rw [hf.loop]
    exact fun t c => ⟨nofun, nofun⟩
  | tick _ ih => exact ih.spares (spares_tick ih)
  | fire _ _ ih => exact ih.spares (spares_fire _ _)
  | act _ _ ho ih => exact ih.spares (spares_outside ho)

/-- The end of another task is not told before it ends. -/
theorem Onward.undone (o : Onward who h h') (hs : Spares who h.loop h'.loop) (ho : h.loop.Owned)
    (hu : who ≠ some u) (hc : h.loop.result? u = some c)
    (hp : ∀ p, h.view.Holds p c → p = .task) (hno : h.loop.outcome? c = none) :
    h'.loop.outcome? c = none := by
  by_contra hdone
  obtain ⟨x, hx⟩ := Option.ne_none_iff_exists'.1 hdone
  by_cases hcancel : x = .cancelled
  · rw [hcancel] at hx
    rw [hs.cancelled c u hu ((ho u c).1 hc) hx] at hno
    cases hno
  · obtain ⟨y, hy, -⟩ := o.unanswered u c hu hc hp ⟨x, hx, hcancel⟩
    rw [hy] at hno
    cases hno

end GhciHost.Host
