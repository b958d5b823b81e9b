import GhciHost.Host.Run
import GhciHost.Proofs.Host.Orderly

/-!
# What an action comes to from one host

`Ends a h Q E` says how the action ends that begins in the host `h`: with a value and a host of
which `Q` holds, or with a failure and a host of which `E` holds.  `Comes` says the same of a step
of a task, where a failure is passed on to the frame below, and is not that of a refused phase.

* `Ends.bind`, `Ends.of_succeeds`   an action is followed from part to part;
* `Comes.nextOf`, `Comes.legal`   what is known of a step;
* `step_eq`   a step of the task that runs, told by its top frame.
-/

namespace GhciHost.Host

variable {α β : Type} {h : Host} {Q : α → Host → Prop} {E : Failure → Host → Prop}

/-- How an action ends that begins in a host. -/
def Ends (a : Action α) (h : Host) (Q : α → Host → Prop) (E : Failure → Host → Prop) : Prop :=
  match a.run h with
  | .ok v h' => Q v h'
  | .error x h' => E x h'

namespace Ends

theorem of_run {a : Action α} {v : α} {h' : Host} (e : a.run h = .ok v h') (hQ : Q v h') :
    Ends a h Q E := by
  rw [Ends, e]
  exact hQ

theorem of_error {a : Action α} {x : Failure} {h' : Host} (e : a.run h = .error x h')
    (hE : E x h') : Ends a h Q E := by
  rw [Ends, e]
  exact hE

theorem bind {Q : β → Host → Prop} {a : Action α} {f : α → Action β}
    (ha : Ends a h (fun v h' => Ends (f v) h' Q E) E) : Ends (a >>= f) h Q E := by
  rw [Ends] at ha ⊢
  rw [run_bind]
  cases e : a.run h with
  | ok v h' =>
    rw [e] at ha
    exact ha
  | error x h' =>
    rw [e] at ha
    exact ha

theorem mono {Q' : α → Host → Prop} {a : Action α} (ha : Ends a h Q E)
    (hQ : ∀ v h', Q v h' → Q' v h') : Ends a h Q' E := by
  rw [Ends] at ha ⊢
  cases e : a.run h with
  | ok v h' =>
    rw [e] at ha
    exact hQ v h' ha
  | error x h' =>
    rw [e] at ha
    exact ha

/-- An action that cannot fail. -/
theorem of_succeeds (R : Host → Host → Prop) {a : Action α} [ha : Succeeds a] [Within R a]
    (hQ : ∀ v h', R h h' → Q v h') : Ends a h Q E := by
  obtain ⟨v, e⟩ := ha.run_ok h
  exact of_run e (hQ v _ (Within.of_ok e))

/-- An action that can fail. -/
theorem of_lawful (R : Host → Host → Prop) {a : Action α} [ha : Lawful a] [Within R a]
    (hQ : ∀ v h', R h h' → Q v h') (hE : ∀ x h', x.isIllegal = false → R h h' → E x h') :
    Ends a h Q E := by
  rw [Ends]
  cases e : a.run h with
  | ok v h' => exact hQ v h' (Within.of_ok e)
  | error x h' => exact hE x h' (ha.error e) (Within.of_error e)

end Ends

/-! ## Steps of tasks -/

/-- How the task goes on after a step: a failure is passed on. -/
def nextOf (a : Action Next) (h : Host) : Next :=
  match a.run h with
  | .ok next _ => next
  | .error x _ => .pass (.failed x)

/-- How a step ends, from which the task goes on. -/
def Comes (a : Action Next) (h : Host) (Q : Next → Host → Prop) : Prop :=
  Ends a h Q fun x h' => x.isIllegal = false ∧ Q (.pass (.failed x)) h'

namespace Comes

variable {Q : Next → Host → Prop} {a : Action Next}

theorem nextOf (ha : Comes a h Q) : Q (nextOf a h) (after a h) := by
  rw [Comes, Ends] at ha
  rw [Host.nextOf, after]
  cases e : a.run h with
  | ok next h' =>
    rw [e] at ha
    exact ha
  | error x h' =>
    rw [e] at ha
    exact ha.2

theorem legal (ha : Comes a h Q) {x : Failure} {h' : Host} (e : a.run h = .error x h') :
    x.isIllegal = false := by
  rw [Comes, Ends, e] at ha
  exact ha.1

theorem mono {Q' : Next → Host → Prop} (ha : Comes a h Q) (hQ : ∀ n h', Q n h' → Q' n h') :
    Comes a h Q' := by
  rw [Comes, Ends] at ha ⊢
  cases e : a.run h with
  | ok next h' =>
    rw [e] at ha
    exact hQ _ _ ha
  | error x h' =>
    rw [e] at ha
    exact ⟨ha.1, hQ _ _ ha.2⟩

end Comes

/-- The task that runs goes on as its top frame says. -/
theorem step_eq {t : Nat} {e : Ending} {f : Frame} {below : List Frame}
    (hs : (h.loop.tasks.get? t).map (·.stack) = some (f :: below)) :
    step t e h = { after (resume f e) h with
      loop := proceed t below (nextOf (resume f e) h) (after (resume f e) h).loop } := by
  unfold step
  rw [hs]
  dsimp only
  rw [nextOf, after]
  cases (resume f e).run h <;> rfl

end GhciHost.Host
