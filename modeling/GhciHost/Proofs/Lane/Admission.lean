import GhciHost.Proofs.Lane.Commands

/-!
# What a query channel admits

A query is looked at before it is known which way it goes, with the usual marker; a lane looks at
what comes to it with its own.  The two agree on commands that hold both markers or neither, so a
lane with the usual marker never finds fault with a query that was admitted.

* `accepts_alike`   where two markers make no difference;
* `admits_of_startQuery`, `startQuery_refused`   what is admitted;
* `fallBack_error`   what can go wrong with an admitted query.
-/

namespace GhciHost

open Host

/-- A text is a query that a channel admits. -/
def Admits (command : String) : Prop :=
  Command.isReadOnly command = true ∧ Accepts 4 command

/-- Markers that a command holds both, or neither of, make no difference. -/
theorem accepts_alike {marker marker' : UInt8} {command : String}
    (h : Char.ofNat marker.toNat ∈ command.toList ↔ Char.ofNat marker'.toNat ∈ command.toList) :
    Accepts marker command ↔ Accepts marker' command := by
  rw [accepts_iff, accepts_iff, h]

/-- Such a query comes to nothing when it falls back to a lane whose marker it holds. -/
example : (Command.isReadOnly ":info (||)" = true ∧ Accepts 4 ":info (||)") ∧
    ¬Accepts 124 ":info (||)" := by decide +kernel

namespace Host

variable {c : Nat} {command : String} {state : Json} {reaction : Option Reaction}
  {waiter : Option Nat} {h k : Host}

/-- A query that is not admitted is refused, and nothing has happened. -/
theorem startQuery_refused (hno : ¬Admits command) (c : Nat) (state : Json)
    (reaction : Option Reaction) (waiter : Option Nat) (h : Host) :
    ∃ e, (startQuery c command state reaction waiter).run h = .error e h := by
  rw [startQuery]
  by_cases hread : Command.isReadOnly command = true
  · simp only [hread, Bool.not_true, Bool.false_eq_true, if_false]
    cases hf : Command.fault? Command.usualMarker command.toList with
    | none => exact absurd ⟨hread, hf⟩ hno
    | some f =>
      have hrun : (validate Command.usualMarker command).run h = .error (.badCommand f) h := by
        rw [validate, hf]
        rfl
      exact ⟨_, run_bind_error hrun⟩
  · simp only [hread, Bool.not_false, if_true]
    exact ⟨_, rfl⟩

theorem admits_of_startQuery {task : Option Nat}
    (hrun : (startQuery c command state reaction waiter).run h = .ok task k) : Admits command := by
  by_contra hno
  obtain ⟨e, hrun'⟩ := startQuery_refused hno c state reaction waiter h
  rw [hrun] at hrun'
  cases hrun'

/-! ## Falling back -/

/-- Writing can fail, but finds no fault with the command. -/
theorem writeLine_error {l : Nat} {e : Failure} (hrun : (writeLine l command).run h = .error e k)
    (f : Command.Fault) : e ≠ .badCommand f := by
  rw [writeLine, run_bind_ok (run_lane l h)] at hrun
  cases hp : (h.laneOf l).process with
  | none =>
    rw [hp] at hrun
    cases hrun
    intro e
    cases e
  | some p =>
    rw [hp] at hrun
    dsimp only at hrun
    rw [run_tryCatch] at hrun
    obtain ⟨h', hwrite, -⟩ | ⟨f', hwrite⟩ := write_spec p (command.toList ++ ['\n']) h <;>
      rw [hwrite] at hrun
    · cases hrun
    · dsimp only at hrun
      split at hrun <;>
      · cases hrun
        intro e
        cases e

/-- What a lane accepts it can fail to write, and nothing has happened then. -/
theorem submit_accepted (ha : Accepts (h.laneOf c).marker command) {e : Failure}
    (hrun : (submit c command state reaction waiter).run h = .error e k) (f : Command.Fault) :
    k = h ∧ e ≠ .badCommand f := by
  refine ⟨submit_error hrun, ?_⟩
  have hraw : (writeRaw c command).run h = (writeLine c command).run h := by
    have hvalid : Command.fault? (h.laneOf c).markerText command.toList = none := ha
    rw [writeRaw, run_bind_ok (run_lane c h), validate, hvalid]
    rfl
  cases hline : (writeLine c command).run h with
  | ok v h' =>
    rw [submit, run_bind_ok (hraw.trans hline)] at hrun
    rw [Succeeds.run_unit] at hrun
    cases hrun
  | error e' h' =>
    rw [submit, run_bind_error (hraw.trans hline)] at hrun
    cases hrun
    exact writeLine_error hline f

/-- A query that was admitted can fail to be written to a lane that has the usual marker, but the
    lane finds no fault with it. -/
theorem fallBack_error {task : Option Nat} {h' k' : Host}
    (hstart : (startQuery c command state reaction waiter).run h = .ok task h')
    (hm : (k.laneOf c).marker = 4) {reason : String} {e : Failure}
    (hrun : (fallBack c command state reaction waiter reason).run k = .error e k')
    (f : Command.Fault) : k' = k ∧ e ≠ .badCommand f := by
  have ha : Accepts (k.laneOf c).marker command := hm ▸ (admits_of_startQuery hstart).2
  have (kind : Event.Kind) (details : List (String × Json)) :
      Succeeds (announce c kind details) := by
    unfold announce
    infer_instance
  cases hsubmit : (submit c command state reaction waiter).run k with
  | ok v k'' =>
    rw [fallBack, run_bind_ok hsubmit] at hrun
    rw [Succeeds.run_unit] at hrun
    cases hrun
  | error e' k'' =>
    rw [fallBack, run_bind_error hsubmit] at hrun
    cases hrun
    exact submit_accepted ha hsubmit f

end Host

end GhciHost
