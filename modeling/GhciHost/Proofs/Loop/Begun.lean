import GhciHost.Proofs.Loop.Moves
import GhciHost.Proofs.Loop.Owned

/-!
# Waiting for a new task

The task that runs can begin another one and wait for its end.  It does so by a cell of its own,
which is released when the other task has ended: with a timer for this cell if the time to wait is
limited, and with the other task being cancelled if there is no time at all.

* `Begun`   what is known of the loop then;
* `begun_race`, `begun_reap`   the two ways.
-/

namespace GhciHost.Loop

variable {ν ε φ : Type} {l l' l₁ : Loop ν ε φ} {fs : List φ}

/-- The task that runs has begun another one, and a cell that it is about to wait for: that one is
    released when the other task has ended. -/
structure Begun (l : Loop ν ε φ) (fs : List φ) (l' : Loop ν ε φ) : Prop where
  grows : Grows (· = fs) l l'
  jobs : l'.jobs = l.jobs ++ [.start l.tasks.size]
  stack : l'.stack? l.tasks.size = some fs
  result : l'.result? l.tasks.size = some l.cells.size
  size : l'.cells.size = l.cells.size + 2
  outcome : ∀ c, l'.outcome? c = l.outcome? c
  pending : l'.Pending l.cells.size (.release (l.cells.size + 1))
  holds : ∀ c, l'.Holds c → l.Holds c ∨ c = l.cells.size + 1
  owner : ∀ c, l'.owner? c = if c = l.cells.size then some l.tasks.size else l.owner? c
  calm : ∀ t, l'.CancelAsked t → l.CancelAsked t ∨ t = l.tasks.size

namespace Begun

theorem undone (k : Begun l fs l') : l'.outcome? l.cells.size = none := by
  rw [k.outcome, outcome?_of_size_le (Nat.le_refl _)]

theorem unreleased (k : Begun l fs l') : l'.outcome? (l.cells.size + 1) = none := by
  rw [k.outcome, outcome?_of_size_le (Nat.le_succ _)]

theorem lt (k : Begun l fs l') : l.cells.size + 1 < l'.cells.size := by
  rw [k.size]
  exact Nat.lt_succ_self _

theorem linked (k : Begun l fs l') : l'.Linked l.cells.size (l.cells.size + 1) :=
  ⟨k.lt, .inr k.pending⟩

/-- The task is to be cancelled, before it has begun. -/
theorem askCancel (k : Begun l fs l') : Begun l fs (l'.askCancel l.tasks.size) where
  grows := k.grows.trans (.askCancel l' _)
  jobs := k.jobs
  stack := (stack?_askCancel ..).trans k.stack
  result := (result?_askCancel ..).trans k.result
  size := k.size
  outcome := k.outcome
  pending := k.pending
  holds c hc := k.holds c (hc.of_eq rfl (fun _ => rfl) rfl)
  owner := k.owner
  calm t ht := by
    obtain ⟨task, htask, hask⟩ := ht
    simp only [Loop.askCancel, Table.get?_modify] at htask
    split at htask
    · next e => exact .inr e.symm
    · exact k.calm t ⟨task, htask, hask⟩

theorem lt_tasks (k : Begun l fs l') : l.tasks.size < l'.tasks.size := stack?_lt k.stack

end Begun

/-- A task that was only just made is not to be cancelled. -/
theorem asked_newTask {t : Nat} (h : (l.newTask fs).2.CancelAsked t) : l.CancelAsked t := by
  obtain ⟨task, htask, hask⟩ := h
  simp only [newTask, Table.get?_push] at htask
  split at htask
  · cases htask
    cases hask
  · exact ⟨task, htask, hask⟩

/-- Hooks have nothing to do with who is to be cancelled. -/
theorem asked_hook {c t : Nat} {k : Hook} (h : (l.hook c k).CancelAsked t) : l.CancelAsked t := by
  rwa [CancelAsked, tasks_hook] at h

/-- A cell is made for the wait, perhaps with a timer. -/
theorem begun_of (hg : Grows (· = fs) (l.newTask fs).2 l₁)
    (htasks : l₁.tasks = (l.newTask fs).2.tasks) (hjobs : l₁.jobs = (l.newTask fs).2.jobs)
    (hcells : l₁.cells = (l.newTask fs).2.newCell.2.cells)
    (hholds : ∀ c, l₁.Holds c → (l.newTask fs).2.Holds c ∨ c = (l.newTask fs).2.cells.size) :
    Begun l fs (l₁.hook l.cells.size (.release (l.cells.size + 1))) := by
  have hsize : (l.newTask fs).2.cells.size = l.cells.size + 1 := by simp [Loop.newTask]
  have hsize' : l₁.cells.size = l.cells.size + 2 := by
    rw [hcells]
    simp [Loop.newCell, hsize]
  have houtcome (c : Nat) : l₁.outcome? c = l.outcome? c := by
    rw [← outcome?_newTask l fs, ← outcome?_newCell_snd (l.newTask fs).2, outcome?, outcome?, hcells]
  have hundone : l₁.outcome? l.cells.size = none := by
    rw [houtcome, outcome?_of_size_le (Nat.le_refl _)]
  refine ⟨?_, ?_, ?_, ?_, ?_, fun c => ?_, ?_, fun c hc => ?_, fun c => ?_, fun t ht => .inl ?_⟩
  · exact (Grows.newTask (P := (· = fs)) l rfl).trans (hg.trans (.hook _ _ rfl))
  · rw [hook, isDone, hundone, if_neg (by simp), hjobs]
    rfl
  · rw [stack?, tasks_hook, htasks]
    exact (stack?_newTask l fs l.tasks.size).trans (if_pos rfl)
  · rw [result?, tasks_hook, htasks]
    exact (result?_newTask l fs l.tasks.size).trans (if_pos rfl)
  · rw [size_cells_hook, hsize']
  · rw [outcome?_hook, houtcome]
  · exact pending_hook _ (by rw [hsize']; omega)
  · rcases holds_hook hc with hc | hc
    · rcases hholds c hc with hc | hc
      · exact .inl (holds_newTask hc)
      · exact .inr (hc.trans hsize)
    · cases hc
      exact .inr rfl
  · rw [owner?_hook, ← owner?_newTask l fs, ← owner?_newCell (l.newTask fs).2, owner?, owner?, hcells]
  · have ht := asked_hook ht
    rw [CancelAsked, htasks] at ht
    exact asked_newTask ht

/-- The task is waited for while a timer runs. -/
theorem begun_race (l : Loop ν ε φ) (fs : List φ) (d : Binary64) :
    Begun l fs
      (((l.newTask fs).2.newTimer d).2.hook l.cells.size (.release (l.cells.size + 1))) :=
  begun_of (.newTimer _ d) rfl rfl rfl fun _ => holds_newTimer

/-- The task is waited for without a limit. -/
theorem begun_wait (l : Loop ν ε φ) (fs : List φ) :
    Begun l fs ((l.newTask fs).2.newCell.2.hook l.cells.size (.release (l.cells.size + 1))) :=
  begun_of (.newCell _) rfl rfl rfl fun _ hc => .inl (holds_newCell hc)

/-- The task is cancelled: it has not begun, so it is told so when it does. -/
theorem cancel_begun (l : Loop ν ε φ) (fs : List φ) :
    ((l.newTask fs).2.newCell.2.hook l.cells.size (.release (l.cells.size + 1))).cancel l.cells.size =
      ((l.newTask fs).2.newCell.2.hook l.cells.size (.release (l.cells.size + 1))).askCancel
        l.tasks.size := by
  have hold : (l.newTask fs).2.newCell.2.cells.get? l.cells.size =
      some { owner := some l.tasks.size } := by
    have hne : l.cells.size ≠ l.cells.size + 1 := Nat.ne_of_lt (Nat.lt_succ_self _)
    simp only [Loop.newCell, Loop.newTask, Table.get?_push, Table.size_push, if_neg hne, if_true]
  have hcell : ((l.newTask fs).2.newCell.2.hook l.cells.size
      (.release (l.cells.size + 1))).cells.get? l.cells.size =
        some { hooks := [.release (l.cells.size + 1)], owner := some l.tasks.size } := by
    have hundone : (l.newTask fs).2.newCell.2.isDone l.cells.size = false := by
      rw [isDone, outcome?, hold]
      rfl
    rw [hook, hundone]
    show ((l.newTask fs).2.newCell.2.cells.modify _ _).get? _ = _
    rw [Table.get?_modify, if_pos rfl, hold]
    rfl
  have hwaiting : (((l.newTask fs).2.newCell.2.hook l.cells.size
      (.release (l.cells.size + 1))).tasks.get? l.tasks.size).bind (·.waitingOn) = none := by
    rw [tasks_hook]
    show ((l.newTask fs).2.tasks.get? l.tasks.size).bind _ = none
    simp only [Loop.newTask, Table.get?_push, if_true]
    rfl
  unfold cancel
  rw [cancelWithin, hcell]
  dsimp only
  rw [if_neg (by simp), hwaiting]

/-- The task is to be cancelled. -/
theorem begun_reap (l : Loop ν ε φ) (fs : List φ) {l' : Loop ν ε φ}
    (e : l' = ((l.newTask fs).2.newCell.2.hook l.cells.size
      (.release (l.cells.size + 1))).cancel l.cells.size) :
    Begun l fs l' ∧ l'.CancelAsked l.tasks.size := by
  have hwait := begun_wait l fs
  rw [cancel_begun] at e
  subst e
  refine ⟨hwait.askCancel, ?_⟩
  obtain ⟨task, htask, -⟩ := Option.map_eq_some_iff.1 hwait.result
  refine ⟨{ task with cancelAsked := true }, ?_, rfl⟩
  show (Table.modify _ _ _).get? _ = _
  rw [Table.get?_modify, if_pos rfl, htask]
  rfl

end GhciHost.Loop
