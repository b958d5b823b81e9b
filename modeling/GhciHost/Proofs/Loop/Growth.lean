import GhciHost.Proofs.Loop.Pending

/-!
# What the task that runs does to the loop

The task that runs can finish cells, make cells, timers and tasks, hang hooks on cells and cancel
them.  Nothing of this takes a task's frames away or wakes it twice: the loop `Grows`.

A cell that a timer, a hook or a job will release is held by the loop (`Holds`).  `Answered` says
that a cell was done otherwise than by a cancellation.

* `Grows.finish` … `Grows.cancel`   the loop grows along every operation;
* `holds_finish` … `holds_cancel`   what the loop holds after an operation;
* `answered_finish`, `answered_cancelWithin`   which cells an operation answers.
-/

namespace GhciHost.Loop

variable {ν ε φ : Type} {l l' l'' : Loop ν ε φ} {P : List φ → Prop}

/-- A loop and what it was before some operations of the task that runs.  New tasks have stacks
    that satisfy `P`. -/
structure Grows (P : List φ → Prop) (l l' : Loop ν ε φ) : Prop where
  running : l'.running = l.running
  waiting : ∀ t, l'.waiting t = l.waiting t
  stack : ∀ t fs, l.stack? t = some fs → l'.stack? t = some fs
  fresh : ∀ t fs, l'.stack? t = some fs → l.stack? t = some fs ∨ P fs
  sound : l.Sound → l'.Sound
  size_le : l.cells.size ≤ l'.cells.size
  lasts : Lasts l l'
  result : ∀ t c, l.result? t = some c → l'.result? t = some c
  results : ∀ t c, l'.result? t = some c →
    l.result? t = some c ∨ l.cells.size ≤ c ∧ c < l'.cells.size
  filed : l.Filed → l'.Filed
  asked : ∀ t, l.CancelAsked t → l'.CancelAsked t

theorem Grows.refl (l : Loop ν ε φ) : Grows P l l where
  running := rfl
  waiting _ := rfl
  stack _ _ h := h
  fresh _ _ h := .inl h
  sound h := h
  size_le := Nat.le_refl _
  lasts := .refl l
  result _ _ h := h
  results _ _ h := .inl h
  filed h := h
  asked _ h := h

theorem Grows.trans (h : Grows P l l') (k : Grows P l' l'') : Grows P l l'' where
  running := k.running.trans h.running
  waiting t := (k.waiting t).trans (h.waiting t)
  stack t fs e := k.stack t fs (h.stack t fs e)
  fresh t fs e := (k.fresh t fs e).elim (h.fresh t fs) .inr
  sound hl := k.sound (h.sound hl)
  size_le := Nat.le_trans h.size_le k.size_le
  lasts := h.lasts.trans k.lasts
  result t c e := k.result t c (h.result t c e)
  results t c e := by
    have hle := h.size_le
    have hle' := k.size_le
    rcases k.results t c e with e | ⟨hc, hc'⟩
    · exact (h.results t c e).imp_right fun ⟨hc, hc'⟩ => ⟨hc, by omega⟩
    · exact .inr ⟨by omega, hc'⟩
  filed hl := k.filed (h.filed hl)
  asked t e := k.asked t (h.asked t e)

/-- Nothing happens to the tasks. -/
theorem Grows.of_tasks (htasks : l'.tasks = l.tasks) (hrun : l'.running = l.running)
    (hsize : l.cells.size ≤ l'.cells.size) (hsound : l.Sound → l'.Sound) (hlasts : Lasts l l') :
    Grows P l l' where
  running := hrun
  waiting t := by simp only [Loop.waiting, htasks]
  stack t fs e := by rwa [stack?, htasks]
  fresh t fs e := by rw [stack?, htasks] at e; exact .inl e
  sound := hsound
  size_le := hsize
  lasts := hlasts
  result t c e := by rwa [result?, htasks]
  results t c e := by rw [result?, htasks] at e; exact .inl e
  filed hl := hl.congr (fun t => by rw [result?, htasks, result?]) hsize
  asked t h := by
    unfold CancelAsked
    rw [htasks]
    exact h

/-- The loop releases the cell some time. -/
inductive Holds (l : Loop ν ε φ) : Nat → Prop
  | timer {t : Timer} : t ∈ l.timers → Holds l t.cell
  | hook {c d : Nat} : .release c ∈ l.hooks d → Holds l c
  | job {c : Nat} : .release c ∈ l.jobs → Holds l c

/-- The cell is done, and not because it was cancelled. -/
def Answered (l : Loop ν ε φ) (c : Nat) : Prop := ∃ o, l.outcome? c = some o ∧ o ≠ .cancelled

theorem Answered.lt {c : Nat} (h : l.Answered c) : c < l.cells.size := by
  obtain ⟨o, ho, -⟩ := h
  by_contra hc
  rw [outcome?_of_size_le (Nat.le_of_not_lt hc)] at ho
  cases ho

/-! ## Finishing cells -/

theorem Grows.finish (l : Loop ν ε φ) (c : Nat) (o : Outcome ν ε) : Grows P l (l.finish c o) :=
  .of_tasks (tasks_finish l c o) (running_finish l c o) (Nat.le_of_eq (size_cells_finish l c o).symm)
    (fun hl => hl.finish c o) (.finish l c o)

theorem holds_finish {c d : Nat} {o : Outcome ν ε} (h : (l.finish c o).Holds d) : l.Holds d := by
  rcases finish_eq l c o with e | ⟨cell, hc, -, e⟩
  · rwa [e] at h
  have hhooks : l.hooks c = cell.hooks := by simp [hooks, hc]
  cases h with
  | timer h =>
    rw [timers_finish] at h
    exact .timer h
  | hook h =>
    next i =>
    rw [e] at h
    simp only [hooks, Table.get?_modify] at h
    split at h
    · next hci =>
      subst hci
      rw [hc] at h
      cases h
    · exact .hook h
  | job h =>
    rw [e] at h
    rcases List.mem_append.1 h with h | h
    · exact .job h
    -- a hook that becomes a job goes on holding the cell
    · obtain ⟨k, hk, hkd⟩ := List.mem_map.1 h
      cases k with
      | wake t => cases hkd
      | release i => cases hkd; exact .hook (hhooks ▸ hk)
      | notify q => cases hkd

theorem answered_finish {c d : Nat} {o : Outcome ν ε} (h : (l.finish c o).Answered d) :
    l.Answered d ∨ d = c ∧ o ≠ .cancelled := by
  obtain ⟨p, hp, hne⟩ := h
  rw [outcome?_finish] at hp
  split at hp
  · next hd =>
    obtain ⟨rfl, -⟩ := hd
    cases ho : l.outcome? d with
    | none =>
      rw [ho] at hp
      cases hp
      exact .inr ⟨rfl, hne⟩
    | some q =>
      rw [ho] at hp
      cases hp
      exact .inl ⟨_, ho, hne⟩
  · exact .inl ⟨p, hp, hne⟩

theorem Answered.finish {d : Nat} (h : l.Answered d) (c : Nat) (o : Outcome ν ε) :
    (l.finish c o).Answered d := by
  obtain ⟨p, hp, hne⟩ := h
  refine ⟨p, ?_, hne⟩
  rw [outcome?_finish]
  split
  · next hd =>
    obtain ⟨rfl, -⟩ := hd
    rw [hp]
    rfl
  · exact hp

/-! ## Making cells and tasks -/

theorem Grows.newCell (l : Loop ν ε φ) : Grows P l l.newCell.2 :=
  .of_tasks rfl rfl (by simp [Loop.newCell]) (fun hl => hl.newCell) (.newCell l)

theorem holds_newCell {c : Nat} (h : l.newCell.2.Holds c) : l.Holds c := by
  cases h with
  | timer h => exact .timer h
  | hook h =>
    rw [hooks_newCell] at h
    exact .hook h
  | job h => exact .job h

theorem answered_newCell {c : Nat} (h : l.newCell.2.Answered c) : l.Answered c := by
  obtain ⟨o, ho, hne⟩ := h
  rw [outcome?_newCell_snd] at ho
  exact ⟨o, ho, hne⟩

theorem Grows.newTimer (l : Loop ν ε φ) (d : Binary64) : Grows P l (l.newTimer d).2 :=
  .of_tasks rfl rfl (by simp [Loop.newTimer, Loop.newCell]) (fun hl => hl.newTimer d)
    (.newTimer l d)

theorem holds_newTimer {c : Nat} {d : Binary64} (h : (l.newTimer d).2.Holds c) :
    l.Holds c ∨ c = l.cells.size := by
  cases h with
  | timer h =>
    rcases List.mem_append.1 h with h | h
    · exact .inl (.timer h)
    · rw [List.mem_singleton.1 h]
      exact .inr rfl
  | hook h =>
    have := hooks_newCell l
    simp only [hooks] at this h
    rw [show (l.newTimer d).2.cells = l.newCell.2.cells from rfl, this] at h
    exact .inl (.hook h)
  | job h => exact .inl (.job h)

theorem answered_newTimer {c : Nat} {d : Binary64} (h : (l.newTimer d).2.Answered c) :
    l.Answered c :=
  answered_newCell h

theorem stack?_newTask (l : Loop ν ε φ) (fs : List φ) (t : Nat) :
    (l.newTask fs).2.stack? t = if t = l.tasks.size then some fs else l.stack? t := by
  simp only [Loop.newTask, stack?, Table.get?_push]
  split <;> rfl

theorem stack?_lt {t : Nat} {fs : List φ} (h : l.stack? t = some fs) : t < l.tasks.size := by
  obtain ⟨task, ht, -⟩ := Option.map_eq_some_iff.1 h
  exact Table.lt_size_of_get? ht

theorem Grows.newTask (l : Loop ν ε φ) {fs : List φ} (hfs : P fs) : Grows P l (l.newTask fs).2 where
  running := rfl
  waiting := waiting_newTask l fs
  stack t gs h := by
    rw [stack?_newTask, if_neg (Nat.ne_of_lt (stack?_lt h)), h]
  fresh t gs h := by
    rw [stack?_newTask] at h
    split at h
    · cases h
      exact .inr hfs
    · exact .inl h
  sound hl := hl.newTask fs
  size_le := by simp [Loop.newTask]
  lasts := .newTask l fs
  result t c h := by
    rw [result?_newTask, if_neg, h]
    rintro rfl
    rw [result?, Table.get?_eq_none (Nat.le_refl _)] at h
    cases h
  results t c h := by
    rw [result?_newTask] at h
    split at h
    · cases h
      exact .inr ⟨Nat.le_refl _, by simp [Loop.newTask]⟩
    · exact .inl h
  filed hl := hl.newTask fs
  asked t h := h.newTask fs

theorem holds_newTask {c : Nat} {fs : List φ} (h : (l.newTask fs).2.Holds c) : l.Holds c := by
  cases h with
  | timer h => exact .timer h
  | hook h =>
    rw [hooks_newTask] at h
    exact .hook h
  | job h =>
    have : .release c ∈ l.jobs := by simpa [Loop.newTask] using h
    exact .job this

theorem answered_newTask {c : Nat} {fs : List φ} (h : (l.newTask fs).2.Answered c) :
    l.Answered c := by
  obtain ⟨o, ho, hne⟩ := h
  refine ⟨o, ?_, hne⟩
  simp only [Loop.newTask, outcome?, Table.get?_push] at ho
  split at ho
  · cases ho
  · exact ho

/-! ## Hooks and cancellations -/

theorem Grows.hook (l : Loop ν ε φ) (c : Nat) {k : Hook} (hk : k.task? = none) :
    Grows P l (l.hook c k) :=
  .of_tasks (tasks_hook l c k) (running_hook l c k) (Nat.le_of_eq (size_cells_hook l c k).symm)
    (fun hl => hl.hook_other c hk) (.hook l c k)

theorem holds_hook {c d : Nat} {k : Hook} (h : (l.hook c k).Holds d) :
    l.Holds d ∨ k = .release d := by
  cases h with
  | timer h =>
    rw [timers_hook] at h
    exact .inl (.timer h)
  | hook h =>
    rcases mem_hooks_hook h with h | ⟨-, h⟩
    · exact .inl (.hook h)
    · exact .inr h.symm
  | job h =>
    rcases mem_jobs_hook h with h | h
    · exact .inl (.job h)
    · cases k with
      | wake t => cases h
      | release i => cases h; exact .inr rfl
      | notify q => cases h

theorem answered_hook {c d : Nat} {k : Hook} (h : (l.hook c k).Answered d) : l.Answered d := by
  obtain ⟨o, ho, hne⟩ := h
  rw [outcome?_hook] at ho
  exact ⟨o, ho, hne⟩

theorem Grows.askCancel (l : Loop ν ε φ) (t : Nat) : Grows P l (l.askCancel t) where
  running := rfl
  waiting u := waiting_modify l t u _ fun _ => rfl
  stack u fs h := by rwa [stack?_askCancel]
  fresh u fs h := by
    rw [stack?_askCancel] at h
    exact .inl h
  sound hl := hl.askCancel t
  size_le := Nat.le_refl _
  lasts := .of_eq rfl rfl
  result u c h := (result?_askCancel l t u).trans h
  results u c h := .inl ((result?_askCancel l t u).symm.trans h)
  filed hl := hl.congr (result?_askCancel l t) (Nat.le_refl _)
  asked u h := h.modify fun _ _ _ => rfl

/-- The loop holds what timers, hooks and jobs will release. -/
theorem Holds.of_eq {c : Nat} (h : l'.Holds c) (htimers : l'.timers = l.timers)
    (hhooks : ∀ c, l'.hooks c = l.hooks c) (hjobs : l'.jobs = l.jobs) : l.Holds c := by
  cases h with
  | timer h =>
    rw [htimers] at h
    exact .timer h
  | hook h =>
    rw [hhooks] at h
    exact .hook h
  | job h =>
    rw [hjobs] at h
    exact .job h

theorem Grows.cancelWithin (l : Loop ν ε φ) (fuel c : Nat) :
    Grows P l (l.cancelWithin fuel c).2 := by
  rcases cancelWithin_eq l fuel c with ⟨d, cell, -, -, e⟩ | ⟨t, e⟩ | e
  · rw [e]
    exact .finish l d .cancelled
  · rw [e]
    exact .askCancel l t
  · rw [e]
    exact .refl l

theorem holds_cancelWithin {fuel c d : Nat} (h : (l.cancelWithin fuel c).2.Holds d) :
    l.Holds d := by
  rcases cancelWithin_eq l fuel c with ⟨i, cell, -, -, e⟩ | ⟨t, e⟩ | e
  · rw [e] at h
    exact holds_finish h
  · rw [e] at h
    exact h.of_eq rfl (fun _ => rfl) rfl
  · rwa [e] at h

/-- Whoever is cancelled gets no answer. -/
theorem answered_cancelWithin {fuel c d : Nat} (h : (l.cancelWithin fuel c).2.Answered d) :
    l.Answered d := by
  rcases cancelWithin_eq l fuel c with ⟨i, cell, -, -, e⟩ | ⟨t, e⟩ | e
  · rw [e] at h
    exact (answered_finish h).resolve_right fun hd => hd.2 rfl
  · rw [e] at h
    exact h
  · rwa [e] at h

theorem size_cells_cancelWithin (l : Loop ν ε φ) (fuel c : Nat) :
    (l.cancelWithin fuel c).2.cells.size = l.cells.size := by
  rcases cancelWithin_eq l fuel c with ⟨d, cell, -, -, e⟩ | ⟨t, e⟩ | e <;> rw [e]
  · exact size_cells_finish ..
  · rfl

/-! ## Lists of cells -/

theorem Grows.foldl_release [Inhabited ν] (l : Loop ν ε φ) (cells : List Nat) :
    Grows P l (cells.foldl (fun l c => l.release c) l) := by
  induction cells generalizing l with
  | nil => exact .refl l
  | cons c cells ih => exact (Grows.finish l c _).trans (ih _)

theorem holds_foldl_release [Inhabited ν] {cells : List Nat} {d : Nat}
    (h : (cells.foldl (fun l c => l.release c) l).Holds d) : l.Holds d := by
  induction cells generalizing l with
  | nil => exact h
  | cons c cells ih => exact holds_finish (ih h)

theorem answered_foldl_release [Inhabited ν] {cells : List Nat} {d : Nat}
    (h : (cells.foldl (fun l c => l.release c) l).Answered d) : l.Answered d ∨ d ∈ cells := by
  induction cells generalizing l with
  | nil => exact .inl h
  | cons c cells ih =>
    rcases ih h with h | h
    · rcases answered_finish h with h | ⟨rfl, -⟩
      · exact .inl h
      · exact .inr List.mem_cons_self
    · exact .inr (List.mem_cons_of_mem _ h)

theorem size_cells_foldl_release [Inhabited ν] (l : Loop ν ε φ) (cells : List Nat) :
    (cells.foldl (fun l c => l.release c) l).cells.size = l.cells.size := by
  induction cells generalizing l with
  | nil => rfl
  | cons c cells ih => exact (ih _).trans (size_cells_finish ..)

theorem Grows.foldl_cancel (l : Loop ν ε φ) (cells : List Nat) :
    Grows P l (cells.foldl (fun l c => l.cancel c) l) := by
  induction cells generalizing l with
  | nil => exact .refl l
  | cons c cells ih => exact (Grows.cancelWithin l _ c).trans (ih _)

theorem holds_foldl_cancel {cells : List Nat} {d : Nat}
    (h : (cells.foldl (fun l c => l.cancel c) l).Holds d) : l.Holds d := by
  induction cells generalizing l with
  | nil => exact h
  | cons c cells ih => exact holds_cancelWithin (ih h)

theorem answered_foldl_cancel {cells : List Nat} {d : Nat}
    (h : (cells.foldl (fun l c => l.cancel c) l).Answered d) : l.Answered d := by
  induction cells generalizing l with
  | nil => exact h
  | cons c cells ih => exact answered_cancelWithin (ih h)

theorem size_cells_foldl_cancel (l : Loop ν ε φ) (cells : List Nat) :
    (cells.foldl (fun l c => l.cancel c) l).cells.size = l.cells.size := by
  induction cells generalizing l with
  | nil => rfl
  | cons c cells ih => exact (ih _).trans (size_cells_cancelWithin ..)

end GhciHost.Loop
