import Mathlib.Data.List.Nodup
import GhciHost.Proofs.Loop.Cells

/-!
# A task goes on once for each wait

A task waits for one cell at a time.  As long as it waits, one thing can let it go on: a hook on
that cell or, once the cell is done, a job.  `Sound` says this of a loop, and every operation
preserves it, so a task that goes on is told the outcome of what it waits for now, and not of
what it waited for earlier.

* `Sound.finish`, `Sound.newTask`, `Sound.cancel`   operations of whoever runs;
* `Sound.suspend`, `Sound.resume`, `Sound.endTask`   the loop's own operations.
-/

namespace GhciHost

/-- The task that a job lets go on. -/
def Job.task? : Job → Option Nat
  | .start t | .wake t _ => some t
  | _ => none

/-- The task that a hook lets go on. -/
def Hook.task? : Hook → Option Nat
  | .wake t => some t
  | _ => none

@[simp] theorem Hook.task?_job (c : Nat) (k : Hook) : (k.job c).task? = k.task? := by
  cases k <;> rfl

namespace Loop

variable {ν ε φ : Type} {l : Loop ν ε φ}

/-- The cell that a task waits for. -/
def waiting (l : Loop ν ε φ) (t : Nat) : Option Nat := (l.tasks.get? t).bind (·.waitingOn)

/-- What a task has still to do. -/
def stack? (l : Loop ν ε φ) (t : Nat) : Option (List φ) := (l.tasks.get? t).map (·.stack)

/-- What happens when a cell is done. -/
def hooks (l : Loop ν ε φ) (c : Nat) : List Hook := ((l.cells.get? c).map (·.hooks)).getD []

/-- The tasks that are about to go on, in order. -/
def due (l : Loop ν ε φ) : List Nat := l.jobs.filterMap Job.task?

/-- Every task that waits is woken once, by what it waits for; the task that runs is not. -/
structure Sound (l : Loop ν ε φ) : Prop where
  start : ∀ t, .start t ∈ l.jobs → t < l.tasks.size ∧ l.waiting t = none
  wake : ∀ t c, .wake t c ∈ l.jobs → l.waiting t = some c
  due_nodup : l.due.Nodup
  hook : ∀ t c, .wake t ∈ l.hooks c → l.waiting t = some c ∧ t ∉ l.due
  hooks_nodup : ∀ c, ((l.hooks c).filterMap Hook.task?).Nodup
  running : ∀ t o, l.running = some (t, o) →
    t < l.tasks.size ∧ l.waiting t = none ∧ t ∉ l.due

theorem lt_of_waiting {t c : Nat} (h : l.waiting t = some c) : t < l.tasks.size := by
  obtain ⟨task, ht, -⟩ := Option.bind_eq_some_iff.1 h
  exact Table.lt_size_of_get? ht

theorem mem_due {t : Nat} : t ∈ l.due ↔ .start t ∈ l.jobs ∨ ∃ c, .wake t c ∈ l.jobs := by
  simp only [due, List.mem_filterMap]
  constructor
  · rintro ⟨j, hj, e⟩
    cases j with
    | start u => cases e; exact .inl hj
    | wake u c => cases e; exact .inr ⟨c, hj⟩
    | release c => cases e
    | notify q => cases e
  · rintro (hj | ⟨c, hj⟩)
    · exact ⟨_, hj, rfl⟩
    · exact ⟨_, hj, rfl⟩

theorem Sound.lt_of_mem_due (hl : l.Sound) {t : Nat} (h : t ∈ l.due) : t < l.tasks.size := by
  rcases mem_due.1 h with hj | ⟨c, hj⟩
  · exact (hl.start t hj).1
  · exact lt_of_waiting (hl.wake t c hj)

/-- A task is woken by what it waits for. -/
theorem Sound.wake_of_mem_due (hl : l.Sound) {t c : Nat} (h : l.waiting t = some c)
    (hd : t ∈ l.due) : .wake t c ∈ l.jobs := by
  rcases mem_due.1 hd with hj | ⟨d, hj⟩
  · rw [(hl.start t hj).2] at h
    cases h
  · rw [hl.wake t d hj] at h
    cases h
    exact hj

theorem lt_of_mem_hooks {c : Nat} {k : Hook} (h : k ∈ l.hooks c) : c < l.cells.size := by
  unfold hooks at h
  cases e : l.cells.get? c with
  | none => simp [e] at h
  | some cell => exact Table.lt_size_of_get? e

/-! ## What is left alone -/

/-- Tasks wait as before, and nothing else lets them go on. -/
theorem Sound.congr (hl : l.Sound) {l' : Loop ν ε φ} (hjobs : l'.jobs = l.jobs)
    (hhooks : ∀ c, l'.hooks c = l.hooks c) (hwait : ∀ t, l'.waiting t = l.waiting t)
    (hsize : l.tasks.size ≤ l'.tasks.size) (hrun : l'.running = l.running) : l'.Sound where
  start t h := by
    rw [hjobs] at h
    obtain ⟨hlt, hw⟩ := hl.start t h
    exact ⟨Nat.lt_of_lt_of_le hlt hsize, by rw [hwait, hw]⟩
  wake t c h := by
    rw [hjobs] at h
    rw [hwait, hl.wake t c h]
  due_nodup := by
    unfold due
    rw [hjobs]
    exact hl.due_nodup
  hook t c h := by
    rw [hhooks] at h
    unfold due
    rw [hwait, hjobs]
    exact hl.hook t c h
  hooks_nodup c := by
    rw [hhooks]
    exact hl.hooks_nodup c
  running t o h := by
    rw [hrun] at h
    obtain ⟨hlt, hw, hd⟩ := hl.running t o h
    unfold due
    rw [hwait, hjobs]
    exact ⟨Nat.lt_of_lt_of_le hlt hsize, hw, hd⟩

theorem waiting_modify (l : Loop ν ε φ) (t u : Nat) (f : Task φ → Task φ)
    (hf : ∀ task, (f task).waitingOn = task.waitingOn) :
    ({ l with tasks := l.tasks.modify t f } : Loop ν ε φ).waiting u = l.waiting u := by
  simp only [waiting, Table.get?_modify]
  split
  · cases l.tasks.get? u with
    | none => rfl
    | some task => exact hf task
  · rfl

theorem stack?_modify (l : Loop ν ε φ) (t u : Nat) (f : Task φ → Task φ)
    (hf : ∀ task, (f task).stack = task.stack) :
    ({ l with tasks := l.tasks.modify t f } : Loop ν ε φ).stack? u = l.stack? u := by
  simp only [stack?, Table.get?_modify]
  split
  · cases l.tasks.get? u with
    | none => rfl
    | some task => simp [hf]
  · rfl

/-! ## Cells -/

theorem hooks_newCell (l : Loop ν ε φ) (c : Nat) : l.newCell.2.hooks c = l.hooks c := by
  simp only [newCell, hooks, Table.get?_push]
  split
  · next h =>
    subst h
    rw [Table.get?_eq_none (Nat.le_refl _)]
    rfl
  · rfl

theorem Sound.newCell (hl : l.Sound) : l.newCell.2.Sound :=
  hl.congr rfl (hooks_newCell l) (fun _ => rfl) (Nat.le_refl _) rfl

theorem Sound.newTimer (hl : l.Sound) (d : Binary64) : (l.newTimer d).2.Sound :=
  hl.newCell.congr rfl (fun _ => rfl) (fun _ => rfl) (Nat.le_refl _) rfl

/-- What finishing a cell does, if the cell was not done. -/
theorem finish_eq (l : Loop ν ε φ) (c : Nat) (o : Outcome ν ε) :
    l.finish c o = l ∨
      ∃ cell, l.cells.get? c = some cell ∧ cell.outcome = none ∧
        l.finish c o = { l with
          cells := l.cells.modify c fun cell => { cell with outcome := some o, hooks := [] }
          jobs := l.jobs ++ cell.hooks.map (Hook.job c) } := by
  unfold finish
  split
  · exact .inl rfl
  · next cell hc =>
    split
    · exact .inl rfl
    · next hs => exact .inr ⟨cell, hc, by simpa using hs, rfl⟩

@[simp] theorem tasks_finish (l : Loop ν ε φ) (c : Nat) (o : Outcome ν ε) :
    (l.finish c o).tasks = l.tasks := by
  rcases finish_eq l c o with e | ⟨cell, -, -, e⟩ <;> rw [e]

@[simp] theorem running_finish (l : Loop ν ε φ) (c : Nat) (o : Outcome ν ε) :
    (l.finish c o).running = l.running := by
  rcases finish_eq l c o with e | ⟨cell, -, -, e⟩ <;> rw [e]

@[simp] theorem timers_finish (l : Loop ν ε φ) (c : Nat) (o : Outcome ν ε) :
    (l.finish c o).timers = l.timers := by
  rcases finish_eq l c o with e | ⟨cell, -, -, e⟩ <;> rw [e]

/-- The hooks of a cell that is finished become jobs, so they are neither lost nor run
    twice. -/
theorem Sound.finish (hl : l.Sound) (c : Nat) (o : Outcome ν ε) : (l.finish c o).Sound := by
  rcases finish_eq l c o with e | ⟨cell, hc, -, e⟩
  · rw [e]
    exact hl
  have hhooks : l.hooks c = cell.hooks := by simp [hooks, hc]
  have hdue : (l.finish c o).due = l.due ++ cell.hooks.filterMap Hook.task? := by
    have hfun : (Job.task? ∘ Hook.job c) = Hook.task? := funext fun k => Hook.task?_job c k
    rw [e, due, due, List.filterMap_append, List.filterMap_map, hfun]
  have hook' (t d : Nat) (h : .wake t ∈ (l.finish c o).hooks d) : d ≠ c ∧ .wake t ∈ l.hooks d := by
    rw [e] at h
    simp only [hooks, Table.get?_modify] at h
    split at h
    · next hcd =>
      subst hcd
      rw [hc] at h
      cases h
    · next hcd => exact ⟨fun heq => hcd heq.symm, h⟩
  have hwait (t : Nat) : (l.finish c o).waiting t = l.waiting t := by simp [waiting]
  have hwaiter (t : Nat) (h : t ∈ cell.hooks.filterMap Hook.task?) : .wake t ∈ l.hooks c := by
    obtain ⟨k, hk, hkt⟩ := List.mem_filterMap.1 h
    cases k with
    | wake u => cases hkt; rwa [hhooks]
    | release d => cases hkt
    | notify q => cases hkt
  have hjob (j : Job) (h : j ∈ (l.finish c o).jobs) :
      j ∈ l.jobs ∨ ∃ k ∈ l.hooks c, j = k.job c := by
    rw [e] at h
    rcases List.mem_append.1 h with h | h
    · exact .inl h
    · obtain ⟨k, hk, rfl⟩ := List.mem_map.1 h
      exact .inr ⟨k, by rwa [hhooks], rfl⟩
  refine ⟨fun t h => ?_, fun t d h => ?_, ?_, fun t d h => ?_, fun d => ?_, fun t p h => ?_⟩
  · rcases hjob _ h with h | ⟨k, -, hk⟩
    · rw [tasks_finish, hwait]
      exact hl.start t h
    · cases k <;> cases hk
  · rw [hwait]
    rcases hjob _ h with h | ⟨k, hk, hkt⟩
    · exact hl.wake t d h
    · cases k with
      | wake u => cases hkt; exact (hl.hook _ _ hk).1
      | release d => cases hkt
      | notify q => cases hkt
  · rw [hdue]
    refine List.Nodup.append hl.due_nodup (hhooks ▸ hl.hooks_nodup c) ?_
    intro t ht hk
    exact (hl.hook t c (hwaiter t hk)).2 ht
  · obtain ⟨hne, hd⟩ := hook' t d h
    have hw := hl.hook t d hd
    rw [hwait, hdue]
    refine ⟨hw.1, fun hmem => ?_⟩
    rcases List.mem_append.1 hmem with hmem | hmem
    · exact hw.2 hmem
    -- a task that waits for one cell has no hook on another
    · have hc' := (hl.hook t c (hwaiter t hmem)).1
      rw [hw.1] at hc'
      exact hne (Option.some.inj hc')
  · by_cases hd : d = c
    · subst hd
      rw [e]
      simp [hooks, Table.get?_modify, hc]
    · have : (l.finish c o).hooks d = l.hooks d := by
        rw [e]
        simp [hooks, Table.get?_modify, Ne.symm hd]
      rw [this]
      exact hl.hooks_nodup d
  · rw [running_finish] at h
    obtain ⟨hlt, hw, hd⟩ := hl.running t p h
    rw [tasks_finish, hwait, hdue]
    refine ⟨hlt, hw, fun hmem => ?_⟩
    rcases List.mem_append.1 hmem with hmem | hmem
    · exact hd hmem
    -- the task that runs waits for nothing
    · have hc' := (hl.hook t c (hwaiter t hmem)).1
      rw [hw] at hc'
      cases hc'

/-- What a hook does to the hooks of cells and to the jobs. -/
theorem hook_eq (l : Loop ν ε φ) (c : Nat) (k : Hook) :
    l.hook c k = { l with jobs := l.jobs ++ [k.job c] } ∨
      l.hook c k = { l with
        cells := l.cells.modify c fun cell => { cell with hooks := cell.hooks ++ [k] } } := by
  unfold hook
  split
  · exact .inl rfl
  · exact .inr rfl

@[simp] theorem tasks_hook (l : Loop ν ε φ) (c : Nat) (k : Hook) :
    (l.hook c k).tasks = l.tasks := by
  rcases hook_eq l c k with e | e <;> rw [e]

@[simp] theorem running_hook (l : Loop ν ε φ) (c : Nat) (k : Hook) :
    (l.hook c k).running = l.running := by
  rcases hook_eq l c k with e | e <;> rw [e]

@[simp] theorem timers_hook (l : Loop ν ε φ) (c : Nat) (k : Hook) :
    (l.hook c k).timers = l.timers := by
  rcases hook_eq l c k with e | e <;> rw [e]

@[simp] theorem size_cells_hook (l : Loop ν ε φ) (c : Nat) (k : Hook) :
    (l.hook c k).cells.size = l.cells.size := by
  rcases hook_eq l c k with e | e <;> rw [e]
  exact Table.size_modify ..

theorem mem_jobs_hook {c : Nat} {k : Hook} {j : Job} (h : j ∈ (l.hook c k).jobs) :
    j ∈ l.jobs ∨ j = k.job c := by
  rcases hook_eq l c k with e | e <;> rw [e] at h
  · simpa using h
  · exact .inl h

theorem mem_hooks_hook {c d : Nat} {k k' : Hook} (h : k' ∈ (l.hook c k).hooks d) :
    k' ∈ l.hooks d ∨ d = c ∧ k' = k := by
  rcases hook_eq l c k with e | e <;> rw [e] at h
  · exact .inl h
  · simp only [hooks, Table.get?_modify] at h ⊢
    split at h
    · next hcd =>
      subst hcd
      cases hc : l.cells.get? c with
      | none => simp [hc] at h
      | some cell =>
        simp only [hc, Option.map_some, Option.getD_some, List.mem_append, List.mem_singleton] at h ⊢
        exact h.imp_right fun h => ⟨trivial, h⟩
    · exact .inl h

@[simp] theorem outcome?_hook (l : Loop ν ε φ) (c : Nat) (k : Hook) (d : Nat) :
    (l.hook c k).outcome? d = l.outcome? d := by
  rcases hook_eq l c k with e | e <;> rw [e]
  · rfl
  · simp only [outcome?, Table.get?_modify]
    split
    · cases l.cells.get? d <;> rfl
    · rfl

/-- A hook that wakes nobody changes nothing for tasks. -/
theorem Sound.hook_other (hl : l.Sound) (c : Nat) {k : Hook} (hk : k.task? = none) :
    (l.hook c k).Sound := by
  have hdue : (l.hook c k).due = l.due := by
    rcases hook_eq l c k with e | e <;> rw [e]
    · simp [due, hk]
    · rfl
  have hwait (t : Nat) : (l.hook c k).waiting t = l.waiting t := by simp [waiting]
  refine ⟨fun t h => ?_, fun t d h => ?_, ?_, fun t d h => ?_, fun d => ?_, fun t p h => ?_⟩
  · rw [tasks_hook, hwait]
    rcases mem_jobs_hook h with h | h
    · exact hl.start t h
    · cases k <;> cases h
  · rw [hwait]
    rcases mem_jobs_hook h with h | h
    · exact hl.wake t d h
    · cases k with
      | wake u => cases hk
      | release d => cases h
      | notify q => cases h
  · rw [hdue]
    exact hl.due_nodup
  · rw [hwait, hdue]
    rcases mem_hooks_hook h with h | ⟨-, h⟩
    · exact hl.hook t d h
    · rw [← h] at hk
      cases hk
  · have heq : ((l.hook c k).hooks d).filterMap Hook.task? = (l.hooks d).filterMap Hook.task? := by
      rcases hook_eq l c k with e | e <;> rw [e]
      · rfl
      · simp only [hooks, Table.get?_modify]
        split
        · cases l.cells.get? d with
          | none => rfl
          | some cell => simp [hk]
        · rfl
    rw [heq]
    exact hl.hooks_nodup d
  · rw [running_hook] at h
    rw [tasks_hook, hwait, hdue]
    exact hl.running t p h

/-! ## Tasks -/

theorem hooks_newTask (l : Loop ν ε φ) (fs : List φ) (c : Nat) :
    (l.newTask fs).2.hooks c = l.hooks c := by
  simp only [newTask, hooks, Table.get?_push]
  split
  · next h =>
    subst h
    rw [Table.get?_eq_none (Nat.le_refl _)]
    rfl
  · rfl

theorem waiting_newTask (l : Loop ν ε φ) (fs : List φ) (t : Nat) :
    (l.newTask fs).2.waiting t = l.waiting t := by
  simp only [newTask, waiting, Table.get?_push]
  split
  · next h =>
    subst h
    rw [Table.get?_eq_none (Nat.le_refl _)]
    rfl
  · rfl

theorem Sound.newTask (hl : l.Sound) (fs : List φ) : (l.newTask fs).2.Sound := by
  have hwait := waiting_newTask l fs
  have hdue : (l.newTask fs).2.due = l.due ++ [l.tasks.size] := by
    simp [due, Loop.newTask, Job.task?]
  have hsize : (l.newTask fs).2.tasks.size = l.tasks.size + 1 := by simp [Loop.newTask]
  have hnew : l.waiting l.tasks.size = none := by
    simp [waiting, Table.get?_eq_none (Nat.le_refl _)]
  have hjob (j : Job) (h : j ∈ (l.newTask fs).2.jobs) :
      j ∈ l.jobs ∨ j = .start l.tasks.size := by
    simpa [Loop.newTask] using h
  refine ⟨fun t h => ?_, fun t d h => ?_, ?_, fun t d h => ?_, fun d => ?_, fun t p h => ?_⟩
  · rw [hsize, hwait]
    rcases hjob _ h with h | h
    · exact ⟨Nat.lt_succ_of_lt (hl.start t h).1, (hl.start t h).2⟩
    · cases h
      exact ⟨Nat.lt_succ_self _, hnew⟩
  · rw [hwait]
    rcases hjob _ h with h | h
    · exact hl.wake t d h
    · cases h
  · rw [hdue]
    refine List.Nodup.append hl.due_nodup (List.nodup_singleton _) ?_
    intro t ht hk
    rw [List.mem_singleton.1 hk] at ht
    exact Nat.lt_irrefl _ (hl.lt_of_mem_due ht)
  · rw [hooks_newTask] at h
    obtain ⟨hw, hd⟩ := hl.hook t d h
    rw [hwait, hdue]
    refine ⟨hw, fun hmem => ?_⟩
    rcases List.mem_append.1 hmem with hmem | hmem
    · exact hd hmem
    · rw [List.mem_singleton.1 hmem, hnew] at hw
      cases hw
  · rw [hooks_newTask]
    exact hl.hooks_nodup d
  · obtain ⟨hlt, hw, hd⟩ := hl.running t p h
    rw [hsize, hwait, hdue]
    refine ⟨Nat.lt_succ_of_lt hlt, hw, fun hmem => ?_⟩
    rcases List.mem_append.1 hmem with hmem | hmem
    · exact hd hmem
    · rw [List.mem_singleton.1 hmem] at hlt
      exact Nat.lt_irrefl _ hlt

@[simp] theorem stack?_askCancel (l : Loop ν ε φ) (t u : Nat) :
    (l.askCancel t).stack? u = l.stack? u :=
  stack?_modify l t u _ fun _ => rfl

theorem Sound.askCancel (hl : l.Sound) (t : Nat) : (l.askCancel t).Sound :=
  hl.congr rfl (fun _ => rfl) (fun u => waiting_modify l t u _ fun _ => rfl)
    (by simp [Loop.askCancel]) rfl

@[simp] theorem waiting_setStack (l : Loop ν ε φ) (t u : Nat) (fs : List φ) :
    (l.setStack t fs).waiting u = l.waiting u :=
  waiting_modify l t u _ fun _ => rfl

theorem Sound.setStack (hl : l.Sound) (t : Nat) (fs : List φ) : (l.setStack t fs).Sound :=
  hl.congr rfl (fun _ => rfl) (fun u => waiting_modify l t u _ fun _ => rfl)
    (by simp [Loop.setStack]) rfl

/-- A cancellation finishes one cell that no task owns, or asks one task to be cancelled, or
    finds nothing to do. -/
theorem cancelWithin_eq (l : Loop ν ε φ) (fuel c : Nat) :
    (∃ d cell, l.cells.get? d = some cell ∧ cell.owner = none ∧
        (l.cancelWithin fuel c).2 = l.finish d .cancelled) ∨
      (∃ t, (l.cancelWithin fuel c).2 = l.askCancel t) ∨ (l.cancelWithin fuel c).2 = l := by
  induction fuel generalizing c with
  | zero => exact .inr (.inr rfl)
  | succ fuel ih =>
    rw [cancelWithin]
    split
    · exact .inr (.inr rfl)
    · next cell hc =>
      split
      · exact .inr (.inr rfl)
      · split
        · next howner => exact .inl ⟨c, cell, hc, howner, rfl⟩
        · next t _ =>
          split
          · exact .inr (.inl ⟨t, rfl⟩)
          · next d _ =>
            have hd := ih d
            split
            · next l' e => rwa [e] at hd
            -- The inner cancellation found nothing to do, so the loop is what it was.
            · next l' e =>
              rw [e] at hd
              exact .inr (.inl ⟨t, by rw [cancelWithin_false e]⟩)
where
  /-- A cancellation that finds nothing to do leaves the loop as it is. -/
  cancelWithin_false {l l' : Loop ν ε φ} {fuel c : Nat}
      (e : l.cancelWithin fuel c = (false, l')) : l' = l := by
    induction fuel generalizing c l' with
    | zero => cases e; rfl
    | succ fuel ih =>
      rw [cancelWithin] at e
      split at e
      · cases e; rfl
      · split at e
        · cases e; rfl
        · split at e
          · cases e
          · split at e
            · cases e
            · split at e
              · cases e
              · cases e

theorem Sound.cancelWithin (hl : l.Sound) (fuel c : Nat) : (l.cancelWithin fuel c).2.Sound := by
  rcases cancelWithin_eq l fuel c with ⟨d, cell, -, -, e⟩ | ⟨t, e⟩ | e
  · rw [e]
    exact hl.finish d .cancelled
  · rw [e]
    exact hl.askCancel t
  · rw [e]
    exact hl

theorem Sound.cancel (hl : l.Sound) (c : Nat) : (l.cancel c).Sound := hl.cancelWithin _ c

/-! ## The loop's own operations -/

/-- A task that begins to wait, before it is asked whether it is to be cancelled. -/
def await (l : Loop ν ε φ) (t c : Nat) : Loop ν ε φ :=
  ({ l with
    tasks := l.tasks.modify t fun task => { task with waitingOn := some c }
    running := none } : Loop ν ε φ).hook c (.wake t)

theorem waiting_await (l : Loop ν ε φ) (t c u : Nat) :
    (l.await t c).waiting u = if u = t ∧ t < l.tasks.size then some c else l.waiting u := by
  simp only [await, waiting, tasks_hook, Table.get?_modify]
  by_cases h : t = u
  · subst h
    by_cases hs : t < l.tasks.size
    · simp only [true_and, hs, if_true]
      cases e : l.tasks.get? t with
      | none => simp [Table.get?, Table.size] at e hs; omega
      | some task => rfl
    · simp [hs, Table.get?_eq_none (Nat.le_of_not_lt hs)]
  · simp [h, Ne.symm h]

/-- The wait of a task for a cell that is done is a job, and otherwise a hook on the cell. -/
theorem await_eq (l : Loop ν ε φ) (t c : Nat) :
    ((l.await t c).due = l.due ++ [t] ∧ ∀ d, (l.await t c).hooks d = l.hooks d) ∨
      ((l.await t c).due = l.due ∧ ∀ d, (l.await t c).hooks d =
        if c = d ∧ c < l.cells.size then l.hooks d ++ [.wake t] else l.hooks d) := by
  unfold await
  rcases hook_eq ({ l with
    tasks := l.tasks.modify t fun task => { task with waitingOn := some c }
    running := none } : Loop ν ε φ) c (.wake t) with e | e <;> rw [e]
  · refine .inl ⟨?_, fun d => rfl⟩
    simp only [due, List.filterMap_append]
    rfl
  · refine .inr ⟨rfl, fun d => ?_⟩
    simp only [hooks, Table.get?_modify]
    by_cases hcd : c = d
    · subst hcd
      cases hc : l.cells.get? c with
      | none =>
        have : ¬ c < l.cells.size := by simpa [Table.get?, Table.size] using hc
        simp [this]
      | some cell => simp [Table.lt_size_of_get? hc]
    · simp [hcd]

/-- The task that runs can wait: nothing else is going to wake it. -/
theorem Sound.await (hl : l.Sound) {t c : Nat} {o : Outcome ν ε} (hrun : l.running = some (t, o)) :
    (l.await t c).Sound := by
  obtain ⟨hlt, hnot, hdue⟩ := hl.running t o hrun
  have hwait := waiting_await l t c
  simp only [hlt, and_true] at hwait
  have hsize : (l.await t c).tasks.size = l.tasks.size := by simp [Loop.await]
  -- a task that is known to wait, or to be due, is not the one that runs
  have hne (u d : Nat) (h : l.waiting u = some d) : u ≠ t := by
    rintro rfl
    rw [hnot] at h
    cases h
  have hother (u d : Nat) (h : l.waiting u = some d) : (l.await t c).waiting u = some d := by
    rw [hwait, if_neg (hne u d h), h]
  have hjob (j : Job) (h : j ∈ (l.await t c).jobs) : j ∈ l.jobs ∨ j = .wake t c :=
    mem_jobs_hook h
  have hhook (u d : Nat) (h : .wake u ∈ (l.await t c).hooks d) :
      .wake u ∈ l.hooks d ∨ d = c ∧ u = t := by
    rcases mem_hooks_hook h with h | ⟨hd, h⟩
    · exact .inl h
    · exact .inr ⟨hd, Hook.wake.inj h⟩
  refine ⟨fun u h => ?_, fun u d h => ?_, ?_, fun u d h => ?_, fun d => ?_, fun u p h => ?_⟩
  · rcases hjob _ h with hj | hj
    · have hut : u ≠ t := fun e => hdue (e ▸ mem_due.2 (.inl hj))
      rw [hsize, hwait, if_neg hut]
      exact hl.start u hj
    · cases hj
  · rcases hjob _ h with h | h
    · exact hother u d (hl.wake u d h)
    · cases h
      rw [hwait, if_pos rfl]
  · rcases await_eq l t c with ⟨e, -⟩ | ⟨e, -⟩ <;> rw [e]
    · refine List.Nodup.append hl.due_nodup (List.nodup_singleton _) ?_
      intro u hu hk
      rw [List.mem_singleton.1 hk] at hu
      exact hdue hu
    · exact hl.due_nodup
  · rcases await_eq l t c with ⟨e, eh⟩ | ⟨e, -⟩ <;> rw [e]
    -- The cell is done, so there is a job instead of a hook.
    · rw [eh] at h
      obtain ⟨hw, hd⟩ := hl.hook u d h
      refine ⟨hother u d hw, fun hm => ?_⟩
      rcases List.mem_append.1 hm with hm | hm
      · exact hd hm
      · exact hne u d hw (List.mem_singleton.1 hm)
    · rcases hhook u d h with h | ⟨rfl, rfl⟩
      · obtain ⟨hw, hd⟩ := hl.hook u d h
        exact ⟨hother u d hw, hd⟩
      · exact ⟨by rw [hwait, if_pos rfl], hdue⟩
  · rcases await_eq l t c with ⟨-, e⟩ | ⟨-, e⟩ <;> rw [e]
    · exact hl.hooks_nodup d
    · split
      · next h =>
        obtain ⟨rfl, -⟩ := h
        rw [List.filterMap_append]
        refine List.Nodup.append (hl.hooks_nodup c) (List.nodup_singleton _) ?_
        intro u hu hk
        rw [List.mem_singleton.1 hk] at hu
        obtain ⟨k, hk, hkt⟩ := List.mem_filterMap.1 hu
        cases k with
        | wake v => cases hkt; exact hne _ _ (hl.hook _ _ hk).1 rfl
        | release d => cases hkt
        | notify q => cases hkt
      · exact hl.hooks_nodup d
  · simp [Loop.await] at h

/-- A task that waits, and is cancelled with what it waits for if that was asked for. -/
theorem suspend_eq (l : Loop ν ε φ) (t c : Nat) :
    l.suspend t c = l.await t c ∨
      (∃ fuel, l.suspend t c = ((l.await t c).cancelWithin fuel c).2) ∨
      ∃ fuel, l.suspend t c =
        { ((l.await t c).cancelWithin fuel c).2 with
          tasks := ((l.await t c).cancelWithin fuel c).2.tasks.modify t
            fun task => { task with cancelAsked := false } } := by
  unfold suspend
  show (_ = l.await t c) ∨ _
  dsimp only
  split
  · split
    · split
      · next e => exact .inr (.inr ⟨_, by unfold await; rw [e]⟩)
      · next e => exact .inr (.inl ⟨_, by unfold await; rw [e]⟩)
    · exact .inl rfl
  · exact .inl rfl

theorem Sound.suspend (hl : l.Sound) {t c : Nat} {o : Outcome ν ε}
    (hrun : l.running = some (t, o)) : (l.suspend t c).Sound := by
  have hw := hl.await (c := c) hrun
  rcases suspend_eq l t c with e | ⟨fuel, e⟩ | ⟨fuel, e⟩
  · rw [e]
    exact hw
  · rw [e]
    exact hw.cancelWithin fuel c
  · rw [e]
    exact (hw.cancelWithin fuel c).congr rfl (fun _ => rfl)
      (fun u => waiting_modify _ t u _ fun _ => rfl) (by simp) rfl

theorem waiting_resume (l : Loop ν ε φ) (t u : Nat) (o : Outcome ν ε) :
    (l.resume t o).waiting u = if u = t then none else l.waiting u := by
  unfold resume
  split
  · next h =>
    split
    · next e => subst e; simp [waiting, h]
    · rfl
  · next task h =>
    simp only [waiting, Table.get?_modify]
    by_cases e : t = u
    · subst e
      simp [h]
    · simp [e, Ne.symm e]

/-- The next task goes on; its job is gone. -/
theorem Sound.resume (hl : l.Sound) {t : Nat} {j : Job} {jobs : List Job}
    (hjobs : l.jobs = j :: jobs) (hj : j.task? = some t) (hidle : l.running = none)
    (o : Outcome ν ε) : (({ l with jobs } : Loop ν ε φ).resume t o).Sound := by
  have hdue : l.due = t :: jobs.filterMap Job.task? := by
    rw [due, hjobs, List.filterMap_cons, hj]
  have hnd := hdue ▸ hl.due_nodup
  have hfresh : t ∉ jobs.filterMap Job.task? := (List.nodup_cons.1 hnd).1
  have hlt : t < l.tasks.size := hl.lt_of_mem_due (hdue ▸ List.mem_cons_self)
  have hjobs' : (({ l with jobs } : Loop ν ε φ).resume t o).jobs = jobs := by
    unfold Loop.resume
    split <;> rfl
  have hsize : (({ l with jobs } : Loop ν ε φ).resume t o).tasks.size = l.tasks.size := by
    unfold Loop.resume
    split
    · rfl
    · exact Table.size_modify ..
  have hhooks (c : Nat) : (({ l with jobs } : Loop ν ε φ).resume t o).hooks c = l.hooks c := by
    unfold Loop.resume
    split <;> rfl
  have hwait (u : Nat) : (({ l with jobs } : Loop ν ε φ).resume t o).waiting u =
      if u = t then none else l.waiting u := waiting_resume _ t u o
  have hne (u : Nat) (h : u ∈ jobs.filterMap Job.task?) : u ≠ t := by
    rintro rfl
    exact hfresh h
  have hold (k : Job) (h : k ∈ jobs) : k ∈ l.jobs := by
    rw [hjobs]
    exact List.mem_cons_of_mem _ h
  refine ⟨fun u h => ?_, fun u d h => ?_, ?_, fun u d h => ?_, fun d => ?_, fun u p h => ?_⟩
  · rw [hjobs'] at h
    have hu : u ∈ jobs.filterMap Job.task? := List.mem_filterMap.2 ⟨_, h, rfl⟩
    rw [hsize, hwait, if_neg (hne u hu)]
    exact hl.start u (hold _ h)
  · rw [hjobs'] at h
    have hu : u ∈ jobs.filterMap Job.task? := List.mem_filterMap.2 ⟨_, h, rfl⟩
    rw [hwait, if_neg (hne u hu)]
    exact hl.wake u d (hold _ h)
  · rw [due, hjobs']
    exact (List.nodup_cons.1 hnd).2
  · rw [hhooks] at h
    obtain ⟨hw, hd⟩ := hl.hook u d h
    rw [hdue] at hd
    have hut : u ≠ t := fun e => hd (e ▸ List.mem_cons_self)
    rw [hwait, if_neg hut, due, hjobs']
    exact ⟨hw, fun h => hd (List.mem_cons_of_mem _ h)⟩
  · rw [hhooks]
    exact hl.hooks_nodup d
  · have : u = t := by
      unfold Loop.resume at h
      split at h
      · rw [show ({ l with jobs } : Loop ν ε φ).running = none from hidle] at h
        cases h
      · cases h
        rfl
    subst this
    rw [hsize, hwait, if_pos rfl, due, hjobs']
    exact ⟨hlt, rfl, hfresh⟩

/-- A job that lets no task go on is left out. -/
theorem Sound.dropJob (hl : l.Sound) {j : Job} {jobs : List Job} (hjobs : l.jobs = j :: jobs)
    (hj : j.task? = none) : ({ l with jobs } : Loop ν ε φ).Sound := by
  have hdue : ({ l with jobs } : Loop ν ε φ).due = l.due := by
    simp [due, hjobs, hj]
  have hold (k : Job) (h : k ∈ jobs) : k ∈ l.jobs := by
    rw [hjobs]
    exact List.mem_cons_of_mem _ h
  exact ⟨fun t h => hl.start t (hold _ h), fun t c h => hl.wake t c (hold _ h),
    hdue ▸ hl.due_nodup, fun t c h => hdue ▸ hl.hook t c h, hl.hooks_nodup,
    fun t o h => hdue ▸ hl.running t o h⟩

theorem Sound.rest (hl : l.Sound) : ({ l with running := none } : Loop ν ε φ).Sound :=
  ⟨hl.start, hl.wake, hl.due_nodup, hl.hook, hl.hooks_nodup, fun _ _ h => by cases h⟩

theorem Sound.endTask (hl : l.Sound) (t : Nat) (o : Outcome ν ε) : (l.endTask t o).Sound := by
  unfold Loop.endTask
  dsimp only
  split
  · exact hl.rest
  · exact hl.rest.finish _ _

/-- The task that runs goes on with another ending. -/
theorem Sound.goOn (hl : l.Sound) {t : Nat} {o : Outcome ν ε} (hrun : l.running = some (t, o))
    (o' : Outcome ν ε) : ({ l with running := some (t, o') } : Loop ν ε φ).Sound :=
  ⟨hl.start, hl.wake, hl.due_nodup, hl.hook, hl.hooks_nodup, fun _ _ h => by
    cases h
    exact hl.running t o hrun⟩

end Loop

end GhciHost
