import GhciHost.Proofs.Loop.Wakes

/-!
# What is still to happen

A hook on a cell that is not done becomes a job when the cell is, so what it stands for is `Pending`
until that job begins.  What whoever runs does to cells puts nothing off (`Lasts`): outcomes stay,
jobs keep their places in front of new ones, and what is pending stays so.

Each task has a cell of its own for its end (`Filed`).

* `Lasts.finish`, `Lasts.hook`, `Lasts.newTask`   one lemma for each operation on cells;
* `Filed.newTask`   a new task has a new cell.
-/

namespace GhciHost.Loop

variable {ν ε φ : Type} {l l' l'' : Loop ν ε φ}

/-- The cell of a task's end. -/
def result? (l : Loop ν ε φ) (t : Nat) : Option Nat := (l.tasks.get? t).map (·.result)

/-- The task is to be cancelled when it goes on. -/
def CancelAsked (l : Loop ν ε φ) (t : Nat) : Prop :=
  ∃ task, l.tasks.get? t = some task ∧ task.cancelAsked = true

/-- A hook on a cell is still to be run. -/
def Pending (l : Loop ν ε φ) (c : Nat) (k : Hook) : Prop :=
  l.outcome? c = none ∧ k ∈ l.hooks c ∨ k.job c ∈ l.jobs

/-- The ends of tasks are told by cells that there are, by one for each. -/
structure Filed (l : Loop ν ε φ) : Prop where
  lt : ∀ t c, l.result? t = some c → c < l.cells.size
  one : ∀ t u c, l.result? t = some c → l.result? u = some c → t = u

/-- Nothing is put off, and nothing is forgotten.  Who is woken is woken by a cell that is done. -/
structure Lasts (l l' : Loop ν ε φ) : Prop where
  jobs : l.jobs <+: l'.jobs
  outcome : ∀ c o, l.outcome? c = some o → l'.outcome? c = some o
  pending : ∀ c k, l.Pending c k → l'.Pending c k
  woken : ∀ t c, .wake t c ∈ l'.jobs → .wake t c ∈ l.jobs ∨ l'.isDone c = true

namespace Lasts

theorem refl (l : Loop ν ε φ) : Lasts l l :=
  ⟨List.prefix_refl _, fun _ _ h => h, fun _ _ h => h, fun _ _ h => .inl h⟩

theorem isDone (h : Lasts l l') {c : Nat} (hc : l.isDone c = true) : l'.isDone c = true := by
  obtain ⟨o, ho⟩ := Option.isSome_iff_exists.1 hc
  rw [Loop.isDone, h.outcome c o ho]
  rfl

theorem trans (h : Lasts l l') (k : Lasts l' l'') : Lasts l l'' where
  jobs := h.jobs.trans k.jobs
  outcome c o ho := k.outcome c o (h.outcome c o ho)
  pending c x hx := k.pending c x (h.pending c x hx)
  woken t c hw := (k.woken t c hw).elim (fun hw => (h.woken t c hw).imp_right k.isDone) .inr

/-- Cells and jobs are as they were. -/
theorem of_eq (hcells : l'.cells = l.cells) (hjobs : l'.jobs = l.jobs) : Lasts l l' where
  jobs := hjobs ▸ List.prefix_refl _
  outcome c o ho := by rwa [outcome?, hcells]
  pending c k hk := by
    unfold Pending outcome? hooks
    rw [hcells, hjobs]
    exact hk
  woken t c hw := .inl (hjobs ▸ hw)

/-- Jobs are added, and cells are neither finished nor left without a hook. -/
theorem of_hooks (js : List Job) (hjobs : l'.jobs = l.jobs ++ js)
    (hout : ∀ c, l'.outcome? c = l.outcome? c) (hhooks : ∀ c k, k ∈ l.hooks c → k ∈ l'.hooks c)
    (hjs : ∀ t c, .wake t c ∈ js → l.isDone c = true) : Lasts l l' where
  jobs := ⟨js, hjobs.symm⟩
  outcome c o ho := by rw [hout, ho]
  pending c k hk := by
    rcases hk with ⟨ho, hk⟩ | hk
    · exact .inl ⟨by rw [hout, ho], hhooks c k hk⟩
    · refine .inr ?_
      rw [hjobs]
      exact List.mem_append_left _ hk
  woken t c hw := by
    rw [hjobs] at hw
    refine (List.mem_append.1 hw).imp_right fun hw => ?_
    rw [Loop.isDone, hout]
    exact hjs t c hw

theorem newCell (l : Loop ν ε φ) : Lasts l l.newCell.2 :=
  of_hooks [] (List.append_nil _).symm (outcome?_newCell_snd l)
    (fun c k hk => by rwa [hooks_newCell]) fun _ _ h => absurd h List.not_mem_nil

theorem newTimer (l : Loop ν ε φ) (d : Binary64) : Lasts l (l.newTimer d).2 :=
  (newCell l).trans (of_eq rfl rfl)

/-- The hooks of a cell that is finished become jobs. -/
theorem finish (l : Loop ν ε φ) (c : Nat) (o : Outcome ν ε) : Lasts l (l.finish c o) := by
  rcases finish_eq l c o with e | ⟨cell, hc, hno, e⟩
  · rw [e]
    exact refl l
  have hhooks : l.hooks c = cell.hooks := by simp [hooks, hc]
  have hjobs : (l.finish c o).jobs = l.jobs ++ cell.hooks.map (Hook.job c) := by rw [e]
  refine ⟨⟨_, hjobs.symm⟩, fun d p hp => ?_, fun d k hk => ?_, fun t d hw => ?_⟩
  · rw [outcome?_finish]
    split
    · next hd =>
      obtain ⟨rfl, -⟩ := hd
      rw [hp]
      rfl
    · exact hp
  · rcases hk with ⟨hd, hk⟩ | hk
    · by_cases hdc : d = c
      · subst hdc
        refine .inr ?_
        rw [hjobs]
        exact List.mem_append_right _ (List.mem_map_of_mem (hhooks ▸ hk))
      · refine .inl ⟨?_, ?_⟩
        · rw [outcome?_finish_of_ne o hdc, hd]
        · rw [e]
          simpa [hooks, Table.get?_modify, Ne.symm hdc] using hk
    · refine .inr ?_
      rw [hjobs]
      exact List.mem_append_left _ hk
  · rw [hjobs] at hw
    refine (List.mem_append.1 hw).imp_right fun hw => ?_
    -- only hooks of the cell that is finished become jobs
    obtain ⟨k, -, hk⟩ := List.mem_map.1 hw
    cases k with
    | wake u =>
      cases hk
      rw [Loop.isDone, outcome?_finish_self o (Table.lt_size_of_get? hc)]
      rfl
    | release i => cases hk
    | notify q => cases hk

theorem hook (l : Loop ν ε φ) (c : Nat) (k : Hook) : Lasts l (l.hook c k) := by
  have hout (d : Nat) : (l.hook c k).outcome? d = l.outcome? d := outcome?_hook l c k d
  rcases hook_eq l c k with e | e
  · refine of_hooks [k.job c] (by rw [e]) hout (fun d x hx => ?_) fun t d hw => ?_
    · rw [e]
      exact hx
    · cases hd : l.isDone c with
      | true =>
        cases k with
        | wake u =>
          cases List.mem_singleton.1 hw
          exact hd
        | release i => cases List.mem_singleton.1 hw
        | notify q => cases List.mem_singleton.1 hw
      | false =>
        unfold Loop.hook at e
        rw [hd] at e
        have := congrArg (fun l : Loop ν ε φ => l.jobs.length) e
        simp at this
  · refine of_hooks [] (by rw [e, List.append_nil]) hout (fun d x hx => ?_)
      fun _ _ h => absurd h List.not_mem_nil
    rw [e]
    simp only [hooks, Table.get?_modify] at hx ⊢
    split
    · next hcd =>
      subst hcd
      cases hc : l.cells.get? c with
      | none => simp [hc] at hx
      | some cell =>
        rw [hc] at hx
        exact List.mem_append_left _ hx
    · exact hx

end Lasts

/-- A hook on a cell that there is will be run. -/
theorem pending_hook {c : Nat} (k : Hook) (hc : c < l.cells.size) : (l.hook c k).Pending c k := by
  unfold Pending
  rw [outcome?_hook]
  unfold hook
  cases ho : l.outcome? c with
  | some o =>
    rw [isDone, ho]
    exact .inr (List.mem_append_right _ List.mem_cons_self)
  | none =>
    rw [isDone, ho]
    refine .inl ⟨rfl, ?_⟩
    have hcell : ∃ cell, l.cells.get? c = some cell := by
      cases hcell : l.cells.get? c with
      | some cell => exact ⟨cell, rfl⟩
      | none =>
        simp [Table.get?, Table.size] at hcell hc
        omega
    obtain ⟨cell, hcell⟩ := hcell
    simp [hooks, Table.get?_modify, hcell]

/-! ## Tasks -/

theorem outcome?_newTask (l : Loop ν ε φ) (fs : List φ) (c : Nat) :
    (l.newTask fs).2.outcome? c = l.outcome? c := by
  simp only [Loop.newTask, outcome?, Table.get?_push]
  split
  · next h =>
    rw [h, Table.get?_eq_none (Nat.le_refl _)]
    rfl
  · rfl

theorem Lasts.newTask (l : Loop ν ε φ) (fs : List φ) : Lasts l (l.newTask fs).2 :=
  of_hooks _ rfl (outcome?_newTask l fs) (fun c k hk => by rwa [hooks_newTask])
    fun t c hw => by cases List.mem_singleton.1 hw

theorem result?_newTask (l : Loop ν ε φ) (fs : List φ) (t : Nat) :
    (l.newTask fs).2.result? t = if t = l.tasks.size then some l.cells.size else l.result? t := by
  simp only [Loop.newTask, result?, Table.get?_push]
  split <;> rfl

theorem result?_modify (l : Loop ν ε φ) (t u : Nat) (f : Task φ → Task φ)
    (hf : ∀ task, (f task).result = task.result) :
    ({ l with tasks := l.tasks.modify t f } : Loop ν ε φ).result? u = l.result? u := by
  simp only [result?, Table.get?_modify]
  split
  · cases l.tasks.get? u with
    | none => rfl
    | some task => simp [hf]
  · rfl

theorem result?_askCancel (l : Loop ν ε φ) (t u : Nat) :
    (l.askCancel t).result? u = l.result? u :=
  result?_modify l t u _ fun _ => rfl

theorem Filed.congr (h : l.Filed) (hresult : ∀ t, l'.result? t = l.result? t)
    (hsize : l.cells.size ≤ l'.cells.size) : l'.Filed where
  lt t c ht := by
    rw [hresult] at ht
    exact Nat.lt_of_lt_of_le (h.lt t c ht) hsize
  one t u c ht hu := by
    rw [hresult] at ht hu
    exact h.one t u c ht hu

theorem Filed.newTask (h : l.Filed) (fs : List φ) : (l.newTask fs).2.Filed := by
  have hsize : (l.newTask fs).2.cells.size = l.cells.size + 1 := by simp [Loop.newTask]
  have hold (t c : Nat) (ht : (l.newTask fs).2.result? t = some c) :
      t = l.tasks.size ∧ c = l.cells.size ∨ l.result? t = some c ∧ c < l.cells.size := by
    rw [result?_newTask] at ht
    split at ht
    · next htask => exact .inl ⟨htask, (Option.some.inj ht).symm⟩
    · exact .inr ⟨ht, h.lt t c ht⟩
  refine ⟨fun t c ht => ?_, fun t u c ht hu => ?_⟩
  · rcases hold t c ht with ⟨-, hc⟩ | ⟨-, hc⟩ <;> omega
  · rcases hold t c ht with ⟨ht, hc⟩ | ⟨ht, hc⟩
    · rcases hold u c hu with ⟨hu, -⟩ | ⟨-, hc'⟩
      · rw [ht, hu]
      · omega
    · rcases hold u c hu with ⟨-, hc'⟩ | ⟨hu, -⟩
      · omega
      · exact h.one t u c ht hu

theorem CancelAsked.lt {t : Nat} (h : l.CancelAsked t) : t < l.tasks.size := by
  obtain ⟨task, ht, -⟩ := h
  exact Table.lt_size_of_get? ht

theorem CancelAsked.newTask {t : Nat} (h : l.CancelAsked t) (fs : List φ) :
    (l.newTask fs).2.CancelAsked t := by
  obtain ⟨task, ht, hask⟩ := h
  refine ⟨task, ?_, hask⟩
  simp only [Loop.newTask, Table.get?_push]
  rw [if_neg (Nat.ne_of_lt (Table.lt_size_of_get? ht)), ht]

/-- A task may be changed, but for that it is to be cancelled. -/
theorem CancelAsked.modify {t u : Nat} (h : l.CancelAsked u) {f : Task φ → Task φ}
    (hf : u = t → ∀ task, task.cancelAsked = true → (f task).cancelAsked = true) :
    ({ l with tasks := l.tasks.modify t f } : Loop ν ε φ).CancelAsked u := by
  obtain ⟨task, hu, hask⟩ := h
  by_cases htu : t = u
  · refine ⟨f task, ?_, hf htu.symm task hask⟩
    simp [Table.get?_modify, htu, hu]
  · refine ⟨task, ?_, hask⟩
    simp [Table.get?_modify, htu, hu]

end GhciHost.Loop
