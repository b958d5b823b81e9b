import GhciHost.Proofs.Host.Proceed

/-!
# Who is told that a cell is done

A listener hangs a hook on a cell, and is told by a job when the cell is done.  As long as nobody
begins to listen the loop is `Hushed`: whoever is told listened before, and was told by a cell that
is done.  The same is so of those who are woken.

* `Hushed.finish` … `Hushed.suspend`   one lemma for each operation;
* `Hushed.drop`   a job begins;
* `hushed_proceed`   the task that runs goes on or waits.
-/

namespace GhciHost

namespace Loop

variable {ν ε φ : Type} {l l' l'' : Loop ν ε φ}

/-- Nobody begins to listen.  Who is told is told by a cell that is done, and so is who is woken. -/
structure Hushed (l l' : Loop ν ε φ) : Prop where
  size_le : l.cells.size ≤ l'.cells.size
  done : ∀ c, l.isDone c = true → l'.isDone c = true
  woken : ∀ t c, .wake t c ∈ l'.jobs → .wake t c ∈ l.jobs ∨ l'.isDone c = true
  hooked : ∀ c q, .notify q ∈ l'.hooks c → .notify q ∈ l.hooks c
  told : ∀ q, .notify q ∈ l'.jobs →
    .notify q ∈ l.jobs ∨ ∃ c, .notify q ∈ l.hooks c ∧ l'.isDone c = true

namespace Hushed

theorem refl (l : Loop ν ε φ) : Hushed l l :=
  ⟨Nat.le_refl _, fun _ h => h, fun _ _ h => .inl h, fun _ _ h => h, fun _ h => .inl h⟩

theorem trans (h : Hushed l l') (k : Hushed l' l'') : Hushed l l'' where
  size_le := Nat.le_trans h.size_le k.size_le
  done c hc := k.done c (h.done c hc)
  woken t c hw := (k.woken t c hw).elim (fun hw => (h.woken t c hw).imp_right (k.done c)) .inr
  hooked c q hq := h.hooked c q (k.hooked c q hq)
  told q hq := by
    rcases k.told q hq with hq | ⟨c, hc, hd⟩
    · exact (h.told q hq).imp_right fun ⟨c, hc, hd⟩ => ⟨c, hc, k.done c hd⟩
    · exact .inr ⟨c, h.hooked c q hc, hd⟩

/-- Cells and jobs are as they were, but jobs may be gone. -/
theorem of_eq (hcells : l'.cells = l.cells) (hjobs : ∀ j ∈ l'.jobs, j ∈ l.jobs) : Hushed l l' where
  size_le := Nat.le_of_eq (by rw [hcells])
  done c hc := by rwa [isDone, outcome?, hcells]
  woken t c hw := .inl (hjobs _ hw)
  hooked c q hq := by rwa [hooks, hcells] at hq
  told q hq := .inl (hjobs _ hq)

/-- The next job begins. -/
theorem drop {j : Job} {jobs : List Job} (hjobs : l.jobs = j :: jobs) :
    Hushed l { l with jobs } :=
  of_eq rfl fun j' hj' => by
    rw [hjobs]
    exact List.mem_cons_of_mem _ hj'

/-- Nothing is put off. -/
theorem of_lasts (h : Lasts l l') (hsize : l.cells.size ≤ l'.cells.size)
    (hooked : ∀ c q, .notify q ∈ l'.hooks c → .notify q ∈ l.hooks c)
    (told : ∀ q, .notify q ∈ l'.jobs →
      .notify q ∈ l.jobs ∨ ∃ c, .notify q ∈ l.hooks c ∧ l'.isDone c = true) : Hushed l l' where
  size_le := hsize
  done _ hc := h.isDone hc
  woken := h.woken
  hooked := hooked
  told := told

theorem finish (l : Loop ν ε φ) (c : Nat) (o : Outcome ν ε) : Hushed l (l.finish c o) := by
  rcases finish_eq l c o with e | ⟨cell, hc, -, e⟩
  · rw [e]
    exact refl l
  have hhooks : l.hooks c = cell.hooks := by simp [hooks, hc]
  refine of_lasts (.finish l c o) (Nat.le_of_eq (size_cells_finish l c o).symm)
    (fun d q hq => ?_) fun q hq => ?_
  · rw [e] at hq
    simp only [hooks, Table.get?_modify] at hq
    split at hq
    · next hcd =>
      subst hcd
      rw [hc] at hq
      cases hq
    · exact hq
  · rw [e] at hq
    refine (List.mem_append.1 hq).imp_right fun hq => ⟨c, ?_, ?_⟩
    · obtain ⟨k, hk, hkq⟩ := List.mem_map.1 hq
      cases k with
      | notify q' =>
        cases hkq
        rwa [hhooks]
      | wake t => cases hkq
      | release d => cases hkq
    · rw [Loop.isDone, outcome?_finish_self o (Table.lt_size_of_get? hc)]
      rfl

/-- Whoever hangs a hook on a cell does not listen. -/
theorem hook (l : Loop ν ε φ) (c : Nat) {k : Hook} (hk : ∀ q, k ≠ .notify q) :
    Hushed l (l.hook c k) := by
  refine of_lasts (.hook l c k) (Nat.le_of_eq (size_cells_hook l c k).symm)
    (fun d q hq => ?_) fun q hq => ?_
  · exact (mem_hooks_hook hq).resolve_right fun h => hk q h.2.symm
  · refine .inl ((mem_jobs_hook hq).resolve_right fun e => ?_)
    cases k with
    | notify q' => exact hk q' rfl
    | wake t => cases e
    | release d => cases e

theorem newCell (l : Loop ν ε φ) : Hushed l l.newCell.2 :=
  of_lasts (.newCell l) (by simp [Loop.newCell]) (fun c q hq => by rwa [hooks_newCell] at hq)
    fun _ hq => .inl hq

theorem newTimer (l : Loop ν ε φ) (d : Binary64) : Hushed l (l.newTimer d).2 :=
  (newCell l).trans (of_eq rfl fun _ hj => hj)

theorem newTask (l : Loop ν ε φ) (fs : List φ) : Hushed l (l.newTask fs).2 := by
  refine of_lasts (.newTask l fs) (by simp [Loop.newTask])
    (fun c q hq => by rwa [hooks_newTask] at hq) fun q hq => .inl ?_
  exact (List.mem_append.1 hq).resolve_right fun hq => by cases List.mem_singleton.1 hq

theorem cancelWithin (l : Loop ν ε φ) (fuel c : Nat) : Hushed l (l.cancelWithin fuel c).2 := by
  rcases cancelWithin_eq l fuel c with ⟨d, cell, -, -, e⟩ | ⟨t, e⟩ | e
  · rw [e]
    exact finish l d .cancelled
  · rw [e]
    exact of_eq rfl fun _ hj => hj
  · rw [e]
    exact refl l

theorem foldl_release [Inhabited ν] (l : Loop ν ε φ) (cells : List Nat) :
    Hushed l (cells.foldl (fun l c => l.release c) l) := by
  induction cells generalizing l with
  | nil => exact refl l
  | cons c cells ih => exact (finish l c _).trans (ih _)

theorem foldl_cancel (l : Loop ν ε φ) (cells : List Nat) :
    Hushed l (cells.foldl (fun l c => l.cancel c) l) := by
  induction cells generalizing l with
  | nil => exact refl l
  | cons c cells ih => exact (cancelWithin l _ c).trans (ih _)

theorem await (l : Loop ν ε φ) (t c : Nat) : Hushed l (l.await t c) := by
  have hset : Hushed l { l with
      tasks := l.tasks.modify t fun task => { task with waitingOn := some c }
      running := none } := of_eq rfl fun _ hj => hj
  exact hset.trans (hook _ c fun q e => by cases e)

theorem suspend (l : Loop ν ε φ) (t c : Nat) : Hushed l (l.suspend t c) := by
  have hw := await l t c
  rcases suspend_eq l t c with e | ⟨fuel, e⟩ | ⟨fuel, e⟩
  · rw [e]
    exact hw
  · rw [e]
    exact hw.trans (cancelWithin _ fuel c)
  · rw [e]
    exact (hw.trans (cancelWithin _ fuel c)).trans (of_eq rfl fun _ hj => hj)

theorem resume (l : Loop ν ε φ) (t : Nat) (o : Outcome ν ε) : Hushed l (l.resume t o) := by
  unfold Loop.resume
  split
  · exact refl l
  · exact of_eq rfl fun _ hj => hj

theorem endTask (l : Loop ν ε φ) (t : Nat) (o : Outcome ν ε) : Hushed l (l.endTask t o) := by
  have hrest : Hushed l { l with running := none } := of_eq rfl fun _ hj => hj
  unfold Loop.endTask
  dsimp only
  split
  · exact hrest
  · exact hrest.trans (finish _ _ _)

end Hushed

end Loop

namespace Host

open Loop

/-- The task that runs goes on or waits. -/
theorem hushed_proceed (t : Nat) (below : List Frame) (next : Next)
    (l : Loop Value Failure Frame) : Hushed l (proceed t below next l) := by
  cases next with
  | go push e' => exact .of_eq rfl fun _ hj => hj
  | wait push c =>
    have hset : Hushed l (l.setStack t (push ++ below)) := .of_eq rfl fun _ hj => hj
    simp only [proceed]
    split
    · exact .of_eq rfl fun _ hj => hj
    · exact hset.trans (.suspend _ t c)

end Host

end GhciHost
