import GhciHost.Proofs.Host.Proceed

/-!
# The ends of tasks are not cancelled

A cell that tells of the end of a task is owned by it.  Whoever cancels such a cell asks the task to
come to an end, and the cell is done only then: no operation but the end of its task cancels it.

* `Owned`   each task owns the cell of its end, and no other;
* `Spares.finish` … `Spares.resume`   one lemma for each operation;
* `Spares.endTask`   the end of a task is about its own cell.
-/

namespace GhciHost

namespace Loop

variable {ν ε φ : Type} {l l' l'' : Loop ν ε φ} {who : Option Nat}

/-- The task whose end a cell tells of. -/
def owner? (l : Loop ν ε φ) (c : Nat) : Option Nat := (l.cells.get? c).bind (·.owner)

/-- Each task owns the cell of its end, and no other. -/
def Owned (l : Loop ν ε φ) : Prop := ∀ t c, l.result? t = some c ↔ l.owner? c = some t

/-- No cell is cancelled that tells of the end of a task, but perhaps that of one task. -/
structure Spares (who : Option Nat) (l l' : Loop ν ε φ) : Prop where
  owner : ∀ c t, l.owner? c = some t → l'.owner? c = some t
  result : ∀ t c, l.result? t = some c → l'.result? t = some c
  results : ∀ t c, l'.result? t = some c → l.result? t = some c ∨ l'.owner? c = some t
  owns : ∀ c t, l'.owner? c = some t → l.owner? c = some t ∨ l'.result? t = some c
  cancelled : ∀ c t, who ≠ some t → l.owner? c = some t → l'.outcome? c = some .cancelled →
    l.outcome? c = some .cancelled

theorem owner?_modify (l : Loop ν ε φ) (c d : Nat) (f : Cell ν ε → Cell ν ε)
    (hf : ∀ cell, (f cell).owner = cell.owner) :
    ({ l with cells := l.cells.modify c f } : Loop ν ε φ).owner? d = l.owner? d := by
  simp only [owner?, Table.get?_modify]
  split
  · cases l.cells.get? d with
    | none => rfl
    | some cell => exact hf cell
  · rfl

theorem owner?_finish (l : Loop ν ε φ) (c d : Nat) (o : Outcome ν ε) :
    (l.finish c o).owner? d = l.owner? d := by
  rcases finish_eq l c o with e | ⟨cell, -, -, e⟩ <;> rw [e]
  exact owner?_modify l c d _ fun _ => rfl

theorem owner?_hook (l : Loop ν ε φ) (c d : Nat) (k : Hook) :
    (l.hook c k).owner? d = l.owner? d := by
  rcases hook_eq l c k with e | e <;> rw [e]
  · rfl
  · exact owner?_modify l c d _ fun _ => rfl

theorem owner?_newCell (l : Loop ν ε φ) (c : Nat) : l.newCell.2.owner? c = l.owner? c := by
  simp only [owner?, Loop.newCell, Table.get?_push]
  split
  · next e => rw [e, Table.get?_eq_none (Nat.le_refl _)]; rfl
  · rfl

theorem owner?_newTask (l : Loop ν ε φ) (fs : List φ) (c : Nat) :
    (l.newTask fs).2.owner? c = if c = l.cells.size then some l.tasks.size else l.owner? c := by
  simp only [owner?, Loop.newTask, Table.get?_push]
  split <;> rfl

/-- Who finishes a cell cancels at most this one. -/
theorem cancelled_of_finish {c d : Nat} {o : Outcome ν ε}
    (h : (l.finish c o).outcome? d = some .cancelled) :
    l.outcome? d = some .cancelled ∨ d = c ∧ o = .cancelled := by
  rw [outcome?_finish] at h
  split at h
  · next hdc =>
    obtain ⟨rfl, -⟩ := hdc
    cases hold : l.outcome? d with
    | none =>
      rw [hold] at h
      exact .inr ⟨rfl, Option.some.inj h⟩
    | some x =>
      rw [hold] at h
      exact .inl h
  · exact .inl h

/-- A cell that there was has the owner that it had. -/
theorem owner?_push {cell : Cell ν ε} {c t : Nat} (h : l.owner? c = some t) :
    ((l.cells.push cell).get? c).bind (·.owner) = some t := by
  obtain ⟨cell', hc, ht⟩ := Option.bind_eq_some_iff.1 h
  rw [Table.get?_push, if_neg (Nat.ne_of_lt (Table.lt_size_of_get? hc)), hc]
  exact ht

theorem Owned.spares (ho : l.Owned) (hs : Spares who l l') : l'.Owned := fun t c =>
  ⟨fun ht => (hs.results t c ht).elim (fun ht => hs.owner c t ((ho t c).1 ht)) id,
    fun hc => (hs.owns c t hc).elim (fun hc => hs.result t c ((ho t c).2 hc)) id⟩

namespace Spares

theorem refl (l : Loop ν ε φ) : Spares who l l :=
  ⟨fun _ _ h => h, fun _ _ h => h, fun _ _ h => .inl h, fun _ _ h => .inl h, fun _ _ _ _ h => h⟩

theorem trans (h : Spares who l l') (k : Spares who l' l'') : Spares who l l'' where
  owner c t hc := k.owner c t (h.owner c t hc)
  result t c ht := k.result t c (h.result t c ht)
  results t c ht := by
    rcases k.results t c ht with ht | ht
    · exact (h.results t c ht).imp_right (k.owner c t)
    · exact .inr ht
  owns c t hc := by
    rcases k.owns c t hc with hc | hc
    · exact (h.owns c t hc).imp_right (k.result t c)
    · exact .inr hc
  cancelled c t hw hc hd := h.cancelled c t hw hc (k.cancelled c t hw (h.owner c t hc) hd)

/-- Whoever spares all cells spares those of all tasks but one. -/
theorem mono (h : Spares none l l') : Spares who l l' :=
  ⟨h.owner, h.result, h.results, h.owns, fun c t _ => h.cancelled c t nofun⟩

/-- Cells and the ends of tasks are as they were. -/
theorem of_eq (hcells : l'.cells = l.cells) (hresult : ∀ t, l'.result? t = l.result? t) :
    Spares who l l' where
  owner c t hc := by rwa [owner?, hcells]
  result t c ht := (hresult t).trans ht
  results t c ht := .inl (by rwa [hresult] at ht)
  owns c t hc := .inl (by rwa [owner?, hcells] at hc)
  cancelled c t _ _ hd := by rwa [outcome?, hcells] at hd

/-- A cell is finished, otherwise than by a cancellation if it tells of the end of a task. -/
theorem finish (l : Loop ν ε φ) {c : Nat} {o : Outcome ν ε}
    (ho : ∀ t, who ≠ some t → l.owner? c = some t → o ≠ .cancelled) :
    Spares who l (l.finish c o) where
  owner d t hd := (owner?_finish l c d o).trans hd
  result t d ht := by rwa [result?, tasks_finish]
  results t d ht := .inl (by rwa [result?, tasks_finish] at ht)
  owns d t hd := .inl ((owner?_finish l c d o).symm.trans hd)
  cancelled d t hw hd hdone := (cancelled_of_finish hdone).resolve_right fun ⟨e, hcancel⟩ =>
    ho t hw (e ▸ hd) hcancel

theorem hook (l : Loop ν ε φ) (c : Nat) (k : Hook) : Spares who l (l.hook c k) where
  owner d t hd := (owner?_hook l c d k).trans hd
  result t d ht := by rwa [result?, tasks_hook]
  results t d ht := .inl (by rwa [result?, tasks_hook] at ht)
  owns d t hd := .inl ((owner?_hook l c d k).symm.trans hd)
  cancelled d t _ _ hd := by rwa [outcome?_hook] at hd

theorem newCell (l : Loop ν ε φ) : Spares who l l.newCell.2 where
  owner c t hc := (owner?_newCell l c).trans hc
  result _ _ ht := ht
  results _ _ ht := .inl ht
  owns c t hc := .inl ((owner?_newCell l c).symm.trans hc)
  cancelled c _ _ _ hd := by rwa [outcome?_newCell_snd] at hd

theorem newTask (l : Loop ν ε φ) (fs : List φ) : Spares who l (l.newTask fs).2 where
  owner _ _ hc := owner?_push hc
  result t c ht := by
    rw [result?_newTask, if_neg, ht]
    rintro rfl
    obtain ⟨task, htask, -⟩ := Option.map_eq_some_iff.1 ht
    exact absurd (Table.lt_size_of_get? htask) (Nat.lt_irrefl _)
  results t c ht := by
    rw [result?_newTask] at ht
    split at ht
    · next htask =>
      cases ht
      exact .inr (by rw [owner?_newTask, if_pos rfl, htask])
    · exact .inl ht
  owns c t hc := by
    rw [owner?_newTask] at hc
    split at hc
    · next hcell =>
      cases hc
      refine .inr ?_
      rw [result?_newTask, if_pos rfl, hcell]
    · exact .inl hc
  cancelled c _ _ _ hd := by rwa [outcome?_newTask] at hd

theorem askCancel (l : Loop ν ε φ) (t : Nat) : Spares who l (l.askCancel t) :=
  of_eq rfl fun u => result?_askCancel l t u

theorem cancelWithin (l : Loop ν ε φ) (fuel c : Nat) :
    Spares who l (l.cancelWithin fuel c).2 := by
  rcases cancelWithin_eq l fuel c with ⟨d, cell, hd, hno, e⟩ | ⟨t, e⟩ | e <;> rw [e]
  · refine finish l fun t _ ht => ?_
    rw [owner?, hd] at ht
    cases hno.symm.trans ht
  · exact askCancel l t
  · exact refl l

theorem await (l : Loop ν ε φ) (t c : Nat) : Spares who l (l.await t c) := by
  have hset : Spares who l { l with
      tasks := l.tasks.modify t fun task => { task with waitingOn := some c }
      running := none } := of_eq rfl fun u => result?_modify l t u _ fun _ => rfl
  exact hset.trans (hook _ c (.wake t))

theorem suspend (l : Loop ν ε φ) (t c : Nat) : Spares who l (l.suspend t c) := by
  have hw : Spares who l (l.await t c) := await l t c
  rcases suspend_eq l t c with e | ⟨fuel, e⟩ | ⟨fuel, e⟩ <;> rw [e]
  · exact hw
  · exact hw.trans (cancelWithin _ fuel c)
  · refine (hw.trans (cancelWithin _ fuel c)).trans (of_eq rfl fun u => result?_modify _ t u _ ?_)
    exact fun _ => rfl

theorem resume (l : Loop ν ε φ) (t : Nat) (o : Outcome ν ε) : Spares who l (l.resume t o) := by
  unfold Loop.resume
  split
  · exact refl l
  · exact of_eq rfl fun u => result?_modify l t u _ fun _ => rfl

/-- The end of a task is told by its own cell. -/
theorem endTask (ho : l.Owned) (t : Nat) (o : Outcome ν ε) :
    Spares (some t) l (l.endTask t o) := by
  have hrest : Spares (some t) l { l with running := none } := of_eq rfl fun _ => rfl
  unfold Loop.endTask
  dsimp only
  split
  · exact hrest
  · next task htask =>
    have hown : l.owner? task.result = some t := (ho t _).1 (by rw [result?, htask]; rfl)
    exact hrest.trans (finish _ fun u hu howner => absurd (hown.symm.trans howner) hu)

end Spares

end Loop

namespace Host

open Loop

/-- The task that runs goes on or waits. -/
theorem spares_proceed {who : Option Nat} (t : Nat) (below : List Frame) (next : Next)
    (l : Loop Value Failure Frame) : Spares who l (proceed t below next l) := by
  have hset (fs : List Frame) (running : Option (Nat × Ending)) :
      Spares who l { l.setStack t fs with running } :=
    .of_eq rfl fun u => result?_modify l t u _ fun _ => rfl
  cases next with
  | go push e => exact hset _ _
  | wait push c =>
    simp only [proceed]
    split
    · exact hset _ _
    · exact (hset (push ++ below) l.running).trans (.suspend _ t c)

end Host

end GhciHost
