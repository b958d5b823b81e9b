import GhciHost.Proofs.Loop.Begun

/-!
# Cells that nobody else knows

A cancellation goes from a cell to the task that owns it, and on to the cell that this task waits
for.  So it does not reach cells and tasks that are `Secluded`: nobody else waits for these cells, and
the cells that these tasks own are among them.  As long as nobody else is told of the cells, whatever
happens `Evades` them.

* `Evades.finish` … `Evades.resume`   one lemma for each operation;
* `Evades.cancelWithin`   who cancels another cell;
* `Evades.suspend`, `Evades.endTask`   what another task does.
-/

namespace GhciHost.Loop

variable {ν ε φ : Type} {l l' l'' : Loop ν ε φ} {D S : Nat → Prop}

/-- Nobody but some tasks waits for some cells, and a task that owns a cell is one of them if and only
    if the cell is. -/
structure Secluded (D S : Nat → Prop) (l : Loop ν ε φ) : Prop where
  old : ∀ c, D c → c < l.cells.size
  begun : ∀ t, S t → t < l.tasks.size
  owner : ∀ c t, l.owner? c = some t → (D c ↔ S t)
  waiting : ∀ t c, l.waiting t = some c → D c → S t

/-- Secluded cells stay so, none of them is cancelled, and none of the tasks is asked to end. -/
structure Evades (D S : Nat → Prop) (l l' : Loop ν ε φ) : Prop where
  secluded : Secluded D S l → Secluded D S l'
  cancelled : Secluded D S l → ∀ c, D c → l'.outcome? c = some .cancelled →
    l.outcome? c = some .cancelled
  asked : Secluded D S l → ∀ t, S t → l'.CancelAsked t → l.CancelAsked t

/-- Nothing is cancelled. -/
structure Forbears (l l' : Loop ν ε φ) : Prop where
  outcome : ∀ c, l'.outcome? c = some .cancelled → l.outcome? c = some .cancelled
  asked : ∀ t, l'.CancelAsked t → l.CancelAsked t

namespace Forbears

theorem refl (l : Loop ν ε φ) : Forbears l l := ⟨fun _ h => h, fun _ h => h⟩

theorem trans (h : Forbears l l') (k : Forbears l' l'') : Forbears l l'' :=
  ⟨fun c hc => h.outcome c (k.outcome c hc), fun t ht => h.asked t (k.asked t ht)⟩

theorem of_eq (hcells : l'.cells = l.cells) (htasks : l'.tasks = l.tasks) : Forbears l l' :=
  ⟨fun c h => by rwa [outcome?, hcells] at h, fun t h => by rwa [CancelAsked, htasks] at h⟩

theorem finish (l : Loop ν ε φ) (c : Nat) {o : Outcome ν ε} (ho : o ≠ .cancelled) :
    Forbears l (l.finish c o) where
  outcome d hd := (cancelled_of_finish hd).resolve_right fun h => ho h.2
  asked t ht := by rwa [CancelAsked, tasks_finish] at ht

theorem hook (l : Loop ν ε φ) (c : Nat) (k : Hook) : Forbears l (l.hook c k) :=
  ⟨fun d hd => by rwa [outcome?_hook] at hd, fun t ht => by rwa [CancelAsked, tasks_hook] at ht⟩

theorem newCell (l : Loop ν ε φ) : Forbears l l.newCell.2 :=
  ⟨fun c hc => by rwa [outcome?_newCell_snd] at hc, fun _ h => h⟩

theorem newTask (l : Loop ν ε φ) (fs : List φ) : Forbears l (l.newTask fs).2 :=
  ⟨fun c hc => by rwa [outcome?_newTask] at hc, fun _ => asked_newTask⟩

end Forbears

/-- Whoever cancels a cell leaves alone who waits for whom. -/
theorem Secluded.cancelWithin (k : Secluded D S l) (fuel c : Nat) :
    Secluded D S (l.cancelWithin fuel c).2 := by
  rcases cancelWithin_eq l fuel c with ⟨d, cell, -, -, e⟩ | ⟨t, e⟩ | e <;> rw [e]
  · refine ⟨fun c hc => ?_, fun t ht => ?_, fun c t hc => ?_, fun t c ht => ?_⟩
    · rw [size_cells_finish]
      exact k.old c hc
    · rw [tasks_finish]
      exact k.begun t ht
    · rw [owner?_finish] at hc
      exact k.owner c t hc
    · rw [Loop.waiting, tasks_finish] at ht
      exact k.waiting t c ht
  · refine ⟨k.old, fun u hu => ?_, k.owner, fun u c hu => ?_⟩
    · exact Nat.lt_of_lt_of_eq (k.begun u hu) (Table.size_modify ..).symm
    · refine k.waiting u c ((waiting_modify l t u (fun task => { task with cancelAsked := true })
        fun _ => rfl).symm.trans hu)
  · exact k

/-- A task that was not cancelled begins to wait. -/
theorem suspend_of_calm {t : Nat} (ht : ¬ l.CancelAsked t) (c : Nat) : l.suspend t c = l.await t c := by
  unfold suspend await
  dsimp only
  rw [tasks_hook]
  dsimp only
  rw [Table.get?_modify, if_pos rfl]
  cases htask : l.tasks.get? t with
  | none => rfl
  | some task =>
    have hask : task.cancelAsked ≠ true := fun e => ht ⟨task, htask, e⟩
    dsimp only [Option.map_some]
    rw [if_neg hask]

namespace Evades

theorem refl (l : Loop ν ε φ) : Evades D S l l :=
  ⟨id, fun _ _ _ h => h, fun _ _ _ h => h⟩

theorem trans (h : Evades D S l l') (k : Evades D S l' l'') : Evades D S l l'' where
  secluded hl := k.secluded (h.secluded hl)
  cancelled hl c hc hd := h.cancelled hl c hc (k.cancelled (h.secluded hl) c hc hd)
  asked hl t ht ha := h.asked hl t ht (k.asked (h.secluded hl) t ht ha)

theorem of_secluded (h : Secluded D S l → Evades D S l l') : Evades D S l l' where
  secluded hl := (h hl).secluded hl
  cancelled hl := (h hl).cancelled hl
  asked hl := (h hl).asked hl

/-- Nobody comes to own a cell or to wait for one. -/
theorem of_owner (hcells : l.cells.size ≤ l'.cells.size) (htasks : l.tasks.size ≤ l'.tasks.size)
    (howner : ∀ c t, l'.owner? c = some t → l.owner? c = some t)
    (hwaiting : ∀ t c, l'.waiting t = some c → l.waiting t = some c)
    (hcancelled : ∀ c, D c → l'.outcome? c = some .cancelled → l.outcome? c = some .cancelled)
    (hasked : ∀ t, S t → l'.CancelAsked t → l.CancelAsked t) : Evades D S l l' where
  secluded hl :=
    { old := fun c hc => Nat.lt_of_lt_of_le (hl.old c hc) hcells
      begun := fun t ht => Nat.lt_of_lt_of_le (hl.begun t ht) htasks
      owner := fun c t h => hl.owner c t (howner c t h)
      waiting := fun t c h => hl.waiting t c (hwaiting t c h) }
  cancelled _ := hcancelled
  asked _ := hasked

/-- Tasks are as they were, and so are cells. -/
theorem of_eq (hcells : l'.cells = l.cells) (htasks : l'.tasks = l.tasks) : Evades D S l l' := by
  refine of_owner (Nat.le_of_eq (by rw [hcells])) (Nat.le_of_eq (by rw [htasks])) ?_ ?_ ?_ ?_
  · exact fun c t h => by rwa [owner?, hcells] at h
  · exact fun t c h => by rwa [Loop.waiting, htasks] at h
  · exact fun c _ => (Forbears.of_eq hcells htasks).outcome c
  · exact fun t _ => (Forbears.of_eq hcells htasks).asked t

/-! ## Cells -/

/-- A cell is finished, otherwise than by a cancellation if it is secluded. -/
theorem finish (l : Loop ν ε φ) {c : Nat} {o : Outcome ν ε} (h : D c → o ≠ .cancelled) :
    Evades D S l (l.finish c o) := by
  refine of_owner (Nat.le_of_eq (size_cells_finish l c o).symm) (Nat.le_of_eq (by rw [tasks_finish]))
    (fun d t hd => (owner?_finish l c d o).symm.trans hd) ?_ (fun d hd hdone => ?_) ?_
  · exact fun t d ht => by rwa [Loop.waiting, tasks_finish] at ht
  · exact (cancelled_of_finish hdone).resolve_right fun hc => h (hc.1 ▸ hd) hc.2
  · exact fun t _ ht => by rwa [CancelAsked, tasks_finish] at ht

theorem hook (l : Loop ν ε φ) (c : Nat) (k : Hook) : Evades D S l (l.hook c k) := by
  refine of_owner (Nat.le_of_eq (size_cells_hook l c k).symm) (Nat.le_of_eq (by rw [tasks_hook]))
    (fun d t hd => (owner?_hook l c d k).symm.trans hd) ?_ ?_ ?_
  · exact fun t d ht => by rwa [Loop.waiting, tasks_hook] at ht
  · exact fun d _ => (Forbears.hook l c k).outcome d
  · exact fun t _ => (Forbears.hook l c k).asked t

theorem newCell (l : Loop ν ε φ) : Evades D S l l.newCell.2 :=
  of_owner (by simp [Loop.newCell]) (Nat.le_refl _) (fun c _ hc => (owner?_newCell l c).symm.trans hc)
    (fun _ _ h => h)
    (fun c _ => (Forbears.newCell l).outcome c) fun _ _ h => h

theorem newTimer (l : Loop ν ε φ) (d : Binary64) : Evades D S l (l.newTimer d).2 :=
  (newCell l).trans (of_eq rfl rfl)

/-- A new task is not one of the tasks, and its end is not told by one of the cells. -/
theorem newTask (l : Loop ν ε φ) (fs : List φ) : Evades D S l (l.newTask fs).2 where
  secluded hl := by
    refine ⟨fun c hc => ?_, fun t ht => ?_, fun c t hc => ?_, fun t c ht => ?_⟩
    · exact Nat.lt_of_lt_of_le (hl.old c hc) (by simp [Loop.newTask])
    · exact Nat.lt_of_lt_of_le (hl.begun t ht) (by simp [Loop.newTask])
    · rw [owner?_newTask] at hc
      split at hc
      · next hcell =>
        cases hc
        refine ⟨fun hd => absurd (hl.old c hd) ?_, fun hs => absurd (hl.begun _ hs) (Nat.lt_irrefl _)⟩
        rw [hcell]
        exact Nat.lt_irrefl _
      · exact hl.owner c t hc
    · rw [waiting_newTask] at ht
      exact hl.waiting t c ht
  cancelled _ c _ hc := by rwa [outcome?_newTask] at hc
  asked hl t ht ha := by
    obtain ⟨task, htask, hask⟩ := ha
    refine ⟨task, ?_, hask⟩
    simp only [Loop.newTask, Table.get?_push] at htask
    rwa [if_neg (Nat.ne_of_lt (hl.begun t ht))] at htask

/-! ## Cancellations -/

/-- A task is changed, and is not asked to end if it is one of the tasks. -/
theorem modify (l : Loop ν ε φ) (t : Nat) {f : Task φ → Task φ}
    (hwaiting : ∀ task c, (f task).waitingOn = some c → task.waitingOn = some c)
    (hasked : ∀ task, S t → (f task).cancelAsked = true → task.cancelAsked = true) :
    Evades D S l { l with tasks := l.tasks.modify t f } := by
  refine of_owner (Nat.le_refl _) (Nat.le_of_eq (Table.size_modify ..).symm) (fun _ _ h => h)
    (fun u c hu => ?_) (fun _ _ h => h) fun u hu ha => ?_
  · simp only [Loop.waiting, Table.get?_modify] at hu ⊢
    split at hu
    · obtain ⟨task, htask, hc⟩ := Option.bind_eq_some_iff.1 hu
      obtain ⟨task', htask', rfl⟩ := Option.map_eq_some_iff.1 htask
      rw [htask']
      exact hwaiting task' c hc
    · exact hu
  · obtain ⟨task, htask, hask⟩ := ha
    simp only [Table.get?_modify] at htask
    split at htask
    · next htu =>
      subst htu
      obtain ⟨task', htask', rfl⟩ := Option.map_eq_some_iff.1 htask
      exact ⟨task', htask', hasked task' hu hask⟩
    · exact ⟨task, htask, hask⟩

theorem askCancel (l : Loop ν ε φ) {t : Nat} (ht : ¬ S t) : Evades D S l (l.askCancel t) :=
  modify l t (fun _ _ h => h) fun _ hs => absurd hs ht

/-- A cancellation that does not begin at one of the cells does not come to one. -/
theorem cancelWithin (l : Loop ν ε φ) (fuel : Nat) {c : Nat} (hc : ¬ D c) :
    Evades D S l (l.cancelWithin fuel c).2 := by
  refine of_secluded fun hl => ?_
  induction fuel generalizing c with
  | zero => exact refl l
  | succ fuel ih =>
    rw [Loop.cancelWithin]
    split
    · exact refl l
    · next cell hcell =>
      split
      · exact refl l
      · split
        · exact finish l fun hd => absurd hd hc
        · next t howner =>
          have howned : l.owner? c = some t := by rw [owner?, hcell]; exact howner
          have ht : ¬ S t := fun hs => hc ((hl.owner c t howned).2 hs)
          split
          · exact askCancel l ht
          · next d hwaiting =>
            have hd : ¬ D d := fun hd => ht (hl.waiting t d hwaiting hd)
            have hrest := ih hd
            split
            · next l₁ e =>
              rw [e] at hrest
              exact hrest
            · next l₁ e =>
              rw [e] at hrest
              exact hrest.trans (askCancel l₁ ht)

/-! ## Tasks -/

/-- A task begins to wait, for one of the cells only if it is one of the tasks. -/
theorem await (l : Loop ν ε φ) {t c : Nat} (hc : D c → S t) : Evades D S l (l.await t c) := by
  have hwaits : Evades D S l { l with
      tasks := l.tasks.modify t fun task => { task with waitingOn := some c }
      running := none } := by
    refine ⟨fun hl => ⟨hl.old, fun u hu => ?_, hl.owner, fun u d hu hd => ?_⟩, fun _ _ _ h => h,
      fun _ u _ ha => ?_⟩
    · exact Nat.lt_of_lt_of_eq (hl.begun u hu) (Table.size_modify ..).symm
    · simp only [Loop.waiting, Table.get?_modify] at hu
      split at hu
      · next htu =>
        obtain ⟨task, htask, hwait⟩ := Option.bind_eq_some_iff.1 hu
        obtain ⟨task', -, rfl⟩ := Option.map_eq_some_iff.1 htask
        cases hwait
        exact htu ▸ hc hd
      · exact hl.waiting u d hu hd
    · obtain ⟨task, htask, hask⟩ := ha
      simp only [Table.get?_modify] at htask
      split at htask
      · obtain ⟨task', htask', rfl⟩ := Option.map_eq_some_iff.1 htask
        exact ⟨task', htask', hask⟩
      · exact ⟨task, htask, hask⟩
  exact hwaits.trans (hook _ c (.wake t))

/-- Another task begins to wait, for another cell. -/
theorem suspend (l : Loop ν ε φ) {t c : Nat} (hc : ¬ D c) :
    Evades D S l (l.suspend t c) := by
  have hawait : Evades D S l (l.await t c) := await l fun hd => absurd hd hc
  rcases suspend_eq l t c with e | ⟨fuel, e⟩ | ⟨fuel, e⟩ <;> rw [e]
  · exact hawait
  · exact hawait.trans (cancelWithin _ fuel hc)
  · exact (hawait.trans (cancelWithin _ fuel hc)).trans
      (modify _ t (fun _ _ h => h) fun _ _ h => by cases h)

theorem resume (l : Loop ν ε φ) (t : Nat) (o : Outcome ν ε) : Evades D S l (l.resume t o) := by
  unfold Loop.resume
  split
  · exact refl l
  · refine Evades.trans (modify l t (f := fun task =>
      { task with waitingOn := none, cancelAsked := false }) ?_ ?_) (of_eq rfl rfl)
    · exact fun _ _ h => by cases h
    · exact fun _ _ h => by cases h

/-- Another task ends. -/
theorem endTask (ho : l.Owned) {t : Nat} (ht : ¬ S t) (o : Outcome ν ε) :
    Evades D S l (l.endTask t o) := by
  refine of_secluded fun hl => ?_
  have hrest : Evades D S l { l with running := none } := of_eq rfl rfl
  unfold Loop.endTask
  dsimp only
  split
  · exact hrest
  · next task htask =>
    have howned : l.owner? task.result = some t := (ho t _).1 (by rw [result?, htask]; rfl)
    exact hrest.trans (finish _ fun hd => absurd ((hl.owner _ t howned).1 hd) ht)

theorem setStack (l : Loop ν ε φ) (t : Nat) (fs : List φ) (running : Option (Nat × Outcome ν ε)) :
    Evades D S l { l.setStack t fs with running } :=
  (modify l t (f := fun task => { task with stack := fs }) (fun _ _ h => h) fun _ _ h => h).trans
    (of_eq rfl rfl)

end Evades

end GhciHost.Loop
