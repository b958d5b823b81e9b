import GhciHost.Proofs.Loop.Growth

/-!
# What happens to the other tasks

Whatever happens on the loop is done by a task, or lets one go on, or is about no task at all.
`Moves who` says what is left alone meanwhile of all tasks but `who`: they keep what they have to do
and what they wait for, and nothing that would let them go on gets lost or is put behind what comes
later.

A cell is `Linked` to another if that one is done at the latest soon after it.

* `Moves.of_grows`   operations of the task that runs;
* `Moves.of_lasts`, `Moves.of_job`   a task goes on or waits, and a job begins;
* `Moves.endTask`, `Moves.release`, `Moves.drop`   operations of the loop.
-/

namespace GhciHost.Loop

variable {ν ε φ : Type} {l l' l'' : Loop ν ε φ} {who : Option Nat} {P : List φ → Prop}

/-- The second cell is done, or will be released after the first. -/
def Linked (l : Loop ν ε φ) (i w : Nat) : Prop :=
  w < l.cells.size ∧ (l.isDone w = true ∨ l.Pending i (.release w))

/-- One job comes before all of another kind. -/
def Before (j k : Job) (jobs : List Job) : Prop := ∃ pre post, jobs = pre ++ j :: post ∧ k ∉ pre

theorem Before.mem {j k : Job} {jobs : List Job} (h : Before j k jobs) : j ∈ jobs := by
  obtain ⟨pre, post, rfl, -⟩ := h
  exact List.mem_append_right _ List.mem_cons_self

theorem Before.mono {j k : Job} {jobs jobs' : List Job} (h : Before j k jobs)
    (hp : jobs <+: jobs') : Before j k jobs' := by
  obtain ⟨pre, post, rfl, hk⟩ := h
  obtain ⟨rest, rfl⟩ := hp
  exact ⟨pre, post ++ rest, by rw [List.append_assoc]; rfl, hk⟩

/-- The next job begins, which is neither of the two. -/
theorem Before.tail {j k j' : Job} {jobs : List Job} (h : Before j k (j' :: jobs)) (hj : j' ≠ j) :
    Before j k jobs := by
  obtain ⟨pre, post, e, hk⟩ := h
  cases pre with
  | nil => exact absurd (List.cons.inj e).1 hj
  | cons j'' pre =>
    obtain ⟨rfl, rfl⟩ := List.cons.inj e
    exact ⟨pre, post, rfl, fun hk' => hk (List.mem_cons_of_mem _ hk')⟩

/-- The first of the two jobs does not come after the other. -/
theorem Before.head_ne {j k j' : Job} {jobs : List Job} (h : Before j k (j' :: jobs)) (hj : j ≠ k) :
    j' ≠ k := by
  obtain ⟨pre, post, e, hk⟩ := h
  cases pre with
  | nil =>
    rw [(List.cons.inj e).1]
    exact hj
  | cons j'' pre =>
    rw [(List.cons.inj e).1]
    rintro rfl
    exact hk List.mem_cons_self

/-- What is left alone of all tasks but one. -/
structure Moves (who : Option Nat) (l l' : Loop ν ε φ) : Prop where
  result : ∀ t c, l.result? t = some c → l'.result? t = some c
  filed : l.Filed → l'.Filed
  stack : ∀ t fs, who ≠ some t → l.stack? t = some fs → l'.stack? t = some fs
  waiting : ∀ t, who ≠ some t → l'.waiting t = l.waiting t
  running : ∀ t o, who ≠ some t → l.running = some (t, o) → l'.running = some (t, o)
  asked : ∀ t, who ≠ some t → l.CancelAsked t → l'.CancelAsked t
  size_le : l.cells.size ≤ l'.cells.size
  outcome : ∀ c o, l.outcome? c = some o → l'.outcome? c = some o
  start : ∀ t, who ≠ some t → .start t ∈ l.jobs → .start t ∈ l'.jobs
  wake : ∀ t c, who ≠ some t → l.Pending c (.wake t) → l'.Pending c (.wake t)
  link : ∀ i w, l.Linked i w → l'.Linked i w
  before : ∀ u k, who ≠ some u → Before (.start u) k l.jobs → Before (.start u) k l'.jobs

namespace Moves

theorem refl (l : Loop ν ε φ) : Moves who l l where
  result _ _ h := h
  filed h := h
  stack _ _ _ h := h
  waiting _ _ := rfl
  running _ _ _ h := h
  asked _ _ h := h
  size_le := Nat.le_refl _
  outcome _ _ h := h
  start _ _ h := h
  wake _ _ _ h := h
  link _ _ h := h
  before _ _ _ h := h

theorem trans (h : Moves who l l') (k : Moves who l' l'') : Moves who l l'' where
  result t c e := k.result t c (h.result t c e)
  filed e := k.filed (h.filed e)
  stack t fs hw e := k.stack t fs hw (h.stack t fs hw e)
  waiting t hw := (k.waiting t hw).trans (h.waiting t hw)
  running t o hw e := k.running t o hw (h.running t o hw e)
  asked t hw e := k.asked t hw (h.asked t hw e)
  size_le := Nat.le_trans h.size_le k.size_le
  outcome c o e := k.outcome c o (h.outcome c o e)
  start t hw e := k.start t hw (h.start t hw e)
  wake t c hw e := k.wake t c hw (h.wake t c hw e)
  link i w e := k.link i w (h.link i w e)
  before u k' hw e := k.before u k' hw (h.before u k' hw e)

/-- What the task that runs does to the loop is about no task that there was. -/
theorem of_grows (h : Grows P l l') : Moves who l l' where
  result := h.result
  filed := h.filed
  stack t fs _ e := h.stack t fs e
  waiting t _ := h.waiting t
  running t o _ e := h.running.trans e
  asked t _ e := h.asked t e
  size_le := h.size_le
  outcome := h.lasts.outcome
  start _ _ e := h.lasts.jobs.subset e
  wake _ c _ e := h.lasts.pending c _ e
  link i w e := by
    obtain ⟨hw, hd | hp⟩ := e
    · exact ⟨Nat.lt_of_lt_of_le hw h.size_le, .inl (h.lasts.isDone hd)⟩
    · exact ⟨Nat.lt_of_lt_of_le hw h.size_le, .inr (h.lasts.pending i _ hp)⟩
  before _ _ _ e := e.mono h.lasts.jobs

theorem finish (l : Loop ν ε φ) (c : Nat) (o : Outcome ν ε) : Moves who l (l.finish c o) :=
  of_grows (.finish (P := fun _ => False) l c o)

/-! ## One task goes on or waits -/

/-- The stacks and waits of all other tasks are as they were. -/
structure Others (who : Option Nat) (l l' : Loop ν ε φ) : Prop where
  size_le : l.cells.size ≤ l'.cells.size
  result : ∀ t, l'.result? t = l.result? t
  stack : ∀ t fs, who ≠ some t → l.stack? t = some fs → l'.stack? t = some fs
  waiting : ∀ t, who ≠ some t → l'.waiting t = l.waiting t
  running : ∀ t o, who ≠ some t → l.running = some (t, o) → l'.running = some (t, o)
  asked : ∀ t, who ≠ some t → l.CancelAsked t → l'.CancelAsked t

/-- No task is changed. -/
theorem Others.of_tasks (hsize : l.cells.size ≤ l'.cells.size)
    (htasks : l'.tasks = l.tasks) (hrun : l'.running = l.running) : Others who l l' where
  size_le := hsize
  result t := by rw [result?, htasks]; rfl
  stack t fs _ e := by rwa [stack?, htasks]
  waiting t _ := by rw [Loop.waiting, htasks]; rfl
  running t o _ e := hrun.trans e
  asked t _ e := by
    unfold CancelAsked
    rw [htasks]
    exact e

/-- Nothing is put off that cells or jobs will do. -/
theorem of_lasts (h : Lasts l l') (ho : Others who l l') : Moves who l l' where
  result t c e := (ho.result t).trans e
  filed hl := hl.congr ho.result ho.size_le
  stack := ho.stack
  waiting := ho.waiting
  running := ho.running
  asked := ho.asked
  size_le := ho.size_le
  outcome := h.outcome
  start _ _ e := h.jobs.subset e
  wake _ c _ e := h.pending c _ e
  link i w e := by
    obtain ⟨hw, hd | hp⟩ := e
    · exact ⟨Nat.lt_of_lt_of_le hw ho.size_le, .inl (h.isDone hd)⟩
    · exact ⟨Nat.lt_of_lt_of_le hw ho.size_le, .inr (h.pending i _ hp)⟩
  before _ _ _ e := e.mono h.jobs

/-- The next job begins.  If it is to release a cell, this cell is done then. -/
theorem of_job {j : Job} {jobs : List Job} (hjobs : l.jobs = j :: jobs)
    (h : Lasts { l with jobs } l') (ho : Others j.task? l l')
    (hrelease : ∀ w, j = .release w → w < l.cells.size → l'.isDone w = true) :
    Moves j.task? l l' where
  result t c e := (ho.result t).trans e
  filed hl := hl.congr ho.result ho.size_le
  stack := ho.stack
  waiting := ho.waiting
  running := ho.running
  asked := ho.asked
  size_le := ho.size_le
  outcome := h.outcome
  start t hw e := by
    rw [hjobs] at e
    refine h.jobs.subset ((List.mem_cons.1 e).resolve_left fun e => hw ?_)
    rw [← e]
    rfl
  wake t c hw e := by
    refine h.pending c _ (e.imp_right fun e => ?_)
    rw [hjobs] at e
    refine (List.mem_cons.1 e).resolve_left fun e => hw ?_
    rw [← e]
    rfl
  link i w e := by
    obtain ⟨hw, hd | hp | hp⟩ := e
    · exact ⟨Nat.lt_of_lt_of_le hw ho.size_le, .inl (h.isDone hd)⟩
    · exact ⟨Nat.lt_of_lt_of_le hw ho.size_le, .inr (h.pending i _ (.inl hp))⟩
    · rw [hjobs] at hp
      refine ⟨Nat.lt_of_lt_of_le hw ho.size_le, ?_⟩
      rcases List.mem_cons.1 hp with e | hp
      · exact .inl (hrelease w e.symm hw)
      · exact .inr (h.pending i _ (.inr hp))
  before u k hw e := by
    rw [hjobs] at e
    refine (e.tail fun e => hw ?_).mono h.jobs
    rw [e]
    rfl

theorem endTask (hrun : l.running.map (·.1) = who) (t : Nat) (o : Outcome ν ε) :
    Moves who l (l.endTask t o) := by
  have hrest : Moves who l { l with running := none } := by
    refine of_lasts (.of_eq rfl rfl) ⟨Nat.le_refl _, fun _ => rfl, fun _ _ _ e => e, fun _ _ => rfl,
      fun u x hu e => ?_, fun _ _ e => e⟩
    rw [← hrun, e] at hu
    exact absurd rfl hu
  unfold Loop.endTask
  dsimp only
  split
  · exact hrest
  · exact hrest.trans (finish _ _ _)

/-- A cell is released whose job is the next. -/
theorem release [Inhabited ν] {w : Nat} {jobs : List Job} (hjobs : l.jobs = .release w :: jobs) :
    Moves none l (({ l with jobs } : Loop ν ε φ).release w) := by
  refine of_job hjobs (.finish _ w _) (.of_tasks ?_ (tasks_finish _ w _) (running_finish _ w _))
    fun w' e hw => ?_
  · exact Nat.le_of_eq (size_cells_finish ({ l with jobs } : Loop ν ε φ) w _).symm
  · cases e
    have hw : w < ({ l with jobs } : Loop ν ε φ).cells.size := hw
    rw [isDone, Loop.release, outcome?_finish_self _ hw]
    rfl

/-- A job is left out that lets nobody go on. -/
theorem drop {q : Nat} {jobs : List Job} (hjobs : l.jobs = .notify q :: jobs) :
    Moves none l { l with jobs } :=
  of_job hjobs (.refl _) (.of_tasks (Nat.le_refl _) rfl rfl) fun w e => by cases e

end Moves

end GhciHost.Loop
