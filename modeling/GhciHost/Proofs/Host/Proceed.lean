import GhciHost.Proofs.Host.Guard
import GhciHost.Proofs.Host.Orderly

/-!
# How the task that runs goes on

When the top frame of a task has gone on, the task's stack is what the frame left it, and the task
runs on or waits.  Other tasks are left alone, and no cell is answered.

* `stack?_proceed`, `waiting_proceed`   what the tasks have to do and wait for then;
* `proceed_cases`   the task runs on, or it waits for a cell that is not done;
* `lasts_proceed`, `pending_proceed`   nothing is put off, and a task that waits will be woken;
* `Sound.proceed`   it can be woken once;
* `Handed.proceed`   no cell is handed on but by requests that are to be submitted again.
-/

namespace GhciHost

namespace Loop

variable {ν ε φ : Type} {l : Loop ν ε φ} {P : List φ → Prop}

/-! ## Waiting -/

theorem stack?_await (l : Loop ν ε φ) (t c u : Nat) : (l.await t c).stack? u = l.stack? u := by
  unfold await
  rw [stack?, tasks_hook]
  exact stack?_modify l t u _ fun _ => rfl

theorem answered_await {t c d : Nat} : (l.await t c).Answered d ↔ l.Answered d := by
  unfold await Answered
  simp only [outcome?_hook]
  rfl

theorem holds_await {t c d : Nat} (h : (l.await t c).Holds d) : l.Holds d := by
  have hd := (holds_hook h).resolve_right fun e => by cases e
  exact hd.of_eq rfl (fun _ => rfl) rfl

theorem Answered.cancelWithin {d : Nat} (h : l.Answered d) (fuel c : Nat) :
    (l.cancelWithin fuel c).2.Answered d := by
  rcases cancelWithin_eq l fuel c with ⟨i, cell, -, -, e⟩ | ⟨t, e⟩ | e
  · rw [e]
    exact h.finish i .cancelled
  · rw [e]
    exact h
  · rwa [e]

/-- What is left alone when a task begins to wait, whether it is cancelled or not. -/
theorem suspend_spec (l : Loop ν ε φ) (t c : Nat) :
    (l.suspend t c).running = none ∧ (∀ u, (l.suspend t c).stack? u = l.stack? u) ∧
      (∀ u, (l.suspend t c).waiting u = if u = t ∧ t < l.tasks.size then some c else l.waiting u) ∧
      (∀ d, (l.suspend t c).Answered d ↔ l.Answered d) ∧
      (∀ d, (l.suspend t c).Holds d → l.Holds d) ∧
      (l.suspend t c).cells.size = l.cells.size := by
  have hrun : (l.await t c).running = none := by simp [await]
  have hsize : (l.await t c).cells.size = l.cells.size := by simp [await]
  have hg (fuel : Nat) := Grows.cancelWithin (P := fun _ => False) (l.await t c) fuel c
  have hcancel (fuel : Nat) :
      ((l.await t c).cancelWithin fuel c).2.running = none ∧
      (∀ u, ((l.await t c).cancelWithin fuel c).2.stack? u = l.stack? u) ∧
      (∀ u, ((l.await t c).cancelWithin fuel c).2.waiting u =
        if u = t ∧ t < l.tasks.size then some c else l.waiting u) ∧
      (∀ d, ((l.await t c).cancelWithin fuel c).2.Answered d ↔ l.Answered d) ∧
      (∀ d, ((l.await t c).cancelWithin fuel c).2.Holds d → l.Holds d) ∧
      ((l.await t c).cancelWithin fuel c).2.cells.size = l.cells.size := by
    refine ⟨(hg fuel).running.trans hrun, fun u => ?_, fun u => ?_, fun d => ?_, fun d hd => ?_, ?_⟩
    · cases hu : l.stack? u with
      | some fs => exact (hg fuel).stack u fs ((stack?_await l t c u).trans hu)
      | none =>
        cases hv : ((l.await t c).cancelWithin fuel c).2.stack? u with
        | none => rfl
        | some fs =>
          rcases (hg fuel).fresh u fs hv with hv | hv
          · rw [stack?_await, hu] at hv
            cases hv
          · cases hv
    · rw [(hg fuel).waiting, waiting_await]
    · exact ⟨fun hd => answered_await.1 (answered_cancelWithin hd),
        fun hd => (answered_await.2 hd).cancelWithin fuel c⟩
    · exact holds_await (holds_cancelWithin hd)
    · rw [size_cells_cancelWithin, hsize]
  rcases suspend_eq l t c with e | ⟨fuel, e⟩ | ⟨fuel, e⟩
  · rw [e]
    exact ⟨hrun, stack?_await l t c, waiting_await l t c, fun d => answered_await,
      fun d => holds_await, hsize⟩
  · rw [e]
    exact hcancel fuel
  · obtain ⟨h₁, h₂, h₃, h₄, h₅, h₆⟩ := hcancel fuel
    rw [e]
    refine ⟨h₁, fun u => ?_, fun u => ?_, h₄, fun d hd => h₅ d ?_, h₆⟩
    · refine (stack?_modify _ t u _ ?_).trans (h₂ u)
      exact fun _ => rfl
    · refine (waiting_modify _ t u _ ?_).trans (h₃ u)
      exact fun _ => rfl
    · exact hd.of_eq rfl (fun _ => rfl) rfl

theorem stack?_setStack {t : Nat} {fs : List φ} (gs : List φ) (u : Nat)
    (hfs : l.stack? t = some fs) :
    (l.setStack t gs).stack? u = if u = t then some gs else l.stack? u := by
  obtain ⟨task, ht, -⟩ := Option.map_eq_some_iff.1 hfs
  simp only [setStack, stack?, Table.get?_modify]
  by_cases hu : t = u
  · subst hu
    simp [ht]
  · simp [hu, Ne.symm hu]

theorem holds_setStack (fs : List φ) {t d : Nat} (h : (l.setStack t fs).Holds d) : l.Holds d :=
  h.of_eq rfl (fun _ => rfl) rfl

/-! ## What lasts -/

theorem Lasts.await (l : Loop ν ε φ) (t c : Nat) : Lasts l (l.await t c) := by
  have hset : Lasts l { l with
      tasks := l.tasks.modify t fun task => { task with waitingOn := some c }
      running := none } := .of_eq rfl rfl
  exact hset.trans (.hook _ c (.wake t))

theorem Lasts.cancelWithin (l : Loop ν ε φ) (fuel c : Nat) : Lasts l (l.cancelWithin fuel c).2 :=
  (Grows.cancelWithin (P := fun _ => False) l fuel c).lasts

/-- A task waits for the cell. -/
theorem pending_await {t c : Nat} (hc : c < l.cells.size) : (l.await t c).Pending c (.wake t) :=
  pending_hook _ hc

/-- Nothing is put off by a wait, and the task that waits will be woken. -/
theorem suspend_lasts (l : Loop ν ε φ) (t c : Nat) : Lasts l (l.suspend t c) ∧
    (c < l.cells.size → (l.suspend t c).Pending c (.wake t)) := by
  have hw := Lasts.await l t c
  rcases suspend_eq l t c with e | ⟨fuel, e⟩ | ⟨fuel, e⟩
  · rw [e]
    exact ⟨hw, pending_await⟩
  · rw [e]
    have hk := Lasts.cancelWithin (l.await t c) fuel c
    exact ⟨hw.trans hk, fun hc => hk.pending _ _ (pending_await hc)⟩
  · rw [e]
    have hk : Lasts (l.await t c) { ((l.await t c).cancelWithin fuel c).2 with
        tasks := ((l.await t c).cancelWithin fuel c).2.tasks.modify t
          fun task => { task with cancelAsked := false } } :=
      (Lasts.cancelWithin (l.await t c) fuel c).trans (.of_eq rfl rfl)
    exact ⟨hw.trans hk, fun hc => hk.pending _ _ (pending_await hc)⟩

/-- A wait leaves the cells of tasks' ends alone, and whether other tasks are to be cancelled. -/
theorem suspend_tasks (l : Loop ν ε φ) (t c u : Nat) :
    (l.suspend t c).result? u = l.result? u ∧
      (u ≠ t → l.CancelAsked u → (l.suspend t c).CancelAsked u) := by
  have hresult : (l.await t c).result? u = l.result? u := by
    unfold Loop.await
    rw [result?, tasks_hook]
    exact result?_modify l t u _ fun _ => rfl
  have hasked (h : l.CancelAsked u) : (l.await t c).CancelAsked u := by
    unfold Loop.await CancelAsked
    rw [tasks_hook]
    exact h.modify fun _ _ _ => ‹_›
  have hcancel (fuel : Nat) : ((l.await t c).cancelWithin fuel c).2.result? u = l.result? u := by
    rw [← hresult]
    rcases cancelWithin_eq (l.await t c) fuel c with ⟨d, cell, -, -, e⟩ | ⟨v, e⟩ | e <;> rw [e]
    · rw [result?, tasks_finish]
      rfl
    · exact result?_askCancel ..
  have hkeep (fuel : Nat) (h : l.CancelAsked u) :
      ((l.await t c).cancelWithin fuel c).2.CancelAsked u :=
    (Grows.cancelWithin (P := fun _ => False) (l.await t c) fuel c).asked u (hasked h)
  rcases suspend_eq l t c with e | ⟨fuel, e⟩ | ⟨fuel, e⟩
  · rw [e]
    exact ⟨hresult, fun _ => hasked⟩
  · rw [e]
    exact ⟨hcancel fuel, fun _ => hkeep fuel⟩
  · rw [e]
    refine ⟨(result?_modify _ t u _ ?_).trans (hcancel fuel), fun hut h => ?_⟩
    · exact fun _ => rfl
    · exact (hkeep fuel h).modify fun e => absurd e hut

end Loop

namespace Host

open Loop

variable {l : Loop Value Failure Frame} {t : Nat} {e : Ending} {f : Frame} {below : List Frame}

/-- What is known of a loop in which a frame is about to go on. -/
structure Running (l : Loop Value Failure Frame) (t : Nat) (e : Ending) (f : Frame)
    (below : List Frame) : Prop where
  sound : l.Sound
  running : l.running = some (t, e)
  stack : l.stack? t = some (f :: below)

theorem Running.lt (h : Running l t e f below) : t < l.tasks.size := stack?_lt h.stack

theorem Running.waiting (h : Running l t e f below) : l.waiting t = none :=
  (h.sound.running t e h.running).2.1

/-- The task runs on with an ending, or waits for a cell that is not done. -/
theorem proceed_cases (h : Running l t e f below) (next : Next) :
    (∃ e', (proceed t below next l).running = some (t, e') ∧
        (proceed t below next l).waiting t = none ∧
        (next = .go next.push e' ∨ ∃ c, next = .wait next.push c ∧ l.outcome? c = some e')) ∨
      ∃ c, next = .wait next.push c ∧ l.outcome? c = none ∧
        (proceed t below next l).running = none ∧
        (proceed t below next l).waiting t = some c := by
  have hset (fs : List Frame) : (l.setStack t fs).waiting t = none := by
    rw [waiting_setStack, h.waiting]
  cases next with
  | go push e' => exact .inl ⟨e', rfl, hset _, .inl rfl⟩
  | wait push c =>
    have hout : (l.setStack t (push ++ below)).outcome? c = l.outcome? c := rfl
    simp only [proceed, hout]
    cases ho : l.outcome? c with
    | some e' => exact .inl ⟨e', rfl, hset _, .inr ⟨c, rfl, ho⟩⟩
    | none =>
      refine .inr ⟨c, rfl, ho, (suspend_spec ..).1, ?_⟩
      rw [(suspend_spec ..).2.2.1, if_pos]
      exact ⟨rfl, by simpa [setStack] using h.lt⟩

theorem stack?_proceed (h : Running l t e f below) (next : Next) (u : Nat) :
    (proceed t below next l).stack? u =
      if u = t then some (next.push ++ below) else l.stack? u := by
  cases next with
  | go push e' => exact stack?_setStack _ u h.stack
  | wait push c =>
    simp only [proceed]
    split
    · exact stack?_setStack _ u h.stack
    · rw [(suspend_spec ..).2.1]
      exact stack?_setStack _ u h.stack

theorem waiting_proceed (next : Next) {u : Nat} (hu : u ≠ t) :
    (proceed t below next l).waiting u = l.waiting u := by
  have hset (fs : List Frame) : (l.setStack t fs).waiting u = l.waiting u := waiting_setStack ..
  cases next with
  | go push e' => exact hset _
  | wait push c =>
    simp only [proceed]
    split
    · exact hset _
    · rw [(suspend_spec ..).2.2.1, if_neg fun h => hu h.1]
      exact hset _

theorem answered_proceed (next : Next) (d : Nat) :
    (proceed t below next l).Answered d ↔ l.Answered d := by
  cases next with
  | go push e' => exact Iff.rfl
  | wait push c =>
    simp only [proceed]
    split
    · exact Iff.rfl
    · rw [(suspend_spec ..).2.2.2.1]
      exact Iff.rfl

theorem holds_proceed (next : Next) {d : Nat} (h : (proceed t below next l).Holds d) : l.Holds d := by
  have hgo (fs : List Frame) (r : Option (Nat × Ending)) {d : Nat}
      (h : ({ l.setStack t fs with running := r } : Loop Value Failure Frame).Holds d) : l.Holds d := by
    exact h.of_eq rfl (fun _ => rfl) rfl
  cases next with
  | go push e' => exact hgo _ _ h
  | wait push c =>
    simp only [proceed] at h
    split at h
    · exact hgo _ _ h
    · exact holds_setStack _ ((suspend_spec ..).2.2.2.2.1 d h)

theorem size_cells_proceed (next : Next) : (proceed t below next l).cells.size = l.cells.size := by
  cases next with
  | go push e' => rfl
  | wait push c =>
    simp only [proceed]
    split
    · rfl
    · exact (suspend_spec ..).2.2.2.2.2

/-- Nothing is put off when a task goes on or waits. -/
theorem lasts_proceed (next : Next) : Lasts l (proceed t below next l) := by
  cases next with
  | go push e' => exact .of_eq rfl rfl
  | wait push c =>
    have hset : Lasts l (l.setStack t (push ++ below)) := .of_eq rfl rfl
    simp only [proceed]
    split
    · exact .of_eq rfl rfl
    · exact hset.trans (suspend_lasts ..).1

/-- A task that waits for a cell that there is will be woken. -/
theorem pending_proceed {push : List Frame} {c : Nat} (hc : c < l.cells.size)
    (ho : l.outcome? c = none) :
    (proceed t below (.wait push c) l).Pending c (.wake t) := by
  have hout : (l.setStack t (push ++ below)).outcome? c = none := ho
  simp only [proceed, hout]
  exact (suspend_lasts ..).2 hc

theorem result?_proceed (next : Next) (u : Nat) :
    (proceed t below next l).result? u = l.result? u := by
  have hset (fs : List Frame) : (l.setStack t fs).result? u = l.result? u :=
    result?_modify l t u _ fun _ => rfl
  cases next with
  | go push e' => exact hset _
  | wait push c =>
    simp only [proceed]
    split
    · exact hset _
    · exact (suspend_tasks ..).1.trans (hset _)

theorem asked_proceed (next : Next) {u : Nat} (hu : u ≠ t) (h : l.CancelAsked u) :
    (proceed t below next l).CancelAsked u := by
  have hset (fs : List Frame) : (l.setStack t fs).CancelAsked u := h.modify fun _ _ h => h
  cases next with
  | go push e' => exact hset _
  | wait push c =>
    simp only [proceed]
    split
    · exact hset _
    · exact (suspend_tasks ..).2 hu (hset _)

theorem Sound.proceed (h : Running l t e f below) (next : Next) :
    (Host.proceed t below next l).Sound := by
  have hset (fs : List Frame) : (l.setStack t fs).Sound := h.sound.setStack t fs
  have hrun (fs : List Frame) : (l.setStack t fs).running = some (t, e) := h.running
  cases next with
  | go push e' => exact (hset _).goOn (hrun _) e'
  | wait push c =>
    simp only [Host.proceed]
    split
    · exact (hset _).goOn (hrun _) _
    · exact (hset _).suspend (hrun _)

/-- The task comes to hold cells by the frames that it goes on with. -/
theorem Handed.proceed {W : Leave} {v : View} (h : Running v.loop t e f below) (next : Next)
    (hpush : ∀ g ∈ next.push, ∀ s rs, g.replay? = some (s, rs) → ∀ r ∈ rs, ∀ c,
      r.waiter = some c → W.hold (.replay s) c) :
    Handed W v { v with loop := Host.proceed t below next v.loop } where
  size_le := Nat.le_of_eq (size_cells_proceed next).symm
  holds p c hc := by
    refine .inl ?_
    cases hc with
    | queue hr hc => exact ⟨_, Place.flows_refl _, .inl (.queue hr hc)⟩
    | replay ht hf hs hr hc =>
      rw [stack?_proceed h] at ht
      split at ht
      · cases ht
        rcases List.mem_append.1 hf with hf | hf
        · exact ⟨_, Place.flows_refl _, .inr (hpush _ hf _ _ hs _ hr _ hc)⟩
        · exact ⟨_, Place.flows_refl _,
            .inl (.replay h.stack (List.mem_cons_of_mem _ hf) hs hr hc)⟩
      · exact ⟨_, Place.flows_refl _, .inl (.replay ht hf hs hr hc)⟩
    | query hx hc => exact ⟨_, Place.flows_refl _, .inl (.query hx hc)⟩
    | ready hc => exact ⟨_, Place.flows_refl _, .inl (.ready hc)⟩
    | reader hc => exact ⟨_, Place.flows_refl _, .inl (.reader hc)⟩
    | exit hc => exact ⟨_, Place.flows_refl _, .inl (.exit hc)⟩
    | task hc => exact ⟨_, Place.flows_refl _, .inl (.task ((result?_proceed next _).symm.trans hc))⟩
    | loop hc => exact ⟨_, Place.flows_refl _, .inl (.loop (holds_proceed next hc))⟩
  answered c hc := .inl ((answered_proceed next c).1 hc)

end Host

end GhciHost
