import GhciHost.Proofs.Host.Stacks
import GhciHost.Proofs.Host.Steps
import GhciHost.Proofs.Loop.Growth

/-!
# Who can answer a cell

A cell is answered by whoever holds it: a lane holds the cells of the requests in its queue, a
frame those of the requests that it has to submit again, a query its own, and the rest of the
host those of the parties that wait for a process, for a session or for time to pass.  A task holds
the cell of its end, and answers it when it ends and not before.  `Guarded` says of a step that no
other cell is answered, and that no place comes to hold a cell that it cannot have got from a
holder.  The cells by which callers wait for their turn to start a session
are held nowhere, so only the session itself answers them.

* `View.Holds`   the place holds the cell;
* `Handed`   only what is held is answered and handed on;
* `Handed.private_`   what is held nowhere stays so;
* `Handed.absorb`   what an action may answer besides that, if it is held after all;
* `Guarded`   the same of a step that leaves the stacks of all tasks alone.
-/

namespace GhciHost

/-- Where a cell can be held. -/
inductive Place
  /-- In the queue of a lane. -/
  | lane (l : Nat)
  /-- By a frame that has to submit requests of a session again. -/
  | replay (s : Nat)
  | query
  /-- By a task that ends with it. -/
  | task
  | other
deriving DecidableEq

namespace Place

/-- The lane to which the requests of a place belong. -/
def lane? : Place → Option Nat
  | lane l | replay l => some l
  | _ => none

/-- A request can get from one place to another: from a query to any lane, and between a lane
    and the frames that submit its requests again. -/
def flows (p q : Place) : Prop :=
  p = q ∨ q.lane?.isSome ∧ (p = query ∨ p.lane? = q.lane?)

theorem flows_refl (p : Place) : p.flows p := .inl rfl

theorem flows_trans {p q r : Place} (h : p.flows q) (k : q.flows r) : p.flows r := by
  rcases k with rfl | ⟨hr, k⟩
  · exact h
  · rcases h with rfl | ⟨hq, h⟩
    · exact .inr ⟨hr, k⟩
    · rcases k with rfl | k
      · cases hq
      · exact .inr ⟨hr, k ▸ h⟩

/-- What is held by somebody who is no task was not held by tasks only. -/
theorem ne_task_of_flows {p q : Place} (h : p.flows q) (hq : q ≠ task) : p ≠ task := by
  rintro rfl
  rcases h with rfl | ⟨hq, h | h⟩
  · exact hq rfl
  · cases h
  · rw [← h] at hq
    cases hq

/-- Tasks get nothing from anybody. -/
theorem eq_task_of_flows {p : Place} (h : p.flows task) : p = task := by
  rcases h with rfl | ⟨hq, -⟩
  · rfl
  · cases hq

theorem query_flows (l : Nat) : query.flows (lane l) := .inr ⟨rfl, .inl rfl⟩

theorem replay_flows (s : Nat) : (replay s).flows (lane s) := .inr ⟨rfl, .inr rfl⟩

theorem lane_flows (s : Nat) : (lane s).flows (replay s) := .inr ⟨rfl, .inr rfl⟩

end Place

namespace Host

/-- The place holds the cell: it can answer it, or hand it on. -/
inductive View.Holds (v : View) : Place → Nat → Prop
  | queue {l c : Nat} {r : Request} :
      r ∈ (v.lanes l).2 → r.waiter = some c → Holds v (.lane l) c
  | replay {t s c : Nat} {fs : List Frame} {f : Frame} {rs : List Request} {r : Request} :
      v.loop.stack? t = some fs → f ∈ fs → f.replay? = some (s, rs) → r ∈ rs →
      r.waiter = some c → Holds v (.replay s) c
  | query {q c : Nat} {x : Query} : v.queries.get? q = some x → x.waiter = some c → Holds v .query c
  | ready {s c : Nat} : c ∈ v.readyWaiters s → Holds v .other c
  | reader {p c : Nat} : (v.processes p).1 = some c → Holds v .other c
  | exit {p c : Nat} : c ∈ (v.processes p).2 → Holds v .other c
  | task {t c : Nat} : v.loop.result? t = some c → Holds v .task c
  | loop {c : Nat} : v.loop.Holds c → Holds v .other c

/-- Somebody who is no task can answer the cell. -/
def View.Owes (v : View) (c : Nat) : Prop := ∃ p, p ≠ .task ∧ v.Holds p c

theorem View.Holds.owed {v : View} {p : Place} {c : Nat} (h : v.Holds p c)
    (hp : p ≠ .task := by rintro ⟨⟩) : v.Owes c := ⟨p, hp, h⟩

/-- What an action may answer, and which cells it may hand to which places, besides what the
    host holds. -/
structure Leave where
  answer : Nat → Prop := fun _ => False
  hold : Place → Nat → Prop := fun _ _ => False

/-- The number of cells. -/
def View.size (v : View) : Nat := v.loop.cells.size

/-- Every cell that is held is one that was made. -/
def View.Bounded (v : View) : Prop := ∀ p c, v.Holds p c → c < v.size

/-- What happens to cells answers, and hands on, only what is held, what there is leave for, or what
    was made meanwhile. -/
structure Handed (W : Leave) (v v' : View) : Prop where
  size_le : v.size ≤ v'.size
  holds : ∀ p c, v'.Holds p c →
    (∃ p', p'.flows p ∧ (v.Holds p' c ∨ W.hold p' c)) ∨ v.size ≤ c ∧ c < v'.size
  answered : ∀ c, v'.loop.Answered c → v.loop.Answered c ∨
    (∃ p, p ≠ .task ∧ (v.Holds p c ∨ W.hold p c)) ∨ W.answer c ∨ v.size ≤ c

namespace Handed

variable {W W' : Leave} {v v' v'' : View}

theorem refl (v : View) : Handed W v v where
  size_le := Nat.le_refl _
  holds p _ h := .inl ⟨p, p.flows_refl, .inl h⟩
  answered _ h := .inl h

theorem trans (g : Handed W v v') (k : Handed W v' v'') : Handed W v v'' where
  size_le := Nat.le_trans g.size_le k.size_le
  holds p c h := by
    have hgk := g.size_le
    have hkk := k.size_le
    rcases k.holds p c h with ⟨p', hp, h | h⟩ | ⟨hle, hlt⟩
    · rcases g.holds p' c h with ⟨q, hq, h⟩ | ⟨hle, hlt⟩
      · exact .inl ⟨q, Place.flows_trans hq hp, h⟩
      · exact .inr ⟨hle, by omega⟩
    · exact .inl ⟨p', hp, .inr h⟩
    · exact .inr ⟨by omega, hlt⟩
  answered c h := by
    have hgk := g.size_le
    rcases k.answered c h with h | ⟨p, hp, h | h⟩ | h | h
    · exact g.answered c h
    · rcases g.holds p c h with ⟨q, hq, h⟩ | ⟨hle, -⟩
      · exact .inr (.inl ⟨q, Place.ne_task_of_flows hq hp, h⟩)
      · exact .inr (.inr (.inr hle))
    · exact .inr (.inl ⟨p, hp, .inr h⟩)
    · exact .inr (.inr (.inl h))
    · exact .inr (.inr (.inr (by omega)))

/-- Leave is not needed for what is held, or was made meanwhile. -/
theorem absorb (g : Handed W v v')
    (ha : ∀ c, W.answer c → W'.answer c ∨ v.Owes c ∨ v.size ≤ c)
    (hh : ∀ p c, W.hold p c →
      W'.hold p c ∨ (∃ p', p'.flows p ∧ v.Holds p' c) ∨ v.size ≤ c ∧ c < v'.size) :
    Handed W' v v' where
  size_le := g.size_le
  holds p c h := by
    rcases g.holds p c h with ⟨p', hp, h | h⟩ | h
    · exact .inl ⟨p', hp, .inl h⟩
    · rcases hh p' c h with h | ⟨q, hq, h⟩ | h
      · exact .inl ⟨p', hp, .inr h⟩
      · exact .inl ⟨q, Place.flows_trans hq hp, .inl h⟩
      · exact .inr h
    · exact .inr h
  answered c h := by
    rcases g.answered c h with h | ⟨p, hp, h | h⟩ | h | h
    · exact .inl h
    · exact .inr (.inl ⟨p, hp, .inl h⟩)
    · rcases hh p c h with h | ⟨q, hq, h⟩ | h
      · exact .inr (.inl ⟨p, hp, .inr h⟩)
      · exact .inr (.inl ⟨q, Place.ne_task_of_flows hq hp, .inl h⟩)
      · exact .inr (.inr (.inr h.1))
    · rcases ha c h with h | ⟨p, hp, h⟩ | h
      · exact .inr (.inr (.inl h))
      · exact .inr (.inl ⟨p, hp, .inl h⟩)
      · exact .inr (.inr (.inr h))
    · exact .inr (.inr (.inr h))

theorem bounded {P : Nat → Prop} (g : Handed { answer := P } v v') (hv : v.Bounded) :
    v'.Bounded := by
  intro p c h
  have := g.size_le
  rcases g.holds p c h with ⟨p', -, h | h⟩ | h
  · have := hv p' c h
    omega
  · cases h
  · exact h.2

/-- What is held by no party but tasks stays so, and is only answered with leave. -/
theorem apart {P : Nat → Prop} (g : Handed { answer := P } v v') {c : Nat} (hlt : c < v.size)
    (hc : ∀ p, v.Holds p c → p = .task) :
    (∀ p, v'.Holds p c → p = .task) ∧ (v'.loop.Answered c → v.loop.Answered c ∨ P c) := by
  refine ⟨fun p h => ?_, fun h => ?_⟩
  · rcases g.holds p c h with ⟨p', hp, h | h⟩ | h
    · by_contra hne
      exact Place.ne_task_of_flows hp hne (hc p' h)
    · cases h
    · omega
  · rcases g.answered c h with h | ⟨p, hp, h | h⟩ | h | h
    · exact .inl h
    · exact absurd (hc p h) hp
    · cases h
    · exact .inr h
    · omega

/-- What is held nowhere stays so, and is only answered with leave. -/
theorem private_ {P : Nat → Prop} (g : Handed { answer := P } v v') {c : Nat} (hlt : c < v.size)
    (hc : ∀ p, ¬ v.Holds p c) :
    (∀ p, ¬ v'.Holds p c) ∧ (v'.loop.Answered c → v.loop.Answered c ∨ P c) := by
  refine ⟨fun p h => ?_, (g.apart hlt fun p h => absurd h (hc p)).2⟩
  rcases g.holds p c h with ⟨p', -, h | h⟩ | h
  · exact hc p' h
  · cases h
  · omega

end Handed

/-- A step of whoever runs that answers, and hands on, only what it may. -/
structure Guarded (W : Leave) (v v' : View) : Prop extends Handed W v v' where
  grows : Loop.Grows Tame v.loop v'.loop

namespace Guarded

variable {W W' : Leave} {v v' v'' : View}

theorem refl (v : View) : Guarded W v v := ⟨.refl v, .refl _⟩

theorem trans (g : Guarded W v v') (k : Guarded W v' v'') : Guarded W v v'' :=
  ⟨g.toHanded.trans k.toHanded, g.grows.trans k.grows⟩

@[inherit_doc Handed.absorb]
theorem absorb (g : Guarded W v v')
    (ha : ∀ c, W.answer c → W'.answer c ∨ v.Owes c ∨ v.size ≤ c)
    (hh : ∀ p c, W.hold p c →
      W'.hold p c ∨ (∃ p', p'.flows p ∧ v.Holds p' c) ∨ v.size ≤ c ∧ c < v'.size) :
    Guarded W' v v' :=
  ⟨g.toHanded.absorb ha hh, g.grows⟩

/-! ## Changes of one component -/

/-- The loop changes. -/
theorem of_loop {l : Loop Value Failure Frame} (hg : Loop.Grows Tame v.loop l)
    (hh : ∀ c, l.Holds c → v.loop.Holds c ∨ W.hold .other c ∨ v.size ≤ c ∧ c < l.cells.size)
    (ha : ∀ c, l.Answered c → v.loop.Answered c ∨ W.answer c ∨ v.size ≤ c) :
    Guarded W v { v with loop := l } where
  size_le := hg.size_le
  grows := hg
  holds p c h := by
    cases h with
    | queue hr hc => exact .inl ⟨_, Place.flows_refl _, .inl (.queue hr hc)⟩
    | replay ht hf hs hr hc =>
      rcases hg.fresh _ _ ht with ht | ht
      · exact .inl ⟨_, Place.flows_refl _, .inl (.replay ht hf hs hr hc)⟩
      -- a new task has nothing to submit again
      · rw [replay?_of_isPlain (isPlain_of_tame ht hf)] at hs
        cases hs
    | query hx hc => exact .inl ⟨_, Place.flows_refl _, .inl (.query hx hc)⟩
    | ready hc => exact .inl ⟨_, Place.flows_refl _, .inl (.ready hc)⟩
    | reader hc => exact .inl ⟨_, Place.flows_refl _, .inl (.reader hc)⟩
    | exit hc => exact .inl ⟨_, Place.flows_refl _, .inl (.exit hc)⟩
    | task hc =>
      rcases hg.results _ _ hc with hc | hc
      · exact .inl ⟨_, Place.flows_refl _, .inl (.task hc)⟩
      · exact .inr hc
    | loop hc =>
      rcases hh c hc with hc | hc | hc
      · exact .inl ⟨_, Place.flows_refl _, .inl (.loop hc)⟩
      · exact .inl ⟨_, Place.flows_refl _, .inr hc⟩
      · exact .inr hc
  answered c h := by
    rcases ha c h with h | h | h
    · exact .inl h
    · exact .inr (.inr (.inl h))
    · exact .inr (.inr (.inr h))

/-- Anything but the loop changes. -/
theorem of_rest (hloop : v'.loop = v.loop)
    (hh : ∀ p c, v'.Holds p c → v.Holds p c ∨ W.hold p c) : Guarded W v v' where
  size_le := Nat.le_of_eq (by rw [View.size, View.size, hloop])
  grows := by rw [hloop]; exact .refl _
  holds p c h := .inl ⟨p, p.flows_refl, hh p c h⟩
  answered c h := by rw [hloop] at h; exact .inl h

/-- The queue of a lane changes. -/
theorem of_lanes {lanes : Nat → Option Nat × List Request}
    (hl : ∀ l r c, r ∈ (lanes l).2 → r.waiter = some c →
      (∃ r' ∈ (v.lanes l).2, r'.waiter = some c) ∨ W.hold (.lane l) c) :
    Guarded W v { v with lanes } :=
  of_rest rfl fun p c h => by
    cases h with
    | queue hr hc =>
      rcases hl _ _ _ hr hc with ⟨r', hr', hc'⟩ | h
      · exact .inl (.queue hr' hc')
      · exact .inr h
    | replay ht hf hs hr hc => exact .inl (.replay ht hf hs hr hc)
    | query hx hc => exact .inl (.query hx hc)
    | ready hc => exact .inl (.ready hc)
    | reader hc => exact .inl (.reader hc)
    | exit hc => exact .inl (.exit hc)
    | task hc => exact .inl (.task hc)
    | loop hc => exact .inl (.loop hc)

/-- Those who wait for a process change. -/
theorem of_processes {processes : Nat → Option Nat × List Nat}
    (hr : ∀ p c, (processes p).1 = some c → (v.processes p).1 = some c ∨ W.hold .other c)
    (he : ∀ p c, c ∈ (processes p).2 → c ∈ (v.processes p).2 ∨ W.hold .other c) :
    Guarded W v { v with processes } :=
  of_rest rfl fun p c h => by
    cases h with
    | queue hr hc => exact .inl (.queue hr hc)
    | replay ht hf hs hr hc => exact .inl (.replay ht hf hs hr hc)
    | query hx hc => exact .inl (.query hx hc)
    | ready hc => exact .inl (.ready hc)
    | reader hc => exact (hr _ c hc).imp_left .reader
    | exit hc => exact (he _ c hc).imp_left .exit
    | task hc => exact .inl (.task hc)
    | loop hc => exact .inl (.loop hc)

/-- Those who wait until a session is ready change. -/
theorem of_readyWaiters {readyWaiters : Nat → List Nat}
    (hs : ∀ s c, c ∈ readyWaiters s → c ∈ v.readyWaiters s ∨ W.hold .other c)
    (cores : Nat → Option Session.Core) : Guarded W v { v with readyWaiters, cores } :=
  of_rest rfl fun p c h => by
    cases h with
    | queue hr hc => exact .inl (.queue hr hc)
    | replay ht hf hs hr hc => exact .inl (.replay ht hf hs hr hc)
    | query hx hc => exact .inl (.query hx hc)
    | ready hc => exact (hs _ c hc).imp_left .ready
    | reader hc => exact .inl (.reader hc)
    | exit hc => exact .inl (.exit hc)
    | task hc => exact .inl (.task hc)
    | loop hc => exact .inl (.loop hc)

/-- A query is made. -/
theorem of_queries (x : Query) (hx : ∀ c, x.waiter = some c → W.hold .query c) :
    Guarded W v { v with queries := v.queries.push x } :=
  of_rest rfl fun p c h => by
    cases h with
    | queue hr hc => exact .inl (.queue hr hc)
    | replay ht hf hs hr hc => exact .inl (.replay ht hf hs hr hc)
    | query hq hc =>
      simp only [Table.get?_push] at hq
      split at hq
      · cases hq
        exact .inr (hx c hc)
      · exact .inl (.query hq hc)
    | ready hc => exact .inl (.ready hc)
    | reader hc => exact .inl (.reader hc)
    | exit hc => exact .inl (.exit hc)
    | task hc => exact .inl (.task hc)
    | loop hc => exact .inl (.loop hc)

/-- What is neither a holder nor the loop changes. -/
theorem of_others (cores : Nat → Option Session.Core) (registry : Keyed (String × String) Nat)
    (changes : List Event) : Guarded W v { v with cores, registry, changes } :=
  of_rest rfl fun p c h => by
    cases h with
    | queue hr hc => exact .inl (.queue hr hc)
    | replay ht hf hs hr hc => exact .inl (.replay ht hf hs hr hc)
    | query hx hc => exact .inl (.query hx hc)
    | ready hc => exact .inl (.ready hc)
    | reader hc => exact .inl (.reader hc)
    | exit hc => exact .inl (.exit hc)
    | task hc => exact .inl (.task hc)
    | loop hc => exact .inl (.loop hc)

end Guarded

/-- `Guarded` between hosts. -/
def Guards (W : Leave) (h h' : Host) : Prop := Guarded W h.view h'.view

instance (W : Leave) : Std.Refl (Guards W) := ⟨fun h => .refl h.view⟩

instance (W : Leave) : IsTrans Host (Guards W) := ⟨fun _ _ _ h k => h.trans k⟩

instance (W : Leave) : Blind (Guards W) := ⟨fun e _ => by rw [Guards, e]; exact .refl _⟩

instance (W : Leave) : Tacit (Guards W) where
  of_spawns {h} _ := .refl h.view
  of_active {h} _ _ := .refl h.view
  of_killed p := by
    rw [Guards, view_setKilled]
    exact .refl _
  of_reader s reader := by
    rw [Guards, view_setReader]
    exact .refl _

end Host

end GhciHost
