import Mathlib.Order.Defs.Unbundled
import GhciHost.Host.Resume

/-!
# What an action does to the host

`after a h` is the host as the action `a` leaves it, whether it came to a value or failed: what
was done until a failure stays done.

`Within R a` says that `a` moves the host along `R` from every state.  Where `R` can be composed
it is enough to know it of the parts of an action, so the instances below take an action apart,
and what is left is one instance for each action that has no parts.

* `after_bind`, `after_attempt`   the host after two actions, and after one whose failure is
  caught;
* `Within.bind`, `Within.forIn`   what the parts do, the whole does;
* `Succeeds.bind`   what is made of actions that cannot fail cannot fail;
* `Within.comp`   what leaves a thing alone leaves alone what is read off it.
-/

namespace GhciHost.Host

/-- The host as an action leaves it. -/
def after (a : Action α) (h : Host) : Host :=
  match a.run h with
  | .ok _ h' => h'
  | .error _ h' => h'

theorem after_of_ok {a : Action α} {h h' : Host} {v : α} (e : a.run h = .ok v h') :
    after a h = h' := by
  simp [after, e]

theorem after_of_error {a : Action α} {h h' : Host} {f : Failure} (e : a.run h = .error f h') :
    after a h = h' := by
  simp [after, e]

/-- Runs that end alike leave the same host. -/
theorem after_congr {a b : Action α} {h k : Host} (e : a.run h = b.run k) :
    after a h = after b k := by
  rw [after, e]
  rfl

/-! ## Running an action -/

@[simp] theorem run_pure (v : α) (h : Host) : (pure v : Action α).run h = .ok v h := rfl

@[simp] theorem run_throw (f : Failure) (h : Host) : (throw f : Action α).run h = .error f h := rfl

@[simp] theorem run_get (h : Host) : (get : Action Host).run h = .ok h h := rfl

@[simp] theorem run_modify (g : Host → Host) (h : Host) :
    (modify g : Action Unit).run h = .ok () (g h) := rfl

theorem run_bind (a : Action α) (f : α → Action β) (h : Host) :
    (a >>= f).run h = match a.run h with
      | .ok v h' => (f v).run h'
      | .error e h' => .error e h' := by
  simp only [bind, EStateM.bind, EStateM.run]
  cases a h <;> rfl

theorem run_bind_ok {a : Action α} {f : α → Action β} {h h' : Host} {v : α}
    (e : a.run h = .ok v h') : (a >>= f).run h = (f v).run h' := by
  rw [run_bind, e]

theorem run_bind_error {a : Action α} {f : α → Action β} {h h' : Host} {x : Failure}
    (e : a.run h = .error x h') : (a >>= f).run h = .error x h' := by
  rw [run_bind, e]

theorem run_tryCatch (a : Action α) (f : Failure → Action α) (h : Host) :
    (tryCatch a f : Action α).run h = match a.run h with
      | .ok v h' => .ok v h'
      | .error e h' => (f e).run h' := by
  show EStateM.tryCatch a f h = _
  delta EStateM.tryCatch EStateM.run
  cases a h <;> rfl

theorem after_bind (a : Action α) (f : α → Action β) (h : Host) :
    after (a >>= f) h = match a.run h with
      | .ok v h' => after (f v) h'
      | .error _ h' => h' := by
  simp only [after, run_bind]
  cases a.run h <;> rfl

theorem after_map (f : α → β) (a : Action α) (h : Host) : after (f <$> a) h = after a h := by
  rw [map_eq_pure_bind, after_bind, after]
  cases a.run h <;> rfl

theorem after_bind_ok {a : Action α} {f : α → Action β} {h h' : Host} {v : α}
    (e : a.run h = .ok v h') : after (a >>= f) h = after (f v) h' := by
  rw [after_bind, e]

/-- A failure that is caught and forgotten leaves the host as it was when it came. -/
theorem run_attempt (a : Action Unit) (h : Host) :
    (tryCatch a fun _ => pure () : Action Unit).run h = .ok () (after a h) := by
  rw [run_tryCatch, after]
  cases a.run h <;> rfl

/-! ## What is read -/

/-- The lane of a number. -/
def laneOf (h : Host) (l : Nat) : Lane := (h.lanes.get? l).getD noLane

/-- The session of a number. -/
def sessionOf (h : Host) (s : Nat) : Session := (h.sessions.get? s).getD noSession

/-- The process of a number. -/
def processOf (h : Host) (p : Nat) : Process := (h.processes.get? p).getD {}

theorem run_lane (l : Nat) (h : Host) : (lane l).run h = .ok (h.laneOf l) h := rfl

theorem run_session (s : Nat) (h : Host) : (session s).run h = .ok (h.sessionOf s) h := rfl

theorem run_process (p : Nat) (h : Host) : (process p).run h = .ok (h.processOf p) h := rfl

/-! ## Actions along a relation -/

/-- The action moves the host along the relation. -/
class Within (R : Host → Host → Prop) (a : Action α) : Prop where
  rel_after : ∀ h, R h (after a h)

namespace Within

variable {R : Host → Host → Prop} {α β : Type}

theorem of_ok {a : Action α} [Within R a] {h h' : Host} {v : α} (e : a.run h = .ok v h') :
    R h h' := by
  simpa [after_of_ok e] using rel_after (R := R) (a := a) h

theorem of_error {a : Action α} [Within R a] {h h' : Host} {f : Failure}
    (e : a.run h = .error f h') : R h h' := by
  simpa [after_of_error e] using rel_after (R := R) (a := a) h

instance pure [Std.Refl R] (v : α) : Within R (Pure.pure v : Action α) :=
  ⟨fun h => Std.Refl.refl h⟩

instance throw [Std.Refl R] (f : Failure) : Within R (MonadExcept.throw f : Action α) :=
  ⟨fun h => Std.Refl.refl h⟩

instance get [Std.Refl R] : Within R (MonadState.get : Action Host) :=
  ⟨fun h => Std.Refl.refl h⟩

instance bind [IsTrans Host R] (a : Action α) (f : α → Action β) [Within R a]
    [hf : ∀ v, Within R (f v)] : Within R (a >>= f) :=
  ⟨fun h => by
    rw [after_bind]
    cases e : a.run h with
    | ok v h' => exact trans_of R (of_ok e) ((hf v).rel_after h')
    | error f h' => exact of_error e⟩

/-- What comes after a failure is not done. -/
instance throw_bind [Std.Refl R] (x : Failure) (f : α → Action β) :
    Within R ((MonadExcept.throw x : Action α) >>= f) :=
  ⟨fun h => Std.Refl.refl h⟩

instance ite (c : Prop) [Decidable c] (a b : Action α) [ha : Within R a] [hb : Within R b] :
    Within R (if c then a else b) := by
  split
  · exact ha
  · exact hb

instance tryCatch [IsTrans Host R] (a : Action α) (f : Failure → Action α) [Within R a]
    [hf : ∀ e, Within R (f e)] : Within R (MonadExcept.tryCatch a f : Action α) :=
  ⟨fun h => by
    rw [after, run_tryCatch]
    cases e : a.run h with
    | ok v h' => exact of_ok e
    | error x h' => exact trans_of R (of_error e) ((hf x).rel_after h')⟩

/-- Two actions from one state: the second has to be known from where the first ends only. -/
theorem rel_after_bind [IsTrans Host R] {a : Action α} {f : α → Action β} {h : Host}
    (ha : R h (after a h)) (hf : ∀ v h', a.run h = .ok v h' → R h' (after (f v) h')) :
    R h (after (a >>= f) h) := by
  rw [after_bind]
  cases e : a.run h with
  | ok v h' => exact trans_of R (after_of_ok e ▸ ha) (hf v h' e)
  | error x h' => exact after_of_error e ▸ ha

/-- A loop over a list moves the host along a relation if the turn of each of its members does. -/
theorem forIn_mem [Std.Refl R] [IsTrans Host R] (xs : List β) (init : γ)
    (f : β → γ → Action (ForInStep γ)) (hf : ∀ x ∈ xs, ∀ s, Within R (f x s)) :
    Within R (ForIn.forIn xs init f) := by
  induction xs generalizing init with
  | nil => rw [List.forIn_nil]; infer_instance
  | cons x xs ih =>
    rw [List.forIn_cons]
    refine @bind _ _ _ _ _ _ (hf x List.mem_cons_self init) fun r => ?_
    cases r with
    | done s => exact Within.pure s
    | yield s => exact ih s fun y hy => hf y (List.mem_cons_of_mem _ hy)

/-- A loop over a list moves the host along a relation if each turn does. -/
instance forIn [Std.Refl R] [IsTrans Host R] (xs : List β) (init : γ)
    (f : β → γ → Action (ForInStep γ)) [hf : ∀ x s, Within R (f x s)] :
    Within R (ForIn.forIn xs init f) :=
  forIn_mem xs init f fun x _ => hf x

theorem of_modify {g : Host → Host} (hg : ∀ h, R h (g h)) : Within R (modify g : Action Unit) :=
  ⟨hg⟩

theorem mono {S : Host → Host → Prop} {a : Action α} (hrs : ∀ {h k}, R h k → S h k)
    (ha : Within R a) : Within S a :=
  ⟨fun h => hrs (ha.rel_after h)⟩

end Within

/-! ## Actions that cannot fail -/

/-- The action comes to a value from every state. -/
class Succeeds (a : Action α) : Prop where
  run_ok : ∀ h, ∃ v, a.run h = .ok v (after a h)

namespace Succeeds

variable {α β γ : Type}

theorem of_run {a : Action α} (ha : ∀ h, ∃ v h', a.run h = .ok v h') : Succeeds a :=
  ⟨fun h => by
    obtain ⟨v, h', e⟩ := ha h
    exact ⟨v, by rw [e, after_of_ok e]⟩⟩

theorem run_unit (a : Action Unit) [Succeeds a] (h : Host) : a.run h = .ok () (after a h) :=
  (run_ok (a := a) h).choose_spec

instance pure (v : α) : Succeeds (Pure.pure v : Action α) := ⟨fun _ => ⟨v, rfl⟩⟩

instance get : Succeeds (MonadState.get : Action Host) := ⟨fun h => ⟨h, rfl⟩⟩

theorem of_modify (g : Host → Host) : Succeeds (modify g : Action Unit) := ⟨fun _ => ⟨(), rfl⟩⟩

instance bind (a : Action α) (f : α → Action β) [Succeeds a] [hf : ∀ v, Succeeds (f v)] :
    Succeeds (a >>= f) :=
  of_run fun h => by
    obtain ⟨v, e⟩ := run_ok (a := a) h
    rw [run_bind_ok e]
    exact ⟨_, _, ((hf v).run_ok _).choose_spec⟩

instance ite (c : Prop) [Decidable c] (a b : Action α) [ha : Succeeds a] [hb : Succeeds b] :
    Succeeds (if c then a else b) := by
  split
  · exact ha
  · exact hb

/-- Whatever is tried, what catches its failures succeeds. -/
instance tryCatch (a : Action α) (f : Failure → Action α) [hf : ∀ e, Succeeds (f e)] :
    Succeeds (MonadExcept.tryCatch a f : Action α) :=
  of_run fun h => by
    rw [run_tryCatch]
    cases a.run h with
    | ok v h' => exact ⟨v, h', rfl⟩
    | error e h' => exact ⟨_, _, ((hf e).run_ok _).choose_spec⟩

instance forIn (xs : List β) (init : γ) (f : β → γ → Action (ForInStep γ))
    [hf : ∀ x s, Succeeds (f x s)] : Succeeds (ForIn.forIn xs init f) := by
  induction xs generalizing init with
  | nil => rw [List.forIn_nil]; infer_instance
  | cons x xs ih =>
    rw [List.forIn_cons]
    refine @bind _ _ _ _ (hf x init) fun r => ?_
    cases r with
    | done s => exact Succeeds.pure s
    | yield s => exact ih s

end Succeeds

/-! ## What is left alone -/

/-- Two hosts that agree in something. -/
def Same (π : Host → β) (h h' : Host) : Prop := π h' = π h

instance (π : Host → β) : Std.Refl (Same π) := ⟨fun _ => rfl⟩

instance (π : Host → β) : IsTrans Host (Same π) := ⟨fun _ _ _ h k => Eq.trans k h⟩

/-- What comes after an action that leaves the whole host alone, if it comes at all. -/
theorem after_bind_still {P : Host → Prop} {a : Action α} [Within (Same fun h => h) a]
    {f : α → Action β} {h : Host} (hh : P h) (hf : ∀ v, P (after (f v) h)) :
    P (after (a >>= f) h) := by
  rw [after_bind]
  cases e : a.run h with
  | ok v h' =>
    have e' : h' = h := Within.of_ok (R := Same fun h => h) e
    exact e' ▸ hf v
  | error x h' =>
    have e' : h' = h := Within.of_error (R := Same fun h => h) e
    exact e'.symm ▸ hh

/-- What the second action leaves alone is as the first one left it. -/
theorem same_after_bind {π : Host → γ} {a : Action α} {f : α → Action β}
    (hf : ∀ v, Within (Same π) (f v)) (h : Host) : π (after (a >>= f) h) = π (after a h) := by
  rw [after_bind]
  cases e : a.run h with
  | ok v h' =>
    rw [after_of_ok e]
    exact (hf v).rel_after h'
  | error x h' => rw [after_of_error e]

theorem Within.comp {π : Host → β} {a : Action α} (ha : Within (Same π) a) (f : β → γ) :
    Within (Same fun h => f (π h)) a :=
  ha.mono fun e => congrArg f e

end GhciHost.Host
