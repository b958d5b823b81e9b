import GhciHost.Proofs.Host.Effect

/-!
# Hosts that an action cannot tell apart

A `Likeness` says how two hosts may differ without any operation on a lane noticing: in what
the loop knows of some cells, in what was counted, and in parts of lanes that only the cutting
of output looks at.  An action that `Respects` a likeness comes to the same from two such hosts,
and leaves them alike.

* `Respects.bind`, `Respects.forIn`   what the parts respect, the whole respects;
* `respects_submit`, `respects_deliverBy`   the operations on a lane respect every likeness.
-/

namespace GhciHost.Host

/-- A way in which hosts may differ. -/
structure Likeness where
  loop : Loop Value Failure Frame → Loop Value Failure Frame → Prop
  metrics : Option Metrics → Option Metrics → Prop
  lane : Nat → Lane → Lane → Prop
  lane_refl : ∀ l a, lane l a a
  loop_finish : ∀ {l m} (c : Nat) (e : Ending), loop l m → loop (l.finish c e) (m.finish c e)
  loop_newCell : ∀ {l m}, loop l m → l.newCell.1 = m.newCell.1 ∧ loop l.newCell.2 m.newCell.2
  metrics_record : ∀ {m n} (key : String) (what : Counted), metrics m n →
    metrics (m.map (·.record key what)) (n.map (·.record key what))
  /-- All but the buffer is the same. -/
  lane_same : ∀ {l a b}, lane l a b → ∃ buffer scanned, b = { a with buffer, scanned }
  lane_push : ∀ {l a b} (r : Request), lane l a b → lane l (a.push r) (b.push r)
  lane_attach : ∀ {l a b} (p : Nat), lane l a b → lane l (a.attach p) (b.attach p)
  lane_detach : ∀ {l a b}, lane l a b → lane l a.detach b.detach
  lane_queue : ∀ {l a b} (q : List Request), lane l a b →
    lane l { a with queue := q } { b with queue := q }

/-- Two hosts that differ as a likeness allows. -/
structure Likeness.Alike (L : Likeness) (h k : Host) : Prop where
  loop : L.loop h.loop k.loop
  metrics : L.metrics h.metrics k.metrics
  lanes : ∀ l, Option.Rel (L.lane l) (h.lanes.get? l) (k.lanes.get? l)
  rest : k = { h with loop := k.loop, metrics := k.metrics, lanes := k.lanes }

/-- Two results with the same value or failure, and hosts that are alike. -/
inductive Likeness.Agree (L : Likeness) : {α : Type} →
    EStateM.Result Failure Host α → EStateM.Result Failure Host α → Prop
  | ok {α : Type} (v : α) {h k : Host} : L.Alike h k → L.Agree (.ok v h) (.ok v k)
  | error {α : Type} (e : Failure) {h k : Host} : L.Alike h k →
      L.Agree (.error e h : EStateM.Result Failure Host α) (.error e k)

/-- The action comes to the same from hosts that are alike, and leaves them alike. -/
class Respects (L : Likeness) (a : Action α) : Prop where
  agree : ∀ {h k : Host}, L.Alike h k → L.Agree (a.run h) (a.run k)

theorem Likeness.Agree.after {L : Likeness} {a : Action α} {h k : Host}
    (e : L.Agree (a.run h) (a.run k)) : L.Alike (after a h) (after a k) := by
  unfold Host.after
  generalize a.run h = x at e
  generalize a.run k = y at e
  cases e with
  | ok v ha => exact ha
  | error x ha => exact ha

namespace Respects

variable {L : Likeness} {α β γ : Type}

instance pure (v : α) : Respects L (Pure.pure v : Action α) := ⟨fun ha => .ok v ha⟩

instance throw (e : Failure) : Respects L (MonadExcept.throw e : Action α) :=
  ⟨fun ha => .error e ha⟩

instance bind (a : Action α) (f : α → Action β) [Respects L a] [hf : ∀ v, Respects L (f v)] :
    Respects L (a >>= f) :=
  ⟨fun {h k} ha => by
    have e := agree (L := L) (a := a) ha
    rw [run_bind, run_bind]
    generalize a.run h = x at e
    generalize a.run k = y at e
    cases e with
    | ok v ha => exact (hf v).agree ha
    | error x ha => exact .error x ha⟩

/-- What is read from the host may differ if the rest of the action does not depend on it. -/
theorem bind_get (f : Host → Action β) (hf : ∀ {h k}, L.Alike h k → f h = f k)
    (hr : ∀ h, Respects L (f h)) : Respects L (get >>= f) :=
  ⟨fun {h k} ha => by
    rw [run_bind_ok (run_get h), run_bind_ok (run_get k), ← hf ha]
    exact (hr h).agree ha⟩

instance ite (c : Prop) [Decidable c] (a b : Action α) [ha : Respects L a] [hb : Respects L b] :
    Respects L (if c then a else b) := by
  split
  · exact ha
  · exact hb

instance tryCatch (a : Action α) (f : Failure → Action α) [Respects L a]
    [hf : ∀ e, Respects L (f e)] : Respects L (MonadExcept.tryCatch a f : Action α) :=
  ⟨fun {h k} ha => by
    have e := agree (L := L) (a := a) ha
    rw [run_tryCatch, run_tryCatch]
    generalize a.run h = x at e
    generalize a.run k = y at e
    cases e with
    | ok v ha => exact .ok v ha
    | error x ha => exact (hf x).agree ha⟩

instance forIn (xs : List β) (init : γ) (f : β → γ → Action (ForInStep γ))
    [hf : ∀ x s, Respects L (f x s)] : Respects L (ForIn.forIn xs init f) := by
  induction xs generalizing init with
  | nil => rw [List.forIn_nil]; infer_instance
  | cons x xs ih =>
    rw [List.forIn_cons]
    refine @bind _ _ _ _ _ (hf x init) fun r => ?_
    cases r with
    | done s => exact Respects.pure s
    | yield s => exact ih s

end Respects

/-! ## Small steps -/

namespace Likeness

variable {L : Likeness}

/-- A change of what is not the loop, the counters or the lanes. -/
theorem respects_modify (g : Host → Host)
    (loop : ∀ h, (g h).loop = h.loop) (metrics : ∀ h, (g h).metrics = h.metrics)
    (lanes : ∀ h, (g h).lanes = h.lanes)
    (rest : ∀ h l m t, g { h with loop := l, metrics := m, lanes := t } =
      { g h with loop := l, metrics := m, lanes := t }) :
    Respects L (modify g : Action Unit) :=
  ⟨fun {h k} ha => .ok () {
    loop := by rw [loop, loop]; exact ha.loop
    metrics := by rw [metrics, metrics]; exact ha.metrics
    lanes := by rw [lanes, lanes]; exact ha.lanes
    rest := by rw [loop, metrics, lanes, ← rest, ← ha.rest] }⟩

instance (f : Journal → Journal) : Respects L (note f) :=
  respects_modify _ (fun _ => rfl) (fun _ => rfl) (fun _ => rfl) fun _ _ _ _ => rfl

instance (p : Nat) (f : Process → Process) : Respects L (changeProcess p f) :=
  respects_modify _ (fun _ => rfl) (fun _ => rfl) (fun _ => rfl) fun _ _ _ _ => rfl

instance (s : Nat) (f : Session → Session) : Respects L (changeSession s f) :=
  respects_modify _ (fun _ => rfl) (fun _ => rfl) (fun _ => rfl) fun _ _ _ _ => rfl

instance (c : Nat) (f : QueryChannel → QueryChannel) : Respects L (changeChannel c f) :=
  respects_modify _ (fun _ => rfl) (fun _ => rfl) (fun _ => rfl) fun _ _ _ _ => rfl

instance (e : Event) : Respects L (publish e) := by
  have : Respects L (modify fun h : Host => { h with bus := h.bus.publish e } : Action Unit) :=
    respects_modify _ (fun _ => rfl) (fun _ => rfl) (fun _ => rfl) fun _ _ _ _ => rfl
  unfold publish
  infer_instance

instance (p : Nat) : Respects L (process p) :=
  Respects.bind_get _ (fun ha => by rw [ha.rest]) fun _ => inferInstance

instance (s : Nat) : Respects L (session s) :=
  Respects.bind_get _ (fun ha => by rw [ha.rest]) fun _ => inferInstance

instance (key : String) (what : Counted) : Respects L (count key what) :=
  ⟨fun {h k} ha => .ok () {
    loop := ha.loop
    metrics := L.metrics_record key what ha.metrics
    lanes := ha.lanes
    rest := by rw [ha.rest] }⟩

/-- A change of the loop that the likeness does not notice. -/
theorem respects_changeLoop (f : Loop Value Failure Frame → Loop Value Failure Frame)
    (hf : ∀ {l m}, L.loop l m → L.loop (f l) (f m)) : Respects L (changeLoop f) :=
  ⟨fun {h k} ha => .ok () {
    loop := hf ha.loop
    metrics := ha.metrics
    lanes := ha.lanes
    rest := by rw [ha.rest] }⟩

instance (c : Nat) (e : Ending) : Respects L (finish c e) :=
  respects_changeLoop _ (L.loop_finish c e)

instance : Respects L newCell :=
  ⟨fun {h k} ha => by
    have hn := L.loop_newCell ha.loop
    have hrun (h : Host) : newCell.run h = .ok h.loop.newCell.1 { h with loop := h.loop.newCell.2 } :=
      rfl
    rw [hrun, hrun, hn.1]
    exact .ok _ { loop := hn.2, metrics := ha.metrics, lanes := ha.lanes, rest := by rw [ha.rest] }⟩

instance (cells : List Nat) : Respects L (releaseAll cells) := by
  refine respects_changeLoop _ fun {l m} hl => ?_
  induction cells generalizing l m with
  | nil => exact hl
  | cons c cells ih => exact ih (L.loop_finish c _ hl)

theorem rel_map {r : α → α → Prop} {f : α → α} (hf : ∀ {a b}, r a b → r (f a) (f b))
    {x y : Option α} (h : Option.Rel r x y) : Option.Rel r (x.map f) (y.map f) := by
  cases h with
  | some hab => exact .some (hf hab)
  | none => exact .none

/-- A change of a lane that keeps two lanes alike. -/
theorem respects_changeLane (l : Nat) (f : Lane → Lane)
    (hf : ∀ {a b}, L.lane l a b → L.lane l (f a) (f b)) : Respects L (changeLane l f) :=
  ⟨fun {h k} ha => .ok () {
    loop := ha.loop
    metrics := ha.metrics
    lanes := fun i => by
      have hi := ha.lanes i
      simp only [Table.get?_modify]
      split
      · next e =>
        subst e
        exact rel_map hf hi
      · exact hi
    rest := by rw [ha.rest] }⟩

instance (l : Nat) (r : Request) : Respects L (changeLane l (·.push r)) :=
  respects_changeLane l _ (L.lane_push r)

instance (l p : Nat) : Respects L (changeLane l (·.attach p)) :=
  respects_changeLane l _ (L.lane_attach p)

instance (l : Nat) : Respects L (changeLane l (·.detach)) :=
  respects_changeLane l _ L.lane_detach

instance (l : Nat) (q : List Request) : Respects L (changeLane l fun a => { a with queue := q }) :=
  respects_changeLane l _ (L.lane_queue q)

theorem Alike.get? {h k : Host} (ha : L.Alike h k) (l : Nat) :
    (h.lanes.get? l = none ∧ k.lanes.get? l = none) ∨
      ∃ a b, h.lanes.get? l = some a ∧ k.lanes.get? l = some b ∧ L.lane l a b := by
  have hl := ha.lanes l
  revert hl
  generalize h.lanes.get? l = x
  generalize k.lanes.get? l = y
  rintro (hab | _)
  · exact .inr ⟨_, _, rfl, rfl, hab⟩
  · exact .inl ⟨rfl, rfl⟩

/-- The lane of a number is alike in hosts that are. -/
theorem Alike.lane {h k : Host} (ha : L.Alike h k) (l : Nat) :
    L.lane l ((h.lanes.get? l).getD noLane) ((k.lanes.get? l).getD noLane) := by
  obtain ⟨e, e'⟩ | ⟨a, b, e, e', hab⟩ := ha.get? l <;> rw [e, e']
  · exact L.lane_refl l _
  · exact hab

/-- An action that reads a lane, but not its buffer. -/
theorem respects_bind_lane (l : Nat) (f : Lane → Action β)
    (hf : ∀ a buffer scanned, f { a with buffer, scanned } = f a)
    (hr : ∀ a, Respects L (f a)) : Respects L (Host.lane l >>= f) :=
  ⟨fun {h k} ha => by
    have e (h : Host) : (Host.lane l >>= f).run h = (f ((h.lanes.get? l).getD noLane)).run h := rfl
    obtain ⟨buffer, scanned, hb⟩ := L.lane_same (ha.lane l)
    rw [e, e, hb, hf _ buffer scanned]
    exact (hr _).agree ha⟩

/-! ## Workers -/

instance (p : Nat) (o : WorkerOutput) : Respects L (putOutput p o) := by
  unfold putOutput
  infer_instance

instance (p : Nat) (code : Int) : Respects L (exit p code) := by
  unfold exit
  infer_instance

instance (p : Nat) (line : String) (a : WorkerAct) : Respects L (act p line a) := by
  cases a <;> (simp only [act]; infer_instance)

instance (p : Nat) (text : List Char) : Respects L (hear p text) := by
  unfold hear
  infer_instance

instance (p : Nat) (text : List Char) : Respects L (write p text) := by
  refine @Respects.bind _ _ _ _ _ _ fun proc => ?_
  split
  · infer_instance
  · infer_instance

/-! ## Operations on a lane -/

instance (l : Nat) (command : String) : Respects L (writeLine l command) := by
  unfold writeLine
  refine respects_bind_lane l _ (fun _ _ _ => rfl) fun lane => ?_
  split
  · infer_instance
  · refine @Respects.tryCatch _ _ _ _ _ fun e => ?_
    split <;> infer_instance

instance (marker : List Char) (command : String) : Respects L (validate marker command) := by
  unfold validate
  split <;> infer_instance

instance (l : Nat) (command : String) : Respects L (writeRaw l command) := by
  unfold writeRaw
  exact respects_bind_lane l _ (fun _ _ _ => rfl) fun _ => inferInstance

instance respects_submit (l : Nat) (command : String) (state : Json) (reaction : Option Reaction)
    (waiter : Option Nat) : Respects L (submit l command state reaction waiter) := by
  unfold submit
  refine @Respects.bind _ _ _ _ _ _ fun _ => @Respects.bind _ _ _ _ _ _ fun _ => ?_
  exact respects_bind_lane l _ (fun _ _ _ => rfl) fun _ => inferInstance

instance (l : Nat) (r : Request) : Respects L (requeue l r) := by
  unfold requeue
  infer_instance

instance (l : Nat) : Respects L (takePending l) := by
  unfold takePending
  exact respects_bind_lane l _ (fun _ _ _ => rfl) fun _ => inferInstance

instance (r : Request) (e : SessionError) : Respects L (failRequest r e) := by
  unfold failRequest
  split <;> infer_instance

instance (l : Nat) (e : SessionError) : Respects L (abandon l e) := by
  unfold abandon
  infer_instance

instance (s : Nat) (phase : Phase) : Respects L (transition s phase) := by
  unfold transition
  infer_instance

instance (s p : Nat) (mode : StartMode) (body : String) : Respects L (becomeReady s p mode body) := by
  refine @Respects.bind _ _ _ _ _ _ fun session => ?_
  split
  · refine @Respects.ite _ _ _ _ _ _ ?_ _
    split <;> infer_instance
  · infer_instance

instance (l : Nat) (kind : Event.Kind) (details : List (String × Json)) :
    Respects L (announce l kind details) := by
  unfold announce
  exact respects_bind_lane l _ (fun _ _ _ => rfl) fun _ => inferInstance

instance (l : Nat) (body : String) : Respects L (reject l body) := by
  unfold reject
  exact respects_bind_lane l _ (fun _ _ _ => rfl) fun _ => inferInstance

variable {ask : Asker} [hask : ∀ l state body r, Respects L (ask l state body r)]

instance (l : Nat) (state : Json) (reaction : Option Reaction) (waiter : Option Nat)
    (body : String) : Respects L (answerBy ask l state reaction waiter body) := by
  unfold answerBy
  cases reaction <;> cases waiter <;> (dsimp only; infer_instance)

instance respects_deliverBy (l : Nat) (body : String) : Respects L (deliverBy ask l body) := by
  unfold deliverBy
  refine respects_bind_lane l _ (fun _ _ _ => rfl) fun lane => ?_
  split <;> infer_instance

end Likeness

end GhciHost.Host
