import GhciHost.Proofs.Host.Likeness
import GhciHost.Proofs.Host.Parts

/-!
# Askers

What an asker does with a response is a `Plan`: it may look at the lane, at what is attached to
it and at the journal, do one `Deed` after the other on the lane, learn how each of them ended,
and fail.  It sees neither the output that is still to be cut nor what was counted.  A `Policy`
has a plan for each response.

* `react_eq_usual`   what the host's own reactions do is a policy;
* `respects_run`   plans do not tell hosts apart that are alike;
* `still_run`   a plan that attaches no process leaves the buffer of every lane alone.
-/

namespace GhciHost

open Host

/-- What can be done on a lane. -/
inductive Deed
  | note (state : Json) (body : String)
  | attach (process : Nat)
  | detach
  /-- Queue a request without writing anything. -/
  | register (r : Request)
  | writeRaw (command : String)
  | submit (command : String) (state : Json) (reaction : Option Reaction) (waiter : Option Nat)
  | requeue (r : Request)
  | take
  | abandon (e : SessionError)
  /-- Take the first response of a session's worker. -/
  | ready (session process : Nat) (mode : StartMode) (body : String)

/-- What an asker sees. -/
structure Sight where
  queue : List Request
  process : Option Nat
  journal : Journal

/-- What an asker does. -/
inductive Plan
  | done
  | fail (e : Failure)
  | look (next : Sight → Plan)
  /-- Do something, and go on in the knowledge of how it ended. -/
  | first (d : Deed) (next : Option Failure → Plan)

/-- What is done with a response: given the state of its request, its text and the reaction. -/
abbrev Policy := Json → String → Reaction → Plan

namespace Host

/-- What an asker sees of a lane. -/
def sightOf (h : Host) (l : Nat) : Sight := ⟨(h.laneOf l).queue, (h.laneOf l).process, h.journal⟩

/-- Do something and learn how it ended. -/
def attempt (a : Action Unit) : Action (Option Failure) :=
  tryCatch (do a; return none) fun e => return some e

end Host

/-- Do something on a lane. -/
def Deed.run (l : Nat) : Deed → Action Unit
  | note state body => Host.note fun j => { j with notes := j.notes ++ [(state, body)] }
  | attach p => changeLane l (·.attach p)
  | detach => changeLane l (·.detach)
  | register r => changeLane l (·.push r)
  | writeRaw command => Host.writeRaw l command
  | submit command state reaction waiter => Host.submit l command state reaction waiter
  | requeue r => Host.requeue l r
  | take => do let _ ← takePending l
  | abandon e => do let _ ← Host.abandon l e
  | ready s p mode body => becomeReady s p mode body

/-- Carry out a plan on a lane. -/
def Plan.run (l : Nat) : Plan → Action Unit
  | done => pure ()
  | fail e => throw e
  | look next => do (next ((← get).sightOf l)).run l
  | first d next => do (next (← attempt (d.run l))).run l

/-- The asker that follows a policy. -/
def Policy.ask (p : Policy) : Asker := fun l state body r => (p state body r).run l

/-- The policy of the host's own reactions. -/
def Policy.usual : Policy := fun state body r =>
  match r with
  | .note => .first (.note state body) fun _ => .done
  | .fail => .first (.note state body) fun _ => .fail (.fault (.other "RuntimeError" "boom"))
  | .submit command state' =>
    .first (.note state body) fun _ => .first (.submit command state' (some .note) none) fun
      | some e => .fail e
      | none => .done
  | .attach p => .first (.note state body) fun _ => .first (.attach p) fun _ => .done
  | .ready s p mode => .first (.ready s p mode body) fun
      | some e => .fail e
      | none => .done

/-- The plan attaches no process, whatever it sees and learns. -/
def Plan.Peaceful : Plan → Prop
  | done => True
  | fail _ => True
  | look next => ∀ s, (next s).Peaceful
  | first d next => (∀ p, d ≠ .attach p) ∧ ∀ e, (next e).Peaceful

/-- The policy attaches no process. -/
def Policy.Peaceful (p : Policy) : Prop := ∀ state body r, (p state body r).Peaceful

namespace Host

theorem run_attempt_then (a : Action Unit) (f : Option Failure → Action β) (h : Host) :
    (attempt a >>= f).run h = match a.run h with
      | .ok _ h' => (f none).run h'
      | .error e h' => (f (some e)).run h' := by
  rw [run_bind, attempt, run_tryCatch, run_bind]
  cases a.run h <;> rfl

/-- What the host's own reactions do is a policy. -/
theorem react_eq_usual : react = Policy.usual.ask := by
  funext l state body r
  have e (h : Host) : (react l state body r).run h = (Policy.usual.ask l state body r).run h := by
    cases r with
    | note => rfl
    | fail => rfl
    | attach p => rfl
    | submit command state' =>
      let noted := after (Deed.run l (.note state body)) h
      change (submit l command state' (some .note) none).run noted =
        (attempt (submit l command state' (some .note) none) >>= _).run noted
      rw [run_attempt_then]
      cases (submit l command state' (some .note) none).run noted <;> rfl
    | ready s p mode =>
      simp only [react, Policy.ask, Policy.usual, Plan.run, run_attempt_then, Deed.run]
      cases (becomeReady s p mode body).run h <;> rfl
  exact funext e

/-! ## What plans do not see -/

section Respects

variable {L : Likeness}

theorem Likeness.Alike.sightOf {h k : Host} (ha : L.Alike h k) (l : Nat) :
    k.sightOf l = h.sightOf l := by
  obtain ⟨buffer, scanned, e⟩ := L.lane_same (ha.lane l)
  have e : k.laneOf l = { h.laneOf l with buffer, scanned } := e
  rw [Host.sightOf, Host.sightOf, e, ha.rest]

instance (a : Action Unit) [Respects L a] : Respects L (attempt a) := by
  unfold attempt
  infer_instance

instance (l : Nat) (d : Deed) : Respects L (d.run l) := by
  cases d <;> (simp only [Deed.run]; infer_instance)

/-- Plans do not tell hosts apart that are alike. -/
instance respects_run (l : Nat) (p : Plan) : Respects L (p.run l) := by
  induction p with
  | done => exact Respects.pure ()
  | fail e => exact Respects.throw e
  | look next ih =>
    refine Respects.bind_get (fun h => (next (h.sightOf l)).run l) (fun ha => ?_) fun h => ih _
    rw [ha.sightOf]
  | first d next ih => exact @Respects.bind _ _ _ _ _ _ fun e => ih e

instance (p : Policy) (l : Nat) (state : Json) (body : String) (r : Reaction) :
    Respects L (p.ask l state body r) :=
  respects_run l _

end Respects

/-! ## What plans leave alone -/

theorem laneOf_changeLane (h : Host) (l i : Nat) (f : Lane → Lane) :
    (after (changeLane l f) h).laneOf i =
      if l = i ∧ i < h.lanes.size then f (h.laneOf i) else h.laneOf i := by
  have e : (after (changeLane l f) h).laneOf i = ((h.lanes.modify l f).get? i).getD noLane := rfl
  rw [e, Table.get?_modify, laneOf]
  by_cases hl : l = i
  · by_cases hi : i < h.lanes.size
    · have : h.lanes.get? i = some h.lanes.rows[i] := Array.getElem?_eq_getElem hi
      simp [hl, hi, this]
    · simp [hi, Table.get?_eq_none (Nat.le_of_not_lt hi)]
  · simp [hl]

/-- What the cutting of output needs to know of the lanes. -/
def cuts (h : Host) : Nat × (Nat → Lane) :=
  (h.lanes.size, fun l => { h.laneOf l with process := none, queue := [] })

/-- The buffer was left alone, unless a process was attached; then it is empty. -/
structure Loyal (a b : Lane) : Prop where
  key : b.key = a.key
  marker : b.marker = a.marker
  le : a.attachments ≤ b.attachments
  same : b.attachments = a.attachments → b.buffer = a.buffer ∧ b.scanned = a.scanned
  anew : b.attachments ≠ a.attachments → b.buffer = [] ∧ b.scanned = 0

theorem Loyal.refl (a : Lane) : Loyal a a :=
  ⟨rfl, rfl, Nat.le_refl _, fun _ => ⟨rfl, rfl⟩, fun hne => absurd rfl hne⟩

/-- No lane lost output without a process having been attached to it. -/
structure LoyalHost (h h' : Host) : Prop where
  size : h'.lanes.size = h.lanes.size
  lane : ∀ l, Loyal (h.laneOf l) (h'.laneOf l)

instance : Std.Refl LoyalHost := ⟨fun _ => ⟨rfl, fun _ => .refl _⟩⟩

instance : IsTrans Host LoyalHost where
  trans h₁ h₂ h₃ h₁₂ h₂₃ := by
    refine ⟨h₂₃.size.trans h₁₂.size, fun l => ?_⟩
    have a := h₁₂.lane l
    have b := h₂₃.lane l
    refine ⟨b.key.trans a.key, b.marker.trans a.marker, Nat.le_trans a.le b.le, fun e => ?_, fun hne => ?_⟩
    · have := a.le
      have := b.le
      obtain ⟨ha, ha'⟩ := a.same (by omega)
      obtain ⟨hb, hb'⟩ := b.same (by omega)
      exact ⟨hb.trans ha, hb'.trans ha'⟩
    · by_cases e : (h₃.laneOf l).attachments = (h₂.laneOf l).attachments
      · obtain ⟨hb, hb'⟩ := b.same e
        obtain ⟨ha, ha'⟩ := a.anew (e ▸ hne)
        exact ⟨hb.trans ha, hb'.trans ha'⟩
      · exact b.anew e

theorem LoyalHost.of_cuts {h h' : Host} (e : Same cuts h h') : LoyalHost h h' := by
  refine ⟨congrArg Prod.fst e, fun l => ?_⟩
  have e := congrFun (congrArg Prod.snd e) l
  simp only [cuts, Lane.mk.injEq] at e
  obtain ⟨hk, hm, -, -, hb, hs, ha, -⟩ := e
  exact ⟨hk, hm, Nat.le_of_eq ha.symm, fun _ => ⟨hb, hs⟩, fun hne => absurd ha hne⟩

instance (priority := low) (a : Action α) [ha : Within (Same cuts) a] : Within LoyalHost a :=
  ha.mono LoyalHost.of_cuts

section Still

/-- What does not touch the lanes leaves what is cut alone. -/
theorem still_modify {g : Host → Host} (hg : ∀ h, (g h).lanes = h.lanes) :
    Within (Same cuts) (modify g : Action Unit) :=
  Within.of_modify fun h => by simp only [Same, cuts, laneOf, hg]

theorem still_changeLane (l : Nat) {f : Lane → Lane}
    (hf : ∀ a, { f a with process := none, queue := [] } = { a with process := none, queue := [] }) :
    Within (Same cuts) (changeLane l f) :=
  ⟨fun h => by
    refine Prod.ext (Table.size_modify ..) (funext fun i => ?_)
    simp only [cuts, laneOf_changeLane]
    split
    · exact hf _
    · rfl⟩

instance (f : Journal → Journal) : Within (Same cuts) (note f) := still_modify fun _ => rfl

instance (p : Nat) (f : Process → Process) : Within (Same cuts) (changeProcess p f) :=
  still_modify fun _ => rfl

instance (s : Nat) (f : Session → Session) : Within (Same cuts) (changeSession s f) :=
  still_modify fun _ => rfl

instance (c : Nat) (f : QueryChannel → QueryChannel) : Within (Same cuts) (changeChannel c f) :=
  still_modify fun _ => rfl

instance (key : String) (what : Counted) : Within (Same cuts) (count key what) :=
  still_modify fun _ => rfl

instance (c : Nat) (e : Ending) : Within (Same cuts) (finish c e) := still_modify fun _ => rfl

instance (cells : List Nat) : Within (Same cuts) (releaseAll cells) := still_modify fun _ => rfl

instance : Within (Same cuts) newCell := ⟨fun _ => rfl⟩

instance (e : Event) : Within (Same cuts) (publish e) := by
  have : Within (Same cuts) (modify fun h : Host => { h with bus := h.bus.publish e } : Action Unit) :=
    still_modify fun _ => rfl
  unfold publish
  infer_instance

instance (l : Nat) (r : Request) : Within (Same cuts) (changeLane l (·.push r)) :=
  still_changeLane l fun _ => rfl

instance (l : Nat) : Within (Same cuts) (changeLane l (·.detach)) :=
  still_changeLane l fun _ => rfl

instance (l : Nat) (q : List Request) :
    Within (Same cuts) (changeLane l fun a => { a with queue := q }) :=
  still_changeLane l fun _ => rfl

/-- Nothing but an attachment changes what is cut. -/
theorem still_deed (l : Nat) {d : Deed} (hd : ∀ p, d ≠ .attach p) :
    Within (Same cuts) (d.run l) := by
  cases d with
  | attach p => exact absurd rfl (hd p)
  | ready s p mode body =>
    refine @Within.bind _ _ _ _ _ _ _ fun session => ?_
    split
    · refine @Within.ite _ _ _ _ _ _ ?_ _
      split <;> infer_instance
    · infer_instance
  | _ => simp only [Deed.run]; infer_instance

instance (l : Nat) (d : Deed) : Within LoyalHost (d.run l) := by
  by_cases hd : ∃ p, d = .attach p
  · obtain ⟨p, rfl⟩ := hd
    refine ⟨fun h => ⟨Table.size_modify .., fun i => ?_⟩⟩
    rw [show Deed.run l (.attach p) = changeLane l (·.attach p) from rfl, laneOf_changeLane]
    split
    · exact ⟨rfl, rfl, Nat.le_succ _, fun e => absurd e (Nat.succ_ne_self _), fun _ => ⟨rfl, rfl⟩⟩
    · exact .refl _
  · exact (still_deed l fun p e => hd ⟨p, e⟩).mono LoyalHost.of_cuts

instance {R : Host → Host → Prop} [Std.Refl R] [IsTrans Host R] (a : Action Unit) [Within R a] :
    Within R (attempt a) := by
  unfold attempt
  infer_instance

/-- A plan that attaches no process leaves the buffer of every lane alone. -/
theorem still_run (l : Nat) {p : Plan} (hp : p.Peaceful) : Within (Same cuts) (p.run l) := by
  induction p with
  | done => exact Within.pure ()
  | fail e => exact Within.throw e
  | look next ih => exact @Within.bind _ _ _ _ _ _ _ fun h => ih _ (hp _)
  | first d next ih =>
    have := still_deed l hp.1
    exact @Within.bind _ _ _ _ _ _ _ fun e => ih e (hp.2 e)

instance (l : Nat) (p : Plan) : Within LoyalHost (p.run l) := by
  induction p with
  | done => exact Within.pure ()
  | fail e => exact Within.throw e
  | look next ih => exact @Within.bind _ _ _ _ _ _ _ fun h => ih _
  | first d next ih => exact @Within.bind _ _ _ _ _ _ _ fun e => ih e

instance (p : Policy) (l : Nat) (state : Json) (body : String) (r : Reaction) :
    Within LoyalHost (p.ask l state body r) :=
  inferInstanceAs (Within LoyalHost ((p state body r).run l))

theorem still_ask {p : Policy} (hp : p.Peaceful) (l : Nat) (state : Json) (body : String)
    (r : Reaction) : Within (Same cuts) (p.ask l state body r) :=
  still_run l (hp state body r)

end Still

end Host

end GhciHost
