import GhciHost.Proofs.Lane.History
import GhciHost.Proofs.Session.Kept
import GhciHost.Proofs.Session.Seating

/-!
# What is written to workers and queued

Few frames take requests or a worker off a lane, or attach one to it; all others write to the
workers that are attached, and queue requests behind those that are pending.  Relations that allow
just that are `Postal`, so all other frames move a host along them.

* `Postal.resume`, `Given.exchanged`   the steps of the other frames;
* `Postal.resume_of_handles`   what is asked of the frames that handle a lane;
* `Lengthens`   requests come behind the others;
* `Spares`   a process that is attached nowhere is written nothing.
-/

namespace GhciHost

/-- The lane that a frame may take something off, or attach a worker to. -/
def Frame.handles? : Frame → Option Nat
  | pumped s _ | gotStatus s | gotInstall s | launched s .. | pumpEnd s _ | teardown s
  | queriesGone s => some s
  | _ => none

/-- The frames that end the exchange of a query. -/
def Frame.exchanges : Frame → Bool
  | connected _ | replied .. => true
  | _ => false

namespace Host

/-- The relation tells of lanes only, and of what was written.  It allows that a command is written
    to the worker of a lane, that a request is queued, and that there is a new lane. -/
class Postal (R : Host → Host → Prop) : Prop where
  of_lanes : ∀ {h h' : Host}, h'.lanes = h.lanes → h'.journal.writes = h.journal.writes → R h h'
  writeLine : ∀ (l : Nat) (command : String), Within R (Host.writeLine l command)
  push : ∀ (l : Nat) (r : Request), Within R (changeLane l (·.push r))
  pushLane : ∀ {h h' : Host} (key : String) (marker : UInt8),
    h'.lanes = h.lanes.push { key, marker } → h'.journal.writes = h.journal.writes → R h h'

/-- The relation allows that a lane is changed in any way but that a process is attached. -/
structure Free (R : Host → Host → Prop) (l : Nat) : Prop where
  keep : ∀ {f : Lane → Lane}, (∀ a, (f a).process = a.process) → Within R (changeLane l f)
  detach : Within R (changeLane l (·.detach))

namespace Postal

section

variable {R : Host → Host → Prop} [hR : Postal R]

instance : Nearsighted R := ⟨fun _ _ hl hw => hR.of_lanes hl hw⟩

instance : Tacit R := ⟨fun _ => hR.of_lanes rfl rfl, fun _ _ => hR.of_lanes rfl rfl,
  fun _ => hR.of_lanes rfl rfl, fun _ _ => hR.of_lanes rfl rfl⟩

instance changeLoop (f : Loop Value Failure Frame → Loop Value Failure Frame) :
    Within R (Host.changeLoop f) := ⟨fun _ => hR.of_lanes rfl rfl⟩

instance onLoop (f : Loop Value Failure Frame → β × Loop Value Failure Frame) :
    Within R (Host.onLoop f) := ⟨fun _ => hR.of_lanes rfl rfl⟩

instance finish (c : Nat) (e : Ending) : Within R (Host.finish c e) := changeLoop _

instance newCell : Within R Host.newCell := onLoop _

instance newTask (fs : List Frame) : Within R (Host.newTask fs) := onLoop _

instance releaseAll (cells : List Nat) : Within R (Host.releaseAll cells) := changeLoop _

instance changeSession (s : Nat) (f : Session → Session) : Within R (Host.changeSession s f) :=
  ⟨fun _ => hR.of_lanes rfl rfl⟩

instance changeChannel (c : Nat) (f : QueryChannel → QueryChannel) :
    Within R (Host.changeChannel c f) := ⟨fun _ => hR.of_lanes rfl rfl⟩

instance changeProcess (p : Nat) (f : Process → Process) : Within R (Host.changeProcess p f) :=
  ⟨fun _ => hR.of_lanes rfl rfl⟩

instance publish (e : Event) : Within R (Host.publish e) := ⟨fun _ => hR.of_lanes rfl rfl⟩

instance pushQuery (q : Query) :
    Within R (modify fun h => { h with queries := h.queries.push q } : Action Unit) :=
  ⟨fun _ => hR.of_lanes rfl rfl⟩

instance pushProcess (p : Process) :
    Within R (modify fun h => { h with processes := h.processes.push p } : Action Unit) :=
  ⟨fun _ => hR.of_lanes rfl rfl⟩

instance setRegistry (f : Host → Keyed (String × String) Nat) :
    Within R (modify fun h => { h with registry := f h } : Action Unit) :=
  ⟨fun _ => hR.of_lanes rfl rfl⟩

instance setRegistryMetrics (f : Host → Keyed (String × String) Nat) (g : Host → Option Metrics) :
    Within R (modify fun h => { h with registry := f h, metrics := g h } : Action Unit) :=
  ⟨fun _ => hR.of_lanes rfl rfl⟩

instance write (l : Nat) (command : String) : Within R (Host.writeLine l command) :=
  hR.writeLine l command

instance queue (l : Nat) (r : Request) : Within R (changeLane l (·.push r)) := hR.push l r

end

section

variable {R : Host → Host → Prop} [Std.Refl R] [IsTrans Host R] [hR : Postal R]

instance newSession (kind root : String) (targets : List String) :
    Within R (Host.newSession kind root targets) := by
  refine ⟨fun h => ?_⟩
  unfold Host.newSession
  rw [after_bind_ok (run_get h)]
  split
  · exact hR.pushLane _ _ rfl rfl
  · exact Std.Refl.refl h

instance setUp (s : Nat) (replay : List Request) : Within R (Host.setUp s replay) := by
  have (command : String) : Within R (Host.writeRaw s command) := inferInstance
  have (r : Request) : Within R (Host.requeue s r) := inferInstance
  infer_instance

/-! ## Steps that have nothing to do with one lane -/

theorem resumeWith {f : Frame} (hf : f.handles? = none) (v : Value) :
    Within R (Host.resumeWith f v) := by
  unfold Host.resumeWith
  split <;> first | infer_instance | cases hf

/-- Whatever a frame does that neither handles a lane nor ends a query. -/
theorem resume {f : Frame} (hf : f.handles? = none) (hx : f.exchanges = false) (e : Ending) :
    Within R (Host.resume f e) := by
  unfold Host.resume
  split
  case h_17 => split <;> infer_instance
  case h_18 =>
    split
    · exact resumeWith hf _
    · infer_instance
  all_goals first | infer_instance | (cases hf; done) | cases hx

/-! ## Steps that handle a lane -/

/-- Whatever a frame does that handles a lane, but for the frame that takes output. -/
theorem resume_of_handles {f : Frame} {l : Nat} (hf : f.handles? = some l)
    (hpumped : ∀ p, f ≠ .pumped l p) (hfree : Free R l) (e : Ending)
    (hattach : ∀ m replay p, f = .launched l m replay → e = .value (.process p) →
      Within R (changeLane l (·.attach p))) : Within R (Host.resume f e) := by
  have := hfree.detach
  have : Within R (changeLane l fun a => { a with queue := [] }) := hfree.keep fun _ => rfl
  cases f with
  | pumped s p =>
    cases hf
    exact absurd rfl (hpumped p)
  | launched s m replay =>
    cases hf
    show Within R (Host.launched l m replay e)
    have (reason : String) (kind : GiveUpKind) : Within R (Host.giveUp l reason kind) :=
      inferInstance
    unfold Host.launched
    split
    · next p =>
      have : Within R (changeLane l (·.attach p)) := hattach m replay p rfl rfl
      have : Within R (Host.adopt l p m replay) := inferInstance
      infer_instance
    · infer_instance
    · infer_instance
  | gotInstall s =>
    cases hf
    exact (inferInstance : Within R (Host.gotInstall l e))
  | gotStatus s =>
    cases hf
    cases e with
    | value v =>
      show Within R (Host.resumeWith (.gotStatus l) v)
      cases v with
      | status status => exact (inferInstance : Within R (Host.gotStatus l status))
      | _ => exact Within.pure _
    | _ => exact Within.pure _
  | pumpEnd s p =>
    cases hf
    cases e with
    | value v =>
      show Within R (Host.resumeWith (.pumpEnd l p) v)
      cases v with
      | code code => exact (inferInstance : Within R (Host.pumpEnd l p code))
      | _ => exact Within.pure _
    | _ => exact Within.pure _
  | teardown s =>
    cases hf
    cases e with
    | value v => exact (inferInstance : Within R (Host.teardown l))
    | _ => exact Within.pure _
  | queriesGone s =>
    cases hf
    cases e with
    | value v => exact (inferInstance : Within R (Host.queriesGone l))
    | _ => exact Within.pure _
  | _ => cases hf

/-! ## The end of a query -/

theorem react (l : Nat) (state : Json) (body : String) {x : Reaction} (hx : x.isAsked) :
    Within R (Host.react l state body x) := by
  unfold Host.react
  cases x with
  | attach | ready => cases hx
  | note | fail | submit =>
    dsimp only
    infer_instance

theorem answerBy (l : Nat) (state : Json) {reaction : Option Reaction} (waiter : Option Nat)
    (body : String) (hr : ∀ x ∈ reaction, x.isAsked) :
    Within R (Host.answerBy Host.react l state reaction waiter body) := by
  unfold Host.answerBy
  cases reaction with
  | none => cases waiter <;> (dsimp only; infer_instance)
  | some x =>
    have : Within R (Host.react l state body x) := react l state body (hr x rfl)
    cases waiter <;> (dsimp only; infer_instance)

/-- A response to a request that can stand in a queue. -/
theorem answered (l : Nat) {r : Request} (hr : r.IsAsked ∨ ∃ s p m, r = .startup s p m)
    (body : String) :
    Within R (Host.answerBy Host.react l r.state r.reaction r.waiter body) := by
  rcases hr with hr | ⟨s, p, m, rfl⟩
  · exact answerBy l r.state r.waiter body hr.asked
  · have : Within R (Host.becomeReady s p m body) := inferInstance
    show Within R (Host.answerBy Host.react l (.str m.name) (some (.ready s p m)) none body)
    unfold Host.answerBy Host.react
    infer_instance

/-! ## Steps on hosts whose seats are good -/

end

end Postal

/-- If the seats were good they still are, and the host has moved along the relation. -/
def Given (R : Host → Host → Prop) (h h' : Host) : Prop :=
  h.board.Neat True → h'.board.Neat True ∧ R h h'

namespace Given

variable {R : Host → Host → Prop}

theorem of_keeps {a : Action α} (hk : Within (Keeps True) a) (hr : Within R a) :
    Within (Given R) a :=
  ⟨fun h hn => ⟨(hk.rel_after h hn).1, hr.rel_after h⟩⟩

variable [Std.Refl R] [IsTrans Host R]

instance : Std.Refl (Given R) := ⟨fun h hn => ⟨hn, Std.Refl.refl h⟩⟩

instance : IsTrans Host (Given R) :=
  ⟨fun _ _ _ h k hn => ⟨(k (h hn).1).1, trans_of R (h hn).2 (k (h hn).1).2⟩⟩

variable [hR : Postal R]

instance : Nearsighted (Given R) :=
  ⟨fun hv hm hl hw hn => ⟨by rw [board_of_view hv hm]; exact hn, hR.of_lanes hl hw⟩⟩

/-- The oldest request gets a response. -/
theorem deliverBy {l : Nat} (hfree : Free R l) (body : String) :
    Within (Given R) (Host.deliverBy Host.react l body) := by
  refine ⟨fun h hn => ⟨(neat_deliverBy hn (.inl trivial)).1, ?_⟩⟩
  unfold Host.deliverBy
  rw [after_bind_ok (run_lane l h)]
  cases hq : (h.laneOf l).queue with
  | nil => exact Within.rel_after h
  | cons r queue =>
    obtain ⟨a, ha, haq⟩ := seat?_of_queue hn hq
    have hr : r.IsAsked ∨ ∃ s p m, r = .startup s p m :=
      ((hn.good l a ha).head_cases haq).2.imp And.left fun ⟨p, m, e, _⟩ => ⟨l, p, m, e⟩
    have : Within R (answerBy react l r.state r.reaction r.waiter body) := Postal.answered l hr body
    have : Within R (changeLane l fun a => { a with queue }) := hfree.keep fun _ => rfl
    exact Within.rel_after h

/-- Output is taken. -/
theorem feed {l : Nat} (hfree : Free R l) (bytes : List UInt8) :
    Within (Given R) (Host.feed l bytes) := by
  have hkeep {f : Lane → Lane} (hk : Within (Keeps True) (changeLane l f))
      (hf : ∀ a, (f a).process = a.process) : Within (Given R) (changeLane l f) :=
    of_keeps hk (hfree.keep hf)
  have (n : Nat) : Within (Given R) (changeLane l fun a => { a with scanned := n }) :=
    hkeep inferInstance fun _ => rfl
  have : Within (Given R) (changeLane l fun a => { a with buffer := a.buffer ++ bytes }) :=
    hkeep inferInstance fun _ => rfl
  have (n : Nat) : Within (Given R) (changeLane l fun a =>
      { a with buffer := a.buffer.drop n, scanned := a.buffer.length - n }) :=
    hkeep inferInstance fun _ => rfl
  have (body : String) : Within (Given R) (Host.deliverBy Host.react l body) := deliverBy hfree body
  infer_instance

instance endExchange (q : Nat) (e : Ending) : Within (Given R) (Host.endExchange q e) := by
  refine ⟨fun h hn => ⟨((Keeps.endExchange q e).rel_after h hn).1, ?_⟩⟩
  unfold Host.endExchange
  split
  · exact Within.rel_after h
  · rw [after_bind_ok (Guards.run_query q h)]
    generalize hx : (h.queries.get? q).getD _ = x
    have (body : String) : Within R (answer x.channel x.state x.reaction x.waiter body) :=
      Postal.answerBy _ _ _ _ (Keeps.query_asked hn hx)
    exact Within.rel_after h
  · exact Within.rel_after h
  · exact Within.rel_after h

/-- A query ends with an answer, or otherwise; its asker was a caller. -/
theorem exchanged {f : Frame} (hf : f.exchanges = true) (e : Ending) :
    Within (Given R) (Host.resume f e) := by
  have (d : Binary64) : Within (Given R) (onLoop (·.newTimer d)) :=
    of_keeps inferInstance inferInstance
  cases f with
  | connected q => exact (inferInstance : Within (Given R) (Host.useConnection q e))
  | replied q c => exact (inferInstance : Within (Given R) (Host.readReply q c e))
  | _ => cases hf

/-- Whatever a frame does on a host whose seats are good. -/
theorem step {h : Host} (hn : h.board.Neat True) (f : Frame) (e : Ending)
    (hfree : ∀ l, f.handles? = some l → Free R l)
    (hattach : ∀ l m replay p, f = .launched l m replay → e = .value (.process p) →
      Within R (changeLane l (·.attach p))) : R h (after (Host.resume f e) h) := by
  cases hx : f.exchanges with
  | true => exact ((exchanged hx e).rel_after h hn).2
  | false =>
    cases hl : f.handles? with
    | none => exact (Postal.resume hl hx e).rel_after h
    | some l =>
      by_cases hp : ∃ p, f = .pumped l p
      · obtain ⟨p, rfl⟩ := hp
        have (bytes : List UInt8) : Within (Given R) (Host.feed l bytes) := feed (hfree l rfl) bytes
        have : Within (Given R) (Host.pumped l p e) := inferInstance
        exact (this.rel_after h hn).2
      · exact (Postal.resume_of_handles hl (fun p e => hp ⟨p, e⟩) (hfree l hl) e
          (hattach l)).rel_after h

end Given

/-! ## Whatever happens -/

namespace Postal

variable {R : Host → Host → Prop} {h h' : Host}

theorem fire [hR : Postal R] (t : Timer) : R h (h.fire t) := hR.of_lanes rfl rfl

variable [Std.Refl R] [IsTrans Host R] [hR : Postal R]

/-- The next step of the loop, if that of a frame is known. -/
theorem tick (hstep : ∀ t e f below, h.loop.running = some (t, e) →
    h.loop.stack? t = some (f :: below) → R h (after (Host.resume f e) h)) : R h h.tick := by
  rcases tick_cases h with ⟨t, e, f, below, hrun, hs, e'⟩ | ⟨t, e, -, -, e'⟩ | ⟨-, e'⟩ |
    ⟨j, jobs, -, -, e'⟩
  · rw [e', step_eq hs]
    have hgo (k : Host) (l : Loop Value Failure Frame) : R k { k with loop := l } :=
      hR.of_lanes rfl rfl
    exact trans_of R (hstep t e f below hrun hs) (hgo _ _)
  · rw [e']
    exact hR.of_lanes rfl rfl
  · rw [e']
    exact Std.Refl.refl h
  · rw [e']
    cases j with
    | notify q =>
      rw [beginJob_notify]
      have hbegin : R h { h with loop := { h.loop with jobs } } := hR.of_lanes rfl rfl
      exact trans_of R hbegin (Within.rel_after _)
    | _ => exact hR.of_lanes rfl rfl

theorem outside {P : Reaction → Prop} (ho : Outside P h h') : R h h' := by
  cases ho with
  | world | time => exact hR.of_lanes rfl rfl
  | _ => exact Within.rel_after h

end Postal

/-! ## Requests that are queued -/

/-- Requests may come behind the others of a lane, and else it is left alone. -/
def Lengthens (s : Nat) (h h' : Host) : Prop :=
  ∀ a, h.lanes.get? s = some a →
    ∃ rs, h'.lanes.get? s = some { a with queue := a.queue ++ rs }

instance (s : Nat) : Std.Refl (Lengthens s) := ⟨fun _ a ha => ⟨[], by rw [List.append_nil]; exact ha⟩⟩

instance (s : Nat) : IsTrans Host (Lengthens s) where
  trans h₁ h₂ h₃ h k := fun a ha => by
    obtain ⟨rs, hb⟩ := h a ha
    obtain ⟨rs', hc⟩ := k _ hb
    exact ⟨rs ++ rs', by rw [← List.append_assoc]; exact hc⟩

theorem Lengthens.of_lanes {s : Nat} {h h' : Host} (e : h'.lanes = h.lanes) : Lengthens s h h' :=
  fun a ha => ⟨[], by rw [e, List.append_nil]; exact ha⟩

/-- What is written does not change the lanes. -/
theorem lanes_writeLine (l : Nat) (command : String) (h : Host) :
    (after (writeLine l command) h).lanes = h.lanes := by
  obtain ⟨p, h', -, e, hw⟩ | ⟨x, e⟩ := writeLine_spec l command h
  · rw [after_of_ok e, show h' = _ from hw]
    rfl
  · rw [after_of_error e]

instance (s : Nat) : Postal (Lengthens s) where
  of_lanes e _ := .of_lanes e
  writeLine l command := ⟨fun h => .of_lanes (lanes_writeLine l command h)⟩
  push l r := ⟨fun h a ha => by
    have e : (after (changeLane l (·.push r)) h).lanes.get? s =
      (h.lanes.modify l (·.push r)).get? s := rfl
    rw [e, Table.get?_modify, ha]
    split
    · exact ⟨[r], rfl⟩
    · exact ⟨[], by rw [List.append_nil]⟩⟩
  pushLane key marker e _ := fun a ha => by
    rw [e, Table.get?_push, if_neg (Nat.ne_of_lt (Table.lt_size_of_get? ha))]
    exact ⟨[], by rw [List.append_nil]; exact ha⟩

/-- Another lane may change in any way. -/
theorem Lengthens.other {s l : Nat} (hl : l ≠ s) (f : Lane → Lane) :
    Within (Lengthens s) (changeLane l f) :=
  ⟨fun h a ha => ⟨[], by
    have e : (after (changeLane l f) h).lanes.get? s = (h.lanes.modify l f).get? s := rfl
    rw [e, Table.get?_modify, if_neg hl, List.append_nil]
    exact ha⟩⟩

/-! ## Processes that nobody has -/

/-- No lane has the process, and nothing was written to it. -/
structure Untouched (q : Nat) (h : Host) : Prop where
  unattached : ∀ l, (h.laneOf l).process ≠ some q
  unwritten : ∀ w ∈ h.journal.writes, w.1 ≠ q

/-- A process that is no lane's is not attached, and nothing is written to it. -/
def Spares (q : Nat) (h h' : Host) : Prop := Untouched q h → Untouched q h'

instance (q : Nat) : Std.Refl (Spares q) := ⟨fun _ hu => hu⟩

instance (q : Nat) : IsTrans Host (Spares q) := ⟨fun _ _ _ h k hu => k (h hu)⟩

theorem laneOf_congr {h h' : Host} (e : h'.lanes = h.lanes) (l : Nat) : h'.laneOf l = h.laneOf l := by
  rw [laneOf, laneOf, e]

theorem Spares.of_lanes {q : Nat} {h h' : Host} (e : h'.lanes = h.lanes)
    (ew : h'.journal.writes = h.journal.writes) : Spares q h h' := fun hu =>
  ⟨fun l => by rw [laneOf_congr e]; exact hu.unattached l, by rw [ew]; exact hu.unwritten⟩

/-- A lane changes, and no process is attached to it but perhaps another. -/
theorem Spares.changeLane {q l : Nat} {f : Lane → Lane}
    (hf : ∀ a, (f a).process = some q → a.process = some q) :
    Within (Spares q) (changeLane l f) :=
  ⟨fun h hu => ⟨fun i hp => by
    rw [laneOf_changeLane] at hp
    split at hp
    · exact hu.unattached i (hf _ hp)
    · exact hu.unattached i hp, hu.unwritten⟩⟩

theorem Spares.free (q l : Nat) : Free (Spares q) l where
  keep hf := changeLane fun a hp => (hf a).symm.trans hp
  detach := changeLane fun _ hp => by cases hp

instance (q : Nat) : Postal (Spares q) where
  of_lanes e ew := .of_lanes e ew
  writeLine l command := ⟨fun h hu => by
    obtain ⟨p, h', hp, e, hw⟩ | ⟨x, e⟩ := writeLine_spec l command h
    · rw [after_of_ok e, show h' = _ from hw]
      refine ⟨hu.unattached, fun w hmem => ?_⟩
      rcases List.mem_append.1 hmem with hmem | hmem
      · exact hu.unwritten w hmem
      · rw [List.mem_singleton.1 hmem]
        rintro rfl
        exact hu.unattached l hp
    · rw [after_of_error e]
      exact hu⟩
  push l r := Spares.changeLane fun _ hp => hp
  pushLane key marker e ew := fun hu => by
    refine ⟨fun l hp => ?_, by rw [ew]; exact hu.unwritten⟩
    rw [laneOf, e, Table.get?_push] at hp
    split at hp
    · cases hp
    · exact hu.unattached l hp

end Host

end GhciHost
