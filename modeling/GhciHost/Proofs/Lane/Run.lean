import GhciHost.Proofs.Lane.Delivery

/-!
# Runs of a lane

A run of a lane is any sequence of operations on it, of calls that begin or end otherwise than
by a response, and of changes among the worker processes.  Between them the lane is `Tidy`: all
of the buffer was searched, and there is no marker in it.

* `run_feedBy`   what a feed comes to on a tidy lane, whatever the askers do;
* `Reached.tidy`   a lane is tidy at all times between operations.
-/

namespace GhciHost

open Host

/-- What can happen to a lane. -/
inductive LaneOp
  | deed (d : Deed)
  /-- The lane takes output, and responses are given to askers that follow a policy. -/
  | feed (p : Policy) (bytes : List UInt8)
  /-- A call begins whose caller waits for the response. -/
  | call (command : String)
  /-- Something that is waited for ends: a call that is cancelled, or whose time is up. -/
  | settle (cell : Nat) (e : Ending)
  /-- The workers do something, or there are others. -/
  | world (f : Table Process → Table Process)

/-- Let something happen to a lane. -/
def LaneOp.run (l : Nat) : LaneOp → Action Unit
  | deed d => d.run l
  | feed p bytes => do let _ ← feedBy p.ask l bytes
  | call command => do
    let w ← newCell
    submit l command .null none (some w)
  | settle c e => finish c e
  | world f => modify fun h => { h with processes := f h.processes }

namespace Host

/-- A host with a new lane, or one on which anything happened to that lane. -/
inductive Reached (l : Nat) : Host → Prop
  | new {h : Host} (key : String) (marker : UInt8) (announces : Bool)
      (hl : h.lanes.get? l = some { key, marker, announces }) : Reached l h
  | op {h : Host} (hr : Reached l h) (op : LaneOp) : Reached l (after (op.run l) h)

/-- All of a lane's buffer was searched, and there is no marker in it. -/
structure Tidy (l : Nat) (h : Host) : Prop where
  lt : l < h.lanes.size
  searched : (h.laneOf l).scanned = (h.laneOf l).buffer.length
  not_mem : (h.laneOf l).marker ∉ (h.laneOf l).buffer

/-- What is loyal to the lanes keeps them tidy. -/
theorem Tidy.loyal {l : Nat} {h h' : Host} (ht : Tidy l h) (hl : LoyalHost h h') : Tidy l h' := by
  have lane := hl.lane l
  refine ⟨hl.size ▸ ht.lt, ?_, ?_⟩
  · by_cases e : (h'.laneOf l).attachments = (h.laneOf l).attachments
    · rw [(lane.same e).1, (lane.same e).2, ht.searched]
    · rw [(lane.anew e).1, (lane.anew e).2, List.length_nil]
  · by_cases e : (h'.laneOf l).attachments = (h.laneOf l).attachments
    · rw [lane.marker, (lane.same e).1]
      exact ht.not_mem
    · rw [(lane.anew e).1]
      exact List.not_mem_nil

/-! ## Feeds -/

/-- Hosts that differ in the buffer of a lane, and in `n` bytes that were counted. -/
def uncut (l : Nat) (key : String) (n : Int) : Likeness where
  loop := Eq
  metrics a b := b = a.map (·.record key (.bytes n))
  lane i a b := (∃ buffer scanned, b = { a with buffer, scanned }) ∧ (i ≠ l → b = a)
  lane_refl _ a := ⟨⟨a.buffer, a.scanned, rfl⟩, fun _ => rfl⟩
  loop_finish c e h := h ▸ rfl
  loop_newCell h := h ▸ ⟨rfl, rfl⟩
  metrics_record key' what h := by
    subst h
    simp only [Option.map_map]
    exact congrArg (Option.map · _) (funext fun m => (m.record_bytes_comm key key' what n).symm)
  lane_same h := h.1
  lane_push r := fun ⟨⟨buffer, scanned, e⟩, he⟩ =>
    ⟨⟨buffer, scanned, e ▸ rfl⟩, fun hne => he hne ▸ rfl⟩
  lane_attach p := fun ⟨⟨_, _, e⟩, he⟩ => ⟨⟨[], 0, e ▸ rfl⟩, fun hne => he hne ▸ rfl⟩
  lane_detach := fun ⟨⟨buffer, scanned, e⟩, he⟩ =>
    ⟨⟨buffer, scanned, e ▸ rfl⟩, fun hne => he hne ▸ rfl⟩
  lane_queue q := fun ⟨⟨buffer, scanned, e⟩, he⟩ =>
    ⟨⟨buffer, scanned, e ▸ rfl⟩, fun hne => he hne ▸ rfl⟩

theorem uncut_refl (l : Nat) (key : String) (h : Host) : (uncut l key 0).Alike h h where
  loop := rfl
  metrics := by simp [uncut]
  lanes i := by
    cases h.lanes.get? i with
    | none => exact .none
    | some a => exact .some ((uncut l key 0).lane_refl i a)
  rest := rfl

/-- What is counted is all that a count changes. -/
theorem uncut_count {l : Nat} {key : String} {n : Int} {h k : Host} (ha : (uncut l key n).Alike h k)
    (m : Int) : (uncut l key (n + m)).Alike h (after (count key (.bytes m)) k) where
  loop := ha.loop
  metrics := by
    have e : k.metrics = h.metrics.map (·.record key (.bytes n)) := ha.metrics
    have e' : (after (count key (.bytes m)) k).metrics = k.metrics.map (·.record key (.bytes m)) :=
      rfl
    rw [e', e, Option.map_map]
    exact congrArg (Option.map · _) (funext fun c => c.record_bytes_bytes key n m)
  lanes := ha.lanes
  rest := by rw [ha.rest]; rfl

/-- The buffer of the lane may be any. -/
theorem uncut_changeLane {l : Nat} {key : String} {n : Int} {h k : Host}
    (ha : (uncut l key n).Alike h k) (buffer : Lane → List UInt8) (scanned : Lane → Nat) :
    (uncut l key n).Alike h
      (after (changeLane l fun a => { a with buffer := buffer a, scanned := scanned a }) k) :=
  ha.changeLane_right fun {_ b} ⟨⟨_, _, e⟩, _⟩ => ⟨⟨buffer b, scanned b, e ▸ rfl⟩, nofun⟩

theorem uncut_scanned {l : Nat} {key : String} {n : Int} {a b : Lane} (scanned : Nat)
    (h : (uncut l key n).lane l a b) : (uncut l key n).lane l a { b with scanned } := by
  obtain ⟨⟨buffer, _, e⟩, -⟩ := h
  exact ⟨⟨buffer, scanned, e ▸ rfl⟩, nofun⟩

/-- How a feed leaves a lane, when `n` responses were delivered. -/
structure FeedEnd (buffer : List UInt8) (n : Nat) (a b : Lane) : Prop where
  key : b.key = a.key
  marker : b.marker = a.marker
  kept : b.attachments = a.attachments → n = (bodiesIn a.marker buffer).length ∧
    b.buffer = (Lane.frames a.marker buffer).2
  /-- A process was attached, and its output starts afresh. -/
  anew : b.attachments ≠ a.attachments → b.buffer = [] ∧ b.scanned = 0

section Feed

variable (ask : Asker) {l : Nat} {key : String}
variable [∀ n l' state body r, Respects (uncut l key n) (ask l' state body r)]
variable [∀ state body r, Within LoyalHost (ask l state body r)]

/-- What a feed comes to on a tidy lane: deliveries, as long as no process is attached. -/
theorem run_feedBy {d : Int} {h k : Host} (ha : (uncut l key d).Alike h k) (ht : Tidy l k)
    (hk : (k.laneOf l).key = key) (bytes : List UInt8) :
    ∃ n k', (feedBy ask l bytes).run k = .ok n k' ∧
      (uncut l key (d + bytes.length)).Alike (after (deliverEach ask l
        ((bodiesIn (k.laneOf l).marker ((k.laneOf l).buffer ++ bytes)).take n)) h) k' ∧
      Tidy l k' ∧ FeedEnd ((k.laneOf l).buffer ++ bytes) n (k.laneOf l) (k'.laneOf l) := by
  cases bytes with
  -- No output is no feed: nothing is searched or counted.
  | nil =>
    have hfr := Lane.frames_of_not_mem ht.not_mem
    refine ⟨0, k, rfl, ?_, ht, rfl, rfl, fun _ => ?_, fun hne => absurd rfl hne⟩
    · simpa [deliverEach, after] using ha
    · rw [List.append_nil, bodiesIn, hfr]
      exact ⟨rfl, rfl⟩
  | cons b bs =>
    have hne : b :: bs ≠ [] := List.cons_ne_nil _ _
    generalize b :: bs = bytes at hne ⊢
    obtain ⟨buffer, hbuffer⟩ : ∃ buffer, (k.laneOf l).buffer ++ bytes = buffer := ⟨_, rfl⟩
    obtain ⟨k₂, hk₂⟩ : ∃ k₂, received l bytes k = k₂ := ⟨_, rfl⟩
    have ha₂ : (uncut l key (d + bytes.length)).Alike h k₂ := by
      subst hk hk₂
      exact uncut_changeLane (uncut_count ha _) _ _
    have hlane : k₂.laneOf l = { k.laneOf l with buffer } := by
      rw [← hk₂, ← hbuffer, laneOf_received ht.lt]
    have hlt : l < k₂.lanes.size := hk₂ ▸ Nat.lt_of_lt_of_eq ht.lt (Table.size_modify ..).symm
    have hc : (k.laneOf l).marker ∉ (buffer.drop 0).take ((k.laneOf l).scanned - 0) := by
      simpa [← hbuffer, ht.searched] using ht.not_mem
    obtain ⟨n, left, k₃, hloop, ha₃, hsize, hend⟩ :=
      run_deliverFrom ask uncut_scanned (Nat.zero_le _) (Nat.zero_le _) hc ha₂ hlt
        (by rw [hlane]) (by rw [hlane])
    rw [hlane] at hloop hend
    have hrun := run_feedBy_eq ask l hne hk₂
    rw [hlane, run_bind_ok hloop] at hrun
    have hlt₃ : l < k₃.lanes.size := hsize ▸ hlt
    rw [hbuffer]
    cases left with
    -- A process was attached, and the lane is as the attachment left it.
    | none =>
      obtain ⟨hatt, hb₃, hs₃⟩ := hend.lost rfl
      refine ⟨n, k₃, hrun, ha₃, ⟨hlt₃, ?_, ?_⟩, hend.key, hend.marker, fun e => ?_,
        fun _ => ⟨hb₃, hs₃⟩⟩
      · rw [hb₃, hs₃, List.length_nil]
      · rw [hb₃]
        exact List.not_mem_nil
      · exact absurd e (Nat.ne_of_gt hatt)
    -- What comes after the last response is kept.
    | some start =>
      obtain ⟨hn, hatt, hb₃, hle, hrest⟩ := hend.kept start rfl
      let k' := after (changeLane l fun lane =>
        { lane with buffer := lane.buffer.drop start, scanned := lane.buffer.length - start }) k₃
      have hlane' : k'.laneOf l =
          { k₃.laneOf l with buffer := buffer.drop start, scanned := buffer.length - start } := by
        rw [laneOf_changeLane, if_pos ⟨rfl, hlt₃⟩, hb₃]
      refine ⟨n, k', hrun, uncut_changeLane ha₃ _ _, ⟨?_, ?_, ?_⟩, ?_, ?_, fun e => ?_,
        fun hne => ?_⟩
      · exact Nat.lt_of_lt_of_eq hlt₃ (Table.size_modify ..).symm
      · rw [hlane', List.length_drop]
      · rw [hlane', hend.marker]
        exact hrest ▸ (Lane.not_mem_frames buffer).2
      · rw [hlane']
        exact hend.key
      · rw [hlane']
        exact hend.marker
      · rw [hlane']
        exact ⟨hn, hrest⟩
      · rw [hlane'] at hne
        exact absurd hatt hne

end Feed

/-! ## Between operations -/

theorem laneOf_of_get? {h : Host} {l : Nat} {lane : Lane} (hl : h.lanes.get? l = some lane) :
    h.laneOf l = lane := by
  rw [laneOf, hl, Option.getD_some]

/-- A feed leaves the lane tidy, whatever the askers do. -/
theorem Tidy.feed {l : Nat} {h : Host} (ht : Tidy l h) (p : Policy) (bytes : List UInt8) :
    Tidy l (after (feedBy p.ask l bytes) h) := by
  obtain ⟨n, k, hrun, -, hk, -⟩ := run_feedBy p.ask (uncut_refl l _ h) ht rfl bytes
  rw [after_of_ok hrun]
  exact hk

theorem after_bind_unit (a : Action α) (h : Host) : after (do let _ ← a) h = after a h := by
  rw [after_bind]
  cases e : a.run h with
  | ok v h' => rw [after_of_ok e]; rfl
  | error f h' => rw [after_of_error e]

/-- Nothing but a feed takes output out of a lane, unless a process is attached. -/
theorem loyal_op (l : Nat) {op : LaneOp} (hop : ∀ p bytes, op ≠ .feed p bytes) (h : Host) :
    LoyalHost h (after (op.run l) h) := by
  cases op with
  | deed d => exact Within.rel_after (a := d.run l) h
  | feed p bytes => exact absurd rfl (hop p bytes)
  | call command =>
    have (w : Nat) : Within LoyalHost (submit l command .null none (some w)) := inferInstance
    have : Within LoyalHost (LaneOp.run l (.call command)) := by
      unfold LaneOp.run
      infer_instance
    exact Within.rel_after h
  | settle c e => exact Within.rel_after (a := finish c e) h
  | world f =>
    have : Within (Same cuts) (LaneOp.run l (.world f)) := still_modify fun _ => rfl
    exact Within.rel_after h

/-- A lane is tidy at all times between operations. -/
theorem Reached.tidy {l : Nat} {h : Host} (hr : Reached l h) : Tidy l h := by
  induction hr with
  | new key marker announces hl =>
    refine ⟨Table.lt_size_of_get? hl, ?_, ?_⟩ <;> rw [laneOf_of_get? hl]
    · rfl
    · exact List.not_mem_nil
  | op hr op ih =>
    by_cases hop : ∃ p bytes, op = .feed p bytes
    · obtain ⟨p, bytes, rfl⟩ := hop
      rw [LaneOp.run, after_bind_unit]
      exact ih.feed p bytes
    · exact ih.loyal (loyal_op l (fun p bytes e => hop ⟨p, bytes, e⟩) _)

end Host

end GhciHost
