import GhciHost.Proofs.Lane.Frames
import GhciHost.Proofs.Lane.Plan

/-!
# From output to deliveries

`deliverEach` delivers texts one after the other.  Output that a lane takes comes to just this,
for the responses that the output completes and until a process is attached: all that is
cut, searched and counted on the side is seen by no asker.

* `run_deliverFrom`   the loop of a feed, between any two of its deliveries;
* `run_feedBy`   a feed.
-/

namespace GhciHost.Host

/-- Deliver texts in order. -/
def deliverEach (ask : Asker) (l : Nat) : List String → Action Unit
  | [] => pure ()
  | body :: bodies => do
    deliverBy ask l body
    deliverEach ask l bodies

instance (ask : Asker) (l : Nat) (bodies : List String) : Succeeds (deliverEach ask l bodies) := by
  induction bodies with
  | nil => exact Succeeds.pure ()
  | cons body bodies ih => exact Succeeds.bind _ _

instance {L : Likeness} (ask : Asker) [∀ l state body r, Respects L (ask l state body r)] (l : Nat)
    (bodies : List String) : Respects L (deliverEach ask l bodies) := by
  induction bodies with
  | nil => exact Respects.pure ()
  | cons body bodies ih => exact Respects.bind _ _

instance {R : Host → Host → Prop} [Std.Refl R] [IsTrans Host R] (ask : Asker) (l : Nat)
    [∀ body, Within R (deliverBy ask l body)] (bodies : List String) :
    Within R (deliverEach ask l bodies) := by
  induction bodies with
  | nil => exact Within.pure ()
  | cons body bodies ih => exact Within.bind _ _

theorem after_deliverEach_cons (ask : Asker) (l : Nat) (body : String) (bodies : List String)
    (h : Host) :
    after (deliverEach ask l (body :: bodies)) h =
      after (deliverEach ask l bodies) (after (deliverBy ask l body) h) := by
  rw [deliverEach, after_bind, Succeeds.run_unit]

theorem after_deliverEach_append (ask : Asker) (l : Nat) (bodies bodies' : List String)
    (h : Host) :
    after (deliverEach ask l (bodies ++ bodies')) h =
      after (deliverEach ask l bodies') (after (deliverEach ask l bodies) h) := by
  induction bodies generalizing h with
  | nil => rfl
  | cons body bodies ih =>
    rw [List.cons_append, after_deliverEach_cons, ih, ← after_deliverEach_cons]

/-! ## The loop -/

/-- The texts of the responses in some output. -/
def bodiesIn (marker : UInt8) (bytes : List UInt8) : List String :=
  (Lane.frames marker bytes).1.map bodyOf

theorem bodiesIn_append (marker : UInt8) (a b : List UInt8) :
    bodiesIn marker (a ++ b) =
      bodiesIn marker a ++ bodiesIn marker ((Lane.frames marker a).2 ++ b) := by
  rw [bodiesIn, Lane.frames_append, List.map_append, bodiesIn, bodiesIn]

theorem length_bodiesIn (marker : UInt8) (bytes : List UInt8) :
    (bodiesIn marker bytes).length = bytes.count marker := by
  rw [bodiesIn, List.length_map, Lane.length_frames]

/-- How the loop leaves a lane whose buffer it searched, when `n` responses were delivered. -/
structure LoopEnd (buffer : List UInt8) (start n : Nat) (left : Option Nat) (a b : Lane) :
    Prop where
  key : b.key = a.key
  marker : b.marker = a.marker
  /-- All were delivered, and what is left is in the buffer. -/
  kept : ∀ i, left = some i → n = (bodiesIn a.marker (buffer.drop start)).length ∧
    b.attachments = a.attachments ∧ b.buffer = buffer ∧ i ≤ buffer.length ∧
      buffer.drop i = (Lane.frames a.marker (buffer.drop start)).2
  /-- A process was attached. -/
  lost : left = none → a.attachments < b.attachments ∧ b.buffer = [] ∧ b.scanned = 0

section Loop

variable {L : Likeness} (ask : Asker) {l : Nat}
variable [∀ l state body r, Respects L (ask l state body r)]
variable [∀ state body r, Within LoyalHost (ask l state body r)]

theorem Likeness.Alike.changeLane_right {h k : Host} (ha : L.Alike h k) {f : Lane → Lane}
    (hf : ∀ {a b}, L.lane l a b → L.lane l a (f b)) : L.Alike h (after (changeLane l f) k) where
  loop := ha.loop
  metrics := ha.metrics
  lanes := fun i => by
    have hi := ha.lanes i
    have e : (after (changeLane l f) k).lanes.get? i = (k.lanes.modify l f).get? i := rfl
    rw [e, Table.get?_modify]
    split
    · next e =>
      subst e
      revert hi
      generalize h.lanes.get? l = x
      generalize k.lanes.get? l = y
      rintro (hab | _)
      · exact .some (hf hab)
      · exact .none
    · exact hi
  rest := by rw [ha.rest]; rfl

/-- The host when the response that ends at a place of the buffer was delivered. -/
def deliveredTo (ask : Asker) (l i : Nat) (body : String) (k : Host) : Host :=
  after (deliverBy ask l body) (after (changeLane l fun lane => { lane with scanned := i + 1 }) k)

omit [∀ l state body r, Respects L (ask l state body r)]
  [∀ state body r, Within LoyalHost (ask l state body r)] in
theorem run_deliverFrom_none (ask : Asker) (l attachments start : Nat) {marker : UInt8}
    {buffer : List UInt8} {scanned : Nat} (hf : Lane.find? marker buffer scanned = none) (k : Host) :
    (deliverFrom ask l attachments marker buffer start scanned).run k = .ok (0, some start) k := by
  rw [deliverFrom]
  split
  · rfl
  · next hs => rw [hf] at hs; cases hs

omit [∀ l state body r, Respects L (ask l state body r)]
  [∀ state body r, Within LoyalHost (ask l state body r)] in
theorem run_deliverFrom_some (l attachments start : Nat) {marker : UInt8} {buffer : List UInt8}
    {scanned i : Nat} (hf : Lane.find? marker buffer scanned = some i) {k k' : Host}
    (hk : deliveredTo ask l i (bodyOf ((buffer.drop start).take (i - start))) k = k') :
    (deliverFrom ask l attachments marker buffer start scanned).run k =
      if (k'.laneOf l).attachments = attachments then
        ((fun r => (r.1 + 1, r.2)) <$>
          deliverFrom ask l attachments marker buffer (i + 1) (i + 1)).run k'
      else .ok (1, none) k' := by
  subst hk
  rw [deliverFrom]
  split
  · next hn => rw [hf] at hn; cases hn
  · next j hj =>
    obtain rfl : i = j := Option.some.inj (hf.symm.trans hj)
    dsimp only
    rw [run_bind_ok (Succeeds.run_unit ..), run_bind_ok (Succeeds.run_unit ..),
      run_bind_ok (run_lane ..)]
    unfold deliveredTo
    split <;> rfl

/-- The loop of a feed delivers the responses in the buffer from `start` on, of which nothing
    before `scanned` has to be searched again. -/
theorem run_deliverFrom {marker : UInt8} {buffer : List UInt8}
    (hL : ∀ {a b} n, L.lane l a b → L.lane l a { b with scanned := n }) {start scanned : Nat}
    (hle : start ≤ scanned) (hlen : start ≤ buffer.length)
    (hc : marker ∉ (buffer.drop start).take (scanned - start)) {h k : Host} (ha : L.Alike h k)
    (hl : l < k.lanes.size) (hm : (k.laneOf l).marker = marker)
    (hb : (k.laneOf l).buffer = buffer) :
    ∃ n left k', (deliverFrom ask l (k.laneOf l).attachments marker buffer start scanned).run k =
        .ok (n, left) k' ∧
      L.Alike (after (deliverEach ask l ((bodiesIn marker (buffer.drop start)).take n)) h) k' ∧
      k'.lanes.size = k.lanes.size ∧
      LoopEnd buffer start n left (k.laneOf l) (k'.laneOf l) := by
  induction hd : buffer.length - scanned using Nat.strongRecOn
    generalizing start scanned h k with
  | _ d ih =>
  cases hf : Lane.find? marker buffer scanned with
  -- There is no further response.
  | none =>
    have hfr := Lane.frames_of_find?_none hle hc hf
    refine ⟨0, some start, k, run_deliverFrom_none _ _ _ _ hf k, ha, rfl, rfl, rfl, fun i e => ?_, nofun⟩
    cases e
    rw [hm, bodiesIn, hfr]
    exact ⟨rfl, rfl, hb, hlen, rfl⟩
  | some i =>
    have hlt := Lane.find?_lt hf
    have hfr := Lane.frames_of_find? hle hc hf
    have hbodies : bodiesIn marker (buffer.drop start) =
        bodyOf ((buffer.drop start).take (i - start)) ::
          bodiesIn marker (buffer.drop (i + 1)) := by
      rw [bodiesIn, hfr, List.map_cons, bodiesIn]
    -- what was searched is noted, and the response is delivered
    let k₁ := after (changeLane l fun lane => { lane with scanned := i + 1 }) k
    let body := bodyOf ((buffer.drop start).take (i - start))
    obtain ⟨k₂, hk₂⟩ : ∃ k₂, deliveredTo ask l i body k = k₂ := ⟨_, rfl⟩
    have hrun := run_deliverFrom_some ask l (k.laneOf l).attachments start hf hk₂
    have hk₁ : k₁.laneOf l = { k.laneOf l with scanned := i + 1 } := by
      rw [laneOf_changeLane, if_pos ⟨rfl, hl⟩]
    have ha₂ : L.Alike (after (deliverBy ask l body) h) k₂ :=
      hk₂ ▸ (Respects.agree (a := deliverBy ask l body) (ha.changeLane_right (hL _))).after
    have hloyal : LoyalHost k₁ k₂ := hk₂ ▸ Within.rel_after k₁
    have hs₂ : k₂.lanes.size = k.lanes.size := hloyal.size.trans (Table.size_modify ..)
    have hlane := hloyal.lane l
    rw [hk₁] at hlane
    by_cases hatt : (k₂.laneOf l).attachments = (k.laneOf l).attachments
    -- The buffer is still there, and is searched on.
    · rw [if_pos hatt] at hrun
      obtain ⟨n, left, k', hrun', ha', hs', hend⟩ :=
        ih (buffer.length - (i + 1)) (by omega) (Nat.le_refl (i + 1)) (by omega) (by simp) ha₂
          (by omega) (hlane.marker.trans hm) ((hlane.same hatt).1.trans hb) rfl
      rw [hatt] at hrun'
      refine ⟨n + 1, left, k', ?_, ?_, hs'.trans hs₂, ?_⟩
      · rw [hrun, map_eq_pure_bind, run_bind_ok hrun']
        rfl
      · rwa [hbodies, List.take_succ_cons, after_deliverEach_cons]
      · refine ⟨hend.key.trans hlane.key, hend.marker.trans hlane.marker, fun j e => ?_, fun e => ?_⟩
        · obtain ⟨hn, hatt', hb', hj, hrest⟩ := hend.kept j e
          rw [hlane.marker, hm] at hn hrest
          rw [hm, hfr, hbodies, List.length_cons, hn]
          exact ⟨rfl, hatt'.trans hatt, hb', hj, hrest⟩
        · obtain ⟨hatt', hb', hs⟩ := hend.lost e
          exact ⟨hatt ▸ hatt', hb', hs⟩
    -- A process was attached, so the other responses are dropped.
    · rw [if_neg hatt] at hrun
      refine ⟨1, none, k₂, hrun, ?_, hs₂, hlane.key, hlane.marker, nofun, fun _ => ?_⟩
      · rw [hbodies, List.take_succ_cons, List.take_zero, after_deliverEach_cons]
        exact ha₂
      · obtain ⟨hb', hs⟩ := hlane.anew hatt
        exact ⟨Nat.lt_of_le_of_ne hlane.le (Ne.symm hatt), hb', hs⟩

end Loop

/-! ## Feeds -/

/-- The host when output was counted and put into the buffer. -/
def received (l : Nat) (bytes : List UInt8) (h : Host) : Host :=
  after (changeLane l fun lane => { lane with buffer := lane.buffer ++ bytes })
    (after (count (h.laneOf l).key (.bytes bytes.length)) h)

theorem laneOf_received {l : Nat} {h : Host} (hl : l < h.lanes.size) (bytes : List UInt8) :
    (received l bytes h).laneOf l =
      { h.laneOf l with buffer := (h.laneOf l).buffer ++ bytes } := by
  rw [received, laneOf_changeLane, if_pos ⟨rfl, hl⟩]
  rfl

/-- Keep what is left of the buffer, if it still counts. -/
def keepFrom (l : Nat) : Option Nat → Action Unit
  | some start => changeLane l fun lane =>
      { lane with buffer := lane.buffer.drop start, scanned := lane.buffer.length - start }
  | none => pure ()

/-- A feed of something is the loop, from where the last search ended. -/
theorem run_feedBy_eq (ask : Asker) (l : Nat) {bytes : List UInt8} (hb : bytes ≠ []) {h h' : Host}
    (hh : received l bytes h = h') :
    (feedBy ask l bytes).run h =
      (deliverFrom ask l (h'.laneOf l).attachments (h'.laneOf l).marker (h'.laneOf l).buffer 0
        (h'.laneOf l).scanned >>= fun r => keepFrom l r.2 >>= fun _ => pure r.1).run h' := by
  subst hh
  rw [feedBy, if_neg (by simpa using hb), run_bind_ok (run_lane ..),
    run_bind_ok (Succeeds.run_unit ..), run_bind_ok (Succeeds.run_unit ..), run_bind_ok (run_lane ..)]
  refine congrArg (fun f => (_ >>= f : Action Nat).run _) (funext fun r => ?_)
  obtain ⟨n, left⟩ := r
  cases left <;> rfl

end GhciHost.Host
