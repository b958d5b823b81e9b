import GhciHost.Proofs.Lane.Chunks
import GhciHost.Proofs.Lane.History
import GhciHost.Proofs.Loop.Cells

/-!
# Requests are answered in order

Of all that can happen to a lane nothing brings its requests out of order, loses one or answers
one twice.  A request that is refused leaves no trace, and a caller who no longer waits leaves
the places of all others as they are.

* `history_settle`   what a caller who no longer waits changes: nothing but its own cell;
* `requests_in_order`   the order of requests, their number, and what was written for them.
-/

namespace GhciHost.Host

/-! ## Without one who waits -/

/-- Hosts that differ in what the loop knows of one cell, and in what is due. -/
def butFor (w : Nat) : Likeness where
  loop l m := m.cells.size = l.cells.size ∧ ∀ c, c ≠ w → m.outcome? c = l.outcome? c
  metrics := Eq
  lane _ := Eq
  lane_refl _ _ := rfl
  loop_finish {l m} c e h := by
    refine ⟨by simp [h.1], fun d hd => ?_⟩
    rw [Loop.outcome?_finish, Loop.outcome?_finish, h.1, h.2 d hd]
    split
    · next hc => rw [h.2 c (hc.1 ▸ hd)]
    · rfl
  loop_newCell {l m} h := by
    refine ⟨h.1.symm, by simp [Loop.newCell, h.1], fun d hd => ?_⟩
    rw [Loop.outcome?_newCell_snd, Loop.outcome?_newCell_snd, h.2 d hd]
  metrics_record _ _ h := h ▸ rfl
  lane_same {_ a _} h := h ▸ ⟨a.buffer, a.scanned, rfl⟩
  lane_push _ h := h ▸ rfl
  lane_attach _ h := h ▸ rfl
  lane_detach h := h ▸ rfl
  lane_queue _ h := h ▸ rfl

section ButFor

variable {w : Nat}

theorem butFor_lanes {h k : Host} (ha : (butFor w).Alike h k) : k.lanes = h.lanes := by
  refine Table.ext fun i => ?_
  obtain ⟨e, e'⟩ | ⟨a, b, e, e', hab⟩ := ha.get? i
  · rw [e, e']
  · rw [e, e', show a = b from hab]

theorem butFor_laneOf {h k : Host} (ha : (butFor w).Alike h k) (l : Nat) :
    k.laneOf l = h.laneOf l := by
  rw [laneOf, laneOf, butFor_lanes ha]

instance (l : Nat) (f : Lane → Lane) : Respects (butFor w) (changeLane l f) :=
  Likeness.respects_changeLane l f fun e => congrArg f e

instance (l : Nat) : Respects (butFor w) (lane l) :=
  ⟨fun {h k} ha => by
    rw [run_lane, run_lane, butFor_laneOf ha]
    exact .ok _ ha⟩

instance (p : Policy) (l attachments : Nat) (marker : UInt8) (buffer : List UInt8)
    (start scanned : Nat) :
    Respects (butFor w) (deliverFrom p.ask l attachments marker buffer start scanned) := by
  induction hd : buffer.length - scanned using Nat.strongRecOn generalizing start scanned with
  | _ d ih =>
  rw [deliverFrom]
  split
  · infer_instance
  · next i hf =>
    have hlt := Lane.find?_lt hf
    have := ih (buffer.length - (i + 1)) (by omega) (i + 1) (i + 1) rfl
    infer_instance

instance (p : Policy) (l : Nat) (bytes : List UInt8) : Respects (butFor w) (feedBy p.ask l bytes) := by
  unfold feedBy
  have (left : Option Nat) (n : Nat) : Respects (butFor w) (match left with
      | some start => do
        changeLane l fun lane =>
          { lane with buffer := lane.buffer.drop start, scanned := lane.buffer.length - start }
        return n
      | none => return n : Action Nat) := by
    split <;> infer_instance
  infer_instance

instance (l : Nat) (op : LaneOp) : Respects (butFor w) (op.run l) := by
  cases op with
  | world f =>
    exact Likeness.respects_modify _ (fun _ => rfl) (fun _ => rfl) (fun _ => rfl) fun _ _ _ _ => rfl
  | _ => simp only [LaneOp.run]; infer_instance

/-! ## The same history -/

variable {h k : Host} {l : Nat}

theorem butFor_failure? (ha : (butFor w).Alike h k) (a : Action Unit) [Respects (butFor w) a] :
    failure? a k = failure? a h := by
  have e := Respects.agree (L := butFor w) (a := a) ha
  unfold failure?
  generalize a.run h = x at e
  generalize a.run k = y at e
  cases e <;> rfl

theorem butFor_after (ha : (butFor w).Alike h k) (a : Action α) [Respects (butFor w) a] :
    (butFor w).Alike (after a h) (after a k) :=
  (Respects.agree ha).after

theorem butFor_writing (ha : (butFor w).Alike h k) (a : Action Unit) [Respects (butFor w) a]
    (e : Nat → Entry) : writing a l k e = writing a l h e := by
  rw [writing, writing, butFor_failure? ha, butFor_laneOf ha]

theorem butFor_deed (ha : (butFor w).Alike h k) (d : Deed) : d.entries l k = d.entries l h := by
  cases d with
  | writeRaw command => exact butFor_writing ha _ _
  | submit command state reaction waiter => exact butFor_writing ha _ _
  | requeue r => exact butFor_writing ha _ _
  | take => rw [Deed.entries, Deed.entries, butFor_laneOf ha]
  | abandon e => rw [Deed.entries, Deed.entries, butFor_laneOf ha]
  | _ => rfl

theorem butFor_plan (ha : (butFor w).Alike h k) (p : Plan) : p.entries l k = p.entries l h := by
  induction p generalizing h k with
  | done => rfl
  | fail e => rfl
  | look next ih =>
    rw [Plan.entries, Plan.entries, ha.sightOf]
    exact ih _ ha
  | first d next ih =>
    rw [Plan.entries, Plan.entries, butFor_deed ha, butFor_failure? ha]
    exact congrArg _ (ih _ (butFor_after ha _))

theorem butFor_delivery (ha : (butFor w).Alike h k) (p : Policy) (body : String) :
    deliveryEntries p l body k = deliveryEntries p l body h := by
  rw [deliveryEntries, deliveryEntries, butFor_laneOf ha]
  cases (h.laneOf l).queue with
  | nil => rfl
  | cons r queue =>
    cases hr : r.reaction with
    | none => simp only [hr]
    | some x =>
      simp only [hr]
      rw [butFor_plan (butFor_after (butFor_after ha _) _)]

theorem butFor_loop (ha : (butFor w).Alike h k) (p : Policy) (attachments : Nat) (marker : UInt8)
    (buffer : List UInt8) (start scanned : Nat) :
    loopEntries p l attachments marker buffer start scanned k =
      loopEntries p l attachments marker buffer start scanned h := by
  induction hd : buffer.length - scanned using Nat.strongRecOn generalizing start scanned h k with
  | _ d ih =>
  cases hf : Lane.find? marker buffer scanned with
  | none => rw [loopEntries_none _ _ _ _ hf, loopEntries_none _ _ _ _ hf]
  | some i =>
    have hlt := Lane.find?_lt hf
    have ha₁ := butFor_after ha (changeLane l fun lane => { lane with scanned := i + 1 })
    have ha₂ := butFor_after ha₁ (deliverBy p.ask l (bodyOf ((buffer.drop start).take (i - start))))
    rw [loopEntries_some _ _ _ _ hf rfl, loopEntries_some _ _ _ _ hf rfl, butFor_delivery ha₁,
      deliveredTo, deliveredTo, butFor_laneOf ha₂, ih _ (by omega) ha₂ _ _ rfl]

theorem butFor_op (ha : (butFor w).Alike h k) (op : LaneOp) : op.entries l k = op.entries l h := by
  cases op with
  | deed d => exact butFor_deed ha d
  | feed p bytes =>
    rw [LaneOp.entries, LaneOp.entries, feedEntries, feedEntries]
    split
    · rfl
    · have ha' : (butFor w).Alike (received l bytes h) (received l bytes k) := by
        rw [received, received, butFor_laneOf ha]
        exact butFor_after (butFor_after ha _) _
      have e : (received l bytes k).laneOf l = (received l bytes h).laneOf l := butFor_laneOf ha' l
      unfold received at ha' e
      simp only [e, butFor_loop ha']
  | call command =>
    rw [LaneOp.entries, LaneOp.entries, ha.loop.1]
    exact butFor_writing (butFor_after ha newCell) _ _
  | settle c e => rfl
  | world f => rfl

theorem butFor_history (ha : (butFor w).Alike h k) (ops : List LaneOp) :
    history l ops k = history l ops h ∧
      (butFor w).Alike (afterOps l ops h) (afterOps l ops k) := by
  induction ops generalizing h k with
  | nil => exact ⟨rfl, ha⟩
  | cons op ops ih =>
    obtain ⟨e, ha'⟩ := ih (butFor_after ha (op.run l))
    exact ⟨by rw [history, history, butFor_op ha, e], ha'⟩

end ButFor

theorem history_append (l : Nat) (ops ops' : List LaneOp) (h : Host) :
    history l (ops ++ ops') h = history l ops h ++ history l ops' (afterOps l ops h) := by
  induction ops generalizing h with
  | nil => rfl
  | cons op ops ih => rw [List.cons_append, history, ih, history, afterOps, List.append_assoc]

theorem afterOps_append (l : Nat) (ops ops' : List LaneOp) (h : Host) :
    afterOps l (ops ++ ops') h = afterOps l ops' (afterOps l ops h) := by
  induction ops generalizing h with
  | nil => rfl
  | cons op ops ih => exact ih _

/-- The end of a cell is seen in no other. -/
theorem butFor_finish (w : Nat) (e : Ending) (h : Host) :
    (butFor w).Alike h (after (finish w e) h) where
  loop := ⟨Loop.size_cells_finish .., fun _ hc => Loop.outcome?_finish_of_ne e hc⟩
  metrics := rfl
  lanes i := by
    change Option.Rel Eq (h.lanes.get? i) (h.lanes.get? i)
    cases h.lanes.get? i with
    | none => exact .none
    | some a => exact .some rfl
  rest := rfl

/-- A caller who no longer waits keeps the place of its request: what becomes of all requests, and
    what comes to every other cell, is as if the caller waited on. -/
theorem history_settle (l w : Nat) (e : Ending) (before later : List LaneOp) (h : Host) :
    let h' := afterOps l (before ++ later) h
    let k' := afterOps l (before ++ .settle w e :: later) h
    history l (before ++ .settle w e :: later) h = history l (before ++ later) h ∧
      k' = { h' with loop := k'.loop } ∧
        ∀ c, c ≠ w → k'.loop.outcome? c = h'.loop.outcome? c := by
  obtain ⟨hh, ha⟩ := butFor_history (l := l) (butFor_finish w e (afterOps l before h)) later
  simp only [afterOps_append, history_append]
  refine ⟨congrArg _ hh, ?_, ha.loop.2⟩
  have hrest := ha.rest
  rw [show (afterOps l later (after (finish w e) (afterOps l before h))).metrics = _ from ha.metrics.symm,
    butFor_lanes ha] at hrest
  exact hrest

/-! ## In order -/

theorem Reached.afterOps {l : Nat} {h : Host} (hr : Reached l h) (ops : List LaneOp) :
    Reached l (afterOps l ops h) := by
  induction ops generalizing h with
  | nil => exact hr
  | cons op ops ih => exact ih (hr.op op)

/-- A request that is refused leaves no trace. -/
theorem submit_error {l : Nat} {command : String} {state : Json} {reaction : Option Reaction}
    {waiter : Option Nat} {h h' : Host} {e : Failure}
    (hrun : (submit l command state reaction waiter).run h = .error e h') : h' = h := by
  obtain ⟨p, h₁, -, -, hok⟩ | ⟨e', herr⟩ := submit_spec l command state reaction waiter h
  · rw [hok] at hrun
    cases hrun
  · rw [herr] at hrun
    cases hrun
    rfl

/-- The caller who waits for the oldest request gets the next response, unless the call is over. -/
theorem outcome?_deliverBy {ask : Asker} {l c : Nat} {h : Host} {r : Request}
    (hq : (h.laneOf l).queue.head? = some r) (hr : r.reaction = none) (hw : r.waiter = some c)
    (hc : c < h.loop.cells.size) (body : String) :
    (after (deliverBy ask l body) h).loop.outcome? c =
      some ((h.loop.outcome? c).getD (.value (.text body))) := by
  obtain ⟨queue, hq⟩ := List.head?_eq_some_iff.1 hq
  rw [deliverBy, after_bind, run_lane]
  simp only [hq, answerBy, hr, hw]
  exact Loop.outcome?_finish_self _ hc

/-- On every run of a new lane: what was appended has left in the order of appending, with a
    response or otherwise, or is pending in that order, and the oldest caller gets the next
    response; a request that is refused leaves no trace; what was written since a process was
    attached is what was appended since, in order, and went to that process; and a caller who no
    longer waits changes nothing but its own cell. -/
theorem requests_in_order {l : Nat} {h : Host} {key : String} {marker : UInt8} {announces : Bool}
    (hl : h.lanes.get? l = some { key, marker, announces }) (ops : List LaneOp) :
    let es := history l ops h
    let h' := afterOps l ops h
    (es.flatMap Entry.appended = es.flatMap Entry.departed ++ (h'.laneOf l).queue ∧
      (es.flatMap Entry.completed).Sublist (es.flatMap Entry.appended) ∧
      (es.flatMap Entry.appended).length =
        (es.flatMap Entry.completed).length + (es.flatMap Entry.withdrawn).length +
          (es.flatMap Entry.dropped).length + (h'.laneOf l).queue.length ∧
      ∀ ask body r c, (h'.laneOf l).queue.head? = some r → r.reaction = none → r.waiter = some c →
        c < h'.loop.cells.size → (after (deliverBy ask l body) h').loop.outcome? c =
          some ((h'.loop.outcome? c).getD (.value (.text body)))) ∧
    (∀ command state reaction waiter e h'',
      (submit l command state reaction waiter).run h' = .error e h'' → h'' = h') ∧
    (h'.journal.writes = h.journal.writes ++ es.flatMap Entry.lines ∧
      ∀ before p since, es = before ++ .attached p :: since → (∀ q, .attached q ∉ since) →
        since.flatMap Entry.submittedLines =
          (since.flatMap Entry.submitted).map fun r => (p, Entry.line r.command)) ∧
    (∀ before later w e, ops = before ++ later →
      let k' := afterOps l (before ++ .settle w e :: later) h
      history l (before ++ .settle w e :: later) h = es ∧ k' = { h' with loop := k'.loop } ∧
        ∀ c, c ≠ w → k'.loop.outcome? c = h'.loop.outcome? c) := by
  intro es h'
  have hrun := ledger_run (.new key marker announces hl) ops
  have hqueue := hrun.queue_eq
  have hnew : (ledgerOf l h).queue = [] := by rw [ledgerOf, laneOf_of_get? hl]
  rw [hnew, List.nil_append] at hqueue
  refine ⟨⟨hqueue, ?_, ?_, fun _ body _ _ hq hr hw hc => outcome?_deliverBy hq hr hw hc body⟩, fun _ _ _ _ _ _ => submit_error, ⟨hrun.writes_eq, ?_⟩, ?_⟩
  · rw [hqueue]
    exact (Ledger.completed_sublist_departed es).trans (List.sublist_append_left _ _)
  · rw [hqueue, List.length_append, Ledger.length_departed]
    rfl
  · intro before p since e hsince
    rw [show history l ops h = _ from e] at hrun
    exact hrun.lines_since hsince
  · rintro before later w e rfl
    exact history_settle l w e before later h

/-- A host with a new lane and a worker. -/
def laneAndWorker : Host :=
  { oneLane with processes := Table.push {} { responder := Responder.echo } }

/-- Two calls, of which the second is answered though nobody waits for the first any longer. -/
theorem requests_in_order_two_calls :
    let ops : List LaneOp := [.deed (.attach 0), .call ":t a", .call ":t b",
      .feed .usual [97, 4], .feed .usual [98, 4]]
    laneAndWorker.lanes.get? 0 = some { key := "ghci:/p", marker := 4 } ∧
      (history 0 ops laneAndWorker).flatMap Entry.appended =
        (history 0 ops laneAndWorker).flatMap Entry.departed ++
          ((afterOps 0 ops laneAndWorker).laneOf 0).queue ∧
      ∀ c, c ≠ 0 → (afterOps 0 ([.deed (.attach 0), .call ":t a", .call ":t b"] ++
            .settle 0 .cancelled :: [.feed .usual [97, 4], .feed .usual [98, 4]])
          laneAndWorker).loop.outcome? c =
        (afterOps 0 ops laneAndWorker).loop.outcome? c := by
  intro ops
  have h := requests_in_order (h := laneAndWorker) (l := 0) rfl ops
  exact ⟨rfl, h.1.1, (h.2.2.2 [.deed (.attach 0), .call ":t a", .call ":t b"]
    [.feed .usual [97, 4], .feed .usual [98, 4]] 0 .cancelled rfl).2.2⟩

end GhciHost.Host
