import GhciHost.Proofs.Lane.Ledger
import GhciHost.Proofs.Lane.Run

/-!
# The history of a lane

What is done on a lane makes entries in a ledger: `LaneOp.entries` tells them from the state in
which the operation begins, those of an asker's plan among them.  The history of a run is a run
of the ledger, which starts and ends with what the lane shows.

* `submit_spec`, `requeue_spec`   a command that is written, or nothing at all;
* `ledger_run`   every operation is a run of the ledger, and with it every sequence of them.
-/

namespace GhciHost

open Host

namespace Host

/-! ## Writing a command -/

/-- Only workers, and those who wait for them, notice a difference. -/
def WorkersOnly (h h' : Host) : Prop := h' = { h with loop := h'.loop, processes := h'.processes }

instance : Std.Refl WorkersOnly := ⟨fun _ => rfl⟩

instance : IsTrans Host WorkersOnly where
  trans h₁ h₂ h₃ h₁₂ h₂₃ := by
    unfold WorkersOnly at h₁₂ h₂₃ ⊢
    rw [h₂₃, h₁₂]

instance (p : Nat) (f : Process → Process) : Within WorkersOnly (changeProcess p f) := ⟨fun _ => rfl⟩

instance (cells : List Nat) : Within WorkersOnly (releaseAll cells) := ⟨fun _ => rfl⟩

/-- The host with something written to a process, but for what the process made of it. -/
def withWrite (p : Nat) (bytes : List UInt8) (h : Host) : Host :=
  { h with journal := { h.journal with writes := h.journal.writes ++ [(p, bytes)] } }

/-- A write is noted and comes to the worker, or it fails and nothing has happened. -/
theorem write_spec (p : Nat) (text : List Char) (h : Host) :
    (∃ h', (write p text).run h = .ok () h' ∧
        WorkersOnly (withWrite p (Text.Utf8.encode text) h) h') ∨
      ∃ f, (write p text).run h = .error (.fault f) h := by
  obtain ⟨proc, hproc⟩ : ∃ proc, h.processOf p = proc := ⟨_, rfl⟩
  rw [write, run_bind_ok (run_process p h), hproc]
  cases proc.writeFault with
  | some f => exact .inr ⟨f, rfl⟩
  | none =>
    dsimp only
    cases proc.exitCode.isSome with
    | true => exact .inr ⟨_, rfl⟩
    | false =>
      have hrun := Succeeds.run_unit (hear p text) (withWrite p (Text.Utf8.encode text) h)
      exact .inl ⟨_, hrun, Within.rel_after _⟩

/-- A command is written to the attached process, or it fails and nothing has happened. -/
theorem writeLine_spec (l : Nat) (command : String) (h : Host) :
    (∃ p h', (h.laneOf l).process = some p ∧ (writeLine l command).run h = .ok () h' ∧
        WorkersOnly (withWrite p (Entry.line command) h) h') ∨
      ∃ e, (writeLine l command).run h = .error e h := by
  rw [writeLine, run_bind_ok (run_lane l h)]
  cases (h.laneOf l).process with
  | none => exact .inr ⟨_, rfl⟩
  | some p =>
    dsimp only
    rw [run_tryCatch]
    obtain ⟨h', hrun, hw⟩ | ⟨f, hrun⟩ := write_spec p (command.toList ++ ['\n']) h <;> rw [hrun]
    · exact .inl ⟨p, h', rfl, rfl, hw⟩
    · refine .inr ?_
      dsimp only
      split <;> exact ⟨_, rfl⟩

theorem writeRaw_spec (l : Nat) (command : String) (h : Host) :
    (∃ p h', (h.laneOf l).process = some p ∧ (writeRaw l command).run h = .ok () h' ∧
        WorkersOnly (withWrite p (Entry.line command) h) h') ∨
      ∃ e, (writeRaw l command).run h = .error e h := by
  rw [writeRaw, run_bind_ok (run_lane l h), validate]
  cases Command.fault? (h.laneOf l).markerText command.toList with
  | some f => exact .inr ⟨_, rfl⟩
  | none => exact writeLine_spec l command h

/-- A request is written and appended, or it is refused and nothing has happened. -/
theorem submit_spec (l : Nat) (command : String) (state : Json) (reaction : Option Reaction)
    (waiter : Option Nat) (h : Host) :
    (∃ p h', (h.laneOf l).process = some p ∧
        WorkersOnly (withWrite p (Entry.line command) h) h' ∧
        (submit l command state reaction waiter).run h = .ok () (after (do
          changeLane l (·.push { state, reaction, command, waiter })
          count (← lane l).key .request) h')) ∨
      ∃ e, (submit l command state reaction waiter).run h = .error e h := by
  rw [submit]
  obtain ⟨p, h', hp, hrun, hw⟩ | ⟨e, hrun⟩ := writeRaw_spec l command h
  · exact .inl ⟨p, h', hp, hw, (run_bind_ok hrun).trans (Succeeds.run_unit ..)⟩
  · exact .inr ⟨e, run_bind_error hrun⟩

theorem requeue_spec (l : Nat) (r : Request) (h : Host) :
    (∃ p h', (h.laneOf l).process = some p ∧
        WorkersOnly (withWrite p (Entry.line r.command) h) h' ∧
        (requeue l r).run h = .ok () (after (changeLane l (·.push r)) h')) ∨
      ∃ e, (requeue l r).run h = .error e h := by
  rw [requeue]
  obtain ⟨p, h', hp, hrun, hw⟩ | ⟨e, hrun⟩ := writeLine_spec l r.command h
  · exact .inl ⟨p, h', hp, hw, (run_bind_ok hrun).trans (Succeeds.run_unit ..)⟩
  · exact .inr ⟨e, run_bind_error hrun⟩

/-! ## The ledger of a host -/

/-- What the ledger is about. -/
def ledgerOf (l : Nat) (h : Host) : Ledger :=
  ⟨(h.laneOf l).process, (h.laneOf l).queue, h.journal.writes⟩

theorem ledgerOf_workersOnly {l : Nat} {h h' : Host} (hw : WorkersOnly h h') :
    ledgerOf l h' = ledgerOf l h := by
  rw [show h' = _ from hw]
  rfl

theorem ledgerOf_changeLane {l : Nat} {h : Host} (hl : l < h.lanes.size) (f : Lane → Lane) :
    ledgerOf l (after (changeLane l f) h) =
      ⟨(f (h.laneOf l)).process, (f (h.laneOf l)).queue, h.journal.writes⟩ := by
  rw [ledgerOf, laneOf_changeLane, if_pos ⟨rfl, hl⟩]
  rfl

section Unnoticed

variable {l : Nat}

instance (s : Nat) (f : Session → Session) : Within (Same (ledgerOf l)) (changeSession s f) :=
  ⟨fun _ => rfl⟩

instance (c : Nat) (f : QueryChannel → QueryChannel) :
    Within (Same (ledgerOf l)) (changeChannel c f) := ⟨fun _ => rfl⟩

instance (key : String) (what : Counted) : Within (Same (ledgerOf l)) (count key what) :=
  ⟨fun _ => rfl⟩

instance (c : Nat) (e : Ending) : Within (Same (ledgerOf l)) (finish c e) := ⟨fun _ => rfl⟩

instance (cells : List Nat) : Within (Same (ledgerOf l)) (releaseAll cells) := ⟨fun _ => rfl⟩

instance : Within (Same (ledgerOf l)) newCell := ⟨fun _ => rfl⟩

instance (e : Event) : Within (Same (ledgerOf l)) (publish e) := ⟨fun _ => rfl⟩

instance (s p : Nat) (mode : StartMode) (body : String) :
    Within (Same (ledgerOf l)) (becomeReady s p mode body) := by
  refine @Within.bind _ _ _ _ _ _ _ fun session => ?_
  split
  · refine @Within.ite _ _ _ _ _ _ ?_ _
    split <;> infer_instance
  · infer_instance

/-- What is left in the buffer is not in the ledger. -/
instance (left : Option Nat) : Within (Same (ledgerOf l)) (keepFrom l left) := by
  cases left with
  | none => exact Within.pure ()
  | some start =>
    refine ⟨fun h => ?_⟩
    by_cases hl : l < h.lanes.size
    · exact ledgerOf_changeLane hl _
    · have e : (after (keepFrom l (some start)) h).laneOf l = h.laneOf l := by
        rw [keepFrom, laneOf_changeLane, if_neg fun hs => hl hs.2]
      unfold Same ledgerOf
      rw [e]
      rfl

end Unnoticed

/-- Those who waited get to know, which no lane notices. -/
theorem ledgerOf_abandon {l : Nat} {h : Host} (hl : l < h.lanes.size) (e : SessionError) :
    ledgerOf l (after (abandon l e) h) = ⟨(h.laneOf l).process, [], h.journal.writes⟩ := by
  rw [abandon, after_bind, run_takePending]
  dsimp only
  rw [← ledgerOf_changeLane hl fun lane => { lane with queue := [] }]
  exact Within.rel_after (R := Same (ledgerOf l)) _

/-- The failure that an action comes to. -/
def failure? (a : Action Unit) (h : Host) : Option Failure :=
  match a.run h with
  | .ok .. => none
  | .error e _ => some e

theorem run_of_failure? {a : Action Unit} {h : Host} (e : failure? a h = none) :
    a.run h = .ok () (after a h) := by
  unfold failure? at e
  cases hrun : a.run h with
  | ok v h' => rw [after_of_ok hrun]
  | error x h' =>
    rw [hrun] at e
    cases e

end Host

/-! ## Entries -/

/-- The entry of something that is written, if it is. -/
def writing (a : Action Unit) (l : Nat) (h : Host) (e : Nat → Entry) : List Entry :=
  match failure? a h, (h.laneOf l).process with
  | none, some p => [e p]
  | _, _ => []

theorem writing_of_ok {a : Action Unit} {l p : Nat} {h h' : Host} {e : Nat → Entry}
    (hrun : a.run h = .ok () h') (hp : (h.laneOf l).process = some p) : writing a l h e = [e p] := by
  simp only [writing, failure?, hrun, hp]

theorem writing_of_error {a : Action Unit} {l : Nat} {h h' : Host} {e : Nat → Entry} {f : Failure}
    (hrun : a.run h = .error f h') : writing a l h e = [] := by
  simp only [writing, failure?, hrun]

/-- There is one entry at most. -/
theorem writing_cases (a : Action Unit) (l : Nat) (h : Host) (e : Nat → Entry) :
    writing a l h e = [] ∨
      ∃ p, failure? a h = none ∧ (h.laneOf l).process = some p ∧ writing a l h e = [e p] := by
  unfold writing
  split
  · next p hok hp => exact .inr ⟨p, hok, hp, rfl⟩
  · exact .inl rfl

/-- The entries of what is done on a lane. -/
def Deed.entries (l : Nat) (h : Host) : Deed → List Entry
  | attach p => [.attached p]
  | detach => [.detached]
  | register r => [.registered r]
  | writeRaw command => writing (Host.writeRaw l command) l h (.wrote · command)
  | submit command state reaction waiter =>
    writing (Host.submit l command state reaction waiter) l h
      (.sent · { state, reaction, command, waiter })
  | requeue r => writing (Host.requeue l r) l h (.sent · r)
  | take => [.taken (h.laneOf l).queue]
  | abandon _ => [.abandoned (h.laneOf l).queue]
  | note .. | ready .. => []

/-- The entries of an asker's plan. -/
def Plan.entries (l : Nat) : Plan → Host → List Entry
  | done, _ | fail _, _ => []
  | look next, h => (next (h.sightOf l)).entries l h
  | first d next, h => d.entries l h ++ (next (failure? (d.run l) h)).entries l (after (d.run l) h)

namespace Host

/-- The entries of a delivery: the response goes to the oldest request, and then its asker does
    what it does. -/
def deliveryEntries (p : Policy) (l : Nat) (body : String) (h : Host) : List Entry :=
  match (h.laneOf l).queue with
  | [] => [.unasked body]
  | r :: queue =>
    let h' := after (count (h.laneOf l).key .frame)
      (after (changeLane l fun lane => { lane with queue }) h)
    .answered r body :: (match r.reaction with
      | some x => (p r.state body x).entries l h'
      | none => [])

/-- The entries of the loop of a feed. -/
def loopEntries (p : Policy) (l attachments : Nat) (marker : UInt8) (buffer : List UInt8)
    (start scanned : Nat) (h : Host) : List Entry :=
  match hf : Lane.find? marker buffer scanned with
  | none => []
  | some i =>
    have := Lane.find?_lt hf
    let body := bodyOf ((buffer.drop start).take (i - start))
    let h' := deliveredTo p.ask l i body h
    deliveryEntries p l body (after (changeLane l fun lane => { lane with scanned := i + 1 }) h) ++
      if (h'.laneOf l).attachments = attachments then
        loopEntries p l attachments marker buffer (i + 1) (i + 1) h'
      else []
termination_by buffer.length - scanned

theorem loopEntries_none (p : Policy) (l attachments start : Nat) {marker : UInt8}
    {buffer : List UInt8} {scanned : Nat} (hf : Lane.find? marker buffer scanned = none) {h : Host} :
    loopEntries p l attachments marker buffer start scanned h = [] := by
  rw [loopEntries]
  split
  · rfl
  · next hs => rw [hf] at hs; cases hs

theorem loopEntries_some (p : Policy) (l attachments start : Nat) {marker : UInt8}
    {buffer : List UInt8} {scanned i : Nat} (hf : Lane.find? marker buffer scanned = some i)
    {h h' : Host}
    (hh : deliveredTo p.ask l i (bodyOf ((buffer.drop start).take (i - start))) h = h') :
    loopEntries p l attachments marker buffer start scanned h =
      deliveryEntries p l (bodyOf ((buffer.drop start).take (i - start)))
          (after (changeLane l fun lane => { lane with scanned := i + 1 }) h) ++
        if (h'.laneOf l).attachments = attachments then
          loopEntries p l attachments marker buffer (i + 1) (i + 1) h'
        else [] := by
  subst hh
  rw [loopEntries]
  split
  · next hn => rw [hf] at hn; cases hn
  · next j hj =>
    obtain rfl : i = j := Option.some.inj (hf.symm.trans hj)
    rfl

/-- The entries of a feed. -/
def feedEntries (p : Policy) (l : Nat) (bytes : List UInt8) (h : Host) : List Entry :=
  if bytes.isEmpty then []
  else
    let h := after (count (h.laneOf l).key (.bytes bytes.length)) h
    let h := after (changeLane l fun lane => { lane with buffer := lane.buffer ++ bytes }) h
    let lane := h.laneOf l
    loopEntries p l lane.attachments lane.marker lane.buffer 0 lane.scanned h

end Host

/-- The entries of something that happens to a lane. -/
def LaneOp.entries (l : Nat) (h : Host) : LaneOp → List Entry
  | deed d => d.entries l h
  | feed p bytes => feedEntries p l bytes h
  | call command =>
    writing (submit l command .null none (some h.loop.cells.size)) l (after newCell h)
      (.sent · { command, waiter := some h.loop.cells.size })
  | settle .. | world _ => []

namespace Host

/-- Let several things happen to a lane. -/
def afterOps (l : Nat) : List LaneOp → Host → Host
  | [], h => h
  | op :: ops, h => afterOps l ops (after (op.run l) h)

/-- The entries of several things that happen to a lane. -/
def history (l : Nat) : List LaneOp → Host → List Entry
  | [], _ => []
  | op :: ops, h => op.entries l h ++ history l ops (after (op.run l) h)

/-! ## The history is a run of the ledger -/

section

variable {l : Nat} {h : Host}

theorem ledger_of_same {h' : Host} (e : ledgerOf l h' = ledgerOf l h) :
    Ledger.Run (ledgerOf l h) [] (ledgerOf l h') := by
  rw [e]
  exact .nil _

/-- Something written to the process that is attached. -/
theorem ledger_wrote {p : Nat} {command : String} {h' : Host} (hp : (h.laneOf l).process = some p)
    (hw : WorkersOnly (withWrite p (Entry.line command) h) h') :
    Ledger.Step (ledgerOf l h) (.wrote p command) (ledgerOf l h') := by
  rw [ledgerOf_workersOnly hw]
  exact .wrote command hp

/-- A request that was written and appended. -/
theorem ledger_sent {p : Nat} {r : Request} {h' h'' : Host} (hl : l < h.lanes.size)
    (hp : (h.laneOf l).process = some p) (hw : WorkersOnly (withWrite p (Entry.line r.command) h) h')
    (e : ledgerOf l h'' = ledgerOf l (after (changeLane l (·.push r)) h')) :
    Ledger.Step (ledgerOf l h) (.sent p r) (ledgerOf l h'') := by
  have hsize : h'.lanes.size = h.lanes.size := by rw [show h' = _ from hw]; rfl
  have hlane : h'.laneOf l = h.laneOf l := by rw [show h' = _ from hw]; rfl
  rw [e, ledgerOf_changeLane (hsize ▸ hl), hlane, show h' = _ from hw]
  exact .sent r hp

theorem ledger_submit (hl : l < h.lanes.size) (command : String) (state : Json)
    (reaction : Option Reaction) (waiter : Option Nat) :
    Ledger.Run (ledgerOf l h)
      (writing (submit l command state reaction waiter) l h
        (.sent · { state, reaction, command, waiter }))
      (ledgerOf l (after (submit l command state reaction waiter) h)) := by
  obtain ⟨p, h', hp, hw, hrun⟩ | ⟨e, hrun⟩ := submit_spec l command state reaction waiter h
  · rw [writing_of_ok hrun hp, after_of_ok hrun]
    exact .single (ledger_sent hl hp hw rfl)
  · rw [writing_of_error hrun, after_of_error hrun]
    exact .nil _

/-- What is done on a lane is a run of the ledger. -/
theorem ledger_deed (hl : l < h.lanes.size) (d : Deed) :
    Ledger.Run (ledgerOf l h) (d.entries l h) (ledgerOf l (after (d.run l) h)) := by
  cases d with
  | note state body => exact ledger_of_same rfl
  | attach p =>
    rw [Deed.run, ledgerOf_changeLane hl]
    exact .single (.attached _ p)
  | detach =>
    rw [Deed.run, ledgerOf_changeLane hl]
    exact .single (.detached _)
  | register r =>
    rw [Deed.run, ledgerOf_changeLane hl]
    exact .single (.registered _ r)
  | writeRaw command =>
    rw [Deed.run, Deed.entries]
    obtain ⟨p, h', hp, hrun, hw⟩ | ⟨e, hrun⟩ := writeRaw_spec l command h
    · rw [writing_of_ok hrun hp, after_of_ok hrun]
      exact .single (ledger_wrote hp hw)
    · rw [writing_of_error hrun, after_of_error hrun]
      exact .nil _
  | submit command state reaction waiter => exact ledger_submit hl command state reaction waiter
  | requeue r =>
    rw [Deed.run, Deed.entries]
    obtain ⟨p, h', hp, hw, hrun⟩ | ⟨e, hrun⟩ := requeue_spec l r h
    · rw [writing_of_ok hrun hp, after_of_ok hrun]
      exact .single (ledger_sent hl hp hw rfl)
    · rw [writing_of_error hrun, after_of_error hrun]
      exact .nil _
  | take =>
    rw [Deed.run, after_bind_unit, after_takePending, ledgerOf_changeLane hl]
    exact .single (.taken _)
  | abandon e =>
    rw [Deed.run, after_bind_unit, ledgerOf_abandon hl]
    exact .single (.abandoned _)
  | ready s p mode body =>
    exact ledger_of_same
      (Within.rel_after (R := Same (ledgerOf l)) (a := becomeReady s p mode body) h)

theorem after_attempt_then (a : Action Unit) (f : Option Failure → Action Unit) (h : Host) :
    after (attempt a >>= f) h = after (f (failure? a h)) (after a h) := by
  rw [after, run_attempt_then, failure?]
  cases e : a.run h with
  | ok v h' => rw [after_of_ok e]; rfl
  | error x h' => rw [after_of_error e]; rfl

/-- A plan is a run of the ledger. -/
theorem ledger_plan (hl : l < h.lanes.size) (p : Plan) :
    Ledger.Run (ledgerOf l h) (p.entries l h) (ledgerOf l (after (p.run l) h)) := by
  induction p generalizing h with
  | done => exact .nil _
  | fail e => exact .nil _
  | look next ih => exact ih _ hl
  | first d next ih =>
    rw [Plan.run, Plan.entries, after_attempt_then]
    have hloyal : LoyalHost h (after (d.run l) h) := Within.rel_after h
    exact (ledger_deed hl d).append (ih _ (hloyal.size ▸ hl))

/-- Of an answer the ledger notices what the asker does. -/
theorem ledgerOf_answerBy (ask : Asker) (state : Json) (reaction : Option Reaction)
    (waiter : Option Nat) (body : String) (h : Host) :
    ledgerOf l (after (answerBy ask l state reaction waiter body) h) =
      ledgerOf l (match reaction with
        | some x => after (ask l state body x) h
        | none => h) := by
  unfold answerBy
  cases reaction with
  | none => cases waiter <;> rfl
  | some x =>
    dsimp only
    rw [after_bind, run_attempt]
    cases waiter <;> rfl

/-- A delivery is a run of the ledger. -/
theorem ledger_delivery (hl : l < h.lanes.size) (p : Policy) (body : String) :
    Ledger.Run (ledgerOf l h) (deliveryEntries p l body h)
      (ledgerOf l (after (deliverBy p.ask l body) h)) := by
  have hrun : (deliverBy p.ask l body).run h = (match (h.laneOf l).queue with
      | [] => reject l body
      | r :: queue => do
        changeLane l fun lane => { lane with queue }
        count (h.laneOf l).key .frame
        answerBy p.ask l r.state r.reaction r.waiter body : Action Unit).run h := rfl
  rw [after, hrun, ← after, deliveryEntries]
  cases hq : (h.laneOf l).queue with
  | nil =>
    rw [show ledgerOf l (after (reject l body) h) = ledgerOf l h from
      Within.rel_after (R := Same (ledgerOf l)) h]
    exact .single (.unasked body hq)
  | cons r queue =>
    dsimp only
    rw [after_bind, Succeeds.run_unit]
    dsimp only
    rw [after_bind, Succeeds.run_unit]
    dsimp only
    generalize hh' : after (count (h.laneOf l).key .frame)
      (after (changeLane l fun lane => { lane with queue }) h) = h'
    have hpop : Ledger.Step (ledgerOf l h) (.answered r body) (ledgerOf l h') := by
      have e : ledgerOf l h' = ⟨(h.laneOf l).process, queue, h.journal.writes⟩ := by
        rw [← hh']
        exact ledgerOf_changeLane hl _
      rw [e]
      exact .answered body hq
    have hl' : l < h'.lanes.size := hh' ▸ Nat.lt_of_lt_of_eq hl (Table.size_modify ..).symm
    refine .cons hpop ?_
    rw [ledgerOf_answerBy]
    cases r.reaction with
    | none => exact .nil _
    | some x => exact ledger_plan hl' (p r.state body x)

/-- The loop of a feed is a run of the ledger. -/
theorem ledger_loop {attachments : Nat} {marker : UInt8} {buffer : List UInt8}
    {start scanned : Nat} (hl : l < h.lanes.size) (p : Policy) :
    Ledger.Run (ledgerOf l h) (loopEntries p l attachments marker buffer start scanned h)
      (ledgerOf l (after (deliverFrom p.ask l attachments marker buffer start scanned) h)) := by
  induction hd : buffer.length - scanned using Nat.strongRecOn generalizing start scanned h with
  | _ d ih =>
  cases hf : Lane.find? marker buffer scanned with
  | none =>
    rw [loopEntries_none p l attachments start hf, after_of_ok (run_deliverFrom_none _ _ _ _ hf h)]
    exact .nil _
  | some i =>
    have hlt := Lane.find?_lt hf
    let body := bodyOf ((buffer.drop start).take (i - start))
    let h₁ := after (changeLane l fun lane => { lane with scanned := i + 1 }) h
    obtain ⟨h', hh'⟩ : ∃ h', deliveredTo p.ask l i body h = h' := ⟨_, rfl⟩
    have hl₁ : l < h₁.lanes.size := Nat.lt_of_lt_of_eq hl (Table.size_modify ..).symm
    have hl' : l < h'.lanes.size := by
      have hloyal : LoyalHost h₁ h' := hh' ▸ Within.rel_after h₁
      exact hloyal.size ▸ hl₁
    have hrun := run_deliverFrom_some p.ask l attachments start hf hh'
    have hdelivery : Ledger.Run (ledgerOf l h) (deliveryEntries p l body h₁) (ledgerOf l h') := by
      have e : ledgerOf l h₁ = ledgerOf l h := ledgerOf_changeLane hl _
      exact e ▸ hh' ▸ ledger_delivery hl₁ p body
    rw [loopEntries_some p l attachments start hf hh']
    refine hdelivery.append ?_
    split
    · next hatt =>
      rw [if_pos hatt] at hrun
      rw [after, hrun, ← after, after_map]
      exact ih (buffer.length - (i + 1)) (by omega) hl' rfl
    · next hatt =>
      rw [if_neg hatt] at hrun
      rw [after_of_ok hrun]
      exact .nil _

theorem ledger_feed (hl : l < h.lanes.size) (p : Policy) (bytes : List UInt8) :
    Ledger.Run (ledgerOf l h) (feedEntries p l bytes h)
      (ledgerOf l (after (feedBy p.ask l bytes) h)) := by
  by_cases hb : bytes = []
  · subst hb
    exact .nil _
  · obtain ⟨h', hh'⟩ : ∃ h', received l bytes h = h' := ⟨_, rfl⟩
    have hrun := run_feedBy_eq p.ask l hb hh'
    have hl' : l < h'.lanes.size := hh' ▸ Nat.lt_of_lt_of_eq hl (Table.size_modify ..).symm
    have e : ledgerOf l h' = ledgerOf l h := by
      rw [← hh']
      exact ledgerOf_changeLane hl _
    have hkeep (r : Nat × Option Nat) :
        Within (Same (ledgerOf l)) (keepFrom l r.2 >>= fun _ => pure r.1) := inferInstance
    rw [after, hrun, ← after, same_after_bind hkeep, feedEntries, if_neg (by simpa using hb)]
    exact e ▸ hh' ▸ ledger_loop (hh' ▸ hl') p

/-- Whatever happens to a lane is a run of the ledger. -/
theorem ledger_op (hl : l < h.lanes.size) (op : LaneOp) :
    Ledger.Run (ledgerOf l h) (op.entries l h) (ledgerOf l (after (op.run l) h)) := by
  cases op with
  | deed d => exact ledger_deed hl d
  | feed p bytes =>
    rw [LaneOp.run, after_bind_unit]
    exact ledger_feed hl p bytes
  | call command =>
    exact ledger_submit (h := after newCell h) hl command .null none (some h.loop.cells.size)
  | settle c e => exact ledger_of_same rfl
  | world f => exact ledger_of_same rfl

/-- The history of a run is a run of the ledger. -/
theorem ledger_run (hr : Reached l h) (ops : List LaneOp) :
    Ledger.Run (ledgerOf l h) (history l ops h) (ledgerOf l (afterOps l ops h)) := by
  induction ops generalizing h with
  | nil => exact .nil _
  | cons op ops ih => exact (ledger_op hr.tidy.lt op).append (ih (hr.op op))

end

end Host

end GhciHost
