import GhciHost.Proofs.Host.Effect

/-!
# What operations are made of

An operation moves the host along a relation if the small steps it is made of do.  Each lemma
here takes one operation apart and asks for the steps of just this operation, so a relation has
to be looked at only where it has something to say.

* `Within.write`   what is asked of a write to a worker;
* `Within.submit`, `Within.abandon`   what is asked of operations on a lane;
* `Within.transition`   what is asked of a session that changes its phase;
* `Succeeds.deliverBy`   a delivery cannot fail, whatever the asker does.
-/

namespace GhciHost.Host.Within

variable {R : Host → Host → Prop} [Std.Refl R] [IsTrans Host R]

/-! ## Reading -/

instance process (p : Nat) : Within R (Host.process p) := by
  unfold Host.process
  infer_instance

instance session (s : Nat) : Within R (Host.session s) := by
  unfold Host.session
  infer_instance

instance lane (l : Nat) : Within R (Host.lane l) := by
  unfold Host.lane
  infer_instance

instance validate (marker : List Char) (command : String) :
    Within R (Host.validate marker command) := by
  unfold Host.validate
  split <;> infer_instance

/-! ## Workers -/

instance putOutput (p : Nat) (o : WorkerOutput)
    [Within R (changeProcess p fun a => { a with output := a.output ++ [o], reader := none })]
    [∀ cells, Within R (releaseAll cells)] : Within R (Host.putOutput p o) := by
  unfold Host.putOutput
  infer_instance

instance exit (p : Nat) (code : Int)
    [Within R (changeProcess p fun a => { a with exitCode := some code, exitWaiters := [] })]
    [∀ o, Within R (Host.putOutput p o)] [∀ cells, Within R (releaseAll cells)] :
    Within R (Host.exit p code) := by
  unfold Host.exit
  infer_instance

instance kill (p : Nat) [Within R (changeProcess p fun a => { a with killed := true })]
    [∀ code, Within R (Host.exit p code)] : Within R (Host.kill p) := by
  unfold Host.kill
  infer_instance

instance act (p : Nat) (line : String) (a : WorkerAct) [∀ o, Within R (Host.putOutput p o)]
    [∀ code, Within R (Host.exit p code)] : Within R (Host.act p line a) := by
  cases a <;> (simp only [Host.act]; infer_instance)

instance hear (p : Nat) (text : List Char) [∀ line a, Within R (Host.act p line a)] :
    Within R (Host.hear p text) := by
  unfold Host.hear
  infer_instance

instance write (p : Nat) (text : List Char) [Within R (Host.hear p text)]
    [∀ ws, Within R (note fun j => { j with writes := j.writes ++ ws })] :
    Within R (Host.write p text) := by
  unfold Host.write
  refine @Within.bind _ _ _ _ _ _ _ fun proc => ?_
  split <;> infer_instance

/-! ## Operations on a lane -/

instance writeLine (l : Nat) (command : String) [∀ p text, Within R (Host.write p text)] :
    Within R (Host.writeLine l command) := by
  unfold Host.writeLine
  refine @Within.bind _ _ _ _ _ _ _ fun lane => ?_
  split
  · infer_instance
  · refine @Within.tryCatch _ _ _ _ _ _ fun e => ?_
    split <;> infer_instance

instance writeRaw (l : Nat) (command : String) [Within R (Host.writeLine l command)] :
    Within R (Host.writeRaw l command) := by
  unfold Host.writeRaw
  infer_instance

instance submit (l : Nat) (command : String) (state : Json) (reaction : Option Reaction)
    (waiter : Option Nat) [Within R (Host.writeRaw l command)]
    [Within R (changeLane l (·.push ⟨state, reaction, command, waiter, false⟩))]
    [∀ key, Within R (count key .request)] :
    Within R (Host.submit l command state reaction waiter) := by
  unfold Host.submit
  infer_instance

instance requeue (l : Nat) (r : Request) [Within R (Host.writeLine l r.command)]
    [Within R (changeLane l (·.push r))] : Within R (Host.requeue l r) := by
  unfold Host.requeue
  infer_instance

instance takePending (l : Nat) [Within R (changeLane l fun a => { a with queue := [] })] :
    Within R (Host.takePending l) := by
  unfold Host.takePending
  infer_instance

instance failRequest (r : Request) (e : SessionError)
    [∀ c, Within R (finish c (.failed (.session e)))] : Within R (Host.failRequest r e) := by
  unfold Host.failRequest
  split <;> infer_instance

instance abandon (l : Nat) (e : SessionError)
    [Within R (changeLane l fun a => { a with queue := [] })]
    [∀ c, Within R (finish c (.failed (.session e)))] : Within R (Host.abandon l e) := by
  unfold Host.abandon
  infer_instance

instance announce (l : Nat) (kind : Event.Kind) (details : List (String × Json))
    [∀ key, Within R (publish ⟨kind, key, details⟩)] :
    Within R (Host.announce l kind details) := by
  unfold Host.announce
  infer_instance

/-! ## Responses -/

section Responses

variable {l : Nat} [hv : ∀ key, Within R (count key .protocolViolation)]
variable [he : ∀ key details, Within R (publish ⟨.protocolViolation, key, details⟩)]

instance reject (body : String) : Within R (Host.reject l body) := by
  unfold Host.reject
  infer_instance

variable {ask : Asker} [ha : ∀ state body r, Within R (ask l state body r)]
variable [hf : ∀ c body, Within R (finish c (.value (.text body)))]

instance answerBy (state : Json) (reaction : Option Reaction) (waiter : Option Nat)
    (body : String) : Within R (Host.answerBy ask l state reaction waiter body) := by
  unfold Host.answerBy
  cases reaction <;> cases waiter <;> (dsimp only; infer_instance)

instance deliverBy (body : String) [∀ key, Within R (count key .frame)]
    [∀ q, Within R (changeLane l fun a => { a with queue := q })] :
    Within R (Host.deliverBy ask l body) := by
  unfold Host.deliverBy
  refine @Within.bind _ _ _ _ _ _ _ fun lane => ?_
  split <;> infer_instance

end Responses

/-! ## Phases -/

/-- A session that changes its phase: everything but the change itself. -/
instance transition (s : Nat) (phase : Phase)
    [Within R (changeSession s fun session =>
      { session with phase, ready := phase.state.settled })]
    [Within R (changeSession s fun session => { session with readyWaiters := [] })]
    [∀ cells, Within R (releaseAll cells)]
    [∀ key details, Within R (publish ⟨.sessionStateChanged, key, details⟩)] :
    Within R (Host.transition s phase) := by
  unfold Host.transition
  infer_instance

end GhciHost.Host.Within

/-! ## What is taken out of a lane -/

namespace GhciHost.Host

theorem run_takePending (l : Nat) (h : Host) :
    (takePending l).run h =
      .ok (h.laneOf l).queue (after (changeLane l fun lane => { lane with queue := [] }) h) := rfl

theorem after_takePending (l : Nat) (h : Host) :
    after (takePending l) h = after (changeLane l fun lane => { lane with queue := [] }) h := rfl

end GhciHost.Host

/-! ## Operations that cannot fail -/

namespace GhciHost.Host.Succeeds

instance changeLane (l : Nat) (f : Lane → Lane) : Succeeds (Host.changeLane l f) := of_modify _

instance count (key : String) (what : Counted) : Succeeds (Host.count key what) := of_modify _

instance note (f : Journal → Journal) : Succeeds (Host.note f) := of_modify _

instance finish (c : Nat) (e : Ending) : Succeeds (Host.finish c e) := of_modify _

instance lane (l : Nat) : Succeeds (Host.lane l) := by
  unfold Host.lane
  infer_instance

instance publish (e : Event) : Succeeds (Host.publish e) := by
  have : Succeeds (modify fun h : Host => { h with bus := h.bus.publish e } : Action Unit) :=
    of_modify _
  unfold Host.publish
  infer_instance

instance releaseAll (cells : List Nat) : Succeeds (Host.releaseAll cells) := of_modify _

instance process (p : Nat) : Succeeds (Host.process p) := by
  unfold Host.process
  infer_instance

instance changeProcess (p : Nat) (f : Process → Process) : Succeeds (Host.changeProcess p f) :=
  of_modify _

instance exit (p : Nat) (code : Int) : Succeeds (Host.exit p code) := by
  unfold Host.exit Host.putOutput
  infer_instance

instance act (p : Nat) (line : String) (a : WorkerAct) : Succeeds (Host.act p line a) := by
  cases a <;> (simp only [Host.act, Host.putOutput]; infer_instance)

instance hear (p : Nat) (text : List Char) : Succeeds (Host.hear p text) := by
  unfold Host.hear
  infer_instance

instance reject (l : Nat) (body : String) : Succeeds (Host.reject l body) := by
  unfold Host.reject Host.announce
  infer_instance

instance answerBy (ask : Asker) (l : Nat) (state : Json) (reaction : Option Reaction)
    (waiter : Option Nat) (body : String) :
    Succeeds (Host.answerBy ask l state reaction waiter body) := by
  unfold Host.answerBy
  cases reaction <;> cases waiter <;> (dsimp only; infer_instance)

/-- An asker that fails does not make the delivery fail. -/
instance deliverBy (ask : Asker) (l : Nat) (body : String) :
    Succeeds (Host.deliverBy ask l body) := by
  unfold Host.deliverBy
  refine @Succeeds.bind _ _ _ _ _ fun lane => ?_
  split <;> infer_instance

end GhciHost.Host.Succeeds
