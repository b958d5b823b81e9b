import GhciHost.Proofs.Host.Parts
import GhciHost.Proofs.Host.Stacks

/-!
# What steps come to

Two things about the end of an action that do not depend on the state of the host.  An action is
`Lawful` if it never fails because a session refuses a phase.  It is `Orderly Easy` if it is lawful
and lets the task go on with frames that have no part in the startup of a session, and
`Orderly Gentle` if these frames do not follow a worker either.

* `Orderly.bind`, `Orderly.tryCatch`   what holds of the parts holds of the whole;
* `Next.Lenient`   what can be asked of the ways to go on, for all steps at once;
* `Orderly.resume`   steps of all frames that have no part in a startup, and do not begin one.
-/

namespace GhciHost

/-- A session refused a phase. -/
def Failure.isIllegal : Failure → Bool
  | illegalTransition .. => true
  | _ => false

namespace Host

/-- The frames that a task goes on with. -/
def Next.push : Next → List Frame
  | go push _ | wait push _ => push

/-- The task goes on with frames that have no part in a startup, and make no request of a caller. -/
def Next.Easy (n : Next) : Prop := easy n.push = true

/-- The task goes on with frames of this kind that follow no worker. -/
def Next.Gentle (n : Next) : Prop := gentle n.push = true

/-- All this is gentle, also if gentle frames are put below it. -/
class Next.Lenient (Q : Next → Prop) : Prop where
  of_gentle : ∀ {n : Next}, n.Gentle → Q n
  above : ∀ {n : Next} {fs : List Frame}, Q n → gentle fs = true → Q (n.above fs)

instance : Next.Lenient Next.Easy where
  of_gentle := easy_of_gentle
  above {n _} hn hfs := by cases n <;> exact easy_append hn (easy_of_gentle hfs)

instance : Next.Lenient Next.Gentle where
  of_gentle := id
  above {n _} hn hfs := by cases n <;> exact gentle_append hn hfs

/-- The action comes to a value of a kind, or fails otherwise than by a refused phase. -/
class Orderly (Q : α → Prop) (a : Action α) : Prop where
  ok : ∀ {h v h'}, a.run h = .ok v h' → Q v
  error : ∀ {h f h'}, a.run h = .error f h' → f.isIllegal = false

/-- The action never fails by a refused phase. -/
abbrev Lawful (a : Action α) : Prop := Orderly (fun _ => True) a

namespace Orderly

variable {α β γ : Type} {Q : α → Prop}

theorem pure {v : α} (hv : Q v) : Orderly Q (Pure.pure v : Action α) where
  ok e := by cases e; exact hv
  error e := by cases e

theorem throw {f : Failure} (hf : f.isIllegal = false) :
    Orderly Q (MonadExcept.throw f : Action α) where
  ok e := by cases e
  error e := by cases e; exact hf

instance pureLawful (v : α) : Lawful (Pure.pure v : Action α) := pure trivial

instance throwSession (e : SessionError) :
    Orderly Q (MonadExcept.throw (Failure.session e) : Action α) := throw rfl

instance throwFault (f : Fault) : Orderly Q (MonadExcept.throw (Failure.fault f) : Action α) :=
  throw rfl

instance throwPath (e : PathError) : Orderly Q (MonadExcept.throw (Failure.path e) : Action α) :=
  throw rfl

instance throwBadRoot (f : RootFault) :
    Orderly Q (MonadExcept.throw (Failure.badRoot f) : Action α) := throw rfl

instance throwBadMarker : Orderly Q (MonadExcept.throw Failure.badMarker : Action α) := throw rfl

instance throwBadCommand (f : Command.Fault) :
    Orderly Q (MonadExcept.throw (Failure.badCommand f) : Action α) := throw rfl

instance throwNotReadOnly (command : String) :
    Orderly Q (MonadExcept.throw (Failure.notReadOnly command) : Action α) := throw rfl

instance throwReport (e : Suggestion.RuleError) :
    Orderly Q (MonadExcept.throw (Failure.report e) : Action α) := throw rfl

instance throwTooManyDigits (e : Text.TooManyDigits) :
    Orderly Q (MonadExcept.throw (Failure.tooManyDigits e) : Action α) := throw rfl

instance bind {Q : β → Prop} (a : Action α) (f : α → Action β) [ha : Lawful a]
    [hf : ∀ v, Orderly Q (f v)] : Orderly Q (a >>= f) where
  ok {h v h'} e := by
    rw [run_bind] at e
    cases ea : a.run h with
    | ok w k => rw [ea] at e; exact (hf w).ok e
    | error x k => rw [ea] at e; cases e
  error {h x h'} e := by
    rw [run_bind] at e
    cases ea : a.run h with
    | ok w k => rw [ea] at e; exact (hf w).error e
    | error x k => rw [ea] at e; cases e; exact ha.error ea

instance throw_bind {Q : β → Prop} (x : Failure) (f : α → Action β)
    [hx : Lawful (MonadExcept.throw x : Action α)] :
    Orderly Q ((MonadExcept.throw x : Action α) >>= f) where
  ok e := by cases e
  error e := by
    cases e
    exact hx.error (run_throw x {})

instance ite (c : Prop) [Decidable c] (a b : Action α) [ha : Orderly Q a] [hb : Orderly Q b] :
    Orderly Q (if c then a else b) := by
  split
  · exact ha
  · exact hb

/-- What catches failures can rely on their kind. -/
theorem tryCatch_of {a : Action α} {f : Failure → Action α} (ha : Orderly Q a)
    (hf : ∀ e, e.isIllegal = false → Orderly Q (f e)) :
    Orderly Q (MonadExcept.tryCatch a f : Action α) where
  ok {h v h'} e := by
    rw [run_tryCatch] at e
    cases ea : a.run h with
    | ok w k => rw [ea] at e; cases e; exact ha.ok ea
    | error x k => rw [ea] at e; exact (hf x (ha.error ea)).ok e
  error {h y h'} e := by
    rw [run_tryCatch] at e
    cases ea : a.run h with
    | ok w k => rw [ea] at e; cases e
    | error x k => rw [ea] at e; exact (hf x (ha.error ea)).error e

instance tryCatch (a : Action α) (f : Failure → Action α) [ha : Orderly Q a]
    [hf : ∀ e, Orderly Q (f e)] : Orderly Q (MonadExcept.tryCatch a f : Action α) :=
  tryCatch_of ha fun e _ => hf e

instance forIn (xs : List β) (init : γ) (f : β → γ → Action (ForInStep γ))
    [hf : ∀ x s, Lawful (f x s)] : Lawful (ForIn.forIn xs init f) := by
  induction xs generalizing init with
  | nil => rw [List.forIn_nil]; infer_instance
  | cons x xs ih =>
    rw [List.forIn_cons]
    refine @bind _ _ _ _ _ (hf x init) fun r => ?_
    cases r with
    | done s => exact pureLawful s
    | yield s => exact ih s

instance (priority := low) succeeds (a : Action α) [ha : Succeeds a] : Lawful a where
  ok _ := trivial
  error {h f h'} e := by
    obtain ⟨v, ev⟩ := ha.run_ok h
    rw [e] at ev
    cases ev

/-! ## Ways to go on -/

section

open Next

variable {P : Next → Prop} [hP : Lenient P]

theorem go (n : Next) (hn : gentle n.push = true) : Orderly P (Pure.pure n : Action Next) :=
  pure (hP.of_gentle hn)

instance done (v : Value) : Orderly P (Pure.pure (Next.done v) : Action Next) := go _ rfl

instance pass (e : Ending) : Orderly P (Pure.pure (Next.pass e) : Action Next) := go _ rfl

instance wait (c : Nat) : Orderly P (Pure.pure (Next.wait [] c) : Action Next) := go _ rfl

theorem call (fs : List Frame) (hfs : gentle fs = true) :
    Orderly P (Pure.pure (Next.call fs) : Action Next) := go _ hfs

theorem above {a : Action Next} (fs : List Frame) (ha : Orderly P a) (hfs : gentle fs = true) :
    Orderly P (do return (← a).above fs) where
  ok {h v h'} e := by
    rw [run_bind] at e
    cases ea : a.run h with
    | ok n k =>
      rw [ea] at e
      cases e
      exact hP.above (ha.ok ea) hfs
    | error x k => rw [ea] at e; cases e
  error {h x h'} e := by
    rw [run_bind] at e
    cases ea : a.run h with
    | ok n k => rw [ea] at e; cases e
    | error x k => rw [ea] at e; cases e; exact ha.error ea

end

end Orderly

/-! ## Actions that cannot fail -/

namespace Succeeds

instance session (s : Nat) : Succeeds (Host.session s) := by
  unfold Host.session
  infer_instance

instance changeSession (s : Nat) (f : Session → Session) : Succeeds (Host.changeSession s f) :=
  of_modify _

instance changeChannel (c : Nat) (f : QueryChannel → QueryChannel) :
    Succeeds (Host.changeChannel c f) := of_modify _

instance changeConnection (c : Nat) (f : Connection → Connection) :
    Succeeds (Host.changeConnection c f) := of_modify _

instance changeLoop (f : Loop Value Failure Frame → Loop Value Failure Frame) :
    Succeeds (Host.changeLoop f) := of_modify _

instance changeHost (f : Host → Host) : Succeeds (modify f : Action Unit) := of_modify f

instance onLoop (f : Loop Value Failure Frame → β × Loop Value Failure Frame) :
    Succeeds (Host.onLoop f) := ⟨fun _ => ⟨_, rfl⟩⟩

instance newCell : Succeeds Host.newCell := onLoop _

instance newTask (fs : List Frame) : Succeeds (Host.newTask fs) := onLoop _

instance channel (c : Nat) : Succeeds (Host.channel c) := by
  unfold Host.channel
  infer_instance

instance query (q : Nat) : Succeeds (Host.query q) := by
  unfold Host.query
  infer_instance

instance connection (c : Nat) : Succeeds (Host.connection c) := by
  unfold Host.connection
  infer_instance

instance kill (p : Nat) : Succeeds (Host.kill p) := by
  unfold Host.kill
  infer_instance

instance failRequest (r : Request) (e : SessionError) : Succeeds (Host.failRequest r e) := by
  unfold Host.failRequest
  split <;> infer_instance

instance takePending (l : Nat) : Succeeds (Host.takePending l) := by
  unfold Host.takePending
  infer_instance

instance abandon (l : Nat) (e : SessionError) : Succeeds (Host.abandon l e) := by
  unfold Host.abandon
  infer_instance

instance appendTranscript (s : Nat) (text : List Char) : Succeeds (Host.appendTranscript s text) := by
  unfold Host.appendTranscript
  infer_instance

instance beginAttempt (s : Nat) (argv : List String) : Succeeds (Host.beginAttempt s argv) := by
  unfold Host.beginAttempt
  infer_instance

instance recordOutput (s : Nat) (bytes : List UInt8) : Succeeds (Host.recordOutput s bytes) := by
  unfold Host.recordOutput
  infer_instance

instance snapshotOf (s : Nat) : Succeeds (Host.snapshotOf s) := by
  unfold Host.snapshotOf
  infer_instance

instance isCancelled (c : Nat) : Succeeds (Host.isCancelled c) := by
  unfold Host.isCancelled
  refine @Succeeds.bind _ _ _ _ _ fun h => ?_
  split <;> infer_instance

instance allM (cells : List Nat) : Succeeds (cells.allM Host.isCancelled) := by
  induction cells with
  | nil => exact Succeeds.pure true
  | cons c cells ih =>
    rw [List.allM_cons]
    refine @Succeeds.bind _ _ _ _ _ fun b => ?_
    cases b
    · exact Succeeds.pure false
    · exact ih

instance isOwn (c : Nat) : Succeeds (Host.isOwn c) := by
  unfold Host.isOwn
  infer_instance

instance callNext (s : Nat) : Succeeds (Host.callNext s) := by
  unfold Host.callNext
  refine @Succeeds.bind _ _ _ _ _ fun session => ?_
  split <;> infer_instance

instance sleep (delay : Option Binary64) (fs : List Frame) : Succeeds (Host.sleep delay fs) := by
  unfold Host.sleep
  split <;> infer_instance

instance deliverFrom (ask : Asker) (l attachments : Nat) (marker : UInt8) (buffer : List UInt8)
    (start scanned : Nat) :
    Succeeds (Host.deliverFrom ask l attachments marker buffer start scanned) := by
  induction hn : buffer.length - scanned using Nat.strongRecOn generalizing start scanned with
  | _ n ih =>
    unfold Host.deliverFrom
    split
    · infer_instance
    · next i hi =>
      have hlt := Lane.find?_lt hi
      have := ih (buffer.length - (i + 1)) (by omega) (i + 1) (i + 1) rfl
      infer_instance

instance feed (l : Nat) (bytes : List UInt8) : Succeeds (Host.feed l bytes) := by
  unfold Host.feed Host.feedBy
  refine @Succeeds.ite _ _ _ _ _ _ ?_
  refine @Succeeds.bind _ _ _ _ _ fun lane => ?_
  refine @Succeeds.bind _ _ _ _ _ fun _ => ?_
  refine @Succeeds.bind _ _ _ _ _ fun _ => ?_
  refine @Succeeds.bind _ _ _ _ _ fun lane => ?_
  refine @Succeeds.bind _ _ _ _ _ fun left => ?_
  split
  split <;> infer_instance

instance queryEnded (q : Nat) : Succeeds (Host.queryEnded q) := by
  unfold Host.queryEnded
  refine @Succeeds.bind _ _ _ _ _ fun query => ?_
  refine @Succeeds.bind _ _ _ _ _ fun _ => ?_
  refine @Succeeds.bind _ _ _ _ _ fun h => ?_
  split <;> infer_instance

end Succeeds

/-! ## Lawful actions -/

namespace Orderly

open Next

instance validate (marker : List Char) (command : String) :
    Lawful (Host.validate marker command) := by
  unfold Host.validate
  split <;> infer_instance

instance write (p : Nat) (text : List Char) : Lawful (Host.write p text) := by
  unfold Host.write
  refine @Orderly.bind _ _ _ _ _ _ fun proc => ?_
  split <;> infer_instance

instance writeLine (l : Nat) (command : String) : Lawful (Host.writeLine l command) := by
  unfold Host.writeLine
  refine @Orderly.bind _ _ _ _ _ _ fun lane => ?_
  split
  · infer_instance
  · refine tryCatch_of inferInstance fun e he => ?_
    split
    · infer_instance
    · exact throw he

instance writeRaw (l : Nat) (command : String) : Lawful (Host.writeRaw l command) := by
  unfold Host.writeRaw
  infer_instance

instance submit (l : Nat) (command : String) (state : Json) (reaction : Option Reaction)
    (waiter : Option Nat) : Lawful (Host.submit l command state reaction waiter) := by
  unfold Host.submit
  infer_instance

instance requeue (l : Nat) (r : Request) : Lawful (Host.requeue l r) := by
  unfold Host.requeue
  infer_instance

instance checkUsable (s : Nat) : Lawful (Host.checkUsable s) := by
  unfold Host.checkUsable
  refine @Orderly.bind _ _ _ _ _ _ fun session => ?_
  dsimp only
  split <;> infer_instance

instance submitSession (s : Nat) (command : String) (state : Json) (reaction : Option Reaction) :
    Lawful (Host.submitSession s command state reaction) := by
  unfold Host.submitSession
  infer_instance

instance diagnostics (s : Nat) (text : String) : Lawful (Host.diagnostics s text) := by
  unfold Host.diagnostics
  refine @Orderly.bind _ _ _ _ _ _ fun session => ?_
  split <;> infer_instance

instance stage (s : Nat) (path contents : String) : Lawful (Host.stage s path contents) := by
  unfold Host.stage
  refine @Orderly.bind _ _ _ _ _ _ fun session => ?_
  refine @Orderly.bind _ _ _ _ _ _ fun h => ?_
  dsimp only
  split
  · infer_instance
  · split
    · infer_instance
    · refine @Orderly.bind _ _ _ _ _ _ fun _ => ?_
      split
      · infer_instance
      · split <;> infer_instance

instance resolveRoot (root : String) : Lawful (Host.resolveRoot root) := by
  unfold Host.resolveRoot
  refine @Orderly.bind _ _ _ _ _ _ fun h => ?_
  split <;> infer_instance

instance sessionOf? (root kind : String) : Lawful (Host.sessionOf? root kind) := by
  unfold Host.sessionOf?
  infer_instance

instance fallBack (c : Nat) (command : String) (state : Json) (reaction : Option Reaction)
    (waiter : Option Nat) (reason : String) :
    Lawful (Host.fallBack c command state reaction waiter reason) := by
  unfold Host.fallBack Host.announce
  infer_instance

instance startQuery (c : Nat) (command : String) (state : Json) (reaction : Option Reaction)
    (waiter : Option Nat) : Lawful (Host.startQuery c command state reaction waiter) := by
  unfold Host.startQuery
  refine @Orderly.ite _ _ _ _ _ _ _ ?_
  refine @Orderly.bind _ _ _ _ _ _ fun _ => ?_
  refine @Orderly.bind _ _ _ _ _ _ fun ch => ?_
  split <;> infer_instance

instance queryOn (s : Nat) (command : String) (state : Json) (reaction : Option Reaction) :
    Lawful (Host.queryOn s command state reaction) := by
  unfold Host.queryOn
  infer_instance

instance sendQuery (q c : Nat) : Lawful (Host.sendQuery q c) := by
  unfold Host.sendQuery
  refine @Orderly.bind _ _ _ _ _ _ fun conn => ?_
  dsimp only
  split
  · refine @Orderly.bind _ _ _ _ _ _ fun _ => ?_
    refine @Orderly.bind _ _ _ _ _ _ fun query => ?_
    refine @Orderly.bind _ _ _ _ _ _ fun _ => ?_
    split <;> infer_instance
  · refine @Orderly.bind _ _ _ _ _ _ fun query => ?_
    refine @Orderly.bind _ _ _ _ _ _ fun _ => ?_
    split <;> infer_instance

instance newSession (kind root : String) (targets : List String) :
    Lawful (Host.newSession kind root targets) := by
  unfold Host.newSession
  refine @Orderly.bind _ _ _ _ _ _ fun h => ?_
  split
  · exact ⟨fun _ => trivial, fun e => by cases e⟩
  · infer_instance

instance setUp (s : Nat) (replay : List Request) : Lawful (Host.setUp s replay) := by
  unfold Host.setUp
  infer_instance

instance trySetUp (s : Nat) (replay : List Request) : Lawful (Host.trySetUp s replay) := by
  unfold Host.trySetUp
  refine tryCatch_of inferInstance fun e he => ?_
  split
  · infer_instance
  · exact throw he

/-! ## Steps -/

section

variable {P : Next → Prop} [hP : Lenient P]


theorem sleep (delay : Option Binary64) (fs : List Frame) (hfs : gentle fs = true) :
    Orderly P (Host.sleep delay fs) := by
  have : Orderly P (Pure.pure (Next.call fs) : Action Next) := call fs hfs
  have (c : Nat) : Orderly P (Pure.pure (Next.wait fs c) : Action Next) := go _ hfs
  unfold Host.sleep
  split <;> infer_instance

instance cancelAndReap (cell : Nat) (timeUp : Bool) :
    Orderly P (Host.cancelAndReap cell timeUp) := by
  have (w : Nat) : Orderly P (Pure.pure (Next.wait [.reap cell timeUp] w) : Action Next) :=
    go _ rfl
  unfold Host.cancelAndReap
  infer_instance

instance waitFor (cell : Nat) (limit : Option Seconds) :
    Orderly P (Host.waitFor cell limit) := by
  have (w : Nat) : Orderly P (Pure.pure (Next.wait [.race cell] w) : Action Next) := go _ rfl
  unfold Host.waitFor
  split
  · infer_instance
  · split
    · refine @Orderly.bind _ _ _ _ _ _ fun h => ?_
      split <;> infer_instance
    · infer_instance

instance raceOver (cell : Nat) (e : Ending) : Orderly P (Host.raceOver cell e) := by
  unfold Host.raceOver
  refine @Orderly.bind _ _ _ _ _ _ fun h => ?_
  split
  · infer_instance
  · split <;> infer_instance

instance reaped (cell : Nat) (timeUp : Bool) (e : Ending) :
    Orderly P (Host.reaped cell timeUp e) := by
  have : Orderly P (Pure.pure (Next.pass (.failed .timeout)) : Action Next) := pass _
  unfold Host.reaped
  split
  · infer_instance
  · infer_instance
  · refine @Orderly.bind _ _ _ _ _ _ fun h => ?_
    split <;> infer_instance

instance readRun (read : Option RunResult → Value) (e : Ending) :
    Orderly P (Pure.pure (Host.readRun read e) : Action Next) := by
  unfold Host.readRun
  split
  · infer_instance
  · split <;> infer_instance
  · infer_instance

instance readInstall (i : Installer) (header : String) (e : Ending) :
    Orderly P (Pure.pure (Host.readInstall i header e) : Action Next) := by
  unfold Host.readInstall
  split
  · dsimp only
    split <;> infer_instance
  · split <;> infer_instance
  · infer_instance

instance toolEnded (outcome : Except Fault RunResult) :
    Orderly P (Pure.pure (Host.toolEnded outcome) : Action Next) := by
  unfold Host.toolEnded
  split <;> infer_instance

instance runTool (argv : List String) (cwd : String) (timeout : Option Seconds) :
    Orderly P (Host.runTool argv cwd timeout) := by
  have (delay : Option Binary64) (outcome : Except Fault RunResult) :=
    sleep (P := P) delay [.toolEnded outcome] rfl
  unfold Host.runTool
  infer_instance

instance fallBackAfterFailure (q : Nat) (reason : String) :
    Orderly P (Host.fallBackAfterFailure q reason) := by
  unfold Host.fallBackAfterFailure
  have (waiter : Option Nat) (e : Failure) : Lawful (match waiter with
      | some w => finish w (.failed e)
      | none => Pure.pure () : Action Unit) := by
    split <;> infer_instance
  infer_instance

instance endExchange (q : Nat) (e : Ending) : Orderly P (Host.endExchange q e) := by
  unfold Host.endExchange Host.answer
  split
  · infer_instance
  · infer_instance
  · split <;> infer_instance
  · infer_instance

instance closeConnection (q c : Nat) (e : Ending) : Orderly P (Host.closeConnection q c e) := by
  unfold Host.closeConnection
  refine @Orderly.bind _ _ _ _ _ _ fun _ => ?_
  refine @Orderly.bind _ _ _ _ _ _ fun conn => ?_
  split <;> infer_instance

instance useConnection (q : Nat) (e : Ending) : Orderly P (Host.useConnection q e) := by
  have (delay : Option Binary64) (c : Nat) := sleep (P := P) delay [.replied q c] rfl
  unfold Host.useConnection
  split
  · refine @Orderly.bind _ _ _ _ _ _ fun sent => ?_
    split <;> infer_instance
  · infer_instance

instance readReply (q c : Nat) (e : Ending) : Orderly P (Host.readReply q c e) := by
  unfold Host.readReply
  split
  · refine @Orderly.bind _ _ _ _ _ _ fun conn => ?_
    dsimp only
    split <;> infer_instance
  · infer_instance

instance connect (host : String) (port : Int) : Orderly P (Host.connect host port) := by
  have (delay : Option Binary64) (c : Nat) := sleep (P := P) delay [.connectEnded c] rfl
  unfold Host.connect
  infer_instance

instance connectEnded (c : Nat) : Orderly P (Host.connectEnded c) := by
  unfold Host.connectEnded
  refine @Orderly.bind _ _ _ _ _ _ fun conn => ?_
  split <;> infer_instance

instance beginExchange (q : Nat) : Orderly P (Host.beginExchange q) := by
  unfold Host.beginExchange
  refine @Orderly.bind _ _ _ _ _ _ fun query => ?_
  refine @Orderly.bind _ _ _ _ _ _ fun ch => ?_
  dsimp only
  split
  · exact call _ rfl
  · have (task : Nat) := above (P := P) [.connected q] (waitFor task ch.connectTimeout) rfl
    infer_instance

instance awaitQuery (c : Nat) (command : String) : Orderly P (Host.awaitQuery c command) := by
  unfold Host.awaitQuery
  infer_instance

instance callLane (l : Nat) (command : String) (timeout : Option Seconds) :
    Orderly P (Host.call l command timeout) := by
  unfold Host.call
  infer_instance

instance callSession (s : Nat) (command : String) (timeout : Option Seconds) :
    Orderly P (Host.callSession s command timeout) := by
  unfold Host.callSession
  infer_instance

instance querySession (s : Nat) (command : String) :
    Orderly P (Host.querySession s command) := by
  unfold Host.querySession
  infer_instance

instance checkFile (s : Nat) (path : String) (contents : Option String) :
    Orderly P (Host.checkFile s path contents) := by
  unfold Host.checkFile
  have (target : String) :=
    call (P := P) [.callSession s (Command.load target) none, .diagnose s] rfl
  split <;> infer_instance

instance readWorker (p : Nat) : Orderly P (Host.readWorker p) := by
  unfold Host.readWorker
  have (c : Nat) : Orderly P (Pure.pure (Next.wait [.read p] c) : Action Next) := go _ rfl
  refine @Orderly.bind _ _ _ _ _ _ fun proc => ?_
  refine @Orderly.ite _ _ _ _ _ _ _ ?_
  split <;> infer_instance

instance waitExit (p : Nat) : Orderly P (Host.waitExit p) := by
  unfold Host.waitExit
  have (c : Nat) : Orderly P (Pure.pure (Next.wait [.waitExit p] c) : Action Next) := go _ rfl
  refine @Orderly.bind _ _ _ _ _ _ fun proc => ?_
  split <;> infer_instance

instance spawnEnd (script : SpawnScript) : Orderly P (Host.spawnEnd script) := by
  unfold Host.spawnEnd
  split <;> infer_instance

instance getOrCreate (root kind : String) (targets : Option (List String)) :
    Orderly P (Host.getOrCreate root kind targets) := by
  unfold Host.getOrCreate
  refine @Orderly.bind _ _ _ _ _ _ fun h => ?_
  split
  · infer_instance
  · infer_instance
  · dsimp only
    split <;> infer_instance

instance readyEvent (s : Nat) : Orderly P (Host.readyEvent s) := by
  unfold Host.readyEvent
  infer_instance

instance readyCheck (s : Nat) : Orderly P (Host.readyCheck s) := by
  unfold Host.readyCheck
  refine @Orderly.bind _ _ _ _ _ _ fun session => ?_
  split <;> infer_instance

instance waitReady (s : Nat) : Orderly P (Host.waitReady s) := by
  unfold Host.waitReady
  refine @Orderly.bind _ _ _ _ _ _ fun h => ?_
  split
  · exact call _ rfl
  · next limit _ =>
    have (task : Nat) := above (P := P) [.readyCheck s] (waitFor task h.settings.startupTimeout) rfl
    infer_instance

instance restart (root kind : String) (targets : Option (List String)) :
    Orderly P (Host.restart root kind targets) := by
  unfold Host.restart
  have (targets : Option (List String)) :=
    call (P := P) [.destroy root kind, .ensureReady root kind targets] rfl
  refine @Orderly.bind _ _ _ _ _ _ fun found => ?_
  split <;> infer_instance

end

/-- Whoever follows a worker goes on following it, or waits for its end. -/
instance pumped (s p : Nat) (e : Ending) : Orderly Easy (Host.pumped s p e) := by
  unfold Host.pumped
  have : Orderly Easy (Pure.pure (Next.call [.pump s p]) : Action Next) := pure rfl
  -- the frame that is told of the end stands below the one that waits for it
  have : Orderly Easy (Pure.pure (Next.call [.waitExit p, .pumpEnd s p]) : Action Next) :=
    pure (by simp [Easy, easy, tame, Next.push, Next.call, Frame.isPlain, Frame.isSpawn,
      Frame.isStart, Frame.expects?, Frame.heralds?, Frame.reaction?])
  split
  · infer_instance
  · infer_instance
  · split <;> infer_instance
  · infer_instance

end Orderly

end Host

end GhciHost
