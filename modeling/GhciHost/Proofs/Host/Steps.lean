import GhciHost.Proofs.Host.View

/-!
# What the steps of tasks are made of

The actions that frames stand for, taken apart like those of `Host.Parts`: each moves the host
along a relation that has nothing to say about what is only remembered, if the parts that are asked
for do.

* `Within.getOrCreate` … `Within.cleanup`   one lemma for each action.
-/

namespace GhciHost.Host.Within

variable {R : Host → Host → Prop} [Std.Refl R] [IsTrans Host R]

/-! ## Reading -/

instance channel (c : Nat) : Within R (Host.channel c) := by
  unfold Host.channel
  infer_instance

instance query (q : Nat) : Within R (Host.query q) := by
  unfold Host.query
  infer_instance

instance connection (c : Nat) : Within R (Host.connection c) := by
  unfold Host.connection
  infer_instance

instance checkUsable (s : Nat) : Within R (Host.checkUsable s) := by
  unfold Host.checkUsable
  refine @Within.bind _ _ _ _ _ _ _ fun session => ?_
  dsimp only
  split <;> infer_instance

instance diagnostics (s : Nat) (text : String) : Within R (Host.diagnostics s text) := by
  unfold Host.diagnostics
  refine @Within.bind _ _ _ _ _ _ _ fun session => ?_
  split <;> infer_instance

instance snapshotOf (s : Nat) : Within R (Host.snapshotOf s) := by
  unfold Host.snapshotOf
  infer_instance

instance resolveRoot (root : String) : Within R (Host.resolveRoot root) := by
  unfold Host.resolveRoot
  refine @Within.bind _ _ _ _ _ _ _ fun h => ?_
  split <;> infer_instance

instance sessionOf? (root kind : String) : Within R (Host.sessionOf? root kind) := by
  unfold Host.sessionOf?
  infer_instance

instance isCancelled (c : Nat) : Within R (Host.isCancelled c) := by
  unfold Host.isCancelled
  refine @Within.bind _ _ _ _ _ _ _ fun h => ?_
  split <;> infer_instance

instance allM (cells : List Nat) : Within R (cells.allM Host.isCancelled) := by
  induction cells with
  | nil => exact Within.pure true
  | cons c cells ih =>
    rw [List.allM_cons]
    refine @Within.bind _ _ _ _ _ _ _ fun b => ?_
    cases b
    · exact Within.pure false
    · exact ih

instance isOwn (c : Nat) : Within R (Host.isOwn c) := by
  unfold Host.isOwn
  infer_instance

instance readyCheck (s : Nat) : Within R (Host.readyCheck s) := by
  unfold Host.readyCheck
  refine @Within.bind _ _ _ _ _ _ _ fun session => ?_
  split <;> infer_instance

instance restart (root kind : String) (targets : Option (List String)) :
    Within R (Host.restart root kind targets) := by
  unfold Host.restart
  refine @Within.bind _ _ _ _ _ _ _ fun found => ?_
  split <;> infer_instance

instance connectEnded (c : Nat) : Within R (Host.connectEnded c) := by
  unfold Host.connectEnded
  refine @Within.bind _ _ _ _ _ _ _ fun conn => ?_
  split <;> infer_instance

instance startBody (s : Nat) : Within R (Host.startBody s) := by
  unfold Host.startBody Host.checkWorker
  infer_instance

instance checkWorker (s : Nat) : Within R (Host.checkWorker s) := by
  unfold Host.checkWorker
  infer_instance

/-! ## Waiting -/

instance sleep (delay : Option Binary64) (fs : List Frame)
    [∀ d, Within R (onLoop (·.newTimer d))] : Within R (Host.sleep delay fs) := by
  unfold Host.sleep
  split <;> infer_instance

instance cancelAndReap (cell : Nat) (timeUp : Bool) [Within R newCell]
    [∀ w, Within R (changeLoop (·.hook cell (.release w)))]
    [Within R (changeLoop (·.cancel cell))] : Within R (Host.cancelAndReap cell timeUp) := by
  unfold Host.cancelAndReap
  infer_instance

instance waitFor (cell : Nat) (limit : Option Seconds)
    [∀ d, Within R (onLoop (·.newTimer d))]
    [∀ w, Within R (changeLoop (·.hook cell (.release w)))]
    [∀ timeUp, Within R (Host.cancelAndReap cell timeUp)] :
    Within R (Host.waitFor cell limit) := by
  unfold Host.waitFor
  split
  · infer_instance
  · split
    · refine @Within.bind _ _ _ _ _ _ _ fun h => ?_
      split <;> infer_instance
    · infer_instance

instance raceOver (cell : Nat) (e : Ending) [∀ timeUp, Within R (Host.cancelAndReap cell timeUp)] :
    Within R (Host.raceOver cell e) := by
  unfold Host.raceOver
  refine @Within.bind _ _ _ _ _ _ _ fun h => ?_
  split
  · infer_instance
  · split <;> infer_instance

instance reaped (cell : Nat) (timeUp : Bool) (e : Ending) :
    Within R (Host.reaped cell timeUp e) := by
  unfold Host.reaped
  split
  · infer_instance
  · infer_instance
  · refine @Within.bind _ _ _ _ _ _ _ fun h => ?_
    split <;> infer_instance

/-! ## Commands -/

instance submitSession (s : Nat) (command : String) (state : Json) (reaction : Option Reaction)
    [Within R (Host.submit s command state reaction none)] :
    Within R (Host.submitSession s command state reaction) := by
  unfold Host.submitSession
  infer_instance

instance callSession (s : Nat) (command : String) (timeout : Option Seconds)
    [∀ timeout, Within R (Host.call s command timeout)] :
    Within R (Host.callSession s command timeout) := by
  unfold Host.callSession
  infer_instance

instance querySession (s : Nat) (command : String) [Within R (Host.awaitQuery s command)] :
    Within R (Host.querySession s command) := by
  unfold Host.querySession
  infer_instance

instance queryOn (s : Nat) (command : String) (state : Json) (reaction : Option Reaction)
    [Within R (Host.startQuery s command state reaction none)] :
    Within R (Host.queryOn s command state reaction) := by
  unfold Host.queryOn
  infer_instance

instance fallBack (c : Nat) (command : String) (state : Json) (reaction : Option Reaction)
    (waiter : Option Nat) (reason : String) [Nearsighted R]
    [Within R (Host.submit c command state reaction waiter)] :
    Within R (Host.fallBack c command state reaction waiter reason) := by
  unfold Host.fallBack
  infer_instance

section Nearsighted

variable [Nearsighted R]

instance stage (s : Nat) (path contents : String) : Within R (Host.stage s path contents) := by
  unfold Host.stage
  refine @Within.bind _ _ _ _ _ _ _ fun session => ?_
  refine @Within.bind _ _ _ _ _ _ _ fun h => ?_
  dsimp only
  split
  · infer_instance
  · split
    · infer_instance
    · refine @Within.bind _ _ _ _ _ _ _ fun _ => ?_
      split
      · infer_instance
      · split <;> infer_instance

instance checkFile (s : Nat) (path : String) (contents : Option String) :
    Within R (Host.checkFile s path contents) := by
  unfold Host.checkFile
  split <;> infer_instance

instance appendTranscript (s : Nat) (text : List Char) :
    Within R (Host.appendTranscript s text) := by
  unfold Host.appendTranscript
  infer_instance

instance beginAttempt (s : Nat) (argv : List String) : Within R (Host.beginAttempt s argv) := by
  unfold Host.beginAttempt
  infer_instance

instance recordOutput (s : Nat) (bytes : List UInt8) : Within R (Host.recordOutput s bytes) := by
  unfold Host.recordOutput
  infer_instance

instance runTool (argv : List String) (cwd : String) (timeout : Option Seconds)
    [∀ d, Within R (onLoop (·.newTimer d))] : Within R (Host.runTool argv cwd timeout) := by
  unfold Host.runTool
  infer_instance

/-! ## Responses -/

instance becomeReady (s p : Nat) (mode : StartMode) (body : String)
    [∀ port, Within R (changeChannel s fun ch => { ch with port })]
    [∀ port, Within R (Host.transition s (.ready mode port))] :
    Within R (Host.becomeReady s p mode body) := by
  unfold Host.becomeReady
  refine @Within.bind _ _ _ _ _ _ _ fun session => ?_
  split
  · refine @Within.ite _ _ _ _ _ _ ?_ _
    split
    · infer_instance
    · dsimp only
      infer_instance
  · infer_instance

instance react (l : Nat) (state : Json) (body : String) (r : Reaction)
    [∀ command state, Within R (Host.submit l command state (some .note) none)]
    [∀ p, Within R (changeLane l (·.attach p))]
    [∀ s p mode, Within R (Host.becomeReady s p mode body)] :
    Within R (Host.react l state body r) := by
  unfold Host.react
  cases r <;> (dsimp only; infer_instance)

instance deliverFrom (ask : Asker) (l attachments : Nat) (marker : UInt8) (buffer : List UInt8)
    [∀ n, Within R (changeLane l fun a => { a with scanned := n })]
    [∀ body, Within R (Host.deliverBy ask l body)] (start scanned : Nat) :
    Within R (Host.deliverFrom ask l attachments marker buffer start scanned) := by
  induction hn : buffer.length - scanned using Nat.strongRecOn generalizing start scanned with
  | _ n ih =>
    unfold Host.deliverFrom
    split
    · infer_instance
    · next i hi =>
      have hlt := Lane.find?_lt hi
      have := ih (buffer.length - (i + 1)) (by omega) (i + 1) (i + 1) rfl
      infer_instance

instance feedBy (ask : Asker) (l : Nat) (bytes : List UInt8)
    [∀ n, Within R (changeLane l fun a => { a with scanned := n })]
    [Within R (changeLane l fun a => { a with buffer := a.buffer ++ bytes })]
    [∀ n, Within R (changeLane l fun a =>
      { a with buffer := a.buffer.drop n, scanned := a.buffer.length - n })]
    [∀ body, Within R (Host.deliverBy ask l body)] : Within R (Host.feedBy ask l bytes) := by
  unfold Host.feedBy
  refine @Within.ite _ _ _ _ _ _ _ ?_
  refine @Within.bind _ _ _ _ _ _ _ fun lane => ?_
  refine @Within.bind _ _ _ _ _ _ _ fun _ => ?_
  refine @Within.bind _ _ _ _ _ _ _ fun _ => ?_
  refine @Within.bind _ _ _ _ _ _ _ fun lane => ?_
  refine @Within.bind _ _ _ _ _ _ _ fun left => ?_
  split
  split <;> infer_instance

instance feed (l : Nat) (bytes : List UInt8)
    [∀ n, Within R (changeLane l fun a => { a with scanned := n })]
    [Within R (changeLane l fun a => { a with buffer := a.buffer ++ bytes })]
    [∀ n, Within R (changeLane l fun a =>
      { a with buffer := a.buffer.drop n, scanned := a.buffer.length - n })]
    [∀ body, Within R (Host.deliverBy Host.react l body)] : Within R (Host.feed l bytes) := by
  unfold Host.feed
  infer_instance

/-! ## Queries -/

instance startQuery (c : Nat) (command : String) (state : Json) (reaction : Option Reaction)
    (waiter : Option Nat) [∀ q, Within R (newTask [.exchange q])]
    [∀ task port, Within R (modify fun h =>
      { h with queries := h.queries.push ⟨c, command, state, reaction, waiter, port, task⟩ } :
        Action Unit)]
    [∀ f : QueryChannel → List Nat, Within R (changeChannel c fun ch => { ch with active := f ch })]
    [∀ task q, Within R (changeLoop (·.hook task (.notify q)))]
    [∀ reason, Within R (Host.fallBack c command state reaction waiter reason)] :
    Within R (Host.startQuery c command state reaction waiter) := by
  unfold Host.startQuery
  refine @Within.ite _ _ _ _ _ _ _ ?_
  refine @Within.bind _ _ _ _ _ _ _ fun _ => ?_
  refine @Within.bind _ _ _ _ _ _ _ fun ch => ?_
  split <;> infer_instance

instance connect (host : String) (port : Int) [∀ d, Within R (onLoop (·.newTimer d))] :
    Within R (Host.connect host port) := by
  unfold Host.connect
  infer_instance

instance beginExchange (q : Nat) [∀ host port, Within R (newTask [.connect host port])]
    [∀ cell limit, Within R (Host.waitFor cell limit)] : Within R (Host.beginExchange q) := by
  unfold Host.beginExchange
  refine @Within.bind _ _ _ _ _ _ _ fun query => ?_
  refine @Within.bind _ _ _ _ _ _ _ fun ch => ?_
  dsimp only
  split <;> infer_instance

instance closeConnection (q c : Nat) (e : Ending) [∀ e, Within R (Host.endExchange q e)] :
    Within R (Host.closeConnection q c e) := by
  unfold Host.closeConnection
  refine @Within.bind _ _ _ _ _ _ _ fun _ => ?_
  refine @Within.bind _ _ _ _ _ _ _ fun conn => ?_
  split <;> infer_instance

instance sendQuery (q c : Nat) : Within R (Host.sendQuery q c) := by
  unfold Host.sendQuery
  refine @Within.bind _ _ _ _ _ _ _ fun conn => ?_
  dsimp only
  split
  · refine @Within.bind _ _ _ _ _ _ _ fun _ => ?_
    refine @Within.bind _ _ _ _ _ _ _ fun query => ?_
    refine @Within.bind _ _ _ _ _ _ _ fun _ => ?_
    split <;> infer_instance
  · refine @Within.bind _ _ _ _ _ _ _ fun query => ?_
    refine @Within.bind _ _ _ _ _ _ _ fun _ => ?_
    split <;> infer_instance

instance useConnection (q : Nat) (e : Ending) [∀ e, Within R (Host.endExchange q e)]
    [∀ d, Within R (onLoop (·.newTimer d))] : Within R (Host.useConnection q e) := by
  unfold Host.useConnection
  split
  · refine @Within.bind _ _ _ _ _ _ _ fun sent => ?_
    split <;> infer_instance
  · infer_instance

instance readReply (q c : Nat) (e : Ending) [∀ e, Within R (Host.endExchange q e)] :
    Within R (Host.readReply q c e) := by
  unfold Host.readReply
  split
  · refine @Within.bind _ _ _ _ _ _ _ fun conn => ?_
    dsimp only
    split <;> infer_instance
  · infer_instance

instance cancelQueries (c : Nat)
    [∀ tasks : List Nat, Within R (changeLoop fun l => tasks.foldl (fun l t => l.cancel t) l)] :
    Within R (Host.cancelQueries c) := by
  unfold Host.cancelQueries
  have (qs : List Nat) : Within R (qs.mapM fun q => return (← Host.query q).task) := by
    induction qs with
    | nil => rw [List.mapM_nil]; infer_instance
    | cons q qs ih => rw [List.mapM_cons]; infer_instance
  infer_instance

instance queriesEnd (c : Nat) (rest : List Nat) (n : Nat) (e : Ending)
    [Within R (changeChannel c fun ch => { ch with active := [] })] :
    Within R (Host.queriesEnd c rest n e) := by
  unfold Host.queriesEnd
  split <;> infer_instance

/-! ## Starting a session -/

instance gotVersion (s : Nat) (v : Option String) : Within R (Host.gotVersion s v) := by
  unfold Host.gotVersion
  infer_instance

instance gotExtensions (s : Nat) (names : List String) :
    Within R (Host.gotExtensions s names) := by
  unfold Host.gotExtensions
  infer_instance

instance spawnEnd (script : SpawnScript)
    [Within R (modify fun h => { h with processes := h.processes.push script.process } :
      Action Unit)] : Within R (Host.spawnEnd script) := by
  unfold Host.spawnEnd
  split <;> infer_instance

instance getOrCreate (root kind : String) (targets : Option (List String))
    [∀ kind root targets, Within R (Host.newSession kind root targets)]
    [∀ (f : Host → Keyed (String × String) Nat) (g : Host → Option Metrics),
      Within R (modify fun h => { h with registry := f h, metrics := g h } : Action Unit)] :
    Within R (Host.getOrCreate root kind targets) := by
  unfold Host.getOrCreate
  refine @Within.bind _ _ _ _ _ _ _ fun h => ?_
  split
  · infer_instance
  · infer_instance
  · dsimp only
    split <;> infer_instance

instance setUp (s : Nat) (replay : List Request) [∀ command, Within R (Host.writeRaw s command)]
    [∀ r, Within R (Host.requeue s r)] : Within R (Host.setUp s replay) := by
  unfold Host.setUp
  infer_instance

instance trySetUp (s : Nat) (replay : List Request) [Within R (Host.setUp s replay)] :
    Within R (Host.trySetUp s replay) := by
  unfold Host.trySetUp
  refine @Within.tryCatch _ _ _ _ _ _ fun e => ?_
  split <;> infer_instance

/-! ## Following a worker -/

instance pumped (s p : Nat) (e : Ending) [∀ bytes, Within R (Host.feed s bytes)] :
    Within R (Host.pumped s p e) := by
  unfold Host.pumped
  split <;> infer_instance

instance waitReady (s : Nat) [Within R (newTask [.readyEvent s])]
    [∀ cell limit, Within R (Host.waitFor cell limit)] : Within R (Host.waitReady s) := by
  unfold Host.waitReady
  refine @Within.bind _ _ _ _ _ _ _ fun h => ?_
  split <;> infer_instance

/-! ## Destroying a session -/

instance destroy (root kind : String)
    [∀ f : Host → Keyed (String × String) Nat,
      Within R (modify fun h => { h with registry := f h } : Action Unit)] :
    Within R (Host.destroy root kind) := by
  unfold Host.destroy
  refine @Within.bind _ _ _ _ _ _ _ fun path => ?_
  refine @Within.bind _ _ _ _ _ _ _ fun h => ?_
  split <;> infer_instance

instance readerGone (s : Nat) (p : Option Nat) (e : Ending) [∀ p, Within R (Host.kill p)] :
    Within R (Host.readerGone s p e) := by
  unfold Host.readerGone
  split
  · infer_instance
  · split <;> infer_instance

instance cleanup [∀ f : Host → Keyed (String × String) Nat,
      Within R (modify fun h => { h with registry := f h } : Action Unit)] :
    Within R Host.cleanup := by
  unfold Host.cleanup
  infer_instance

end Nearsighted

/-! ## Commands whose response is awaited -/

instance call (l : Nat) (command : String) (timeout : Option Seconds) [Within R newCell]
    [∀ w, Within R (Host.submit l command .null none (some w))]
    [∀ w limit, Within R (Host.waitFor w limit)] : Within R (Host.call l command timeout) := by
  unfold Host.call
  infer_instance

instance awaitQuery (c : Nat) (command : String) [Within R newCell]
    [∀ w, Within R (Host.startQuery c command .null none (some w))] :
    Within R (Host.awaitQuery c command) := by
  unfold Host.awaitQuery
  infer_instance

instance fallBackAfterFailure (q : Nat) (reason : String)
    [∀ c command state reaction waiter,
      Within R (Host.fallBack c command state reaction waiter reason)]
    [∀ c x, Within R (finish c (.failed x))] : Within R (Host.fallBackAfterFailure q reason) := by
  unfold Host.fallBackAfterFailure
  have (waiter : Option Nat) (e : Failure) : Within R (match waiter with
      | some w => finish w (.failed e)
      | none => Pure.pure () : Action Unit) := by
    split <;> infer_instance
  infer_instance

instance endExchange (q : Nat) (e : Ending)
    [∀ reason, Within R (Host.fallBackAfterFailure q reason)]
    [∀ key, Within R (Host.count key .secondaryQuery)]
    [∀ l state reaction waiter body, Within R (Host.answerBy Host.react l state reaction waiter body)] :
    Within R (Host.endExchange q e) := by
  unfold Host.endExchange Host.answer
  split <;> infer_instance

instance queryEnded (q : Nat) [∀ c x, Within R (finish c (.failed x))]
    [∀ (c : Nat) (f : QueryChannel → List Nat),
      Within R (changeChannel c fun ch => { ch with active := f ch })] :
    Within R (Host.queryEnded q) := by
  unfold Host.queryEnded
  refine @Within.bind _ _ _ _ _ _ _ fun query => ?_
  refine @Within.bind _ _ _ _ _ _ _ fun _ => ?_
  refine @Within.bind _ _ _ _ _ _ _ fun h => ?_
  split <;> infer_instance

/-! ## Those who wait -/

instance readWorker (p : Nat) [Nearsighted R] [Within R newCell]
    [∀ c, Within R (Host.changeProcess p fun a => { a with reader := some c })] :
    Within R (Host.readWorker p) := by
  unfold Host.readWorker
  refine @Within.bind _ _ _ _ _ _ _ fun proc => ?_
  refine @Within.ite _ _ _ _ _ _ _ ?_
  split <;> infer_instance

instance waitExit (p : Nat) [Within R newCell]
    [∀ c, Within R (Host.changeProcess p fun a => { a with exitWaiters := a.exitWaiters ++ [c] })] :
    Within R (Host.waitExit p) := by
  unfold Host.waitExit
  refine @Within.bind _ _ _ _ _ _ _ fun proc => ?_
  split <;> infer_instance

instance readyEvent (s : Nat) [Within R newCell]
    [∀ c, Within R (changeSession s fun a => { a with readyWaiters := a.readyWaiters ++ [c] })] :
    Within R (Host.readyEvent s) := by
  unfold Host.readyEvent
  infer_instance

/-! ## Turns -/

instance callNext (s : Nat) [∀ cells, Within R (releaseAll cells)] :
    Within R (Host.callNext s) := by
  unfold Host.callNext
  refine @Within.bind _ _ _ _ _ _ _ fun session => ?_
  split <;> infer_instance

instance startSession (s : Nat) [Within R newCell]
    [Within R (changeSession s fun a => { a with starting := true })]
    [∀ c, Within R (changeSession s fun a => { a with startWaiters := a.startWaiters ++ [c] })] :
    Within R (Host.startSession s) := by
  unfold Host.startSession
  infer_instance

instance startTurn (s c : Nat) (e : Ending) [Within R (Host.callNext s)]
    [Within R (changeSession s fun a => { a with starting := true })]
    [Within R (changeSession s fun a => { a with startWaiters := a.startWaiters.erase c })] :
    Within R (Host.startTurn s c e) := by
  unfold Host.startTurn
  refine @Within.bind _ _ _ _ _ _ _ fun _ => ?_
  split <;> infer_instance

instance startEnd (s : Nat) (e : Ending) [Within R (Host.callNext s)]
    [Within R (changeSession s fun a => { a with starting := false })] :
    Within R (Host.startEnd s e) := by
  unfold Host.startEnd
  infer_instance

/-! ## Phases of a session -/

section Phases

variable [Nearsighted R]

instance giveUp (s : Nat) (reason : String) (kind : GiveUpKind)
    [∀ transcript, Within R (Host.transition s (.givenUp reason transcript kind))]
    [∀ e, Within R (Host.abandon s e)] : Within R (Host.giveUp s reason kind) := by
  unfold Host.giveUp
  infer_instance

instance beginInstall (s : Nat) (status : InstallStatus)
    [Within R (Host.transition s .installing)]
    [∀ reason kind, Within R (Host.giveUp s reason kind)] :
    Within R (Host.beginInstall s status) := by
  unfold Host.beginInstall
  infer_instance

instance gotStatus (s : Nat) (status : InstallStatus) [Within R (Host.beginInstall s status)] :
    Within R (Host.gotStatus s status) := by
  unfold Host.gotStatus
  infer_instance

instance gotInstall (s : Nat) (e : Ending) [∀ reason kind, Within R (Host.giveUp s reason kind)] :
    Within R (Host.gotInstall s e) := by
  unfold Host.gotInstall
  refine @Within.bind _ _ _ _ _ _ _ fun before => ?_
  split <;> infer_instance

instance launch (s : Nat) (mode : StartMode) (replay : List Request)
    [∀ ss, Within R (note fun j => { j with spawns := j.spawns ++ ss })]
    [Within R (Host.transition s (.starting mode))] [∀ d, Within R (onLoop (·.newTimer d))] :
    Within R (Host.launch s mode replay) := by
  unfold Host.launch
  refine @Within.bind _ _ _ _ _ _ _ fun _ => ?_
  refine @Within.bind _ _ _ _ _ _ _ fun session => ?_
  refine @Within.bind _ _ _ _ _ _ _ fun h => ?_
  dsimp only
  infer_instance

instance adopt (s p : Nat) (mode : StartMode) (replay : List Request)
    [Within R (changeSession s fun a => { a with process := some p })]
    [Within R (changeLane s (·.attach p))] [∀ r, Within R (changeLane s (·.push r))]
    [Within R (Host.trySetUp s replay)] [Within R (newTask [.pump s p])]
    [∀ c, Within R (changeSession s fun a => { a with reader := some c })] :
    Within R (Host.adopt s p mode replay) := by
  unfold Host.adopt
  refine @Within.bind _ _ _ _ _ _ _ fun _ => ?_
  refine @Within.bind _ _ _ _ _ _ _ fun _ => ?_
  refine @Within.bind _ _ _ _ _ _ _ fun _ => ?_
  refine @Within.bind _ _ _ _ _ _ _ fun _ => ?_
  infer_instance

instance launched (s : Nat) (mode : StartMode) (replay : List Request) (e : Ending)
    [∀ p, Within R (Host.kill p)] [∀ p, Within R (Host.adopt s p mode replay)]
    [∀ reason kind, Within R (Host.giveUp s reason kind)] :
    Within R (Host.launched s mode replay e) := by
  unfold Host.launched
  split <;> infer_instance

instance workerExited (s : Nat) (code : Int)
    [Within R (changeSession s fun a => { a with process := none })]
    [Within R (changeLane s (·.detach))]
    [Within R (changeChannel s fun ch => { ch with port := none })] [Within R (Host.takePending s)]
    [∀ phase, Within R (Host.transition s phase)]
    [∀ reason kind, Within R (Host.giveUp s reason kind)] :
    Within R (Host.workerExited s code) := by
  unfold Host.workerExited
  refine @Within.bind _ _ _ _ _ _ _ fun _ => ?_
  refine @Within.bind _ _ _ _ _ _ _ fun _ => ?_
  refine @Within.bind _ _ _ _ _ _ _ fun _ => ?_
  refine @Within.bind _ _ _ _ _ _ _ fun session => ?_
  refine @Within.bind _ _ _ _ _ _ _ fun _ => ?_
  dsimp only
  split <;> infer_instance

instance pumpEnd (s p : Nat) (code : Int) [Within R (Host.workerExited s code)] :
    Within R (Host.pumpEnd s p code) := by
  unfold Host.pumpEnd
  infer_instance

instance teardown (s : Nat)
    [Within R (changeSession s fun a =>
      { a with destroyed := true, ready := true, readyWaiters := [], process := none
               reader := none })]
    [∀ cells, Within R (releaseAll cells)] [Within R (changeLane s (·.detach))]
    [Within R (changeChannel s fun ch => { ch with port := none })]
    [∀ c, Within R (changeLoop (·.cancel c))] : Within R (Host.teardown s) := by
  unfold Host.teardown
  refine @Within.bind _ _ _ _ _ _ _ fun before => ?_
  refine @Within.bind _ _ _ _ _ _ _ fun _ => ?_
  refine @Within.bind _ _ _ _ _ _ _ fun _ => ?_
  refine @Within.bind _ _ _ _ _ _ _ fun _ => ?_
  refine @Within.bind _ _ _ _ _ _ _ fun _ => ?_
  dsimp only
  split <;> infer_instance

instance queriesGone (s : Nat) [∀ e, Within R (Host.abandon s e)]
    [Within R (Host.transition s .absent)] : Within R (Host.queriesGone s) := by
  unfold Host.queriesGone
  have (f : Host → Disk) (g : Host → Option Metrics) :
      Within R (modify fun h => { h with disk := f h, metrics := g h } : Action Unit) :=
    of_traffic fun _ => ⟨rfl, rfl, rfl, rfl⟩
  have (f : Host → Bus) : Within R (modify fun h => { h with bus := f h } : Action Unit) :=
    of_traffic fun _ => ⟨rfl, rfl, rfl, rfl⟩
  refine @Within.bind _ _ _ _ _ _ _ fun before => ?_
  refine @Within.bind _ _ _ _ _ _ _ fun abandoned => ?_
  refine @Within.bind _ _ _ _ _ _ _ fun session => ?_
  dsimp only
  refine @Within.ite _ _ _ _ _ _ ?_ ?_
  · refine @Within.bind _ _ _ _ _ _ _ fun _ => ?_
    infer_instance
  · refine @Within.bind _ _ _ _ _ _ _ fun _ => ?_
    refine @Within.bind _ _ _ _ _ _ _ fun _ => ?_
    infer_instance

end Phases

end GhciHost.Host.Within
