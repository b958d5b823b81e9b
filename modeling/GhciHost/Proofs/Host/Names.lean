import GhciHost.Proofs.Host.Looped
import GhciHost.Proofs.Host.Orderly
import GhciHost.Proofs.Host.Proceed

/-!
# The cells that a step tells of

A task that goes on may wait for a cell, and its frames may wait for cells later or cancel them.  A
step takes these cells from the frame that goes on, or makes them.  Only whoever ends a session looks
elsewhere: at the cell of the session's reader, and at those of queries.

* `Names`   an action of which this is known;
* `Names.bindNew`   what is done with a cell that was only just made;
* `Names.resume`   the steps of all frames but two.
-/

namespace GhciHost

/-- The cells that a frame will wait for, or cancel. -/
def Frame.cells : Frame → List Nat
  | race c | reap c _ => [c]
  | queriesEnd _ rest _ => rest
  | _ => []

/-- The frames that look up cells that the host remembers. -/
def Frame.recalls : Frame → Bool
  | cancelQueries _ | teardown _ => true
  | _ => false

namespace Host

open Loop

/-- The cells of some frames. -/
def cellsOf (fs : List Frame) : List Nat := fs.flatMap Frame.cells

/-- The cells that a task waits for then, or will wait for or cancel. -/
def Next.cells : Next → List Nat
  | go push _ => cellsOf push
  | wait push c => c :: cellsOf push

/-- No cell is taken away. -/
def Swells (l l' : Loop Value Failure Frame) : Prop := l.cells.size ≤ l'.cells.size

instance : Handles Swells where
  refl _ := Nat.le_refl _
  trans h k := Nat.le_trans h k
  finish l c _ _ := Nat.le_of_eq (size_cells_finish l c _).symm
  hook l c k _ := Nat.le_of_eq (size_cells_hook l c k).symm
  newCell l := by simp [Swells, Loop.newCell]
  timers _ _ := Nat.le_refl _

namespace Swells

instance newTask (fs : List Frame) : Within (Looped Swells) (Host.newTask fs) :=
  ⟨fun h => by
    show h.loop.cells.size ≤ (h.loop.newTask fs).2.cells.size
    simp [Loop.newTask]⟩

instance cancel (c : Nat) : Within (Looped Swells) (changeLoop (·.cancel c)) :=
  Looped.changeLoop fun l => Nat.le_of_eq (size_cells_cancelWithin l _ c).symm

end Swells

/-- The cells of how a task goes on are known before, or made meanwhile. -/
class Names (K : Nat → Prop) (a : Action Next) : Prop where
  names : ∀ {h n h'}, a.run h = .ok n h' → ∀ c ∈ n.cells,
    K c ∨ h.loop.cells.size ≤ c ∧ c < h'.loop.cells.size

/-- The action makes a cell. -/
class Makes (a : Action Nat) : Prop where
  makes : ∀ {h c h'}, a.run h = .ok c h' → c = h.loop.cells.size ∧ c < h'.loop.cells.size

instance : Makes newCell := ⟨fun e => by cases e; simp⟩

instance (d : Binary64) : Makes (onLoop (·.newTimer d)) :=
  ⟨fun e => by cases e; simp⟩

instance (fs : List Frame) : Makes (newTask fs) := ⟨fun e => by cases e; simp⟩

namespace Names

variable {K : Nat → Prop} {α : Type}

/-! ## Actions and their parts -/

theorem go {n : Next} (hn : n.cells = []) : Names K (Pure.pure n : Action Next) :=
  ⟨fun e c hc => by
    cases e
    rw [hn] at hc
    cases hc⟩

instance done (v : Value) : Names K (Pure.pure (Next.done v) : Action Next) := go rfl

instance pass (e : Ending) : Names K (Pure.pure (Next.pass e) : Action Next) := go rfl

theorem wait {fs : List Frame} {c : Nat} (hc : K c) (hfs : ∀ d ∈ cellsOf fs, K d) :
    Names K (Pure.pure (Next.wait fs c) : Action Next) :=
  ⟨fun e d hd => by
    cases e
    rcases List.mem_cons.1 hd with rfl | hd
    · exact .inl hc
    · exact .inl (hfs d hd)⟩

instance throw (x : Failure) : Names K (MonadExcept.throw x : Action Next) :=
  ⟨fun e => by cases e⟩

instance throw_bind (x : Failure) (f : α → Action Next) :
    Names K ((MonadExcept.throw x : Action α) >>= f) := ⟨fun e => by cases e⟩

instance bind (a : Action α) (f : α → Action Next) [Within (Looped Swells) a]
    [hf : ∀ v, Names K (f v)] : Names K (a >>= f) :=
  ⟨fun {h n h'} e c hc => by
    rw [run_bind] at e
    cases ea : a.run h with
    | error x k =>
      rw [ea] at e
      cases e
    | ok v k =>
      rw [ea] at e
      have hle : h.loop.cells.size ≤ k.loop.cells.size := Within.of_ok (R := Looped Swells) ea
      exact ((hf v).names e c hc).imp_right fun hnew => ⟨Nat.le_trans hle hnew.1, hnew.2⟩⟩

/-- A cell that was only just made is one that the action may tell of. -/
instance (priority := high) bindNew (a : Action Nat) (f : Nat → Action Next) [ha : Makes a]
    [hs : ∀ c, Within (Looped Swells) (f c)] [hf : ∀ c, Names (fun d => d = c ∨ K d) (f c)] :
    Names K (a >>= f) :=
  ⟨fun {h n h'} e c hc => by
    rw [run_bind] at e
    cases ea : a.run h with
    | error x k =>
      rw [ea] at e
      cases e
    | ok v k =>
      rw [ea] at e
      obtain ⟨hv, hlt⟩ := ha.makes ea
      have hle : k.loop.cells.size ≤ h'.loop.cells.size :=
        @Within.of_ok _ _ _ (hs v) _ _ _ e
      rcases (hf v).names e c hc with (rfl | hK) | hnew
      · exact .inr ⟨Nat.le_of_eq hv.symm, Nat.lt_of_lt_of_le hlt hle⟩
      · exact .inl hK
      · exact .inr ⟨Nat.le_trans (hv ▸ Nat.le_of_lt hlt) hnew.1, hnew.2⟩⟩

instance ite (c : Prop) [Decidable c] (a b : Action Next) [ha : Names K a] [hb : Names K b] :
    Names K (if c then a else b) := by
  split
  · exact ha
  · exact hb

instance tryCatch (a : Action Next) (f : Failure → Action Next) [Within (Looped Swells) a]
    [ha : Names K a] [hf : ∀ e, Names K (f e)] :
    Names K (MonadExcept.tryCatch a f : Action Next) :=
  ⟨fun {h n h'} e c hc => by
    rw [run_tryCatch] at e
    cases ea : a.run h with
    | ok v k =>
      rw [ea] at e
      cases e
      exact ha.names ea c hc
    | error x k =>
      rw [ea] at e
      have hle : h.loop.cells.size ≤ k.loop.cells.size := Within.of_error (R := Looped Swells) ea
      exact ((hf x).names e c hc).imp_right fun hnew => ⟨Nat.le_trans hle hnew.1, hnew.2⟩⟩

theorem above {a : Action Next} (fs : List Frame) (ha : Names K a) (hfs : cellsOf fs = []) :
    Names K (do return (← a).above fs) :=
  ⟨fun {h n h'} e c hc => by
    rw [run_bind] at e
    cases ea : a.run h with
    | error x k =>
      rw [ea] at e
      cases e
    | ok m k =>
      rw [ea] at e
      cases e
      refine ha.names ea c ?_
      cases m with
      | go push e =>
        simpa [Next.above, Next.cells, cellsOf, List.flatMap_append,
          show fs.flatMap Frame.cells = [] from hfs] using hc
      | wait push d =>
        simpa [Next.above, Next.cells, cellsOf, List.flatMap_append,
          show fs.flatMap Frame.cells = [] from hfs] using hc⟩

/-! ## Waiting -/

theorem sleep (delay : Option Binary64) (fs : List Frame) (hfs : cellsOf fs = []) :
    Names K (Host.sleep delay fs) := by
  have : Names K (Pure.pure (Next.call fs) : Action Next) := go hfs
  have (c : Nat) : Names (fun d => d = c ∨ K d) (Pure.pure (Next.wait fs c) : Action Next) :=
    wait (.inl rfl) fun d hd => by
      rw [hfs] at hd
      cases hd
  unfold Host.sleep
  split <;> infer_instance

theorem cancelAndReap {cell : Nat} (hcell : K cell) (timeUp : Bool) :
    Names K (Host.cancelAndReap cell timeUp) := by
  have (w : Nat) : Names (fun d => d = w ∨ K d)
      (Pure.pure (Next.wait [.reap cell timeUp] w) : Action Next) :=
    wait (.inl rfl) fun d hd => by
      rw [List.mem_singleton.1 hd]
      exact .inr hcell
  unfold Host.cancelAndReap
  infer_instance

theorem waitFor {cell : Nat} (hcell : K cell) (limit : Option Seconds) :
    Names K (Host.waitFor cell limit) := by
  have : Names K (Pure.pure (Next.wait [] cell) : Action Next) := wait hcell nofun
  have := cancelAndReap hcell
  have (w : Nat) : Names (fun d => d = w ∨ K d)
      (Pure.pure (Next.wait [.race cell] w) : Action Next) :=
    wait (.inl rfl) fun d hd => by
      rw [List.mem_singleton.1 hd]
      exact .inr hcell
  unfold Host.waitFor
  split
  · infer_instance
  · split
    · refine @Names.bind _ _ _ _ _ fun h => ?_
      split <;> infer_instance
    · infer_instance

theorem raceOver {cell : Nat} (hcell : K cell) (e : Ending) : Names K (Host.raceOver cell e) := by
  have := cancelAndReap hcell
  unfold Host.raceOver
  refine @Names.bind _ _ _ _ _ fun h => ?_
  split
  · infer_instance
  · split <;> infer_instance

instance reaped (cell : Nat) (timeUp : Bool) (e : Ending) : Names K (Host.reaped cell timeUp e) := by
  unfold Host.reaped
  split
  · infer_instance
  · infer_instance
  · refine @Names.bind _ _ _ _ _ fun h => ?_
    split <;> infer_instance

/-! ## Tools and workers -/

instance readRun (read : Option RunResult → Value) (e : Ending) :
    Names K (Pure.pure (Host.readRun read e) : Action Next) := by
  unfold Host.readRun
  split
  · infer_instance
  · split <;> infer_instance
  · infer_instance

instance readInstall (i : Installer) (header : String) (e : Ending) :
    Names K (Pure.pure (Host.readInstall i header e) : Action Next) := by
  unfold Host.readInstall
  split
  · dsimp only
    split <;> infer_instance
  · split <;> infer_instance
  · infer_instance

instance toolEnded (outcome : Except Fault RunResult) :
    Names K (Pure.pure (Host.toolEnded outcome) : Action Next) := by
  unfold Host.toolEnded
  split <;> infer_instance

instance runTool (argv : List String) (cwd : String) (timeout : Option Seconds) :
    Names K (Host.runTool argv cwd timeout) := by
  have (delay : Option Binary64) (outcome : Except Fault RunResult) :=
    sleep (K := K) delay [.toolEnded outcome] rfl
  unfold Host.runTool
  infer_instance

instance readWorker (p : Nat) : Names K (Host.readWorker p) := by
  unfold Host.readWorker
  have (c : Nat) : Names (fun d => d = c ∨ K d) (Pure.pure (Next.wait [.read p] c) : Action Next) :=
    wait (.inl rfl) nofun
  refine @Names.bind _ _ _ _ _ fun proc => ?_
  refine @Names.ite _ _ _ _ _ _ ?_
  split <;> infer_instance

instance waitExit (p : Nat) : Names K (Host.waitExit p) := by
  unfold Host.waitExit
  have (c : Nat) : Names (fun d => d = c ∨ K d)
      (Pure.pure (Next.wait [.waitExit p] c) : Action Next) := wait (.inl rfl) nofun
  refine @Names.bind _ _ _ _ _ fun proc => ?_
  split <;> infer_instance

instance spawnEnd (script : SpawnScript) : Names K (Host.spawnEnd script) := by
  unfold Host.spawnEnd
  split <;> infer_instance

/-! ## Queries -/

instance fallBackAfterFailure (q : Nat) (reason : String) :
    Names K (Host.fallBackAfterFailure q reason) := by
  unfold Host.fallBackAfterFailure
  have (waiter : Option Nat) (e : Failure) : Within (Looped Swells) (match waiter with
      | some w => finish w (.failed e)
      | none => Pure.pure () : Action Unit) := by
    split <;> infer_instance
  infer_instance

instance endExchange (q : Nat) (e : Ending) : Names K (Host.endExchange q e) := by
  have (l : Nat) (state : Json) (body : String) (r : Reaction) :
      Within (Looped Swells) (Host.react l state body r) := inferInstance
  unfold Host.endExchange Host.answer
  split
  · infer_instance
  · infer_instance
  · split <;> infer_instance
  · infer_instance

instance closeConnection (q c : Nat) (e : Ending) : Names K (Host.closeConnection q c e) := by
  unfold Host.closeConnection
  refine @Names.bind _ _ _ _ _ fun _ => ?_
  refine @Names.bind _ _ _ _ _ fun conn => ?_
  split <;> infer_instance

instance useConnection (q : Nat) (e : Ending) : Names K (Host.useConnection q e) := by
  have (delay : Option Binary64) (c : Nat) := sleep (K := K) delay [.replied q c] rfl
  unfold Host.useConnection
  split
  · refine @Names.bind _ _ _ _ _ fun sent => ?_
    split <;> infer_instance
  · infer_instance

instance readReply (q c : Nat) (e : Ending) : Names K (Host.readReply q c e) := by
  unfold Host.readReply
  split
  · refine @Names.bind _ _ _ _ _ fun conn => ?_
    dsimp only
    split <;> infer_instance
  · infer_instance

instance connect (host : String) (port : Int) : Names K (Host.connect host port) := by
  have (delay : Option Binary64) (c : Nat) := sleep (K := K) delay [.connectEnded c] rfl
  unfold Host.connect
  infer_instance

instance connectEnded (c : Nat) : Names K (Host.connectEnded c) := by
  unfold Host.connectEnded
  refine @Names.bind _ _ _ _ _ fun conn => ?_
  split <;> infer_instance

instance beginExchange (q : Nat) : Names K (Host.beginExchange q) := by
  unfold Host.beginExchange
  refine @Names.bind _ _ _ _ _ fun query => ?_
  refine @Names.bind _ _ _ _ _ fun ch => ?_
  dsimp only
  split
  · exact go rfl
  · have (task : Nat) : Names (fun d => d = task ∨ K d) (do
        return (← Host.waitFor task ch.connectTimeout).above [.connected q] : Action Next) :=
      above [.connected q] (waitFor (.inl rfl) _) rfl
    infer_instance

instance awaitQuery (c : Nat) (command : String) : Names K (Host.awaitQuery c command) := by
  have (w : Nat) : Names (fun d => d = w ∨ K d) (Pure.pure (Next.wait [] w) : Action Next) :=
    wait (.inl rfl) nofun
  unfold Host.awaitQuery
  infer_instance

theorem queriesEnd {rest : List Nat} (hrest : ∀ d ∈ rest, K d) (c n : Nat) (e : Ending) :
    Names K (Host.queriesEnd c rest n e) := by
  unfold Host.queriesEnd
  split
  · infer_instance
  · next task rest _ =>
    refine wait (hrest task List.mem_cons_self) fun d hd => hrest d (List.mem_cons_of_mem _ ?_)
    simpa [cellsOf, Frame.cells] using hd
  · infer_instance

/-! ## Sessions -/

instance callLane (l : Nat) (command : String) (timeout : Option Seconds) :
    Names K (Host.call l command timeout) := by
  have (w : Nat) : Names (fun d => d = w ∨ K d) (Host.waitFor w timeout) := waitFor (.inl rfl) _
  unfold Host.call
  infer_instance

instance callSession (s : Nat) (command : String) (timeout : Option Seconds) :
    Names K (Host.callSession s command timeout) := by
  unfold Host.callSession
  infer_instance

instance querySession (s : Nat) (command : String) : Names K (Host.querySession s command) := by
  unfold Host.querySession
  infer_instance

instance checkFile (s : Nat) (path : String) (contents : Option String) :
    Names K (Host.checkFile s path contents) := by
  unfold Host.checkFile
  have (target : String) : Names K
      (Pure.pure (Next.call [.callSession s (Command.load target) none, .diagnose s])) := go rfl
  split <;> infer_instance

instance getOrCreate (root kind : String) (targets : Option (List String)) :
    Names K (Host.getOrCreate root kind targets) := by
  unfold Host.getOrCreate
  refine @Names.bind _ _ _ _ _ fun h => ?_
  split
  · infer_instance
  · infer_instance
  · dsimp only
    split <;> infer_instance

instance readyEvent (s : Nat) : Names K (Host.readyEvent s) := by
  have (w : Nat) : Names (fun d => d = w ∨ K d) (Pure.pure (Next.wait [] w) : Action Next) :=
    wait (.inl rfl) nofun
  unfold Host.readyEvent
  infer_instance

instance readyCheck (s : Nat) : Names K (Host.readyCheck s) := by
  unfold Host.readyCheck
  refine @Names.bind _ _ _ _ _ fun session => ?_
  split <;> infer_instance

instance waitReady (s : Nat) : Names K (Host.waitReady s) := by
  unfold Host.waitReady
  refine @Names.bind _ _ _ _ _ fun h => ?_
  split
  · exact go rfl
  · have (task : Nat) : Names (fun d => d = task ∨ K d) (do
        return (← Host.waitFor task h.settings.startupTimeout).above [.readyCheck s] : Action Next) :=
      above [.readyCheck s] (waitFor (.inl rfl) _) rfl
    infer_instance

instance restart (root kind : String) (targets : Option (List String)) :
    Names K (Host.restart root kind targets) := by
  unfold Host.restart
  have (targets : Option (List String)) : Names K
      (Pure.pure (Next.call [.destroy root kind, .ensureReady root kind targets])) := go rfl
  refine @Names.bind _ _ _ _ _ fun found => ?_
  split <;> infer_instance

instance destroy (root kind : String) : Names K (Host.destroy root kind) := by
  unfold Host.destroy
  have (s : Nat) : Names K (Pure.pure (Next.call [.teardown s, .give (.flag true)])) := go rfl
  refine @Names.bind _ _ _ _ _ fun root => ?_
  refine @Names.bind _ _ _ _ _ fun h => ?_
  split <;> infer_instance

instance cleanup : Names K Host.cleanup := by
  unfold Host.cleanup
  have (sessions : List Nat) : Names K (Pure.pure (Next.call [.cleanupRest sessions])) := go rfl
  infer_instance

instance cleanupRest (rest : List Nat) (e : Ending) :
    Names K (Pure.pure (Host.cleanupRest rest e) : Action Next) := by
  cases e with
  | cancelled => exact go rfl
  | _ => cases rest <;> exact go rfl

instance readerGone (s : Nat) (p : Option Nat) (e : Ending) : Names K (Host.readerGone s p e) := by
  unfold Host.readerGone
  have : Names K (Pure.pure (Next.call [.cancelQueries s, .queriesGone s])) := go rfl
  split
  · infer_instance
  · dsimp only
    split <;> infer_instance

instance queriesGone (s : Nat) : Names K (Host.queriesGone s) := by
  unfold Host.queriesGone
  have (f : Host → Disk) (g : Host → Option Metrics) :
      Within (Looped Swells) (modify fun h => { h with disk := f h, metrics := g h } : Action Unit) :=
    ⟨fun _ => Looped.of_loop rfl⟩
  have (f : Host → Bus) :
      Within (Looped Swells) (modify fun h => { h with bus := f h } : Action Unit) :=
    ⟨fun _ => Looped.of_loop rfl⟩
  have (phase : Phase) : Within (Looped Swells) (Host.transition s phase) := inferInstance
  refine @Names.bind _ _ _ _ _ fun before => ?_
  refine @Names.bind _ _ _ _ _ fun abandoned => ?_
  refine @Names.bind _ _ _ _ _ fun session => ?_
  dsimp only
  refine @Names.ite _ _ _ _ _ ?_ ?_
  · refine @Names.bind _ _ _ _ _ fun _ => ?_
    infer_instance
  · infer_instance

/-! ## Startups -/

instance startSession (s : Nat) : Names K (Host.startSession s) := by
  unfold Host.startSession
  have : Names K (Pure.pure (Next.call (startFrames s ++ [.give (.session s)]))) := go rfl
  have (c : Nat) : Names (fun d => d = c ∨ K d)
      (Pure.pure (Next.wait [.startTurn s c, .give (.session s)] c) : Action Next) :=
    wait (.inl rfl) nofun
  infer_instance

instance startTurn (s c : Nat) (e : Ending) : Names K (Host.startTurn s c e) := by
  unfold Host.startTurn
  have : Names K (Pure.pure (Next.call (startFrames s))) := go rfl
  refine @Names.bind _ _ _ _ _ fun _ => ?_
  split <;> infer_instance

instance startEnd (s : Nat) (e : Ending) : Names K (Host.startEnd s e) := by
  unfold Host.startEnd
  infer_instance

instance checkWorker (s : Nat) : Names K (Host.checkWorker s) := by
  unfold Host.checkWorker
  have (i : Installer) (root : String) : Names K
      (Pure.pure (Next.call (askStatus i root ++ [.gotStatus s]))) := go rfl
  infer_instance

instance startBody (s : Nat) : Names K (Host.startBody s) := by
  unfold Host.startBody
  have (i : Installer) (root : String) : Names K
      (Pure.pure (Next.call (askVersion i root ++ [.gotVersion s]))) := go rfl
  infer_instance

instance gotVersion (s : Nat) (v : Option String) : Names K (Host.gotVersion s v) := by
  unfold Host.gotVersion
  have (i : Installer) (root : String) : Names K
      (Pure.pure (Next.call (askExtensions i root ++ [.gotExtensions s]))) := go rfl
  infer_instance

instance gotExtensions (s : Nat) (names : List String) : Names K (Host.gotExtensions s names) := by
  unfold Host.gotExtensions
  infer_instance

instance launchCall (s : Nat) (mode : StartMode) (replay : List Request) :
    Names K (Pure.pure (Next.call [.launch s mode replay])) := go rfl

instance gotStatus (s : Nat) (status : InstallStatus) : Names K (Host.gotStatus s status) := by
  unfold Host.gotStatus Host.beginInstall
  have (phase : Phase) : Within (Looped Swells) (Host.transition s phase) := inferInstance
  have (i : Installer) (root : String) (v : Option String) : Names K
      (Pure.pure (Next.call (install i root v ++ [.gotInstall s]))) := go rfl
  infer_instance

instance gotInstall (s : Nat) (e : Ending) : Names K (Host.gotInstall s e) := by
  unfold Host.gotInstall
  refine @Names.bind _ _ _ _ _ fun before => ?_
  split <;> infer_instance

instance launch (s : Nat) (mode : StartMode) (replay : List Request) :
    Names K (Host.launch s mode replay) := by
  have (script : SpawnScript) :=
    sleep (K := K) script.delay [.spawnEnd script, .launched s mode replay] rfl
  have (phase : Phase) : Within (Looped Swells) (Host.transition s phase) := inferInstance
  unfold Host.launch
  refine @Names.bind _ _ _ _ _ fun _ => ?_
  refine @Names.bind _ _ _ _ _ fun session => ?_
  refine @Names.bind _ _ _ _ _ fun h => ?_
  dsimp only
  infer_instance

instance launched (s : Nat) (mode : StartMode) (replay : List Request) (e : Ending) :
    Names K (Host.launched s mode replay e) := by
  have (p : Nat) : Names K (Host.adopt s p mode replay) := by
    unfold Host.adopt
    refine @Names.bind _ _ _ _ _ fun _ => ?_
    refine @Names.bind _ _ _ _ _ fun _ => ?_
    refine @Names.bind _ _ _ _ _ fun _ => ?_
    refine @Names.bind _ _ _ _ _ fun _ => ?_
    infer_instance
  unfold Host.launched
  split <;> infer_instance

instance workerExited (s : Nat) (code : Int) : Names K (Host.workerExited s code) := by
  have (phase : Phase) : Within (Looped Swells) (Host.transition s phase) := inferInstance
  unfold Host.workerExited
  refine @Names.bind _ _ _ _ _ fun _ => ?_
  refine @Names.bind _ _ _ _ _ fun _ => ?_
  refine @Names.bind _ _ _ _ _ fun _ => ?_
  refine @Names.bind _ _ _ _ _ fun session => ?_
  refine @Names.bind _ _ _ _ _ fun _ => ?_
  dsimp only
  split <;> infer_instance

instance pumpEnd (s p : Nat) (code : Int) : Names K (Host.pumpEnd s p code) := by
  unfold Host.pumpEnd
  infer_instance

instance pumped (s p : Nat) (e : Ending) : Names K (Host.pumped s p e) := by
  unfold Host.pumped
  have : Names K (Pure.pure (Next.call [.pump s p])) := go rfl
  have : Names K (Pure.pure (Next.call [.waitExit p, .pumpEnd s p])) := go rfl
  split
  · infer_instance
  · infer_instance
  · split <;> infer_instance
  · infer_instance

/-! ## All frames -/

theorem resumeWith {f : Frame} (hf : f.recalls = false) (v : Value) :
    Names K (Host.resumeWith f v) := by
  have (s p : Nat) : Names K (Pure.pure (Next.call [.read p, .pumped s p])) := go rfl
  have (root kind : String) (targets : Option (List String)) : Names K
      (Pure.pure (Next.call [.getOrCreate root kind targets, .startSession, .waitReady])) := go rfl
  unfold Host.resumeWith
  split
  all_goals first | cases hf; done | infer_instance

/-- A step tells of cells that its frame knew, and of new ones. -/
theorem resume {f : Frame} (hf : f.recalls = false) (hK : ∀ c ∈ f.cells, K c) (e : Ending) :
    Names K (Host.resume f e) := by
  unfold Host.resume
  split
  case h_1 => exact raceOver (hK _ List.mem_cons_self) e
  case h_9 => exact queriesEnd hK _ _ e
  case h_17 => split <;> infer_instance
  case h_18 =>
    split
    · exact resumeWith hf _
    · infer_instance
  all_goals infer_instance

end Names

end Host

end GhciHost
