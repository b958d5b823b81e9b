import GhciHost.Host.Run
import GhciHost.Proofs.Host.Effect

/-!
# What happens outside

Between the steps of the loop callers ask for things, workers print and end, tasks are cancelled,
and settings, files and what comes of tools change.  `Outside P` lists all that, where `P` tells
which reactions callers may ask for; a host is reached if it is `Reachable Fresh (Outside P)`, and
`Run` tells how.
-/

namespace GhciHost

/-- The reactions that callers ask for: to be told, to be told and fail, and to submit a command. -/
def Reaction.isAsked : Reaction → Prop
  | note | fail | submit .. => True
  | attach _ | ready .. => False

namespace Host

/-- What has to be done for a caller. -/
inductive Asked (P : Reaction → Prop) : List Frame → Prop
  | ensureReady (root kind : String) (targets : Option (List String)) :
      Asked P [.ensureReady root kind targets]
  | restart (root kind : String) (targets : Option (List String)) :
      Asked P [.restart root kind targets]
  | destroy (root kind : String) : Asked P [.destroy root kind]
  | cleanup : Asked P [.cleanup]
  | submit (root kind command : String) (state : Json) (reaction : Option Reaction) :
      (∀ r ∈ reaction, P r) →
      Asked P [.getOrCreate root kind none, .startSession, .submitTo command state reaction]
  | blockingCall (root kind command : String) (timeout : Option Seconds) :
      Asked P [.getOrCreate root kind none, .startSession, .callOn command timeout]
  | queryAsync (root kind command : String) (state : Json) (reaction : Option Reaction) :
      (∀ r ∈ reaction, P r) →
      Asked P [.getOrCreate root kind none, .startSession, .queryOn command state reaction]
  | callSession (s : Nat) (command : String) (timeout : Option Seconds) :
      Asked P [.callSession s command timeout]
  | querySession (s : Nat) (command : String) : Asked P [.querySession s command]
  | checkFile (s : Nat) (path : String) (contents : Option String) :
      Asked P [.checkFile s path contents]

/-- What can happen between steps. -/
inductive Outside (P : Reaction → Prop) (h : Host) : Host → Prop
  /-- A caller's task is made. -/
  | ask {fs : List Frame} : Asked P fs → Outside P h (after (newTask fs) h)
  /-- A command is submitted in a session. -/
  | submit (s : Nat) (command : String) (state : Json) (reaction : Option Reaction) :
      (∀ r ∈ reaction, P r) → Outside P h (after (submitSession s command state reaction) h)
  /-- A query of a session is begun. -/
  | query (s : Nat) (command : String) (state : Json) (reaction : Option Reaction) :
      (∀ r ∈ reaction, P r) → Outside P h (after (queryOn s command state reaction) h)
  /-- A task is cancelled. -/
  | cancel (c : Nat) : Outside P h (after (changeLoop (·.cancel c)) h)
  /-- A worker prints something, ends, or cannot be read any longer. -/
  | act (p : Nat) (line : String) (a : WorkerAct) : Outside P h (after (act p line a) h)
  /-- A worker answers in another way from now on. -/
  | worker (p : Nat) (responder : Responder) (writeFault : Option Fault) :
      Outside P h (after (changeProcess p fun proc => { proc with responder, writeFault }) h)
  /-- Settings, files and the scripts for tools, workers and connections are others. -/
  | world (settings : Settings) (installer : Installer) (disk : Disk) (launcher : Launcher)
      (connectionScripts : List ConnectionScript) (bus : Bus) :
      Outside P h { h with settings, installer, disk, launcher, connectionScripts, bus }
  /-- Time passes. -/
  | time (now : Binary64) : Outside P h { h with loop := { h.loop with now } }

/-- A host on which nothing was done yet. -/
structure Fresh (h : Host) : Prop where
  loop : h.loop = {}
  processes : h.processes = {}
  lanes : h.lanes = {}
  channels : h.channels = {}
  queries : h.queries = {}
  sessions : h.sessions = {}
  registry : h.registry = {}
  journal : h.journal = {}

/-! ## Runs -/

/-- A run: the hosts from which the loop took a step, oldest first, and the host that it led to. -/
inductive Run (start : Host → Prop) (act : Host → Host → Prop) : List Host → Host → Prop
  | start {h : Host} : start h → Run start act [] h
  | tick {ks : List Host} {h : Host} : Run start act ks h → Run start act (ks ++ [h]) h.tick
  | fire {ks : List Host} {h : Host} {t : Timer} : Run start act ks h → t ∈ h.loop.timers →
      Run start act ks (h.fire t)
  | act {ks : List Host} {h h' : Host} : Run start act ks h → h.loop.running = none → act h h' →
      Run start act ks h'

namespace Run

variable {start : Host → Prop} {act : Host → Host → Prop} {ks : List Host} {h : Host}

theorem reachable (hr : Run start act ks h) : Reachable start act h := by
  induction hr with
  | start hs => exact .start hs
  | tick _ ih => exact ih.tick
  | fire _ ht ih => exact ih.fire ht
  | act _ hidle ha ih => exact ih.act hidle ha

/-- A run goes on. -/
theorem append {k : Host} {js : List Host} (hr : Run start act ks k) (hj : Run (· = k) act js h) :
    Run start act (ks ++ js) h := by
  induction hj with
  | start e =>
    subst e
    rwa [List.append_nil]
  | tick _ ih =>
    rw [← List.append_assoc]
    exact ih.tick
  | fire _ ht ih => exact ih.fire ht
  | act _ hidle ha ih => exact ih.act hidle ha

/-- The hosts from which the loop takes its steps while a host settles. -/
def settling : Nat → Host → List Host
  | 0, _ => []
  | fuel + 1, h => if h.loop.isIdle then [] else h :: settling fuel h.tick

theorem settleWithin (hr : Run start act ks h) (fuel : Nat) :
    Run start act (ks ++ settling fuel h) (settleWithin fuel h) := by
  induction fuel generalizing ks h with
  | zero => rwa [settling, List.append_nil]
  | succ fuel ih =>
    rw [settling, Host.settleWithin]
    split
    · rwa [List.append_nil]
    · rw [← List.singleton_append, ← List.append_assoc]
      exact ih hr.tick

/-- A host settles by a run. -/
theorem settled (h : Host) (fuel : Nat) :
    Run (· = h) act (settling fuel h) (Host.settleWithin fuel h) := by
  have hstart : Run (· = h) act [] h := .start rfl
  exact hstart.settleWithin fuel

end Run

/-! ## The beginning of a run

A path is resolved by a recursion that does not evaluate, so the steps that make the first session
are told here for a root of which it is known where it leads.  What follows them evaluates. -/

/-- The root is a directory. -/
theorem stat_slash (tree : FileTree) :
    tree.stat [] (Pathname.renderAbsolute []) = .ok .directory := by
  have hpieces : Pathname.pieces (Pathname.renderAbsolute []) = ["", ""] := by decide +kernel
  have hsize : ¬ FileTree.maxPath < Text.Utf8.size (Pathname.renderAbsolute []).toList := by
    decide +kernel
  unfold FileTree.stat FileTree.locate
  rw [if_neg (by decide +kernel), if_neg hsize, hpieces]
  simp [FileTree.walk, FileTree.node?]

theorem resolveWritten_slash (disk : Disk) : disk.resolveWritten "/" = .ok [] := by
  have hparse : Pathname.parse "/" = ⟨true, []⟩ := by decide +kernel
  have hresolve : disk.resolve ⟨true, []⟩ = .ok [] := by
    simp [Disk.resolve, Disk.realPath, FileTree.follow, stat_slash disk.tree]
  unfold Disk.resolveWritten
  rw [hparse]
  exact hresolve

/-- A worker may be started in the root directory. -/
theorem checkRoot_slash (disk : Disk) : disk.checkRoot [] [] "/" = .ok (.ok []) := by
  have hdir : disk.isDirectory [] = .ok true := by
    unfold Disk.isDirectory
    dsimp only
    rw [stat_slash]
    rfl
  unfold Disk.checkRoot
  rw [if_neg (by decide +kernel), resolveWritten_slash]
  show (disk.isDirectory [] >>= _) = _
  rw [hdir]
  rfl

/-- Somebody asks for a worker in the root directory. -/
def asking (launcher : Launcher := {}) : Host :=
  after (newTask [.ensureReady "/" "ghc" none]) { launcher }

/-- The session of the worker is about to be made. -/
def asked (launcher : Launcher := {}) : Host := settleWithin 2 (asking launcher)

/-- Make its session. -/
def makeFirst : Action Unit := do
  let s ← newSession "ghc" "/" []
  let key := (← session s).key
  modify fun h => { h with
    registry := h.registry.put ("ghc", "/") s
    metrics := h.metrics.map (·.start key h.loop.now) }
  publish ⟨.sessionCreated, key,
    [("root", .str "/"), ("kind", .str "ghc"), ("targets", .arr [])]⟩

/-- The session is made, and about to be started. -/
def begun (launcher : Launcher := {}) : Host :=
  let h := after makeFirst (asked launcher)
  { h with loop := proceed 0 [.startSession, .waitReady] (.done (.session 0)) h.loop }

theorem tick_asked (launcher : Launcher) : (asked launcher).tick = begun launcher := by
  generalize hk : asked launcher = k
  have hrun : k.loop.running = some (0, .value .unit) := by rw [← hk]; rfl
  have hstack : (k.loop.tasks.get? 0).map (·.stack) =
      some [.getOrCreate "/" "ghc" none, .startSession, .waitReady] := by rw [← hk]; rfl
  have hroot : k.disk.checkRoot k.settings.projectWhitelist k.settings.projectBlacklist "/" =
      .ok (.ok []) := by
    rw [← hk]
    exact checkRoot_slash _
  have hname : Pathname.renderAbsolute [] = "/" := by decide +kernel
  have hmarker : ({} : Settings).frameMarkerBytes = [4] := by decide +kernel
  have hnew : ∃ h', (newSession "ghc" "/" []).run k = .ok 0 h' := by
    unfold newSession
    rw [run_bind_ok (run_get k), show k.settings = {} by rw [← hk]; rfl, hmarker]
    exact ⟨_, by rw [← hk]; rfl⟩
  have hfind : (resume (.getOrCreate "/" "ghc" none) (.value .unit)).run k =
      .ok (.done (.session 0)) (after makeFirst k) := by
    show (getOrCreate "/" "ghc" none).run k = _
    unfold getOrCreate
    rw [run_bind_ok (run_get k), hroot]
    dsimp only
    rw [hname, show k.registry.find? ("ghc", "/") = none by rw [← hk]; rfl]
    obtain ⟨h', e⟩ := hnew
    unfold makeFirst
    rw [after_bind_ok e]
    exact (run_bind_ok e).trans rfl
  unfold Host.tick
  rw [hrun]
  dsimp only
  unfold Host.step
  rw [hstack]
  dsimp only
  rw [hfind, ← hk]
  rfl

theorem run_begun {P : Reaction → Prop} (launcher : Launcher) :
    Run Fresh (Outside P) (Run.settling 2 (asking launcher) ++ [asked launcher])
      (begun launcher) := by
  have hfresh : Fresh { launcher } := ⟨rfl, rfl, rfl, rfl, rfl, rfl, rfl, rfl⟩
  have hrun : Run Fresh (Outside P) [] (asking launcher) :=
    .act (.start hfresh) rfl (.ask (.ensureReady "/" "ghc" none))
  rw [← tick_asked]
  exact (hrun.settleWithin 2).tick

theorem reachable_begun {P : Reaction → Prop} (launcher : Launcher) :
    Reachable Fresh (Outside P) (begun launcher) :=
  (run_begun launcher).reachable

end Host

end GhciHost
