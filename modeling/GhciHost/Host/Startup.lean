import GhciHost.Host.Query
import GhciHost.Host.Tools
import GhciHost.Project.Root

/-! # Starting a session

A session's worker is started by the first who asks for it; others who ask meanwhile wait for
their turn and find it started.  The compiler's version and extensions are asked for once,
the worker is checked and installed if need be, and is started without building
dependencies.  When such a worker ends on a missing dependency, one more is started that
builds them, and the requests that were pending are submitted to it again. -/

namespace GhciHost.Host

/-! ## Making a session -/

/-- Make a session with a lane and a query channel. -/
def newSession (kind root : String) (targets : List String) : Action Nat := do
  let h ← get
  match h.settings.frameMarkerBytes with
  | [marker] =>
    let s := h.sessions.size
    let key := kind ++ ":" ++ root
    let workDir := h.workRoot ++ ["ghcworker-" ++ String.ofList (Text.showNat h.workDirs)]
    set { h with
      workDirs := h.workDirs + 1
      disk := { h.disk with tree := h.disk.tree.put workDir .directory }
      lanes := h.lanes.push { key, marker }
      channels := h.channels.push
        { host := h.settings.secondaryHost, enabled := h.settings.allowSecondaryChannel
          connectTimeout := h.settings.secondaryConnectTimeout }
      sessions := h.sessions.push { kind, root, key, targets, workDir } }
    return s
  | _ => throw .badMarker

/-- The root of a project in its one spelling. -/
def resolveRoot (root : String) : Action String := do
  match (← get).disk.resolveWritten root with
  | .ok path => return Pathname.renderAbsolute path
  | .error e => throw (.path e)

/-- The session of a project, if it is in use. -/
def sessionOf? (root kind : String) : Action (Option Nat) := do
  let root ← resolveRoot root
  return (← get).registry.find? (kind, root)

/-- Find the session of a project, or make it. -/
def getOrCreate (root kind : String) (targets : Option (List String)) : Action Next := do
  let h ← get
  match h.disk.checkRoot h.settings.projectWhitelist h.settings.projectBlacklist root with
  | .error e => throw (.path e)
  | .ok (.error f) => throw (.badRoot f)
  | .ok (.ok path) =>
    let root := Pathname.renderAbsolute path
    match h.registry.find? (kind, root) with
    | some s => return .done (.session s)
    | none =>
      let targets := targets.getD []
      let s ← newSession kind root targets
      let key := (← session s).key
      modify fun h => { h with
        registry := h.registry.put (kind, root) s
        metrics := h.metrics.map (·.start key h.loop.now) }
      publish ⟨.sessionCreated, key,
        [("root", .str root), ("kind", .str kind), ("targets", .arr (targets.map .str))]⟩
      return .done (.session s)

/-! ## One at a time -/

/-- Whether a cell was cancelled. -/
def isCancelled (c : Nat) : Action Bool := do
  match (← get).loop.outcome? c with
  | some .cancelled => return true
  | _ => return false

/-- The frames of a startup, for one whose turn it is. -/
def startFrames (s : Nat) : List Frame := [.startBody s, .startEnd s]

/-- Start a session when it is one's turn. -/
def startSession (s : Nat) : Action Next := do
  let session ← session s
  -- those who were called but have not gone on yet keep their place before a newcomer
  if !session.starting && (← session.startWaiters.allM isCancelled) then
    changeSession s fun session => { session with starting := true }
    return .call (startFrames s ++ [.give (.session s)])
  else
    let c ← newCell
    changeSession s fun session => { session with startWaiters := session.startWaiters ++ [c] }
    return .wait [.startTurn s c, .give (.session s)] c

/-- Let the first who waits have the next turn. -/
def callNext (s : Nat) : Action Unit := do
  match (← session s).startWaiters with
  | c :: _ => releaseAll [c]
  | [] => pure ()

/-- It is one's turn, or one no longer waits for it. -/
def startTurn (s c : Nat) (e : Ending) : Action Next := do
  changeSession s fun session => { session with startWaiters := session.startWaiters.erase c }
  match e with
  | .value _ =>
    changeSession s fun session => { session with starting := true }
    return .call (startFrames s)
  | e =>
    -- the call may have come with the cancellation; it goes to the next who waits
    if !(← session s).starting then callNext s
    return .pass e

/-- A turn is over, whatever came of it. -/
def startEnd (s : Nat) (e : Ending) : Action Next := do
  changeSession s fun session => { session with starting := false }
  callNext s
  return .pass e

/-! ## The steps of a startup -/

/-- Ask whether the worker can be used. -/
def checkWorker (s : Nat) : Action Next := do
  return .call (askStatus (← get).installer (← session s).root ++ [.gotStatus s])

/-- Begin a startup, unless the session was started or destroyed. -/
def startBody (s : Nat) : Action Next := do
  let session ← session s
  -- whoever had the turn before may have done it all
  if session.phase ≠ .absent ∨ session.destroyed then return .done .unit
  else if session.ghcVersion.isNone then
    return .call (askVersion (← get).installer session.root ++ [.gotVersion s])
  else checkWorker s

/-- The compiler's version is known, as far as it can be. -/
def gotVersion (s : Nat) (v : Option String) : Action Next := do
  changeSession s fun session => { session with ghcVersion := v }
  return .call (askExtensions (← get).installer (← session s).root ++ [.gotExtensions s])

/-- The compiler's extensions are known, as far as they can be. -/
def gotExtensions (s : Nat) (names : List String) : Action Next := do
  changeSession s fun session => { session with extensions := names }
  if (← session s).destroyed then return .done .unit else checkWorker s

/-- Install the worker, if that is allowed. -/
def beginInstall (s : Nat) (status : InstallStatus) : Action Next := do
  transition s .installing
  let h ← get
  let session ← session s
  if !h.settings.autoInstall then
    giveUp s (h.installer.workerPackage ++ " is " ++ status.name ++
      " and automatic installation is disabled") .installFailure
    return .done .unit
  publish ⟨.installStarted, session.key, [("status", .str status.name)]⟩
  return .call (install h.installer session.root session.ghcVersion ++ [.gotInstall s])

/-- The worker's status is known. -/
def gotStatus (s : Nat) (status : InstallStatus) : Action Next := do
  if (← session s).destroyed then return .done .unit
  else if status = .installed then return .call [.launch s .fast []]
  else beginInstall s status

/-- The first line of a text. -/
def firstLine (text : String) : String := String.ofList ((Text.lines text.toList).headD [])

/-- The installation has ended. -/
def gotInstall (s : Nat) (e : Ending) : Action Next := do
  let before ← session s
  match e with
  | .value (.text transcript) =>
    appendTranscript s (transcript.toList ++ ['\n'])
    publish ⟨.installComplete, before.key, []⟩
    if before.destroyed then return .done .unit else return .call [.launch s .fast []]
  | .failed (.session error) =>
    if before.destroyed then return .done .unit
    appendTranscript s (error.transcript.toList ++ ['\n'])
    let reason := firstLine error.message
    publish ⟨.installFailed, before.key, [("reason", .str reason)]⟩
    giveUp s reason .installFailure
    return .done .unit
  | e => return .pass e

/-! ## Starting a worker -/

/-- The arguments that start a session's worker. -/
def workerArguments (settings : Settings) (session : Session) (mode : StartMode) : List String :=
  Arguments.start
    { stack := settings.stackExecutable, workerPackage := settings.workerPackage
      objectDir := session.objectDir, mode, dockerRunArgs := settings.dockerRunArgs
      stackYaml := settings.stackYaml, ghciOptions := settings.ghciOptions
      targets := session.targets }

/-- Start a worker. -/
def launch (s : Nat) (mode : StartMode) (replay : List Request) : Action Next := do
  transition s (.starting mode)
  let session ← session s
  let argv := workerArguments (← get).settings session mode
  beginAttempt s argv
  note fun j => { j with spawns := j.spawns ++ [(argv, session.root)] }
  let (script, launcher) := (← get).launcher.nextSpawn
  modify fun h => { h with launcher }
  sleep script.delay [.spawnEnd script, .launched s mode replay]

/-- The worker has started, or it has not. -/
def spawnEnd (script : SpawnScript) : Action Next := do
  match script.fault with
  | some f => throw (.fault f)
  | none =>
    let p := (← get).processes.size
    modify fun h => { h with processes := h.processes.push script.process }
    return .done (.process p)

/-- The number by which the operating system knows a process. -/
def pid (p : Nat) : Int := 1000 + p

/-- Set a new worker up, and submit requests to it again. -/
def setUp (s : Nat) (replay : List Request) : Action Unit := do
  let settings := (← get).settings
  for command in settings.setupCommands ++ [settings.promptCommand] do
    writeRaw s command
  for r in replay do
    requeue s r

/-- A worker that ends while it is set up is no failure here: whoever reads its output gets to
    know. -/
def trySetUp (s : Nat) (replay : List Request) : Action Unit := do
  try setUp s replay
  catch
    | .session e => if e.kind = .processNotRunning then pure () else throw (.session e)
    | e => throw e

/-- Connect a session with its new worker. -/
def adopt (s p : Nat) (mode : StartMode) (replay : List Request) : Action Next := do
  changeSession s fun session => { session with process := some p }
  changeLane s (·.attach p)
  changeLane s (·.push
    { state := .str mode.name, reaction := some (.ready s p mode), command := "<startup>"
      internal := true })
  trySetUp s replay
  let reader ← newTask [.pump s p]
  changeSession s fun session => { session with reader := some reader }
  publish ⟨.workerSpawned, (← session s).key,
    [("pid", .int (pid p)), ("mode", .str mode.name)]⟩
  return .done .unit

/-- The start of a worker has ended. -/
def launched (s : Nat) (mode : StartMode) (replay : List Request) (e : Ending) :
    Action Next := do
  match e with
  | .value (.process p) =>
    -- nobody was there to kill the worker when the session was destroyed
    if (← session s).destroyed then
      kill p
      return .done .unit
    else adopt s p mode replay
  | .failed f =>
    if f.isOs then
      if !(← session s).destroyed then
        appendTranscript s (f.message.toList ++ ['\n'])
        giveUp s ("Could not start the worker: " ++ f.message) .installFailure
      return .done .unit
    else return .pass e
  | e => return .pass e

/-! ## The end of a worker -/

/-- Why a worker is started once more. -/
def escalationReason : String :=
  "Worker exited on an unsatisfied dependency; building dependencies"

/-- The worker of a session has ended by itself. -/
def workerExited (s : Nat) (code : Int) : Action Next := do
  changeSession s fun session => { session with process := none }
  changeLane s (·.detach)
  changeChannel s fun ch => { ch with port := none }
  let session ← session s
  publish ⟨.workerExited, session.key, [("returncode", .int code)]⟩
  let ended (mode : StartMode) : Action Next := do
    if session.dependencyMissing && mode = .fast then
      let replay := (← takePending s).filter (!·.internal)
      transition s (.restarting .withBuild escalationReason)
      count session.key .restart
      publish ⟨.workerEscalated, session.key,
        [("mode", .str StartMode.withBuild.name), ("replayed", .int replay.length)]⟩
      return .call [.launch s .withBuild replay]
    else if session.dependencyMissing then
      giveUp s ("Worker exited on an unsatisfied dependency even after building " ++
        "dependencies") .unsatisfiedDependency
      return .done .unit
    else
      giveUp s ("Worker exited unexpectedly (exit code " ++
        String.ofList (Text.showInt code) ++ ")") .installFailure
      return .done .unit
  match session.phase with
  | .starting mode => ended mode
  | .ready mode _ => ended mode
  | _ => return .done .unit

/-- Read from a worker, waiting for output if there is none. -/
def readWorker (p : Nat) : Action Next := do
  let proc ← process p
  if proc.ended then return .done (.piece [])
  match proc.output with
  | [] =>
    let c ← newCell
    changeProcess p fun proc => { proc with reader := some c }
    return .wait [.read p] c
  | .piece bytes :: output =>
    changeProcess p fun proc => { proc with output, ended := bytes.isEmpty }
    return .done (.piece bytes)
  | .fault f :: output =>
    changeProcess p fun proc => { proc with output }
    throw (.fault f)

/-- Wait for the end of a worker. -/
def waitExit (p : Nat) : Action Next := do
  match (← process p).exitCode with
  | some code => return .done (.code code)
  | none =>
    let c ← newCell
    changeProcess p fun proc => { proc with exitWaiters := proc.exitWaiters ++ [c] }
    return .wait [.waitExit p] c

/-- Output of a session's worker was read, or none could be. -/
def pumped (s p : Nat) (e : Ending) : Action Next := do
  match e with
  | .value (.piece (b :: bytes)) =>
    recordOutput s (b :: bytes)
    let _ ← feed s (b :: bytes)
    return .call [.pump s p]
  | .value _ => return .call [.waitExit p, .pumpEnd s p]
  -- a worker that cannot be read any longer may still take its time to end
  | .failed f => if f.isOs then return .call [.waitExit p, .pumpEnd s p] else return .pass e
  | e => return .pass e

/-- A worker has ended and all its output was read. -/
def pumpEnd (s p : Nat) (code : Int) : Action Next := do
  let session ← session s
  if session.process = some p ∧ session.destroyed = false then workerExited s code
  else return .done .unit

/-! ## Waiting until a session is ready -/

/-- Wait until a session is ready, no longer than a startup may take. -/
def waitReady (s : Nat) : Action Next := do
  match (← get).settings.startupTimeout with
  | none => return .call [.readyEvent s, .readyCheck s]
  | limit =>
    -- a task of its own, which can be cancelled when the time is up
    let task ← newTask [.readyEvent s]
    return (← waitFor task limit).above [.readyCheck s]

/-- Wait until nobody needs to wait for a session. -/
def readyEvent (s : Nat) : Action Next := do
  if (← session s).ready then return .done .unit
  let c ← newCell
  changeSession s fun session => { session with readyWaiters := session.readyWaiters ++ [c] }
  return .wait [] c

/-- Nobody needs to wait for a session any longer: it is ready, or there is an error. -/
def readyCheck (s : Nat) : Action Next := do
  let session ← session s
  match session.phase with
  | .givenUp reason transcript kind =>
    throw (.session (.gaveUp kind reason transcript (some session.key)))
  | .ready .. => return .done (.session s)
  | _ =>
    throw (.session { kind := .sessionDestroyed, text := "Session was destroyed during startup",
                      key := some session.key })

end GhciHost.Host
