import GhciHost.Host.Teardown

/-! # What frames do

`resume` lets the frame on top of a task go on.  A frame that does not care how the thing
before it failed passes the failure on. -/

namespace GhciHost.Host

/-- Submit a command to a lane and wait for the response. -/
def call (l : Nat) (command : String) (timeout : Option Seconds) : Action Next := do
  let w ← newCell
  submit l command .null none (some w)
  waitFor w timeout

/-- The same in a session, no longer than the settings allow. -/
def callSession (s : Nat) (command : String) (timeout : Option Seconds) : Action Next := do
  checkUsable s
  let default := (← get).settings.blockingCallTimeout
  call s command (timeout <|> default)

/-- Query a session. -/
def querySession (s : Nat) (command : String) : Action Next := do
  checkUsable s
  awaitQuery s command

/-- Load a file, or a scratch copy with contents that were not saved. -/
def checkFile (s : Nat) (path : String) (contents : Option String) : Action Next := do
  let target ← match contents with
    | some contents => stage s path contents
    | none => pure path
  return .call [.callSession s (Command.load target) none, .diagnose s]

/-- How a query of a session is answered. -/
def queryOn (s : Nat) (command : String) (state : Json) (reaction : Option Reaction) :
    Action (Option Nat) := do
  checkUsable s
  startQuery s command state reaction none

/-- The names of the two ways of a query. -/
def routeName (task : Option Nat) : String := if task.isSome then "direct" else "queued"

/-- Let a frame go on that takes a value. -/
def resumeWith (f : Frame) (v : Value) : Action Next := do
  match f, v with
  | .snapshot, .session s => return .done (.snapshot (← snapshotOf s))
  | .tool argv cwd timeout, _ => runTool argv cwd timeout
  | .toolEnded outcome, _ => return toolEnded outcome
  | .connect host port, _ => connect host port
  | .connectEnded c, _ => connectEnded c
  | .exchange q, _ => beginExchange q
  | .query c command, _ => awaitQuery c command
  | .cancelQueries c, _ => cancelQueries c
  | .call l command timeout, _ => call l command timeout
  | .callSession s command timeout, _ => callSession s command timeout
  | .querySession s command, _ => querySession s command
  | .checkFile s path contents, _ => checkFile s path contents
  | .diagnose s, .text body => return .done (.diagnostics (← diagnostics s body))
  | .read p, _ => readWorker p
  | .waitExit p, _ => waitExit p
  | .pump s p, _ => return .call [.read p, .pumped s p]
  | .pumpEnd s p, .code code => pumpEnd s p code
  | .getOrCreate root kind targets, _ => getOrCreate root kind targets
  | .startSession, .session s => startSession s
  | .startBody s, _ => startBody s
  | .gotVersion s, .version version => gotVersion s version
  | .gotExtensions s, .names names => gotExtensions s names
  | .checkWorker s, _ => checkWorker s
  | .gotStatus s, .status status => gotStatus s status
  | .launch s mode replay, _ => launch s mode replay
  | .spawnEnd script, _ => spawnEnd script
  | .waitReady, .session s => waitReady s
  | .readyEvent s, _ => readyEvent s
  | .readyCheck s, _ => readyCheck s
  | .submitTo command state reaction, .session s =>
    submitSession s command state reaction
    return .done (.text command)
  | .callOn command timeout, .session s => callSession s command timeout
  | .queryOn command state reaction, .session s =>
    return .done (.text (routeName (← queryOn s command state reaction)))
  | .destroy root kind, _ => destroy root kind
  | .teardown s, _ => teardown s
  | .queriesGone s, _ => queriesGone s
  | .restart root kind targets, _ => restart root kind targets
  | .ensureReady root kind targets, _ =>
    return .call [.getOrCreate root kind targets, .startSession, .waitReady]
  | .cleanup, _ => cleanup
  | .give v, _ => return .done v
  | _, v => return .done v

/-- Let a frame go on. -/
def resume (f : Frame) (e : Ending) : Action Next := do
  match f with
  | .race cell => raceOver cell e
  | .reap cell timeUp => reaped cell timeUp e
  | .version => return readRun readVersion e
  | .extensions => return readRun readNames e
  | .status => return readRun (readStatus (← get).installer.workerVersion) e
  | .installed header => return readInstall (← get).installer header e
  | .connected q => useConnection q e
  | .replied q c => readReply q c e
  | .queriesEnd c rest n => queriesEnd c rest n e
  | .pumped s p => pumped s p e
  | .startTurn s c => startTurn s c e
  | .startEnd s => startEnd s e
  | .gotInstall s => gotInstall s e
  | .launched s mode replay => launched s mode replay e
  | .readerGone s p => readerGone s p e
  | .cleanupRest rest => return cleanupRest rest e
  | .read p =>
    match e with
    | .value _ => readWorker p
    | e =>
      changeProcess p fun proc => { proc with reader := none }
      return .pass e
  | f =>
    match e with
    | .value v => resumeWith f v
    | e => return .pass e

end GhciHost.Host
