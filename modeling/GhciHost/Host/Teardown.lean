import GhciHost.Host.Startup

/-! # Destroying a session

A session leaves the registry before anything else happens, so it is destroyed once.  Its
reader is stopped and its worker killed, queries under way are cancelled, and all who wait
for responses get to know. -/

namespace GhciHost.Host

/-- Destroy the session of a project; the answer is whether there was one. -/
def destroy (root kind : String) : Action Next := do
  let root ← resolveRoot root
  match (← get).registry.find? (kind, root) with
  | none => return .done (.flag false)
  | some s =>
    modify fun h => { h with registry := h.registry.erase (kind, root) }
    return .call [.teardown s, .give (.flag true)]

/-- Whether a cell is that of the task that runs. -/
def isOwn (c : Nat) : Action Bool := do
  let l := (← get).loop
  return l.running.any fun (t, _) => (l.tasks.get? t).any (·.result = c)

/-- Begin to destroy a session: stop its reader. -/
def teardown (s : Nat) : Action Next := do
  let before ← session s
  changeSession s fun session =>
    { session with destroyed := true, ready := true, readyWaiters := [], process := none
                   reader := none }
  releaseAll before.readyWaiters
  changeLane s (·.detach)
  changeChannel s fun ch => { ch with port := none }
  let gone : List Frame := [.readerGone s before.process]
  match before.reader with
  | some c =>
    -- a reader that destroys its own session cannot wait for its own end
    if (← isOwn c) || (← get).loop.isDone c then return .call gone
    else
      changeLoop (·.cancel c)
      return .wait gone c
  | none => return .call gone

/-- The reader has stopped: kill the worker and cancel the queries. -/
def readerGone (s : Nat) (p : Option Nat) (e : Ending) : Action Next := do
  match e with
  | .failed _ => return .pass e
  | _ =>
    if let some p := p then
      if (← process p).exitCode.isNone then kill p
    return .call [.cancelQueries s, .queriesGone s]

/-- No query is under way any longer: tell all who wait, and clear up. -/
def queriesGone (s : Nat) : Action Next := do
  let key := (← session s).key
  let abandoned ← abandon s
    { kind := .sessionDestroyed, text := "Session was destroyed", key := some key }
  if (← session s).phase ≠ .absent then transition s .absent
  let workDir := (← session s).workDir
  modify fun h => { h with
    disk := { h.disk with tree := h.disk.tree.removeBelow workDir }
    metrics := h.metrics.map fun m => (m.finish key h.loop.now).2 }
  publish ⟨.sessionDestroyed, key, [("abandoned_requests", .int abandoned)]⟩
  modify fun h => { h with bus := (h.bus.close key).clearHistory key }
  return .done .unit

/-- Destroy the session of a project and start it again, with the same targets unless others
    are given. -/
def restart (root kind : String) (targets : Option (List String)) : Action Next := do
  let targets ← match targets, ← sessionOf? root kind with
    | none, some s => pure (some (← session s).targets)
    | targets, _ => pure targets
  return .call [.destroy root kind, .ensureReady root kind targets]

/-- Destroy all sessions. -/
def cleanup : Action Next := do
  let sessions := (← get).registry.values
  modify fun h => { h with registry := {} }
  return .call [.cleanupRest sessions]

/-- Destroy the remaining sessions, whatever went wrong with the others. -/
def cleanupRest (rest : List Nat) (e : Ending) : Next :=
  match e, rest with
  | .cancelled, _ => .pass .cancelled
  | _, s :: rest => .call [.teardown s, .cleanupRest rest]
  | _, [] => .done .unit

end GhciHost.Host
