import GhciHost.Diagnostic.Report
import GhciHost.Host.Lane

/-! # Sessions on the host

How a session takes commands, follows its worker, keeps scratch copies and gives up. -/

namespace GhciHost.Host

/-- Refuse a session that gave up or was destroyed. -/
def checkUsable (s : Nat) : Action Unit := do
  let session ← session s
  let refuse (text : String) : Action Unit :=
    throw (.session { kind := .processNotRunning, text, key := some session.key })
  match session.phase with
  | .givenUp reason .. => refuse ("Session gave up (" ++ reason ++ "); restart it to try again")
  | _ => if session.destroyed then refuse "Session was destroyed"

/-- Submit a command in a session. -/
def submitSession (s : Nat) (command : String) (state : Json) (reaction : Option Reaction) :
    Action Unit := do
  checkUsable s
  submit s command state reaction none

/-- Add to the transcript of a session. -/
def appendTranscript (s : Nat) (text : List Char) : Action Unit := do
  let limit := (← get).settings.transcriptMaxBytes
  changeSession s (·.append limit text)

/-- Begin with a new worker. -/
def beginAttempt (s : Nat) (argv : List String) : Action Unit := do
  let limit := (← get).settings.transcriptMaxBytes
  changeSession s (·.beginAttempt limit argv)

/-- Follow a worker's output. -/
def recordOutput (s : Nat) (bytes : List UInt8) : Action Unit := do
  let settings := (← get).settings
  changeSession s (·.output settings.transcriptMaxBytes settings.frameMarker.toList
    (settings.unsatisfiedDependencyMarkers.map String.toList) bytes)

/-- Give up a session: nobody is kept waiting. -/
def giveUp (s : Nat) (reason : String) (kind : GiveUpKind) : Action Unit := do
  let session ← session s
  let transcript := String.ofList session.transcript
  transition s (.givenUp reason transcript kind)
  let _ ← abandon s (.gaveUp kind reason transcript (some session.key))
  publish ⟨.sessionGivenUp, session.key, [("reason", .str reason), ("error_kind", .str kind.name)]⟩

/-- The diagnostics of an output, told of source files where scratch copies were loaded. -/
def diagnostics (s : Nat) (text : String) : Action (List Diagnostic) := do
  let session ← session s
  match Diagnostic.ofOutput session.staging session.extensions text with
  | .ok ds => return ds
  | .error e => throw (.report e)

/-- Where the scratch copy of a source file is put, below the session's directory: the file's
    place in the project, or only its name. -/
def scratchPath (d : Disk) (session : Session) (path : String) :
    Except PathError (List String) :=
  let source := Pathname.parse path
  let name := if source.name.isEmpty then [] else [source.name]
  let copy (rest : List String) := session.workDir ++ "staging" :: rest
  match d.resolve source with
  -- modules are found by their place below the root, so the copy keeps it
  | .ok real => .ok (copy ((Pathname.below? real (Pathname.parse session.root)).getD name))
  | .error .nullByte => .ok (copy name)
  | .error e => .error e

/-- Write the contents of a file that was not saved to a scratch copy; the answer is the
    copy's path. -/
def stage (s : Nat) (path contents : String) : Action String := do
  let session ← session s
  let disk := (← get).disk
  match scratchPath disk session path with
  | .error e => throw (.path e)
  | .ok copy =>
    let written := Pathname.renderAbsolute copy
    match disk.tree.makeDirectories copy.dropLast with
    | .error (f, at_) => throw (.path (.file f (Pathname.renderAbsolute at_)))
    | .ok tree =>
      modify fun h => { h with disk := { h.disk with tree } }
      if copy.any (·.toList.contains '\x00') then throw (.path .nullByte)
      match tree.write copy contents with
      | .error f => throw (.path (.file f written))
      | .ok tree =>
        modify fun h => { h with disk := { h.disk with tree } }
        changeSession s fun session =>
          { session with staging := Json.insertMember written path session.staging }
        return written

/-- What is seen of a session from outside. -/
def snapshotOf (s : Nat) : Action Snapshot := do
  let port := ((← get).channels.get? s).bind (·.port)
  return (← session s).snapshot port (← lane s).queue.length

end GhciHost.Host
