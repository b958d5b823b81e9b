import GhciHost.Host.Worker
import GhciHost.Output.Announcement
import GhciHost.Output.LineEnds

/-! # Lanes on the host

Commands are written and queued; output is cut into responses, each for the oldest request.
What an asker wants done with a response may fail without harm to anybody else; how it is done
is left open in `answerBy` and what is built on it. -/

namespace GhciHost.Host

/-! ## Writing -/

/-- Write a command to the process of a lane. -/
def writeLine (l : Nat) (command : String) : Action Unit := do
  let lane ← lane l
  match lane.process with
  | none =>
    throw (.session { kind := .processNotRunning, text := "No worker process is attached",
                      key := some lane.key })
  | some p =>
    try write p (command.toList ++ ['\n'])
    catch
      | .fault f =>
        if f.isClosedInput then
          throw (.session { kind := .processNotRunning,
                            text := "Worker stdin is closed: " ++ f.text, key := some lane.key })
        else throw (.fault f)
      | e => throw e

/-- Refuse what is no command. -/
def validate (marker : List Char) (command : String) : Action Unit :=
  match Command.fault? marker command.toList with
  | some f => throw (.badCommand f)
  | none => pure ()

/-- Write a command whose output belongs to a request that is queued already. -/
def writeRaw (l : Nat) (command : String) : Action Unit := do
  validate (← lane l).markerText command
  writeLine l command

/-- Write a command and queue its request. -/
def submit (l : Nat) (command : String) (state : Json) (reaction : Option Reaction)
    (waiter : Option Nat) : Action Unit := do
  writeRaw l command
  changeLane l (·.push { state, reaction, command, waiter })
  count (← lane l).key .request

/-- Write the command of a request again, and queue the request. -/
def requeue (l : Nat) (r : Request) : Action Unit := do
  writeLine l r.command
  changeLane l (·.push r)

/-- Take all requests out of a lane. -/
def takePending (l : Nat) : Action (List Request) := do
  let queue := (← lane l).queue
  changeLane l fun lane => { lane with queue := [] }
  return queue

/-- Let whoever waits for the response to a request get an error. -/
def failRequest (r : Request) (e : SessionError) : Action Unit :=
  match r.waiter with
  | some c => finish c (.failed (.session e))
  | none => pure ()

/-- Drop all requests of a lane; those who wait get the error.  The answer is how many
    requests there were. -/
def abandon (l : Nat) (e : SessionError) : Action Nat := do
  let queue ← takePending l
  for r in queue do
    failRequest r e
  return queue.length

/-! ## Sessions change their phase -/

/-- Let a session go on to a phase. -/
def transition (s : Nat) (phase : Phase) : Action Unit := do
  let session ← session s
  let before := session.phase.state
  let after := phase.state
  if !session.phase.allows phase then
    throw (.illegalTransition session.key before after)
  changeSession s fun session => { session with phase, ready := after.settled }
  if after.settled then
    let waiters := session.readyWaiters
    changeSession s fun session => { session with readyWaiters := [] }
    releaseAll waiters
  publish ⟨.sessionStateChanged, session.key,
    [("previous", .str before.name), ("state", .str after.name)]⟩

/-- Take the first response of a session's worker. -/
def becomeReady (s p : Nat) (mode : StartMode) (body : String) : Action Unit := do
  let session ← session s
  match session.phase with
  | .starting _ =>
    if session.process = some p then
      match Output.extractPort body.toList with
      | .error e => throw (.tooManyDigits e)
      | .ok (port, rest) =>
        let port := port.map Int.ofNat
        changeSession s fun session => { session with startupOutput := String.ofList rest }
        changeChannel s fun c => { c with port }
        transition s (.ready mode port)
        publish ⟨.sessionReady, session.key,
          [("service_port", match port with
            | some n => .int n
            | none => .null)]⟩
  | _ => pure ()

/-! ## Responses -/

/-- What is done with responses: given a lane, the state of a request, the text of its response
    and the reaction that was asked for.  It may fail. -/
abbrev Asker := Nat → Json → String → Reaction → Action Unit

/-- Do what an asker wants done with a response. -/
def react : Asker := fun l state body r => do
  let noted := note fun j => { j with notes := j.notes ++ [(state, body)] }
  match r with
  | .note => noted
  | .fail => noted; throw (.fault (.other "RuntimeError" "boom"))
  | .submit command state => noted; submit l command state (some .note) none
  | .attach p => noted; changeLane l (·.attach p)
  | .ready s p mode => becomeReady s p mode body

/-- Give a response to its asker and to whoever waits for it. -/
def answerBy (ask : Asker) (l : Nat) (state : Json) (reaction : Option Reaction)
    (waiter : Option Nat) (body : String) : Action Unit := do
  match reaction with
  -- an asker's failure must not keep the response from whoever waits, nor stop the lane
  | some r => try ask l state body r catch _ => pure ()
  | none => pure ()
  match waiter with
  | some c => finish c (.value (.text body))
  | none => pure ()

@[inherit_doc answerBy]
def answer := answerBy react

/-- The text of a response. -/
def bodyOf (bytes : List UInt8) : String :=
  String.ofList (Output.withLineFeeds (Text.Utf8.decode bytes))

/-- How much of an unexpected response, or of a command, is told. -/
def previewLength : Nat := 80

/-- The beginning of a text. -/
def preview (text : String) : String := String.ofList (text.toList.take previewLength)

/-- Publish an event of a lane, if it announces any. -/
def announce (l : Nat) (kind : Event.Kind) (details : List (String × Json)) : Action Unit := do
  let lane ← lane l
  if lane.announces then publish ⟨kind, lane.key, details⟩

/-- Drop a response that nobody asked for, and tell of it. -/
def reject (l : Nat) (body : String) : Action Unit := do
  count (← lane l).key .protocolViolation
  announce l .protocolViolation
    [("error", .str ("Unsolicited response frame (" ++
        String.ofList (Text.showNat body.length) ++ " chars)")),
      ("preview", .str (preview body))]

/-- Give the text of a response to the oldest request.  One that nobody asked for is
    dropped. -/
def deliverBy (ask : Asker) (l : Nat) (body : String) : Action Unit := do
  let lane ← lane l
  match lane.queue with
  | [] => reject l body
  | r :: queue =>
    changeLane l fun lane => { lane with queue }
    count lane.key .frame
    answerBy ask l r.state r.reaction r.waiter body

/-- Deliver the responses of a buffer that has been searched up to `scanned` and delivered up to
    `start`, until a process is attached anew.  The answer is how many were delivered, and where
    what is left begins, if it still counts. -/
def deliverFrom (ask : Asker) (l attachments : Nat) (marker : UInt8) (buffer : List UInt8)
    (start scanned : Nat) : Action (Nat × Option Nat) := do
  match h : Lane.find? marker buffer scanned with
  | none => return (0, some start)
  | some i =>
    have := Lane.find?_lt h
    changeLane l fun lane => { lane with scanned := i + 1 }
    deliverBy ask l (bodyOf ((buffer.drop start).take (i - start)))
    -- an asker may have attached a process; the other responses are output of the one before
    if (← lane l).attachments = attachments then
      let (n, left) ← deliverFrom ask l attachments marker buffer (i + 1) (i + 1)
      return (n + 1, left)
    else return (1, none)
termination_by buffer.length - scanned

/-- Take output of the lane's worker; the answer is how many responses were delivered.  What
    comes after the last of them is kept, unless a process was attached meanwhile. -/
def feedBy (ask : Asker) (l : Nat) (bytes : List UInt8) : Action Nat := do
  if bytes.isEmpty then return 0
  count (← lane l).key (.bytes bytes.length)
  changeLane l fun lane => { lane with buffer := lane.buffer ++ bytes }
  let lane ← lane l
  let (n, left) ← deliverFrom ask l lane.attachments lane.marker lane.buffer 0 lane.scanned
  match left with
  | some start =>
    changeLane l fun lane =>
      { lane with buffer := lane.buffer.drop start, scanned := lane.buffer.length - start }
  | none => pure ()
  return n

@[inherit_doc feedBy]
def feed := feedBy react

end GhciHost.Host
