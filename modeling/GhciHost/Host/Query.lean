import GhciHost.Host.Session
import GhciHost.Host.Waiting

/-! # Queries on the host

A query over a connection of its own: connect, write the command, read the answer to its end.
Where anything fails that the operating system reports, the query goes to the lane instead,
with the same asker. -/

namespace GhciHost.Host

/-- The channel of a number. -/
def channel (c : Nat) : Action QueryChannel :=
  return ((← get).channels.get? c).getD { host := "", enabled := false, connectTimeout := none }

/-- The query of a number. -/
def query (q : Nat) : Action Query :=
  return ((← get).queries.get? q).getD
    { channel := 0, command := "", state := .null, reaction := none, waiter := none, port := 0
      task := 0 }

/-- The connection of a number. -/
def connection (c : Nat) : Action Connection :=
  return ((← get).connections.get? c).getD { host := "", port := 0, script := {} }

/-- Send a query to the lane. -/
def fallBack (c : Nat) (command : String) (state : Json) (reaction : Option Reaction)
    (waiter : Option Nat) (reason : String) : Action Unit := do
  submit c command state reaction waiter
  count (← lane c).key .secondaryFallback
  announce c .secondaryFallback [("command", .str (preview command)), ("reason", .str reason)]

/-- Send a query to the lane after its connection failed; whoever waits for it gets to know if
    that fails too. -/
def fallBackAfterFailure (q : Nat) (reason : String) : Action Next := do
  let q ← query q
  try fallBack q.channel q.command q.state q.reaction q.waiter reason
  catch e =>
    match q.waiter with
    | some w => finish w (.failed e)
    | none => pure ()
  return .done .unit

/-- Begin a query.  The answer is the cell of its task, if it has a connection of its own. -/
def startQuery (c : Nat) (command : String) (state : Json) (reaction : Option Reaction)
    (waiter : Option Nat) : Action (Option Nat) := do
  if !Command.isReadOnly command then throw (.notReadOnly command)
  validate Command.usualMarker command
  let ch ← channel c
  match ch.enabled, ch.port with
  | true, some port =>
    let q := (← get).queries.size
    let task ← newTask [.exchange q]
    modify fun h => { h with
      queries := h.queries.push { channel := c, command, state, reaction, waiter, port, task } }
    changeChannel c fun ch => { ch with active := ch.active ++ [q] }
    changeLoop (·.hook task (.notify q))
    return some task
  | enabled, _ =>
    fallBack c command state reaction waiter (if enabled then "no_port" else "disabled")
    return none

/-- The task of a query has ended.  Whoever waits for a query that was cancelled gets to know
    it. -/
def queryEnded (q : Nat) : Action Unit := do
  let query ← query q
  changeChannel query.channel fun ch => { ch with active := ch.active.filter (· ≠ q) }
  match (← get).loop.outcome? query.task, query.waiter with
  | some .cancelled, some w =>
    finish w (.failed (.session { kind := .connectionUnavailable, text := "Query was cancelled",
                                  key := some (← lane query.channel).key }))
  | _, _ => pure ()

/-! ## Connections -/

/-- Connect to a worker. -/
def connect (host : String) (port : Int) : Action Next := do
  let (script, connectionScripts) :=
    Launcher.next ConnectionScript.usual (← get).connectionScripts
  let c := (← get).connections.size
  modify fun h => { h with
    connectionScripts, connections := h.connections.push { host, port, script } }
  sleep script.connectDelay [.connectEnded c]

/-- The connection is made, or it is not. -/
def connectEnded (c : Nat) : Action Next := do
  match (← connection c).script.connectFault with
  | some f => throw (.fault f)
  | none => return .done (.connection c)

/-- Begin the exchange of a query. -/
def beginExchange (q : Nat) : Action Next := do
  let query ← query q
  let ch ← channel query.channel
  let steps : List Frame := [.connect ch.host query.port]
  match ch.connectTimeout with
  | none => return .call (steps ++ [.connected q])
  | some _ =>
    let task ← newTask steps
    return (← waitFor task ch.connectTimeout).above [.connected q]

/-- What a query has come to, from the end of its exchange: the bytes of the answer. -/
def endExchange (q : Nat) (e : Ending) : Action Next := do
  match e with
  -- a worker that answers always says something
  | .value (.piece []) => fallBackAfterFailure q "Connection closed without a response"
  | .value (.piece bytes) =>
    let query ← query q
    count (← lane query.channel).key .secondaryQuery
    answer query.channel query.state query.reaction query.waiter (bodyOf bytes)
    return .done .unit
  | .failed f => if f.isOs then fallBackAfterFailure q f.described else return .pass e
  | e => return .pass e

/-- Close the connection of a query, whatever came of the exchange.  A fault of the operating
    system at closing does no harm; any other takes the place of what came of the exchange. -/
def closeConnection (q c : Nat) (e : Ending) : Action Next := do
  changeConnection c fun conn => { conn with closed := true }
  match (← connection c).script.closeFault with
  | some (.other kind text) => endExchange q (.failed (.fault (.other kind text)))
  | _ => endExchange q e

/-- Write the command of a query. -/
def sendQuery (q c : Nat) : Action Unit := do
  let script := (← connection c).script
  if let some f := script.writeFault then throw (.fault f)
  let command := (← query q).command
  changeConnection c fun conn =>
    { conn with written := Text.Utf8.encode (command.toList ++ ['\n']) }
  if let some f := script.drainFault then throw (.fault f)
  if script.canWriteEof then changeConnection c fun conn => { conn with eof := true }

/-- Use a connection that was made, or not. -/
def useConnection (q : Nat) (e : Ending) : Action Next := do
  match e with
  | .value (.connection c) =>
    -- whatever goes wrong from here on, the connection has to be closed
    let sent : Option Failure ← try sendQuery q c; pure none catch f => pure (some f)
    match sent with
    | some f => closeConnection q c (.failed f)
    | none => sleep (← connection c).script.readDelay [.replied q c]
  | e => endExchange q e

/-- Read the answer of a query. -/
def readReply (q c : Nat) (e : Ending) : Action Next := do
  match e with
  | .value _ =>
    let script := (← connection c).script
    match script.readFault with
    | some f => closeConnection q c (.failed (.fault f))
    | none => closeConnection q c (.value (.piece script.reply))
  | e => closeConnection q c e

/-! ## Waiting for queries -/

/-- Begin a query and wait for its answer. -/
def awaitQuery (c : Nat) (command : String) : Action Next := do
  let w ← newCell
  let _ ← startQuery c command .null none (some w)
  return .wait [] w

/-- Cancel all queries under way. -/
def cancelQueries (c : Nat) : Action Next := do
  let active := (← channel c).active
  let tasks ← active.mapM fun q => return (← query q).task
  changeLoop fun l => tasks.foldl (fun l t => l.cancel t) l
  return .call [.queriesEnd c tasks tasks.length]

/-- Wait for the end of cancelled queries, one by one.  It does not matter that they were
    cancelled. -/
def queriesEnd (c : Nat) (rest : List Nat) (n : Nat) (e : Ending) : Action Next := do
  match e, rest with
  | .failed f, _ => return .pass (.failed f)
  | _, task :: rest => return .wait [.queriesEnd c rest n] task
  | _, [] =>
    changeChannel c fun ch => { ch with active := [] }
    return .done (.code n)

end GhciHost.Host
