import GhciHost.Host.Basic

/-! # Waiting with a time limit

A wait that is limited is raced by a timer.  When the time is up, or when the waiting task is
cancelled, what was waited for is cancelled too and its end is awaited, so that nothing goes
on behind the back of the task. -/

namespace GhciHost.Host

/-- How a task goes on: with frames on top of those it has, told an ending now or when a cell
    is done. -/
inductive Next
  | go (push : List Frame) (e : Ending)
  | wait (push : List Frame) (cell : Nat)

namespace Next

/-- Put further frames below those that were pushed. -/
def above (fs : List Frame) : Next → Next
  | go push e => go (push ++ fs) e
  | wait push c => wait (push ++ fs) c

/-- A frame ends with a value. -/
def done (v : Value) : Next := go [] (.value v)

/-- A frame ends as the thing before it. -/
def pass (e : Ending) : Next := go [] e

/-- A frame calls for others. -/
def call (fs : List Frame) : Next := go fs (.value .unit)

end Next

/-- Go on when some time has passed; at once if there is none to pass. -/
def sleep (delay : Option Binary64) (fs : List Frame) : Action Next :=
  match delay with
  | some d =>
    if (Binary64.ofInt 0).lt d then return .wait fs (← onLoop (·.newTimer d)) else return .call fs
  | none => return .call fs

/-- Cancel what a cell stands for, and wait for its end. -/
def cancelAndReap (cell : Nat) (timeUp : Bool) : Action Next := do
  let w ← newCell
  changeLoop (·.hook cell (.release w))
  changeLoop (·.cancel cell)
  return .wait [.reap cell timeUp] w

/-- Wait for a cell, no longer than a time.  A limit that is not positive allows only what is
    done already. -/
def waitFor (cell : Nat) (limit : Option Seconds) : Action Next := do
  match limit with
  | none => return .wait [] cell
  | some limit =>
    if limit.value.le (.ofInt 0) then
      -- a task that was only just made has not begun, so it never will
      match (← get).loop.outcome? cell with
      | some e => return .pass e
      | none => cancelAndReap cell true
    else
      let w ← onLoop (·.newTimer limit.value)
      changeLoop (·.hook cell (.release w))
      return .wait [.race cell] w

/-- The race is over, or the waiting task is cancelled.  What is done counts. -/
def raceOver (cell : Nat) (e : Ending) : Action Next := do
  match (← get).loop.outcome? cell with
  -- a cancellation that comes too late is forgotten
  | some r => return .pass r
  | none =>
    match e with
    | .cancelled => cancelAndReap cell false
    | _ => cancelAndReap cell true

/-- What was cancelled has ended.  It may have come to something in spite of that. -/
def reaped (cell : Nat) (timeUp : Bool) (e : Ending) : Action Next := do
  match e, timeUp with
  | .cancelled, _ | _, false => return .pass .cancelled
  | _, true =>
    match (← get).loop.outcome? cell with
    | some (.value v) => return .done v
    | some (.failed f) => return .pass (.failed f)
    | _ => return .pass (.failed .timeout)

end GhciHost.Host
