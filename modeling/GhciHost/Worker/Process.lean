import GhciHost.Host.Fault
import GhciHost.Number.Binary64
import GhciHost.Text.Lines
import GhciHost.Text.Utf8

/-! # Worker processes

A worker process as the host sees it: output that can be read, an exit code once it has
ended, and an answer to every line that is written to it. -/

namespace GhciHost

/-- What can be read from a worker.  Output ends with an empty piece. -/
inductive WorkerOutput
  | piece (bytes : List UInt8)
  | fault (f : Fault)
deriving Repr

/-- What a worker does. -/
inductive WorkerAct
  /-- Print a text, in which the line that was written stands for its placeholder. -/
  | say (text : String)
  | emit (bytes : List UInt8)
  | exit (code : Int)
  /-- Let reading fail. -/
  | break_ (f : Fault)
deriving Repr

/-- How a worker answers to lines. -/
structure Responder where
  /-- Answers to known lines. -/
  replies : List (String × List WorkerAct) := []
  /-- The answer to any other line that sets nothing. -/
  others : List WorkerAct := []
deriving Repr

/-- What stands for the line in an answer. -/
def Responder.placeholder : List Char := ['\x7b'] ++ "line".toList ++ ['\x7d']

/-- The worker that repeats every line. -/
def Responder.echo : Responder :=
  { others := [.say (String.ofList ("ok: ".toList ++ placeholder ++ ['\n', '\x04']))] }

/-- What a worker does on a line. -/
def Responder.acts (r : Responder) (line : String) : List WorkerAct :=
  match r.replies.lookup line with
  | some acts => acts
  -- what a setting prints is part of the response to the next command
  | none => if (Text.after? ":set" line.toList).isSome then [] else r.others

/-- Fill a line into a text. -/
def WorkerAct.fill (line text : String) : List Char :=
  Text.replaceAll (fun s =>
    (Text.stripPrefix? Responder.placeholder s).map fun _ =>
      (line.toList, Responder.placeholder.length)) text.toList

/-- A worker process. -/
structure Process where
  exitCode : Option Int := none
  killed : Bool := false
  /-- Output that was not read yet, oldest first. -/
  output : List WorkerOutput := []
  /-- Whether the end of the output was read. -/
  ended : Bool := false
  /-- The cell of the reader that waits for output. -/
  reader : Option Nat := none
  /-- The cells of those that wait for the end. -/
  exitWaiters : List Nat := []
  responder : Responder := {}
  /-- What happens when something is written, if not the usual. -/
  writeFault : Option Fault := none

end GhciHost
