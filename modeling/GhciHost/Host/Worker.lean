import GhciHost.Host.Basic

/-! # Workers on the host

What worker processes do, and what is written to them. -/

namespace GhciHost.Host

/-- Release a cell, if there is one. -/
def releaseAll (cells : List Nat) : Action Unit :=
  changeLoop fun l => cells.foldl (fun l c => l.release c) l

/-- Put something behind a worker's output, and wake its reader. -/
def putOutput (p : Nat) (o : WorkerOutput) : Action Unit := do
  let r := (← process p).reader
  changeProcess p fun proc => { proc with output := proc.output ++ [o], reader := none }
  releaseAll r.toList

/-- End a worker, unless it has ended. -/
def exit (p : Nat) (code : Int) : Action Unit := do
  let proc ← process p
  if proc.exitCode.isNone then
    changeProcess p fun proc => { proc with exitCode := some code, exitWaiters := [] }
    putOutput p (.piece [])
    releaseAll proc.exitWaiters

/-- Kill a worker. -/
def kill (p : Nat) : Action Unit := do
  changeProcess p fun proc => { proc with killed := true }
  exit p (-9)

/-- Let a worker act on a line. -/
def act (p : Nat) (line : String) : WorkerAct → Action Unit
  | .say text => putOutput p (.piece (Text.Utf8.encode (WorkerAct.fill line text)))
  | .emit bytes => putOutput p (.piece bytes)
  | .exit code => exit p code
  | .break_ f => putOutput p (.fault f)

/-- Let a worker answer to the lines of a text. -/
def hear (p : Nat) (text : List Char) : Action Unit := do
  let responder := (← process p).responder
  for line in Text.lines text do
    let line := String.ofList line
    for a in responder.acts line do
      act p line a

/-- Write a text to a worker, which answers to its lines. -/
def write (p : Nat) (text : List Char) : Action Unit := do
  let proc ← process p
  match proc.writeFault with
  | some f => throw (.fault f)
  | none =>
    if proc.exitCode.isSome then throw (.fault (.os .brokenPipe "process exited"))
    note fun j => { j with writes := j.writes ++ [(p, Text.Utf8.encode text)] }
    hear p text

end GhciHost.Host
