import GhciHost.Output.LineEnds
import GhciHost.Settings.Basic
import GhciHost.Shell.Machine
import GhciHost.Shell.Reader
import GhciHost.Worker.Launcher

/-! # Child processes

`Child.launch` starts a program in a directory, `Child.runToEnd` waits for its end, and the
other functions talk with it.  Only programs that the shell knows can be started. -/

namespace GhciHost.Shell

/-- A program that was started. -/
structure Child where
  machine : Machine
  /-- Whether what it reads was closed. -/
  inputClosed : Bool := false
  /-- How much of its output was read. -/
  consumed : Nat := 0
  /-- Whether its end was noticed. -/
  reaped : Bool := false

namespace Child

/-- The directories in which programs are. -/
def programPlaces : List String := ["/bin/", "/usr/bin/"]

/-- The name of a program by its path; without slashes, all places are searched. -/
def programName? (path : String) : Option String :=
  if path.toList.contains '/' then
    programPlaces.findSome? fun place =>
      (if place.toList.isPrefixOf path.toList then some (path.toList.drop place.length) else none).bind
        fun name => if name.contains '/' then none else some (String.ofList name)
  else some path

/-- The machine that runs a shell with some operands. -/
def shell (m : Machine) : List String → Machine
  | "-c" :: text :: rest =>
    let m := { m with name := rest.headD m.name, operands := rest.tail }
    match Script.read text with
    | .ok s => { m with todo := [.run s] }
    | .error e => m.complain 2 e.message
  | _ => m

/-- Start a program in a directory, with some variables. -/
def launch (d : Disk) (argv : List String) (directory : String) (environment : List (String × String)) :
    Except PathError Child := do
  match ← d.look directory with
  | .directory => pure ()
  | _ => throw (.file .notDirectory directory)
  let real := Pathname.renderAbsolute (d.realPath (Pathname.parse directory))
  let program := argv.headD ""
  if program.toList.contains '\x00' then throw .nullByte
  let m : Machine :=
    { todo := [], name := program, directory := real, disk := d
      environment := environment.foldl (fun vs (k, v) => vs.put k v) {} }
  match programName? program with
  | some name =>
    if name = "sh" then return { machine := shell m argv.tail }
    else if (Machine.commands.lookup name).isSome then
      return { machine := { m with todo := [.call name argv.tail] } }
    else throw (.file .missing program)
  | none => throw (.file .missing program)

/-- Let the machine go on, and time pass, until something holds of it or it has ended; at most
    `fuel` waits are waited. -/
def driveWithin (enough : Machine → Bool) : Nat → Machine → Machine
  | 0, m => m
  | fuel + 1, m =>
    let m := m.settle
    if enough m then m
    else match m.wakeTime? with
      | some t => driveWithin enough fuel { m with now := t }
      | none => m

/-- Let the machine go on, and time pass, until something holds of it. -/
def drive (enough : Machine → Bool) (m : Machine) : Machine := driveWithin enough Machine.patience m

/-! ## Runs -/

/-- The exit code of a run that took too long. -/
def timeoutCode : Int := 124

/-- Run a program to its end with nothing to read, no longer than a limit. -/
def runToEnd (c : Child) (limit : Option Seconds) : RunResult :=
  let late (t : Binary64) : Bool := limit.any fun l => l.value.le t
  -- the time limit cuts off a wait that would end at it or later
  let m := drive (fun m => m.wakeTime?.any late) { c.machine with input := { ended := true } }
  match limit, late .zero, m.ended with
  | _, false, some code =>
    { output := String.ofList (Output.withLineFeeds (Text.Utf8.decode m.output.toList)), exitCode := code }
  | some l, _, _ =>
    { output := "Command timed out after " ++ String.ofList l.render ++ " seconds"
      exitCode := timeoutCode, timedOut := true }
  | none, _, _ => { output := "", exitCode := -1 }

/-! ## Conversations -/

/-- What a program that does not read any more makes of a write. -/
def closedMessage : String := "worker stdin is closed"

/-- Write to a program; whether it can still read. -/
def write (c : Child) (s : String) : Bool × Child :=
  if c.inputClosed || c.reaped then (false, c)
  else
    let i := c.machine.input
    (true, { c with machine := { c.machine with input := { i with bytes := i.bytes ++ bytes s } }.settle })

/-- Close what a program reads. -/
def closeInput (c : Child) : Child :=
  { c with
    inputClosed := true
    machine := { c.machine with input := { c.machine.input with ended := true } }.settle }

/-- The output that was not read yet. -/
def unread (c : Child) : List UInt8 := c.machine.output.toList.drop c.consumed

/-- What is in front of a mark, and what is behind it. -/
def cutAt? (mark : List UInt8) : List UInt8 → Option (List UInt8 × List UInt8)
  | [] => none
  | b :: bs =>
    if mark.isPrefixOf (b :: bs) then some ([], (b :: bs).drop mark.length)
    else (cutAt? mark bs).map fun (front, behind) => (b :: front, behind)

/-- Read up to a mark, or to the end of the output. -/
def readUntil (c : Child) (mark : String) : List UInt8 × Child :=
  let rest (m : Machine) : List UInt8 := m.output.toList.drop c.consumed
  let c := { c with machine := drive (fun m => (cutAt? (bytes mark) (rest m)).isSome) c.machine }
  match cutAt? (bytes mark) c.unread with
  | some (front, behind) => (front, { c with consumed := c.machine.output.size - behind.length })
  | none => (c.unread, { c with consumed := c.machine.output.size })

/-- Read to the end of the output. -/
def readAll (c : Child) : List UInt8 × Child :=
  let c := { c with machine := drive (fun _ => false) c.machine }
  (c.unread, { c with consumed := c.machine.output.size })

/-- Kill a program. -/
def kill (c : Child) : Child :=
  if c.machine.ended.isSome then c else { c with machine := c.machine.signalled 9 }

/-- Wait for the end of a program; the code with which it ended. -/
def wait (c : Child) : Option Int × Child :=
  let m := drive (fun _ => false) c.machine
  (m.ended, { c with machine := m, reaped := m.ended.isSome })

/-- The code with which a program ended, once its end was noticed. -/
def exitCode? (c : Child) : Option Int := if c.reaped then c.machine.ended else none

end Child

end GhciHost.Shell
