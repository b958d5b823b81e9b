import GhciHost.Channel.Query
import GhciHost.Install.Installer
import GhciHost.Json.Access
import GhciHost.Json.Reader
import GhciHost.Settings.Assign
import GhciHost.Worker.Launcher

/-! # Scripts as records

What workers, tools and connections do, written as JSON objects.  Bytes are a text, which
means its encoding, or hexadecimal digits. -/

namespace GhciHost

/-- The bytes of hexadecimal digits; any other character counts as the digit zero. -/
def bytesOfHex : List Char → List UInt8
  | a :: b :: cs =>
    let value (c : Char) : Nat := (Json.hexValue? c).getD 0
    UInt8.ofNat (16 * value a + value b) :: bytesOfHex cs
  | _ => []

/-- The hexadecimal digits of bytes. -/
def hexOfBytes (bs : List UInt8) : List Char :=
  bs.flatMap fun b => [Nat.digitChar (b.toNat / 16), Nat.digitChar (b.toNat % 16)]

/-- Bytes as they are written in a script. -/
def bytesOfJson : Json → List UInt8
  | .str s => Text.Utf8.encode s.toList
  | j => bytesOfHex (j.textAt "hex").toList

namespace Json

def bytesAt (j : Json) (k : String) : List UInt8 := (j.field? k).elim [] bytesOfJson

def secondsAt? (j : Json) (k : String) : Option Seconds := (j.field? k).bind Seconds.ofJson?

end Json

/-- A fault of some kind. -/
def Fault.ofJson (j : Json) : Fault :=
  let name := match j.textAt "kind" with
    | "IOError" | "EnvironmentError" => OsFault.general.name
    | name => name
  match OsFault.all.find? (·.name == name) with
  | some kind => .os kind (j.textAt "message")
  | none => .other name (j.textAt "message")

def Fault.at? (j : Json) (k : String) : Option Fault := (j.field? k).map ofJson

/-- Something that a worker does. -/
def WorkerAct.ofJson (j : Json) : WorkerAct :=
  match j.field? "emit", j.field? "read_error" with
  | some (.str s), _ => .say s
  | some bytes, _ => .emit (bytesOfJson bytes)
  | none, some f => .break_ (Fault.ofJson f)
  | none, none => .exit (j.integerAt "exit")

def WorkerAct.listAt (j : Json) (k : String) : List WorkerAct := (j.itemsAt k).map ofJson

/-- How a worker answers; any text stands for the worker that repeats every line. -/
def Responder.ofJson : Json → Responder
  | .str _ => echo
  | j =>
    { replies := (j.membersAt "replies").map fun (line, acts) =>
        (line, (acts.arr?.getD []).map WorkerAct.ofJson)
      others := WorkerAct.listAt j "default" }

def Responder.ofField (j : Json) : Responder := (j.field? "responder").elim {} ofJson

/-- How a run of a tool goes. -/
def RunScript.ofJson (j : Json) : RunScript where
  delay := j.numberAt? "delay"
  outcome := match Fault.at? j "error" with
    | some f => .error f
    | none => .ok ⟨j.textAt "output", j.integerAt "exit_code", j.flagAt "timed_out"⟩

/-- How a start of a worker goes. -/
def SpawnScript.ofJson (j : Json) : SpawnScript where
  delay := j.numberAt? "delay"
  fault := Fault.at? j "error"
  output := match j.field? "emit" with
    | some (.arr xs) => xs.map bytesOfJson
    | some b => [bytesOfJson b]
    | none => []
  exit := j.integerAt? "exit"
  responder := Responder.ofField j
  writeFault := Fault.at? j "write_error"

/-- The scripts of tools and workers. -/
def Launcher.ofJson (runs spawns : Json) : Launcher where
  ghcVersion := (runs.itemsAt "ghc_version").map RunScript.ofJson
  extensions := (runs.itemsAt "extensions").map RunScript.ofJson
  install := (runs.itemsAt "install").map RunScript.ofJson
  check := (runs.itemsAt "check").map RunScript.ofJson
  spawns := (spawns.arr?.getD []).map SpawnScript.ofJson

/-- How a connection goes. -/
def ConnectionScript.ofJson (j : Json) : ConnectionScript where
  reply := j.bytesAt "reply"
  connectDelay := j.numberAt? "connect_delay"
  readDelay := j.numberAt? "read_delay"
  connectFault := Fault.at? j "connect_error"
  writeFault := Fault.at? j "write_error"
  drainFault := Fault.at? j "drain_error"
  readFault := Fault.at? j "read_error"
  closeFault := Fault.at? j "close_error"
  canWriteEof := j.flagAt "can_write_eof" true

/-- The choices made for an installer. -/
def Installer.Choices.ofJson (j : Json) : Choices where
  stack := j.textAt "stack_executable"
  workerPackage := j.textAt "worker_package"
  workerVersion := j.textAt "worker_version"
  extraPackages := (j.field? "extra_packages").map Json.texts
  resolvers := (j.field? "resolver_table").map fun t => Json.textMembers (t.obj?.getD [])
  stackYaml := j.text? "stack_yaml"
  versionCheckTimeout := j.secondsAt? "version_check_timeout"
  installTimeout := j.secondsAt? "install_timeout"

/-- What an asker wants done with a response. -/
def Reaction.ofJson? (j : Json) : Option Reaction :=
  match j with
  | .str "record" => some .note
  | .str "raise" => some .fail
  | .obj _ =>
    match j.text? "submit" with
    | some command => some (.submit command (j.valueAt "state"))
    | none => some (.attach (j.naturalAt "attach"))
  | _ => none

/-- The kind of a session that gave up; any unknown one means that it was not installed. -/
def GiveUpKind.ofName (name : String) : GiveUpKind :=
  if name = GiveUpKind.unsatisfiedDependency.name then .unsatisfiedDependency else .installFailure

/-- A phase, named by its type. -/
def Phase.ofJson (j : Json) : Phase :=
  let mode := (StartMode.ofName? (j.textAt "mode")).getD .fast
  match j.textAt "type" with
  | "Installing" => .installing
  | "Starting" => .starting mode
  | "Ready" => .ready mode (j.integerAt? "port")
  | "Restarting" => .restarting mode (j.textAt "reason")
  | "GivenUp" =>
    .givenUp (j.textAt "reason") (j.textAt "transcript") (GiveUpKind.ofName (j.textAt "error_kind"))
  | _ => .absent

end GhciHost
