import GhciHost.Host.Waiting
import GhciHost.Install.Version

/-! # Tools

Running the tools that tell versions and extensions and that install the worker, and reading
what they print.  A tool that cannot be run tells nothing; only an installation that fails
is an error, which carries its transcript. -/

namespace GhciHost.Host

/-- Run a tool. -/
def runTool (argv : List String) (cwd : String) (timeout : Option Seconds) : Action Next := do
  note fun j => { j with runs := j.runs ++ [(argv, cwd, timeout)] }
  let (script, launcher) := (← get).launcher.nextRun (Tool.ofArguments argv)
  modify fun h => { h with launcher }
  sleep script.delay [.toolEnded script.outcome]

/-- What came of a run. -/
def toolEnded : Except Fault RunResult → Next
  | .ok r => .done (.run r)
  | .error f => .pass (.failed (.fault f))

/-- The result of a run that could be made. -/
def ranWell? : Ending → Option RunResult
  | .value (.run r) => if r.succeeded then some r else none
  | _ => none

/-- Read something off a run; a tool that could not be run counts as one that failed. -/
def readRun (read : Option RunResult → Value) (e : Ending) : Next :=
  match e with
  | .value (.run _) => .done (read (ranWell? e))
  | .failed f => if f.isOs then .done (read none) else .pass e
  | e => .pass e

/-- The version that a run told. -/
def readVersion (r : Option RunResult) : Value :=
  .version (r.bind fun r => (Install.version? r.output.toList).map String.ofList)

/-- The names that a run told, one on a line. -/
def readNames (r : Option RunResult) : Value :=
  .names <| match r with
    | some r => ((Text.lines r.output.toList).map Text.trim).filterMap fun l =>
        if l.isEmpty then none else some (String.ofList l)
    | none => []

/-- The status of the worker that a run told. -/
def readStatus (version : String) (r : Option RunResult) : Value :=
  .status <| match r with
    | none => .notInstalled
    | some r =>
      if (Install.version? r.output.toList).map String.ofList = some version then .installed
      else .wrongVersion

/-- The transcript of an installation. -/
def readInstall (i : Installer) (header : String) (e : Ending) : Next :=
  match e with
  | .value (.run r) =>
    let transcript := header ++ "\n" ++ r.output
    if r.succeeded then .done (.text transcript)
    else .pass (.failed (.session
      { kind := .installFailure, transcript
        text := "Installing " ++ i.workerPackage ++ "-" ++ i.workerVersion ++
          " failed (exit code " ++ String.ofList (Text.showInt r.exitCode) ++ ")" }))
  | .failed f =>
    if f.isOs then .pass (.failed (.session
      { kind := .installFailure, text := "Could not run " ++ i.stack ++ ": " ++ f.message
        transcript := header ++ "\n" ++ f.message }))
    else .pass e
  | e => .pass e

/-! ## What is asked of the installer -/

/-- Ask for the version of the project's compiler. -/
def askVersion (i : Installer) (root : String) : List Frame :=
  [.tool (Arguments.ghcVersion i.stack i.stackYaml) root i.versionCheckTimeout, .version]

/-- Ask for the language extensions of the project's compiler. -/
def askExtensions (i : Installer) (root : String) : List Frame :=
  [.tool (Arguments.supportedExtensions i.stack i.stackYaml) root i.versionCheckTimeout,
    .extensions]

/-- Ask whether the worker can be used. -/
def askStatus (i : Installer) (root : String) : List Frame :=
  [.tool (Arguments.workerVersion i.stack i.stackYaml i.workerPackage) root i.versionCheckTimeout,
    .status]

/-- Install the worker. -/
def install (i : Installer) (root : String) (ghcVersion : Option String) : List Frame :=
  let argv := i.installArguments ghcVersion
  [.tool argv root i.installTimeout, .installed ("$ " ++ String.ofList (Shell.join argv))]

end GhciHost.Host
