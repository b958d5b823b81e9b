import GhciHost.Worker.Process

/-! # The launcher

Runs tools and starts workers, here by script: every run and every start takes the next
script of its kind, and after the last one the usual thing happens. -/

namespace GhciHost

/-- The tools that are run. -/
inductive Tool
  | ghcVersion
  | extensions
  | install
  | check
deriving DecidableEq, Repr

/-- The tool that some arguments run. -/
def Tool.ofArguments (argv : List String) : Tool :=
  if argv.contains "--numeric-version" then .ghcVersion
  else if argv.contains "--supported-extensions" then .extensions
  else if argv.contains "--copy-compiler-tool" then .install
  else .check

/-- What came of a run. -/
structure RunResult where
  output : String
  exitCode : Int := 0
  timedOut : Bool := false
deriving DecidableEq, Repr

/-- Whether a run did what it should. -/
def RunResult.succeeded (r : RunResult) : Bool := r.exitCode = 0 && !r.timedOut

/-- What comes of a run after the last script. -/
def Tool.usual : Tool → RunResult
  | .ghcVersion => ⟨"8.4.4\n", 0, false⟩
  | .extensions => ⟨"OverloadedStrings\nTupleSections\nScopedTypeVariables\n", 0, false⟩
  | .check => ⟨"Intero 0.1.40\n", 0, false⟩
  | .install => ⟨"installed", 0, false⟩

/-- How a run goes. -/
structure RunScript where
  delay : Option Binary64 := none
  outcome : Except Fault RunResult

/-- How a start of a worker goes. -/
structure SpawnScript where
  delay : Option Binary64 := none
  fault : Option Fault := none
  /-- What the worker prints at once. -/
  output : List (List UInt8) := []
  /-- The code with which it then exits. -/
  exit : Option Int := none
  responder : Responder := {}
  writeFault : Option Fault := none

/-- How a start goes after the last script. -/
def SpawnScript.usual : SpawnScript :=
  { output := [Text.Utf8.encode "GHCi, version 8.4.4\nPort-Announcement: 4000\n\x04".toList]
    responder := .echo }

/-- The scripts to come. -/
structure Launcher where
  ghcVersion : List RunScript := []
  extensions : List RunScript := []
  install : List RunScript := []
  check : List RunScript := []
  spawns : List SpawnScript := []

/-- The next script. -/
def Launcher.next (usual : α) : List α → α × List α
  | [] => (usual, [])
  | s :: ss => (s, ss)

/-- How the next run of a tool goes. -/
def Launcher.nextRun (l : Launcher) (tool : Tool) : RunScript × Launcher :=
  let usual : RunScript := { outcome := .ok tool.usual }
  match tool with
  | .ghcVersion => let (s, ss) := next usual l.ghcVersion; (s, { l with ghcVersion := ss })
  | .extensions => let (s, ss) := next usual l.extensions; (s, { l with extensions := ss })
  | .install => let (s, ss) := next usual l.install; (s, { l with install := ss })
  | .check => let (s, ss) := next usual l.check; (s, { l with check := ss })

/-- How the next start of a worker goes. -/
def Launcher.nextSpawn (l : Launcher) : SpawnScript × Launcher :=
  let (s, ss) := next SpawnScript.usual l.spawns
  (s, { l with spawns := ss })

/-- The process of a script, with what it prints and its end. -/
def SpawnScript.process (s : SpawnScript) : Process :=
  { output := s.output.map .piece ++ (match s.exit with
      | some _ => [.piece []]
      | none => [])
    exitCode := s.exit, responder := s.responder, writeFault := s.writeFault }

end GhciHost
