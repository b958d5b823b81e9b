import GhciHost.Session.Phase

/-! # Arguments of the tools

The command lines that start a worker, ask for versions and install the worker.  All of them
run the build tool, with the project's build file if one is named. -/

namespace GhciHost.Arguments

/-- The build tool and the build file it is to use, if one is named. -/
def buildTool (stack : String) (stackYaml : Option String) : List String :=
  match stackYaml with
  | some file => if file.isEmpty then [stack] else [stack, "--stack-yaml", file]
  | none => [stack]

/-- What a start of a worker depends on. -/
structure Start where
  stack : String
  workerPackage : String
  objectDir : String
  mode : StartMode
  dockerRunArgs : String := ""
  stackYaml : Option String := none
  ghciOptions : List String := []
  targets : List String := []

/-- Start a worker that loads nothing by itself.  A fast start builds no dependencies, so a
    worker that misses one ends. -/
def start (s : Start) : List String :=
  buildTool s.stack s.stackYaml ++ ["ghci", "--with-ghc", s.workerPackage] ++
    (if s.dockerRunArgs.isEmpty then [] else ["--docker-run-args=" ++ s.dockerRunArgs]) ++
    (match s.mode with
      | .fast => ["--no-build"]
      | .withBuild => []) ++
    ["--no-load", "--ghci-options", "-odir=" ++ s.objectDir, "--ghci-options",
      "-hidir=" ++ s.objectDir] ++
    s.ghciOptions.flatMap (fun option => ["--ghci-options", option]) ++ s.targets

/-- Ask for the version of the installed worker. -/
def workerVersion (stack : String) (stackYaml : Option String) (workerPackage : String) :
    List String :=
  buildTool stack stackYaml ++ ["exec", "--verbosity", "silent", "--", workerPackage, "--version"]

/-- What an installation depends on. -/
structure Installation where
  stack : String
  workerPackage : String
  workerVersion : String
  extraPackages : List String := []
  resolver : Option String := none
  stackYaml : Option String := none

/-- Build the worker for the project's compiler. -/
def install (i : Installation) : List String :=
  buildTool i.stack i.stackYaml ++
    ["build", "--copy-compiler-tool", i.workerPackage ++ "-" ++ i.workerVersion] ++
    i.extraPackages ++
    (match i.resolver with
      | some resolver => if resolver.isEmpty then [] else ["--resolver", resolver]
      | none => [])

/-- Ask for the version of the compiler. -/
def ghcVersion (stack : String) (stackYaml : Option String) : List String :=
  buildTool stack stackYaml ++ ["ghc", "--", "--numeric-version"]

/-- Ask for the language extensions that the compiler knows. -/
def supportedExtensions (stack : String) (stackYaml : Option String) : List String :=
  buildTool stack stackYaml ++
    ["exec", "--verbosity", "silent", "--", "ghc", "--supported-extensions"]

theorem mem_start_targets {s : Start} {t : String} (h : t ∈ s.targets) : t ∈ start s := by
  simp [start, h]

end GhciHost.Arguments
