import GhciHost.Json.Access
import GhciHost.Number.Shortest
import GhciHost.Settings.ItemText
import GhciHost.Text.Utf8

/-! # Settings

What an operator can set.  `Settings.members` lists all settings by name in the order of
their declaration. -/

namespace GhciHost

/-- A length of time in seconds, as the operator gave it. -/
inductive Seconds
  | whole (n : Int)
  | real (x : Binary64)
deriving DecidableEq, Repr

namespace Seconds

/-- The number of seconds. -/
def value : Seconds → Binary64
  | whole n => .ofInt n
  | real x => x

/-- The text of a length of time. -/
def render : Seconds → List Char
  | whole n => Text.showInt n
  | real x => x.render shownNumber

/-- As JSON. -/
def toJson : Seconds → Json
  | whole n => .int n
  | real x => .float x

/-- A number of seconds given in decimal. -/
def ofDecimal (digits : Nat) (exponent : Int) : Seconds :=
  real (.ofDecimal false digits exponent)

end Seconds

/-- The settings. -/
structure Settings where
  /-- The build tool. -/
  stackExecutable : String := "stack"
  /-- The package of the worker, also the name of its program. -/
  workerPackage : String := "intero"
  /-- The version of the worker that must be installed. -/
  workerVersion : String := "0.1.40"
  /-- Packages that are built with the worker. -/
  installExtraPackages : List String :=
    ["ghc-paths-0.1.0.9", "mtl-2.2.2", "network-2.6.3.6", "random-1.1", "syb-0.7"]
  /-- The package snapshot to install with, by compiler version. -/
  resolverByGhcVersion : List (String × String) :=
    [("7.10.3", "lts-6.35"), ("8.0.1", "lts-7.24"), ("8.0.2", "lts-9.21"),
      ("8.2.1", "nightly-2017-08-25"), ("8.2.2", "lts-11.22"), ("8.4.3", "lts-12.14"),
      ("8.4.4", "lts-12.26")]
  /-- Whether a missing worker is installed. -/
  autoInstall : Bool := true
  /-- Further options for the worker. -/
  ghciOptions : List String := []
  /-- The project's build file, if not the usual one. -/
  stackYaml : Option String := none
  /-- Arguments for running the worker in a container. -/
  dockerRunArgs : String := "--interactive=true --tty=false"
  /-- Commands written to a worker that was just started. -/
  setupCommands : List String := [":set -fobject-code"]
  /-- The byte that ends every response. -/
  frameMarker : String := "\x04"
  /-- Texts by which a worker says that a dependency is not built. -/
  unsatisfiedDependencyMarkers : List String := ["cannot satisfy -package"]
  /-- How long a caller waits for a worker to become ready. -/
  startupTimeout : Option Seconds := some (.ofDecimal 600 0)
  /-- How long a caller waits for a response, unless it says otherwise. -/
  blockingCallTimeout : Option Seconds := none
  /-- How long the tools may take that tell versions and extensions. -/
  versionCheckTimeout : Option Seconds := some (.ofDecimal 60 0)
  /-- How long an installation may take. -/
  installTimeout : Option Seconds := some (.ofDecimal 3600 0)
  /-- Whether queries may use connections of their own. -/
  allowSecondaryChannel : Bool := true
  /-- Where the worker listens for queries. -/
  secondaryHost : String := "127.0.0.1"
  /-- How long connecting may take. -/
  secondaryConnectTimeout : Option Seconds := some (.ofDecimal 2 0)
  /-- How many bytes of a worker's output are kept to explain a failure. -/
  transcriptMaxBytes : Int := 64 * 1024
  /-- Where projects may lie; nothing means anywhere. -/
  projectWhitelist : List String := []
  /-- Where projects may not lie. -/
  projectBlacklist : List String := []
  logLevel : String := "WARNING"
  logFormat : String := "text"
deriving DecidableEq, Repr

namespace Settings

/-- All settings by name. -/
def members (s : Settings) : List (String × Json) :=
  [("stack_executable", .str s.stackExecutable), ("worker_package", .str s.workerPackage),
    ("worker_version", .str s.workerVersion),
    ("install_extra_packages", .ofTexts s.installExtraPackages),
    ("resolver_by_ghc_version",
      .obj (s.resolverByGhcVersion.map fun (version, resolver) => (version, .str resolver))),
    ("auto_install", .bool s.autoInstall), ("ghci_options", .ofTexts s.ghciOptions),
    ("stack_yaml", .orNull .str s.stackYaml),
    ("docker_run_args", .str s.dockerRunArgs), ("setup_commands", .ofTexts s.setupCommands),
    ("frame_marker", .str s.frameMarker),
    ("unsatisfied_dependency_markers", .ofTexts s.unsatisfiedDependencyMarkers),
    ("startup_timeout_seconds", .orNull Seconds.toJson s.startupTimeout),
    ("blocking_call_timeout_seconds", .orNull Seconds.toJson s.blockingCallTimeout),
    ("version_check_timeout_seconds", .orNull Seconds.toJson s.versionCheckTimeout),
    ("install_timeout_seconds", .orNull Seconds.toJson s.installTimeout),
    ("allow_secondary_channel", .bool s.allowSecondaryChannel),
    ("secondary_host", .str s.secondaryHost),
    ("secondary_connect_timeout_seconds", .orNull Seconds.toJson s.secondaryConnectTimeout),
    ("transcript_max_bytes", .int s.transcriptMaxBytes),
    ("project_whitelist", .ofTexts s.projectWhitelist),
    ("project_blacklist", .ofTexts s.projectBlacklist), ("log_level", .str s.logLevel),
    ("log_format", .str s.logFormat)]

/-- The bytes of the frame marker. -/
def frameMarkerBytes (s : Settings) : List UInt8 := Text.Utf8.encode s.frameMarker.toList

/-- The command that makes the worker end every response with the frame marker. -/
def promptCommand (s : Settings) : String :=
  ":set prompt \"\\" ++ String.ofList (Text.showNat (s.frameMarker.toList.headD '\x00').toNat) ++ "\""

end Settings

end GhciHost
