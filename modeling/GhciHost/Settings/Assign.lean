import GhciHost.Json.Access
import GhciHost.Settings.Basic

/-! # Changing one setting

A setting may be changed while the host runs.  The value is taken as it is. -/

namespace GhciHost

/-- A length of time as it was given. -/
def Seconds.ofJson? : Json → Option Seconds
  | .int n => some (.whole n)
  | .float x => some (.real x)
  | .bool b => some (.whole (if b then 1 else 0))
  | _ => none

namespace Settings

/-- Change the setting of a name; nothing happens if there is none. -/
def assign (s : Settings) (name : String) (v : Json) : Settings :=
  let text := v.str?.getD ""
  match name with
  | "stack_executable" => { s with stackExecutable := text }
  | "worker_package" => { s with workerPackage := text }
  | "worker_version" => { s with workerVersion := text }
  | "install_extra_packages" => { s with installExtraPackages := v.texts }
  | "resolver_by_ghc_version" =>
    { s with resolverByGhcVersion := Json.textMembers (v.obj?.getD []) }
  | "auto_install" => { s with autoInstall := v.isTrue }
  | "ghci_options" => { s with ghciOptions := v.texts }
  | "stack_yaml" => { s with stackYaml := v.str? }
  | "docker_run_args" => { s with dockerRunArgs := text }
  | "setup_commands" => { s with setupCommands := v.texts }
  | "frame_marker" => { s with frameMarker := text }
  | "unsatisfied_dependency_markers" => { s with unsatisfiedDependencyMarkers := v.texts }
  | "startup_timeout_seconds" => { s with startupTimeout := Seconds.ofJson? v }
  | "blocking_call_timeout_seconds" => { s with blockingCallTimeout := Seconds.ofJson? v }
  | "version_check_timeout_seconds" => { s with versionCheckTimeout := Seconds.ofJson? v }
  | "install_timeout_seconds" => { s with installTimeout := Seconds.ofJson? v }
  | "allow_secondary_channel" => { s with allowSecondaryChannel := v.isTrue }
  | "secondary_host" => { s with secondaryHost := text }
  | "secondary_connect_timeout_seconds" =>
    { s with secondaryConnectTimeout := Seconds.ofJson? v }
  | "transcript_max_bytes" => { s with transcriptMaxBytes := v.integer?.getD 0 }
  | "project_whitelist" => { s with projectWhitelist := v.texts }
  | "project_blacklist" => { s with projectBlacklist := v.texts }
  | "log_level" => { s with logLevel := text }
  | "log_format" => { s with logFormat := text }
  | _ => s

/-- The default settings with some of them changed. -/
def assignAll (changes : List (String × Json)) : Settings :=
  changes.foldl (fun s (name, v) => s.assign name v) {}

end Settings

end GhciHost
