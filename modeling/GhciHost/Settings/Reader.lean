import GhciHost.Json.Reader
import GhciHost.Record.Scalar
import GhciHost.Settings.Basic
import GhciHost.Text.Lines

/-! # Reading settings

A setting is given by an argument, else by a variable of the environment, else it has its
default.  List settings and the table of resolvers are read as JSON when they come from the
environment.  A list may be given as a list, as a JSON list in a text, or as a text with
commas. -/

namespace GhciHost.Settings

open Record

/-- What every variable's name starts with. -/
def variablePrefix : String := "ghcworker_"

/-- A character in small letters, as far as names of variables are concerned: the capitals
    of ASCII and the Kelvin sign. -/
def smallLetter (c : Char) : Char := if c == '\u212A' then 'k' else c.toLower

/-- A name in small letters. -/
def smallLetters (s : String) : String := String.ofList (s.toList.map smallLetter)

/-- A variable of the environment whose text cannot be read. -/
structure UnreadableVariable where
  setting : String
deriving DecidableEq, Repr

@[inherit_doc UnreadableVariable]
def UnreadableVariable.message (e : UnreadableVariable) : String :=
  "error parsing value for field \"" ++ e.setting ++ "\" from source \"EnvSettingsSource\""

/-- The items of a list setting that is given as a text with commas. -/
def commaItems (s : List Char) : List String :=
  ((Text.segments ',' s).map Text.trim).filterMap fun item =>
    if item.isEmpty then none else some (String.ofList item)

/-- The items of a list setting that is given as a text. -/
def listOfText (text : String) : Check (List String) :=
  let s := Text.trim text.toList
  match s with
  | '[' :: _ =>
    match Json.read (String.ofList s) with
    | .ok (.arr xs) => .ok (xs.map Json.itemText)
    | .error (.tooManyDigits e) => .fail (.rule e.message)
    | _ => .ok (commaItems s)
  | _ => .ok (commaItems s)

/-- The items of a list setting; anything but a list or a text counts as no items. -/
def readItems : Json → Check (List String)
  | .arr xs => .ok (xs.map Json.itemText)
  | .str s => listOfText s
  | _ => .ok []

/-- The frame marker: a single byte that ends no line. -/
def readMarker (j : Json) : Check String :=
  (readText j).andThen fun s =>
    if (Text.Utf8.encode s.toList).length ≠ 1 then
      .fail (.rule "frame_marker must be a single byte")
    else if s = "\n" ∨ s = "\r" then .fail (.rule "frame_marker must not be a line terminator")
    else .ok s

/-- The table of resolvers. -/
def readTable : Json → Check (List (String × String))
  | .obj ms =>
    let rec go : Members → Check (List (String × String))
      | [] => .ok []
      | (k, v) :: ms =>
        ((fun resolver table => (k, resolver) :: table)
          <$> (readText v).under (.member k)) <*> go ms
    go ms
  | _ => .fail .notMapping

/-- A length of time. -/
def readSeconds (j : Json) : Check Seconds := .real <$> readNumber j

/-- The value of the last variable of a name, in capitals or not. -/
def lastValue? (env : List (String × String)) (setting : String) : Option String :=
  (env.reverse.find? fun (name, _) => smallLetters name == variablePrefix ++ setting).map (·.2)

/-- The value of a setting from the environment, as it is. -/
def plainVariable? (env : List (String × String)) (setting : String) : Option Json :=
  (lastValue? env setting).map .str

/-- The value of a list setting from the environment: the JSON value of its text, or the
    text itself where it is not JSON; `null` counts as absent. -/
def listVariable? (env : List (String × String)) (setting : String) : Option Json :=
  (lastValue? env setting).bind fun text =>
    match Json.read text with
    | .ok .null => none
    | .ok j => some j
    | .error _ => some (.str text)

/-- The value of a table from the environment: the JSON value of its text; `null` counts as
    absent. -/
def tableVariable? (env : List (String × String)) (setting : String) :
    Except UnreadableVariable (Option Json) :=
  match lastValue? env setting with
  | none => .ok none
  | some text =>
    -- unlike a list, a table has no other spelling than JSON
    match Json.read text with
    | .ok .null => .ok none
    | .ok j => .ok (some j)
    | .error _ => .error ⟨setting⟩

/-- Members of two objects; those of the second win. -/
def mergeTables : Json → Json → Json
  | .obj base, .obj later => .obj (later.foldl (fun ms (k, v) => Json.insertMember k v ms) base)
  | _, later => later

/-- The settings given by arguments and by the environment. -/
def read (arguments : Members) (env : List (String × String)) :
    Except UnreadableVariable (Check Settings) := do
  let table ← tableVariable? env "resolver_by_ghc_version"
  let given (setting : String) (fromEnv : Option Json) : Option Json :=
    match arguments.lookup setting with
    | some j => some j
    | none => fromEnv
  let plain {α : Type} (setting : String) (default : α) (reader : Json → Check α) : Check α :=
    match given setting (plainVariable? env setting) with
    | some j => (reader j).under (.member setting)
    | none => .ok default
  let items (setting : String) (default : List String) : Check (List String) :=
    match given setting (listVariable? env setting) with
    | some j => (readItems j).under (.member setting)
    | none => .ok default
  let resolvers (default : List (String × String)) : Check (List (String × String)) :=
    match arguments.lookup "resolver_by_ghc_version", table with
    | some j, some base => (readTable (mergeTables base j)).under (.member "resolver_by_ghc_version")
    | some j, none => (readTable j).under (.member "resolver_by_ghc_version")
    | none, some base => (readTable base).under (.member "resolver_by_ghc_version")
    | none, none => .ok default
  let d : Settings := {}
  let seconds (setting : String) (default : Option Seconds) : Check (Option Seconds) :=
    plain setting default fun j => some <$> readSeconds j
  pure <| Settings.mk
    <$> plain "stack_executable" d.stackExecutable readText
    <*> plain "worker_package" d.workerPackage readText
    <*> plain "worker_version" d.workerVersion readText
    <*> items "install_extra_packages" d.installExtraPackages
    <*> resolvers d.resolverByGhcVersion
    <*> plain "auto_install" d.autoInstall readTruth
    <*> items "ghci_options" d.ghciOptions
    <*> plain "stack_yaml" d.stackYaml (nullable readText)
    <*> plain "docker_run_args" d.dockerRunArgs readText
    <*> items "setup_commands" d.setupCommands
    <*> plain "frame_marker" d.frameMarker readMarker
    <*> items "unsatisfied_dependency_markers" d.unsatisfiedDependencyMarkers
    <*> seconds "startup_timeout_seconds" d.startupTimeout
    <*> plain "blocking_call_timeout_seconds" d.blockingCallTimeout (nullable readSeconds)
    <*> seconds "version_check_timeout_seconds" d.versionCheckTimeout
    <*> seconds "install_timeout_seconds" d.installTimeout
    <*> plain "allow_secondary_channel" d.allowSecondaryChannel readTruth
    <*> plain "secondary_host" d.secondaryHost readText
    <*> seconds "secondary_connect_timeout_seconds" d.secondaryConnectTimeout
    <*> plain "transcript_max_bytes" d.transcriptMaxBytes readInteger
    <*> items "project_whitelist" d.projectWhitelist
    <*> items "project_blacklist" d.projectBlacklist
    <*> plain "log_level" d.logLevel readText
    <*> plain "log_format" d.logFormat readText

end GhciHost.Settings
