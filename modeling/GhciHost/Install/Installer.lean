import GhciHost.Settings.Basic
import GhciHost.Worker.Arguments

/-! # The installer

What it needs to know to check for the worker and to install it. -/

namespace GhciHost

/-- Whether the worker can be used. -/
inductive InstallStatus
  | notInstalled
  | wrongVersion
  | installed
deriving DecidableEq, Repr

/-- The name of a status. -/
def InstallStatus.name : InstallStatus → String
  | .notInstalled => "not-installed"
  | .wrongVersion => "wrong-version"
  | .installed => "installed"

/-- Which worker is to be installed, and how. -/
structure Installer where
  stack : String
  workerPackage : String
  workerVersion : String
  extraPackages : List String
  resolvers : List (String × String)
  stackYaml : Option String
  versionCheckTimeout : Option Seconds
  installTimeout : Option Seconds
deriving DecidableEq, Repr

/-- Choices that are made for one installer; what is left open is taken from the settings. -/
structure Installer.Choices where
  stack : String := ""
  workerPackage : String := ""
  workerVersion : String := ""
  extraPackages : Option (List String) := none
  resolvers : Option (List (String × String)) := none
  stackYaml : Option String := none
  versionCheckTimeout : Option Seconds := none
  installTimeout : Option Seconds := none
deriving DecidableEq, Repr

/-- Whether a length of time is zero. -/
def Seconds.isZero (s : Seconds) : Bool := s.value.toInt? == some 0

namespace Installer

/-- A text, unless it is empty. -/
def orElse (choice default : String) : String := if choice.isEmpty then default else choice

/-- A length of time, unless it is zero. -/
def orElseTime (choice default : Option Seconds) : Option Seconds :=
  match choice with
  | some s => if s.isZero then default else some s
  | none => default

/-- The installer of some choices. -/
def choose (c : Choices) (s : Settings) : Installer where
  stack := orElse c.stack s.stackExecutable
  workerPackage := orElse c.workerPackage s.workerPackage
  workerVersion := orElse c.workerVersion s.workerVersion
  -- an empty list is a choice, unlike an empty text
  extraPackages := c.extraPackages.getD s.installExtraPackages
  resolvers := c.resolvers.getD s.resolverByGhcVersion
  stackYaml := c.stackYaml <|> s.stackYaml
  versionCheckTimeout := orElseTime c.versionCheckTimeout s.versionCheckTimeout
  installTimeout := orElseTime c.installTimeout s.installTimeout

/-- The package snapshot to install with, for a version of the compiler. -/
def resolver? (i : Installer) (ghcVersion : Option String) : Option String :=
  match ghcVersion with
  | some v => if v.isEmpty then none else i.resolvers.lookup v
  | none => none

/-- The arguments that install the worker. -/
def installArguments (i : Installer) (ghcVersion : Option String) : List String :=
  Arguments.install
    { stack := i.stack, workerPackage := i.workerPackage, workerVersion := i.workerVersion
      extraPackages := i.extraPackages, resolver := i.resolver? ghcVersion
      stackYaml := i.stackYaml }

theorem resolver?_none (i : Installer) : i.resolver? none = none := rfl

end Installer

end GhciHost
