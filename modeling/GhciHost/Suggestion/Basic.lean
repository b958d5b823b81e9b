import GhciHost.Diagnostic.Location

/-! # Suggestions

What an editor can offer to do about a diagnostic.  A suggestion says where it applies and
what to change there; `Fix.Kind` names the nine kinds of change. -/

namespace GhciHost

/-- A range of a named source file. -/
structure Span extends Location where
  file : String
deriving DecidableEq, Repr

/-- A change to a source file or to the project. -/
inductive Fix
  /-- Add an identifier to an existing import list. -/
  | addImportItem (module item : String)
  /-- Remove redundant items from an import; no items means the whole import. -/
  | removeImportItem (module : String) (items : List String) (qualified : Bool)
  /-- Enable a language extension in the module header. -/
  | addExtension (extension : String)
  /-- Add a compiler flag to the module. -/
  | addGhcOption (option : String)
  /-- Fill in record fields that a constructor application leaves out. -/
  | addMissingRecordFields (constructor : String) (fields : List String)
  /-- Replace a misspelled name with one that the compiler knows. -/
  | fixTypo (misspelled replacement : String)
  /-- Insert the inferred type signature above a top-level binding. -/
  | addTypeSignature (signature : String)
  /-- Drop constraints that are not used. -/
  | removeRedundantConstraint (constraints : List String)
  /-- Add a hidden package to the project's dependencies. -/
  | enablePackage (package : String)
deriving DecidableEq, Repr

namespace Fix

/-- The kinds of change. -/
inductive Kind
  | addImportItem
  | removeImportItem
  | addExtension
  | addGhcOption
  | addMissingRecordFields
  | fixTypo
  | addTypeSignature
  | removeRedundantConstraint
  | enablePackage
deriving DecidableEq, Repr

/-- The kind of a change. -/
def kind : Fix → Kind
  | addImportItem .. => .addImportItem
  | removeImportItem .. => .removeImportItem
  | addExtension .. => .addExtension
  | addGhcOption .. => .addGhcOption
  | addMissingRecordFields .. => .addMissingRecordFields
  | fixTypo .. => .fixTypo
  | addTypeSignature .. => .addTypeSignature
  | removeRedundantConstraint .. => .removeRedundantConstraint
  | enablePackage .. => .enablePackage

/-- All kinds. -/
def Kind.all : List Kind :=
  [.addImportItem, .removeImportItem, .addExtension, .addGhcOption, .addMissingRecordFields,
    .fixTypo, .addTypeSignature, .removeRedundantConstraint, .enablePackage]

/-- The name of a kind. -/
def Kind.name : Kind → String
  | .addImportItem => "add-import-item"
  | .removeImportItem => "remove-import-item"
  | .addExtension => "add-extension"
  | .addGhcOption => "add-ghc-option"
  | .addMissingRecordFields => "add-missing-record-fields"
  | .fixTypo => "fix-typo"
  | .addTypeSignature => "add-type-signature"
  | .removeRedundantConstraint => "remove-redundant-constraint"
  | .enablePackage => "enable-package"

/-- The kind of a name. -/
def Kind.ofName? (name : String) : Option Kind := all.find? (·.name == name)

theorem Kind.mem_all (k : Kind) : k ∈ all := by cases k <;> decide

theorem Kind.ofName?_name (k : Kind) : ofName? k.name = some k := by cases k <;> decide

end Fix

/-- A change and where it applies. -/
structure Suggestion where
  location : Span
  fix : Fix
deriving DecidableEq, Repr

end GhciHost
