import GhciHost.Diagnostic.Basic
import GhciHost.Json.Access
import GhciHost.Record.Scalar

/-! # Diagnostics and suggestions as records

Spans, suggestions and diagnostics are written as JSON objects with all their fields, and
read back loosely.  A suggestion is told from the others by its `kind`. -/

namespace GhciHost

open Record

namespace Span

/-- The fields of a span. -/
def members (s : Span) : Members :=
  [("file", .str s.file), ("line", .int s.line), ("column", .int s.column),
    ("end_line", .int s.endLine), ("end_column", .int s.endColumn)]

/-- Write a span. -/
def toJson (s : Span) : Json := .obj s.members

/-- Read a span. -/
def ofJson (j : Json) : Check Span :=
  (readMembers j).andThen fun ms =>
    (fun file line column endLine endColumn => ⟨⟨line, column, endLine, endColumn⟩, file⟩)
      <$> required ms "file" readText
      <*> required ms "line" readNatural
      <*> required ms "column" readNatural
      <*> required ms "end_line" readNatural
      <*> required ms "end_column" readNatural

end Span

namespace Suggestion

/-- The fields of a change. -/
def fixMembers : Fix → Members
  | .addImportItem m i => [("module", .str m), ("item", .str i)]
  | .removeImportItem m is q => [("module", .str m), ("items", .ofTexts is), ("qualified", .bool q)]
  | .addExtension e => [("extension", .str e)]
  | .addGhcOption o => [("option", .str o)]
  | .addMissingRecordFields c fs => [("constructor", .str c), ("fields", .ofTexts fs)]
  | .fixTypo o r => [("original", .str o), ("replacement", .str r)]
  | .addTypeSignature s => [("signature", .str s)]
  | .removeRedundantConstraint cs => [("constraints", .ofTexts cs)]
  | .enablePackage p => [("package", .str p)]

/-- Write a suggestion. -/
def toJson (s : Suggestion) : Json :=
  .obj ([("location", s.location.toJson), ("kind", .str s.fix.kind.name)] ++ fixMembers s.fix)

/-- Read a change of a known kind. -/
def readFix (ms : Members) : Fix.Kind → Check Fix
  | .addImportItem =>
    .addImportItem <$> required ms "module" readText <*> required ms "item" readText
  | .removeImportItem =>
    .removeImportItem <$> required ms "module" readText
      <*> optional ms "items" [] (readTuple readText) <*> optional ms "qualified" false readTruth
  | .addExtension => .addExtension <$> required ms "extension" readText
  | .addGhcOption => .addGhcOption <$> required ms "option" readText
  | .addMissingRecordFields =>
    .addMissingRecordFields <$> required ms "constructor" readText
      <*> required ms "fields" (readTuple readText)
  | .fixTypo =>
    .fixTypo <$> required ms "original" readText <*> required ms "replacement" readText
  | .addTypeSignature => .addTypeSignature <$> required ms "signature" readText
  | .removeRedundantConstraint =>
    .removeRedundantConstraint <$> required ms "constraints" (readTuple readText)
  | .enablePackage => .enablePackage <$> required ms "package" readText

/-- Read a suggestion. -/
def ofJson : Json → Check Suggestion
  | .obj ms =>
    match ms.lookup "kind" with
    | none => .fail .tagMissing
    | some (.str name) =>
      match Fix.Kind.ofName? name with
      | none => .fail .tagUnknown
      | some kind =>
        ((fun location fix => ⟨location, fix⟩)
          <$> required ms "location" Span.ofJson <*> readFix ms kind).under (.member name)
    | some _ => .fail .tagUnknown
  | _ => .fail .notTagged

end Suggestion

/-- The severity of a name. -/
def Severity.ofName? (name : String) : Option Severity :=
  [Severity.error, .warning, .splice].find? (·.name == name)

theorem Severity.ofName?_name (s : Severity) : ofName? s.name = some s := by
  cases s <;> decide

namespace Diagnostic

/-- Write a diagnostic. -/
def toJson (d : Diagnostic) : Json :=
  .obj [("severity", .str d.severity.name), ("file", .str d.file), ("line", .int d.line),
    ("column", .int d.column), ("end_line", .int d.endLine), ("end_column", .int d.endColumn),
    ("message", .str d.message), ("suggestions", .arr (d.suggestions.map Suggestion.toJson))]

/-- Read a diagnostic. -/
def ofJson (j : Json) : Check Diagnostic :=
  (readMembers j).andThen fun ms =>
    Diagnostic.mk
      <$> required ms "severity" (readChoice Severity.ofName?)
      <*> required ms "file" readText
      <*> required ms "line" readInteger
      <*> required ms "column" readInteger
      <*> required ms "end_line" readInteger
      <*> required ms "end_column" readInteger
      <*> required ms "message" readText
      <*> optional ms "suggestions" [] (readTuple Suggestion.ofJson)

end Diagnostic

end GhciHost
