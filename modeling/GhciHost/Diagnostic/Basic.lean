import GhciHost.Suggestion.Basic

/-! # Diagnostics

A message of the compiler with its place.  The positions of a diagnostic may be any
integers; the places of suggestions are natural numbers, so `span` can fail. -/

namespace GhciHost

/-- How severe a diagnostic is. -/
inductive Severity
  | error
  | warning
  /-- The report of a splice that was run. -/
  | splice
deriving DecidableEq, Repr

/-- The name of a severity. -/
def Severity.name : Severity → String
  | .error => "error"
  | .warning => "warning"
  | .splice => "splice"

/-- A message of the compiler.  The end is the start where the compiler reports a point. -/
structure Diagnostic where
  severity : Severity
  file : String
  line : Int
  column : Int
  endLine : Int
  endColumn : Int
  message : String
  suggestions : List Suggestion := []
deriving DecidableEq, Repr

namespace Diagnostic

/-- The four positions of a diagnostic. -/
inductive Position
  | line
  | column
  | endLine
  | endColumn
deriving DecidableEq, Repr

/-- The name of a position. -/
def Position.name : Position → String
  | .line => "line"
  | .column => "column"
  | .endLine => "end_line"
  | .endColumn => "end_column"

/-- What two diagnostics have in common that say the same. -/
structure Identity where
  severity : Severity
  file : String
  line : Int
  column : Int
  endLine : Int
  endColumn : Int
  message : String
deriving DecidableEq, Repr

/-- All of a diagnostic but its suggestions. -/
def identity (d : Diagnostic) : Identity :=
  ⟨d.severity, d.file, d.line, d.column, d.endLine, d.endColumn, d.message⟩

/-- The negative positions of a diagnostic. -/
def negatives (d : Diagnostic) : List Position :=
  [(Position.line, d.line), (.column, d.column), (.endLine, d.endLine),
    (.endColumn, d.endColumn)].filterMap fun (p, n) => if n < 0 then some p else none

/-- The place of a diagnostic; the negative positions if there are any. -/
def span (d : Diagnostic) : Except (List Position) Span :=
  if d.negatives.isEmpty then
    .ok { line := d.line.toNat, column := d.column.toNat, endLine := d.endLine.toNat,
          endColumn := d.endColumn.toNat, file := d.file }
  else .error d.negatives

theorem span_eq_error {d : Diagnostic} {ps : List Position} (h : d.span = .error ps) :
    ps = d.negatives ∧ ps ≠ [] := by
  rw [span] at h
  split at h
  · simp at h
  · next hn =>
    injection h with h
    subst h
    exact ⟨rfl, by simpa using hn⟩

end Diagnostic

end GhciHost
