import GhciHost.Suggestion.Basic
import GhciHost.Text.Blank
import GhciHost.Text.Digit
import GhciHost.Text.Scan

/-! # Commands

A command is one line for the worker.  Queries at a place name the file and the text in
quotes, which the worker's reader undoes.  `fault?` finds what makes a text unfit as a
command: a line end would make two lines of it, and the frame marker would be taken for the
end of a response.

* `fault?_eq_none_iff`   what a command may be;
* `quotedChar_ne_lineFeed`   no quoted text holds a line feed. -/

namespace GhciHost.Command

open Text

/-- How a character is written between double quotes. -/
def quotedChar (c : Char) : List Char :=
  if c = '\\' then ['\\', '\\']
  else if c = '"' then ['\\', '"']
  else if c = '\n' then ['\\', 'n']
  else [c]

/-- A text between double quotes. -/
def quote (text : List Char) : List Char := ['"'] ++ text.flatMap quotedChar ++ ['"']

theorem quotedChar_ne_lineFeed {c d : Char} (h : d ∈ quotedChar c) : d ≠ '\n' := by
  unfold quotedChar at h
  split at h
  · simp only [List.mem_cons, List.not_mem_nil, or_false, or_self] at h
    subst h
    decide
  split at h
  · simp only [List.mem_cons, List.not_mem_nil, or_false] at h
    rcases h with rfl | rfl <;> decide
  split at h
  · simp only [List.mem_cons, List.not_mem_nil, or_false] at h
    rcases h with rfl | rfl <;> decide
  · rw [List.mem_singleton.mp h]
    assumption

/-! ## The commands -/

/-- A command with one argument. -/
def simple (name argument : String) : String := name ++ " " ++ argument

/-- A query about a text at a place. -/
def spanQuery (name : String) (span : Span) (text : String) : String :=
  String.ofList <|
    [':'] ++ name.toList ++ [' '] ++ quote span.file.toList ++ [' '] ++ showNat span.line ++ [' '] ++
      showNat span.column ++ [' '] ++ showNat span.endLine ++ [' '] ++ showNat span.endColumn ++
      [' '] ++ quote text.toList

/-- Load a module.  A path with blanks is quoted. -/
def load (path : String) : String :=
  if path.toList.any isBlank then simple ":l" (String.ofList (quote path.toList))
  else simple ":l" path

/-- Load again what is loaded. -/
def reload : String := ":r"

/-- Ask for the type of the expression at a place. -/
def typeAt : Span → String → String := spanQuery "type-at"

/-- Ask for the uses of the identifier at a place. -/
def uses : Span → String → String := spanQuery "uses"

/-- Ask for the definition of the identifier at a place. -/
def locAt : Span → String → String := spanQuery "loc-at"

/-- Ask for the completions of a text at a place. -/
def completeAt : Span → String → String := spanQuery "complete-at"

/-- Ask for what is known about an identifier. -/
def info : String → String := simple ":i"

/-- Ask for the type of an expression. -/
def typeOf : String → String := simple ":t"

/-- Ask for the kind of a type. -/
def kindOf : String → String := simple ":k"

/-- Ask for what a module exports. -/
def browse : String → String := simple ":browse!"

/-- The names of the commands that change nothing in the worker. -/
def readOnlyNames : List String :=
  [":type-at", ":uses", ":loc-at", ":complete-at", ":info", ":i", ":type", ":t", ":kind", ":k",
    ":browse", ":browse!"]

/-- Whether a command changes nothing in the worker. -/
def isReadOnly (command : String) : Bool :=
  match words command.toList with
  | [] => false
  | name :: _ => readOnlyNames.contains (String.ofList name)

/-! ## What is not a command -/

/-- What makes a text unfit as a command. -/
inductive Fault
  | empty
  | lineFeed
  | carriageReturn
  | nullByte
  | marker
deriving DecidableEq, Repr

/-- The explanation of a fault. -/
def Fault.message : Fault → String
  | .empty => "Command cannot be empty"
  | .lineFeed => "Command contains newline"
  | .carriageReturn => "Command contains carriage return"
  | .nullByte => "Command contains null byte"
  | .marker => "Command contains the frame marker"

/-- The first fault of a text; an empty marker occurs nowhere. -/
def fault? (marker command : List Char) : Option Fault :=
  if allBlank command then some .empty
  else if '\n' ∈ command then some .lineFeed
  else if '\r' ∈ command then some .carriageReturn
  else if '\x00' ∈ command then some .nullByte
  else if marker ≠ [] ∧ contains marker command = true then some .marker
  else none

theorem fault?_eq_none_iff {marker command : List Char} :
    fault? marker command = none ↔
      allBlank command = false ∧ '\n' ∉ command ∧ '\r' ∉ command ∧ '\x00' ∉ command ∧
        ¬(marker ≠ [] ∧ contains marker command = true) := by
  unfold fault?
  split <;> simp_all
  split <;> simp_all
  split <;> simp_all
  split <;> simp_all

/-- The marker of a worker whose settings say nothing else. -/
def usualMarker : List Char := ['\x04']

end GhciHost.Command
