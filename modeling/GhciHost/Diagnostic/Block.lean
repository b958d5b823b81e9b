import GhciHost.Diagnostic.Location
import GhciHost.Text.Lines

/-! # Blocks of compiler output

A block starts with a line that is not indented and reads `file:place: message`.  It goes on
over indented lines that are not blank, and ends before a source excerpt, a blank line, a
line that is not indented, or the end of the text.

* `blocksFrom`   the blocks of the lines to come, given the block that is open. -/

namespace GhciHost.Diagnostic

open Text

/-- The line that opens a block. -/
structure Header where
  file : List Char
  place : Location.Written
  /-- The text after the colon, blanks and tabs in front of it left out. -/
  message : List Char
deriving DecidableEq, Repr

/-- A header and the lines that continue it. -/
structure Block where
  header : Header
  body : List (List Char)
deriving DecidableEq, Repr

/-- Read a line as a header. -/
def header? (line : List Char) : Option Header :=
  (Location.fileThen? (after? ":") line).map fun (file, place, rest) =>
    ⟨file, place, rest.dropWhile fun c => c == ' ' || c == '\t'⟩

/-- Whether a line starts with a space or a tab. -/
def isIndented : List Char → Bool
  | c :: _ => c == ' ' || c == '\t'
  | [] => false

/-- Whether a line belongs to a source excerpt: a line number and a bar, or a bar with
    nothing or a caret behind it. -/
def isExcerpt (line : List Char) : Bool :=
  let s := trimLeft line
  let numbered := s.dropWhile isDecimal
  (numbered.length < s.length && (after? "|" (trimLeft numbered)).isSome) ||
    match after? "|" s with
    | some r =>
      match trimLeft r with
      | [] => true
      | c :: _ => c == '^'
    | none => false

/-- The block that is open, as a list of at most one. -/
def closed : Option (Header × List (List Char)) → List Block
  | none => []
  | some (h, body) => [⟨h, body.reverse⟩]

/-- The blocks of the lines to come.  `open_` is the header of the block that is open and its
    body so far, last line first. -/
def blocksFrom (open_ : Option (Header × List (List Char))) : List (List Char) → List Block
  | [] => closed open_
  | line :: ls =>
    match open_ with
    | some (h, body) =>
      if isIndented line && !allBlank line then
        -- an excerpt ends the block for good: what is indented after it belongs to nothing
        if isExcerpt line then ⟨h, body.reverse⟩ :: blocksFrom none ls
        else blocksFrom (some (h, line :: body)) ls
      else
        ⟨h, body.reverse⟩ ::
          blocksFrom ((if isIndented line then none else header? line).map (·, [])) ls
    | none => blocksFrom ((if isIndented line then none else header? line).map (·, [])) ls

/-- The blocks of a text. -/
def blocks (text : List Char) : List Block := blocksFrom none (lines text)

end GhciHost.Diagnostic
