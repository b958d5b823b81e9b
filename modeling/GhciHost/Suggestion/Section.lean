import GhciHost.Text.Blank
import GhciHost.Text.Digit
import GhciHost.Text.Lines
import GhciHost.Text.Scan

/-! # Free text in messages

`paragraph` is the text that follows a label such as `Redundant constraint:` up to the next
bullet, context line or source excerpt.  `topLevelItems` cuts a text at the commas outside
all brackets. -/

namespace GhciHost.Suggestion

/-- Whether a line ends the text after a label: a bullet, a line that starts with `In `, a
    bar, or a line number and a bar. -/
def endsParagraph (line : List Char) : Bool :=
  let s := Text.trimLeft line
  let numbered := s.dropWhile Text.isDecimal
  (Text.after? "•" s).isSome || (Text.after? "In " s).isSome || (Text.after? "|" s).isSome ||
    (numbered.length < s.length && (Text.after? "|" (Text.trimLeft numbered)).isSome)

/-- The trimmed lines, blank ones left out, up to the first one after the first that ends
    the text. -/
def paragraph (s : List Char) : List (List Char) :=
  match Text.segments '\n' s with
  | [] => []
  | l :: ls =>
    ((l :: ls.takeWhile (!endsParagraph ·)).map Text.trim).filter (!·.isEmpty)

/-- The lines with one space between each two. -/
def joined (lines : List (List Char)) : List Char := List.intercalate [' '] lines

/-- The pieces between the commas at depth zero, where `depth` counts the brackets that are
    open and `item` holds the present piece, newest character first. -/
def topLevelPieces : Int → List Char → List Char → List (List Char)
  | _, item, [] => [item.reverse]
  | depth, item, c :: s =>
    let depth :=
      if c = '(' ∨ c = '[' then depth + 1 else if c = ')' ∨ c = ']' then depth - 1 else depth
    if c = ',' ∧ depth = 0 then item.reverse :: topLevelPieces depth [] s
    else topLevelPieces depth (c :: item) s

/-- The trimmed pieces between commas that are not inside parentheses or brackets, empty
    ones left out. -/
def topLevelItems (s : List Char) : List (List Char) :=
  ((topLevelPieces 0 [] s).map Text.trim).filter (!·.isEmpty)

end GhciHost.Suggestion
