import GhciHost.Text.Digit
import GhciHost.Text.Printable

/-! # Texts in quotes

A text is shown between apostrophes, or between double quotes where it holds an apostrophe
and no double quote.  Characters that are not printable are shown by their code points. -/

namespace GhciHost.Text

/-- A character between the given quotes. -/
def showChar (quote c : Char) : List Char :=
  if c == quote || c == '\\' then ['\\', c]
  else if c == '\n' then ['\\', 'n']
  else if c == '\r' then ['\\', 'r']
  else if c == '\t' then ['\\', 't']
  else if isPrintable c then [c]
  else if c.toNat < 0x100 then ['\\', 'x'] ++ hexDigits 2 c.toNat
  else if c.toNat < 0x10000 then ['\\', 'u'] ++ hexDigits 4 c.toNat
  else ['\\', 'U'] ++ hexDigits 8 c.toNat

/-- A text between quotes. -/
def showQuoted (s : List Char) : List Char :=
  let quote := if s.contains '\'' && !s.contains '"' then '"' else '\''
  [quote] ++ s.flatMap (showChar quote) ++ [quote]

end GhciHost.Text
