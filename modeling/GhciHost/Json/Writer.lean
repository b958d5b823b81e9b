import GhciHost.Json.Basic
import GhciHost.Number.Shortest
import GhciHost.Text.Digit

/-! # Writing JSON

Values are written on one line, or indented with one item a line.  Characters beyond ASCII
are written as they are or escaped in UTF-16 units. -/

namespace GhciHost.Json

/-- Numbers with a fraction are written with the fewest digits that read back, positionally
    from `1e-4` to below `1e16`. -/
def floatLayout : Binary64.Layout := ⟨-4, 16, 2, "Infinity", "NaN"⟩

/-- How a value is written. -/
structure Style where
  /-- Spaces for each level of nesting; `none` keeps everything on one line. -/
  indent : Option Nat := none
  /-- Whether characters beyond ASCII are escaped. -/
  asciiOnly : Bool := true

/-- A UTF-16 unit as an escape. -/
def writeUnit (n : Nat) : List Char := ['\\', 'u'] ++ Text.hexDigits 4 n

/-- A character inside a string. -/
def writeChar (asciiOnly : Bool) (c : Char) : List Char :=
  if c == '"' then ['\\', '"']
  else if c == '\\' then ['\\', '\\']
  else if c == '\n' then ['\\', 'n']
  else if c == '\r' then ['\\', 'r']
  else if c == '\t' then ['\\', 't']
  else if c == '\x08' then ['\\', 'b']
  else if c == '\x0c' then ['\\', 'f']
  else
    let n := c.toNat
    if n < 0x20 then writeUnit n
    else if asciiOnly && 0x7F < n then
      if n < 0x10000 then writeUnit n
      else
        -- a pair of surrogates carries ten bits each
        writeUnit (0xD800 + (n - 0x10000) / 0x400) ++ writeUnit (0xDC00 + (n - 0x10000) % 0x400)
    else [c]

/-- A string with its quotes. -/
def writeString (asciiOnly : Bool) (s : String) : String :=
  s.foldl (fun acc c => acc ++ String.ofList (writeChar asciiOnly c)) "\"" ++ "\""

/-- The break before an item at the given depth. -/
def lineBreak (style : Style) (depth : Nat) : String :=
  match style.indent with
  | none => ""
  | some n => String.ofList ('\n' :: List.replicate (n * depth) ' ')

/-- What stands between two items. -/
def comma (style : Style) : String := if style.indent.isSome then "," else ", "

mutual

/-- A value whose items stand at the given depth. -/
def write (style : Style) (depth : Nat) : Json → String
  | .null => "null"
  | .bool b => if b then "true" else "false"
  | .int n => String.ofList (Text.showInt n)
  | .float x => String.ofList (x.render floatLayout)
  | .str s => writeString style.asciiOnly s
  | .arr [] => "[]"
  | .arr (x :: xs) =>
    "[" ++ lineBreak style (depth + 1) ++ write style (depth + 1) x ++
      writeItems style (depth + 1) xs ++ lineBreak style depth ++ "]"
  | .obj [] => "\x7b\x7d"
  | .obj ((k, v) :: ms) =>
    "\x7b" ++ lineBreak style (depth + 1) ++ writeString style.asciiOnly k ++ ": " ++
      write style (depth + 1) v ++ writeMembers style (depth + 1) ms ++ lineBreak style depth ++
      "\x7d"

/-- The items after the first, each behind a comma. -/
def writeItems (style : Style) (depth : Nat) : List Json → String
  | [] => ""
  | x :: xs =>
    comma style ++ lineBreak style depth ++ write style depth x ++ writeItems style depth xs

/-- The members after the first, each behind a comma. -/
def writeMembers (style : Style) (depth : Nat) : List (String × Json) → String
  | [] => ""
  | (k, v) :: ms =>
    comma style ++ lineBreak style depth ++ writeString style.asciiOnly k ++ ": " ++
      write style depth v ++ writeMembers style depth ms

end

/-- The text of a value. -/
def render (style : Style) (j : Json) : String := write style 0 j

end GhciHost.Json
