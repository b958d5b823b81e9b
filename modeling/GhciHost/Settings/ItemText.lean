import GhciHost.Json.Basic
import GhciHost.Number.Shortest
import GhciHost.Text.Digit
import GhciHost.Text.Quoted

/-! # Items of list settings

The items of a list setting are texts.  An item that is given as another JSON value stands
for the text that shows it. -/

namespace GhciHost

/-- Numbers are shown with the fewest digits that read back, positionally from `1e-4` to
    below `1e16`. -/
def shownNumber : Binary64.Layout := ⟨-4, 16, 2, "inf", "nan"⟩

namespace Json

mutual

/-- The text that shows a value inside another. -/
def shown : Json → List Char
  | .null => "None".toList
  | .bool b => (if b then "True" else "False").toList
  | .int n => Text.showInt n
  | .float x => x.render shownNumber
  | .str s => Text.showQuoted s.toList
  | .arr [] => "[]".toList
  | .arr (x :: xs) => ['['] ++ shown x ++ shownItems xs ++ [']']
  | .obj [] => ['\x7b', '\x7d']
  | .obj ((k, v) :: ms) =>
    ['\x7b'] ++ Text.showQuoted k.toList ++ [':', ' '] ++ shown v ++ shownMembers ms ++ ['\x7d']

/-- The items after the first. -/
def shownItems : List Json → List Char
  | [] => []
  | x :: xs => [',', ' '] ++ shown x ++ shownItems xs

/-- The members after the first. -/
def shownMembers : List (String × Json) → List Char
  | [] => []
  | (k, v) :: ms =>
    [',', ' '] ++ Text.showQuoted k.toList ++ [':', ' '] ++ shown v ++ shownMembers ms

end

/-- The text that an item stands for. -/
def itemText : Json → String
  | .str s => s
  | j => String.ofList j.shown

end Json

end GhciHost
