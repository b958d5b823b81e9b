import GhciHost.Text.Digit
import GhciHost.Text.Scan

/-! # The announced port

A worker that answers queries over connections of their own says so in its first response,
on a line that starts with `Port-Announcement:`. -/

namespace GhciHost.Output

open Text

/-- What a line starts with that announces a port. -/
def announcement : List Char := "Port-Announcement:".toList

/-- Whether a character may stand around the number. -/
def isGap (c : Char) : Bool := c == ' ' || c == '\t'

/-- The digits that are announced at the start of a text, and the text behind the
    announcement and the end of its line. -/
def announced? (s : List Char) : Option (List Char × List Char) := do
  let s ← stripPrefix? announcement s
  let s := s.dropWhile isGap
  let digits := s.takeWhile isDecimal
  if digits.isEmpty then none
  else
    let rest := (s.dropWhile isDecimal).dropWhile isGap
    some (digits, match rest with
      | '\n' :: r => r
      | r => r)

/-- The first announcement at the start of a line: what stands before it, its digits and
    what stands behind it.  `fresh` says whether a line starts here. -/
def findAnnouncement : Bool → List Char → Option (List Char × List Char × List Char)
  | _, [] => none
  | fresh, c :: s =>
    match if fresh then announced? (c :: s) else none with
    | some (digits, rest) => some ([], digits, rest)
    | none =>
      (findAnnouncement (c == '\n') s).map fun (front, digits, rest) => (c :: front, digits, rest)

/-- The announced port, if there is one, and the text without the announcement. -/
def extractPort (body : List Char) : Except TooManyDigits (Option Nat × List Char) :=
  match findAnnouncement true body with
  | none => .ok (none, body)
  | some (front, digits, rest) => (readNat? digits).map fun port => (some port, front ++ rest)

theorem extractPort_of_none {body : List Char} (h : findAnnouncement true body = none) :
    extractPort body = .ok (none, body) := by
  simp [extractPort, h]

end GhciHost.Output
