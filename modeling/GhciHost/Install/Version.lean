import GhciHost.Text.Digit
import GhciHost.Text.Scan

/-! # Version numbers

A version is two or more runs of digits with a full stop between each two. -/

namespace GhciHost.Install

open Text

/-- The further parts of a version: full stops, each with digits behind it.  `fuel` bounds
    the number of parts. -/
def versionParts : Nat → List Char → List Char
  | 0, _ => []
  | fuel + 1, s =>
    match s with
    | '.' :: r =>
      match r.takeWhile isDecimal with
      | [] => []
      | digits => '.' :: digits ++ versionParts fuel (r.dropWhile isDecimal)
    | _ => []

/-- The version at the start of a text. -/
def versionHere? (s : List Char) : Option (List Char) :=
  match s.takeWhile isDecimal with
  | [] => none
  | digits =>
    match versionParts s.length (s.dropWhile isDecimal) with
    | [] => none
    | parts => some (digits ++ parts)

/-- The first version in a text. -/
def version? (s : List Char) : Option (List Char) := search? versionHere? s

end GhciHost.Install
