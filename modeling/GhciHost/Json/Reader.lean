import GhciHost.Json.Basic
import GhciHost.Text.Digit

/-! # Reading JSON

The grammar of JSON texts, widened by the numbers `NaN`, `Infinity` and `-Infinity`.  An
integer may have at most `Text.maxDigits` digits.  Each reader returns the value and the text
after it.  The fuel bounds the recursion: twice the length of the text suffices, since a
bracket and an item take at least one character each. -/

namespace GhciHost.Json

/-- Why a text could not be read. -/
inductive ReadError
  /-- The text is not JSON. -/
  | malformed
  /-- An integer is too long to be read. -/
  | tooManyDigits (e : Text.TooManyDigits)
deriving DecidableEq, Repr

/-- What stands between tokens. -/
def isSpace (c : Char) : Bool := c == ' ' || c == '\t' || c == '\n' || c == '\r'

def skipSpace (s : List Char) : List Char := s.dropWhile isSpace

/-- The value of a hexadecimal digit. -/
def hexValue? (c : Char) : Option Nat :=
  if c.isDigit then some (c.toNat - '0'.toNat)
  else if 'a' ≤ c && c ≤ 'f' then some (c.toNat - 'a'.toNat + 10)
  else if 'A' ≤ c && c ≤ 'F' then some (c.toNat - 'A'.toNat + 10)
  else none

/-- Four hexadecimal digits. -/
def unit? : List Char → Option (Nat × List Char)
  | a :: b :: c :: d :: rest => do
    let a ← hexValue? a
    let b ← hexValue? b
    let c ← hexValue? c
    let d ← hexValue? d
    pure (((a * 16 + b) * 16 + c) * 16 + d, rest)
  | _ => none

/-- The character of an escape after its backslash.  Two units of a surrogate pair are one
    character; the replacement character stands for a surrogate without its partner. -/
def escape? : List Char → Option (Char × List Char)
  | '"' :: r => some ('"', r)
  | '\\' :: r => some ('\\', r)
  | '/' :: r => some ('/', r)
  | 'b' :: r => some ('\x08', r)
  | 'f' :: r => some ('\x0c', r)
  | 'n' :: r => some ('\n', r)
  | 'r' :: r => some ('\r', r)
  | 't' :: r => some ('\t', r)
  | 'u' :: r => do
    let (hi, r) ← unit? r
    if 0xD800 ≤ hi && hi ≤ 0xDBFF then
      match r with
      | '\\' :: 'u' :: r' =>
        match unit? r' with
        | some (lo, r'') =>
          if 0xDC00 ≤ lo && lo ≤ 0xDFFF then
            pure (Char.ofNat (0x10000 + (hi - 0xD800) * 0x400 + (lo - 0xDC00)), r'')
          -- the second escape is no partner, and is read by itself
          else pure ('\uFFFD', r)
        | none => pure ('\uFFFD', r)
      | _ => pure ('\uFFFD', r)
    else if 0xDC00 ≤ hi && hi ≤ 0xDFFF then pure ('\uFFFD', r)
    else pure (Char.ofNat hi, r)
  | _ => none

/-- The rest of a string after its opening quote; `acc` holds its characters so far, newest
    first. -/
def stringTail : Nat → List Char → List Char → Except ReadError (String × List Char)
  | 0, _, _ => .error .malformed
  | fuel + 1, acc, s =>
    match s with
    | [] => .error .malformed
    | '"' :: r => .ok (String.ofList acc.reverse, r)
    | '\\' :: r =>
      match escape? r with
      | some (c, r) => stringTail fuel (c :: acc) r
      | none => .error .malformed
    | c :: r => if c.toNat < 0x20 then .error .malformed else stringTail fuel (c :: acc) r

/-- The fraction of a number: its digits. -/
def fraction (s : List Char) : Option (List Char) × List Char :=
  match s with
  | '.' :: r =>
    let ds := r.takeWhile Char.isDigit
    if ds.isEmpty then (none, s) else (some ds, r.dropWhile Char.isDigit)
  | _ => (none, s)

/-- The exponent of a number. -/
def exponent (s : List Char) : Option Int × List Char :=
  let digits (sign : Int) (r : List Char) : Option Int × List Char :=
    let ds := r.takeWhile Char.isDigit
    if ds.isEmpty then (none, s)
    else (some (sign * (Text.readNat ds : Nat)), r.dropWhile Char.isDigit)
  match s with
  | e :: r =>
    if e == 'e' || e == 'E' then
      match r with
      | '+' :: r => digits 1 r
      | '-' :: r => digits (-1) r
      | _ => digits 1 r
    else (none, s)
  | [] => (none, s)

/-- A number after its sign. -/
def number (negative : Bool) (s : List Char) : Except ReadError (Json × List Char) :=
  -- a number that starts with a zero has no further digits before its fraction
  let all := s.takeWhile Char.isDigit
  let ds := if all.head? == some '0' then ['0'] else all
  let r := s.drop ds.length
  if ds.isEmpty then .error .malformed
  else
    let (frac, r) := fraction r
    let (exp, r) := exponent r
    match frac, exp with
    | none, none =>
      match Text.readNat? ds with
      | .error e => .error (.tooManyDigits e)
      | .ok n => .ok (.int (if negative then -(n : Int) else n), r)
    | frac, exp =>
      let fs := frac.getD []
      .ok (.float (Binary64.ofDecimal negative (Text.readNat (ds ++ fs))
        (exp.getD 0 - fs.length)), r)

/-- The value that a word stands for, if the text starts with one. -/
def word? (s : List Char) : Option (Json × List Char) :=
  let starts (w : String) (j : Json) : Option (Json × List Char) :=
    if w.toList.isPrefixOf s then some (j, s.drop w.length) else none
  starts "null" .null <|> starts "true" (.bool true) <|> starts "false" (.bool false) <|>
    starts "NaN" (.float .nan) <|> starts "Infinity" (.float (.infinite false)) <|>
    starts "-Infinity" (.float (.infinite true))

mutual

/-- A value at the start of the text. -/
def value : Nat → List Char → Except ReadError (Json × List Char)
  | 0, _ => .error .malformed
  | fuel + 1, s =>
    match s with
    | '"' :: r => (stringTail fuel [] r).map fun (t, r) => (.str t, r)
    | '[' :: r =>
      match skipSpace r with
      | ']' :: r => .ok (.arr [], r)
      | r => items fuel [] r
    | '{' :: r =>
      match skipSpace r with
      | '}' :: r => .ok (.obj [], r)
      | r => members fuel [] r
    | s =>
      match word? s with
      | some v => .ok v
      | none =>
        match s with
        | '-' :: r => number true r
        | s => number false s

/-- The items of an array from the next one on, to its closing bracket. -/
def items : Nat → List Json → List Char → Except ReadError (Json × List Char)
  | 0, _, _ => .error .malformed
  | fuel + 1, acc, s =>
    match value fuel s with
    | .error e => .error e
    | .ok (v, r) =>
      match skipSpace r with
      | ',' :: r => items fuel (v :: acc) (skipSpace r)
      | ']' :: r => .ok (.arr (v :: acc).reverse, r)
      | _ => .error .malformed

/-- The members of an object from the next one on, to its closing brace. -/
def members : Nat → List (String × Json) → List Char → Except ReadError (Json × List Char)
  | 0, _, _ => .error .malformed
  | fuel + 1, acc, s =>
    match s with
    | '"' :: r =>
      match stringTail fuel [] r with
      | .error e => .error e
      | .ok (k, r) =>
        match skipSpace r with
        | ':' :: r =>
          match value fuel (skipSpace r) with
          | .error e => .error e
          | .ok (v, r) =>
            match skipSpace r with
            | ',' :: r => members fuel ((k, v) :: acc) (skipSpace r)
            | '}' :: r => .ok (.obj (ofMembers ((k, v) :: acc).reverse), r)
            | _ => .error .malformed
        | _ => .error .malformed
    | _ => .error .malformed

end

/-- Read a whole text as one value. -/
def read (text : String) : Except ReadError Json :=
  let s := skipSpace text.toList
  match value (2 * s.length + 2) s with
  | .error e => .error e
  | .ok (v, r) => if (skipSpace r).isEmpty then .ok v else .error .malformed

end GhciHost.Json
