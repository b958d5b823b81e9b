import GhciHost.Json.Basic
import GhciHost.Record.Check
import GhciHost.Text.Blank
import GhciHost.Text.Digit
import GhciHost.Text.Scan

/-! # Reading plain values loosely

JSON values are read as texts, integers, numbers, truth values and choices.  A number may be
written in a text, a truth value stands for the number one or zero, and a number without a
fraction for an integer. -/

namespace GhciHost.Record

open Text

/-- The members of a record, or of any mapping. -/
abbrev Members := List (String × Json)

/-- A member that has to be there. -/
def required (ms : Members) (name : String) (read : Json → Check α) : Check α :=
  (match ms.lookup name with
    | some j => read j
    | none => .fail .missing).under (.member name)

/-- A member with a default. -/
def optional (ms : Members) (name : String) (default : α) (read : Json → Check α) : Check α :=
  match ms.lookup name with
  | some j => (read j).under (.member name)
  | none => .ok default

/-- A value that may be `null`. -/
def nullable (read : Json → Check α) : Json → Check (Option α)
  | .null => .ok none
  | j => some <$> read j

/-- The members of a record. -/
def readMembers : Json → Check Members
  | .obj ms => .ok ms
  | _ => .fail .notRecord

/-- A text. -/
def readText : Json → Check String
  | .str s => .ok s
  | _ => .fail .notText

/-- Items of a tuple. -/
def readTuple (read : Json → Check α) : Json → Check (List α)
  | .arr xs => Check.items read xs
  | _ => .fail .notTuple

/-- Items of a list. -/
def readList (read : Json → Check α) : Json → Check (List α)
  | .arr xs => Check.items read xs
  | _ => .fail .notList

/-- One of several names. -/
def readChoice (ofName? : String → Option α) : Json → Check α
  | .str s =>
    match ofName? s with
    | some a => .ok a
    | none => .fail .notChoice
  | _ => .fail .notChoice

/-- Blanks around a number in a text: the Unicode white space without the information
    separators. -/
def isMargin (c : Char) : Bool := isBlank c && !(0x1C ≤ c.toNat && c.toNat ≤ 0x1F)

/-- Drop the blanks around a number. -/
def withoutMargins (s : List Char) : List Char :=
  ((s.dropWhile isMargin).reverse.dropWhile isMargin).reverse

/-- Leave out underscores, if each of them stands alone and inside the text. -/
def withoutUnderscores? (s : List Char) : Option (List Char) :=
  if s.head? = some '_' || s.getLast? = some '_' || contains ['_', '_'] s then none
  else some (s.filter (· != '_'))

/-- A sign in front of a text: whether it is a minus, and the text after it. -/
def signed (s : List Char) : Bool × List Char :=
  match s with
  | '-' :: r => (true, r)
  | '+' :: r => (false, r)
  | _ => (false, s)

/-- The text before a full stop with nothing but zeros behind it. -/
def withoutZeroFraction (s : List Char) : List Char :=
  match s.dropWhile (· != '.') with
  | '.' :: zeros => if zeros.all (· == '0') then s.takeWhile (· != '.') else s
  | _ => s

/-- The integer that a text spells. -/
def integerOfText (text : String) : Check Int :=
  let (negative, s) := signed (withoutMargins text.toList)
  match withoutUnderscores? (withoutZeroFraction s) with
  | none => .fail .unreadableInteger
  | some ds =>
    -- digits of other scripts are digits in messages but not here
    if ds.isEmpty || !ds.all Char.isDigit then .fail .unreadableInteger
    else if maxDigits < ds.length then .fail .oversizedInteger
    else .ok (if negative then -(readNat ds : Int) else readNat ds)

/-- The integer that a number is: it has no fraction and fits in 64 bits. -/
def integerOfNumber (x : Binary64) : Check Int :=
  if !x.isFinite then .fail .notFinite
  else match x.toInt? with
    | some n => if n.natAbs < Nat.pow 2 63 then .ok n else .fail .fractionalInteger
    | none => .fail .fractionalInteger

/-- An integer. -/
def readInteger : Json → Check Int
  | .int n => .ok n
  | .bool b => .ok (if b then 1 else 0)
  | .float x => integerOfNumber x
  | .str s => integerOfText s
  | _ => .fail .notInteger

/-- An integer that is not negative. -/
def readNatural (j : Json) : Check Nat :=
  (readInteger j).andThen fun n => if n < 0 then .fail .negative else .ok n.toNat

/-- The digits of an exponent, if there is one; `none` if what is left is no exponent. -/
def exponentOfText? (s : List Char) : Option Int :=
  match s with
  | [] => some 0
  | e :: r =>
    if e == 'e' || e == 'E' then
      let (negative, ds) := signed r
      if ds.isEmpty || !ds.all Char.isDigit then none
      else some (if negative then -(readNat ds : Int) else readNat ds)
    else none

/-- The number that a text spells in decimal notation, possibly with an exponent, or by one
    of the words for infinity and for no number. -/
def numberOfText? (text : List Char) : Option Binary64 :=
  let (negative, s) := signed text
  let lower := s.map Char.toLower
  if lower == "inf".toList || lower == "infinity".toList then some (.infinite negative)
  else if lower == "nan".toList then some .nan
  else
    let whole := s.takeWhile Char.isDigit
    let rest := s.dropWhile Char.isDigit
    let (fraction, rest) := match rest with
      | '.' :: r => (r.takeWhile Char.isDigit, r.dropWhile Char.isDigit)
      | r => ([], r)
    if whole.isEmpty && fraction.isEmpty then none
    else (exponentOfText? rest).map fun e =>
      Binary64.ofDecimal negative (readNat (whole ++ fraction)) (e - fraction.length)

/-- A number. -/
def readNumber : Json → Check Binary64
  | .int n => .ok (.ofInt n)
  | .bool b => .ok (.ofInt (if b then 1 else 0))
  | .float x => .ok x
  | .str s =>
    match numberOfText? (withoutMargins s.toList) <|>
        (withoutUnderscores? s.toList).bind (numberOfText? ∘ withoutMargins) with
    | some x => .ok x
    | none => .fail .unreadableNumber
  | _ => .fail .notNumber

/-- The truth value of a word, in capitals or not. -/
def truthOfText? (s : String) : Option Bool :=
  let lower := String.ofList (s.toList.map Char.toLower)
  if ["0", "off", "f", "false", "n", "no"].contains lower then some false
  else if ["1", "on", "t", "true", "y", "yes"].contains lower then some true
  else none

/-- A truth value. -/
def readTruth : Json → Check Bool
  | .bool b => .ok b
  | .int n => if n = 0 then .ok false else if n = 1 then .ok true else .fail .unreadableTruth
  | .float x =>
    match x.toInt? with
    | some 0 => .ok false
    | some 1 => .ok true
    | _ => .fail .unreadableTruth
  | .str s =>
    match truthOfText? s with
    | some b => .ok b
    | none => .fail .unreadableTruth
  | _ => .fail .notTruth

end GhciHost.Record
