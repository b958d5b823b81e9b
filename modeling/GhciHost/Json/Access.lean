import GhciHost.Json.Basic

/-! # Members by name

Reading the members of an object whose shape is known.  A member that is `null` counts as
one that is not there, and one of another shape as the default. -/

namespace GhciHost.Json

/-- A member that says something. -/
def field? (j : Json) (k : String) : Option Json :=
  match j.get? k with
  | some .null => none
  | o => o

/-- A member as it is; `null` if there is none. -/
def valueAt (j : Json) (k : String) : Json := (j.get? k).getD .null

/-- A number as an integer. -/
def integer? : Json → Option Int
  | int n => some n
  | bool b => some (if b then 1 else 0)
  | float x => x.toInt?
  | _ => none

/-- A number. -/
def number? : Json → Option Binary64
  | int n => some (.ofInt n)
  | float x => some x
  | bool b => some (.ofInt (if b then 1 else 0))
  | _ => none

/-- A truth value. -/
def isTrue : Json → Bool
  | bool b => b
  | _ => false

/-- The items of an array that are texts. -/
def texts (j : Json) : List String := (j.arr?.getD []).filterMap Json.str?

def text? (j : Json) (k : String) : Option String := (j.field? k).bind Json.str?

def textAt (j : Json) (k : String) (default : String := "") : String := (j.text? k).getD default

def integerAt? (j : Json) (k : String) : Option Int := (j.field? k).bind integer?

def integerAt (j : Json) (k : String) : Int := (j.integerAt? k).getD 0

def naturalAt (j : Json) (k : String) : Nat := (j.integerAt k).toNat

def flagAt (j : Json) (k : String) (default : Bool := false) : Bool :=
  match j.field? k with
  | some (.bool b) => b
  | _ => default

def itemsAt (j : Json) (k : String) : List Json := ((j.field? k).bind Json.arr?).getD []

def textsAt (j : Json) (k : String) : List String := (j.field? k).elim [] texts

def membersAt (j : Json) (k : String) : List (String × Json) :=
  ((j.field? k).bind Json.obj?).getD []

def numberAt? (j : Json) (k : String) : Option Binary64 := (j.field? k).bind number?

def numberAt (j : Json) (k : String) : Binary64 := (j.numberAt? k).getD (.ofInt 0)

/-- The members whose values are texts. -/
def textMembers (ms : List (String × Json)) : List (String × String) :=
  ms.filterMap fun
    | (k, .str s) => some (k, s)
    | _ => none

/-- A value or `null`. -/
def orNull (write : α → Json) (o : Option α) : Json := (o.map write).getD .null

/-- A list of texts. -/
def ofTexts (ss : List String) : Json := .arr (ss.map .str)

/-- A natural number. -/
def ofNat (n : Nat) : Json := .int n

/-- A text. -/
def ofChars (s : List Char) : Json := .str (String.ofList s)

end GhciHost.Json
