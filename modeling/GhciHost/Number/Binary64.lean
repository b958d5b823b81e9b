/-! # Binary floating-point numbers

Numbers with 53 significant bits, held exactly as `significand · 2 ^ exponent`, so that
every operation is exact arithmetic followed by one rounding to nearest, ties to even.

* `ofRatio`     the nearest number to a fraction;
* `ofDecimal`   the nearest number to a decimal;
* `toInt?`      the integer that a number is, if it is one. -/

namespace GhciHost

/-- A binary floating-point number.  A finite one is normalised: its significand is below
    `2 ^ 53`, and at least `2 ^ 52` unless the exponent is the least one. -/
inductive Binary64
  | finite (negative : Bool) (significand : Nat) (exponent : Int)
  | infinite (negative : Bool)
  | nan
deriving DecidableEq, Repr

namespace Binary64

/-- The least exponent. -/
def minExponent : Int := -1074

/-- The greatest exponent. -/
def maxExponent : Int := 971

/-- The nearest integer to `num / den`, a half to the even neighbour. -/
def roundDiv (num den : Nat) : Nat :=
  let q := num / den
  let r := num % den
  if 2 * r < den then q
  else if den < 2 * r then q + 1
  else if q % 2 = 0 then q else q + 1

/-- Round `num / (den · 2 ^ e)` to an integer. -/
def scaled (num den : Nat) (e : Int) : Nat :=
  if 0 ≤ e then roundDiv num (den * Nat.pow 2 e.toNat)
  else roundDiv (num * Nat.pow 2 (-e).toNat) den

/-- The nearest number to `num / den`, with the given sign. -/
def ofRatio (negative : Bool) (num den : Nat) : Binary64 :=
  if num = 0 then .finite negative 0 minExponent
  else
    let guess : Int := (num.log2 : Int) - (den.log2 : Int) - 52
    -- the quotient of the logarithms is exact or one too large
    let tooLarge := num * Nat.pow 2 (-guess).toNat < den * Nat.pow 2 guess.toNat * Nat.pow 2 52
    let e := if tooLarge then guess - 1 else guess
    let e := max e minExponent
    let m := scaled num den e
    -- rounding up may have carried into one more bit
    let (m, e) := if m = Nat.pow 2 53 then (Nat.pow 2 52, e + 1) else (m, e)
    if maxExponent < e then .infinite negative else .finite negative m e

/-- The nearest number to an integer. -/
def ofInt (n : Int) : Binary64 := ofRatio (n < 0) n.natAbs 1

/-- The nearest number to `digits · 10 ^ exponent`.  Exponents far beyond the range are
    settled without computing the power. -/
def ofDecimal (negative : Bool) (digits : Nat) (exponent : Int) : Binary64 :=
  if digits = 0 then .finite negative 0 minExponent
  else
    let magnitude : Int := (Nat.toDigits 10 digits).length + exponent
    -- the greatest number is below 10 ^ 309 and the least is above 10 ^ -324
    if 400 < magnitude then .infinite negative
    else if magnitude < -400 then .finite negative 0 minExponent
    else if 0 ≤ exponent then ofRatio negative (digits * Nat.pow 10 exponent.toNat) 1
    else ofRatio negative digits (Nat.pow 10 (-exponent).toNat)

/-- Zero. -/
def zero : Binary64 := .finite false 0 minExponent

/-- A finite number as an integer number of units of `2 ^ minExponent`. -/
def units? : Binary64 → Option Int
  | .finite s m e => some ((if s then -1 else 1) * (m * Nat.pow 2 (e - minExponent).toNat : Nat))
  | _ => none

/-- The nearest number to a count of units of `2 ^ minExponent`. -/
def ofUnits (n : Int) : Binary64 := ofRatio (n < 0) n.natAbs (Nat.pow 2 1074)

/-- Sum, rounded; anything not finite gives `nan`, an infinity apart. -/
def add (x y : Binary64) : Binary64 :=
  match x.units?, y.units? with
  | some a, some b => ofUnits (a + b)
  | some _, none => y
  | none, some _ => x
  | none, none => if x = y then x else .nan

/-- The negated number. -/
def neg : Binary64 → Binary64
  | .finite s m e => .finite (!s) m e
  | .infinite s => .infinite (!s)
  | .nan => .nan

/-- Difference, rounded. -/
def sub (x y : Binary64) : Binary64 := x.add y.neg

/-- Product with a positive integer, rounded. -/
def scale (x : Binary64) (k : Nat) : Binary64 :=
  match x.units? with
  | some a => ofUnits (a * k)
  | none => x

/-- Strictly less; nothing compares with `nan`. -/
def lt (x y : Binary64) : Bool :=
  match x, y with
  | .nan, _ => false
  | _, .nan => false
  | .infinite s, .infinite t => s && !t
  | .infinite s, _ => s
  | _, .infinite t => !t
  | x, y => (x.units?.getD 0) < (y.units?.getD 0)

/-- Less or equal; nothing compares with `nan`. -/
def le (x y : Binary64) : Bool :=
  match x, y with
  | .nan, _ => false
  | _, .nan => false
  | x, y => !(y.lt x)

/-- The integer part, toward zero; `none` unless finite. -/
def truncate? (x : Binary64) : Option Int := x.units?.map fun a => Int.tdiv a (Nat.pow 2 1074)

/-- The integer that the number is, if it has no fraction. -/
def toInt? (x : Binary64) : Option Int :=
  x.units?.bind fun a =>
    if a % Nat.pow 2 1074 = 0 then some (a / Nat.pow 2 1074) else none

/-- Whether the number is finite. -/
def isFinite : Binary64 → Bool
  | .finite .. => true
  | _ => false

theorem roundDiv_of_dvd {num den : Nat} (h : den ∣ num) (hd : 0 < den) :
    roundDiv num den = num / den := by
  simp [roundDiv, Nat.mod_eq_zero_of_dvd h, hd]

end Binary64

end GhciHost
