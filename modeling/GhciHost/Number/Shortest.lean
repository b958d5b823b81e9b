import GhciHost.Number.Binary64

/-! # The shortest decimal of a number

The fewest decimal digits that read back as the number; of several such decimals the one
nearest to it, and of two that are equally near the even one.  `Layout` says how the digits
are laid out. -/

namespace GhciHost

namespace Binary64

/-- The number's `significand · 2 ^ exponent` as a fraction. -/
def ratio (m : Nat) (e : Int) : Nat × Nat :=
  if 0 ≤ e then (m * Nat.pow 2 e.toNat, 1) else (m, Nat.pow 2 (-e).toNat)

/-- The least `k` from `start` on, within `fuel` steps, with `num / den < 10 ^ k`. -/
def decimalPoint (num den : Nat) : Nat → Int → Int
  | 0, k => k
  | fuel + 1, k =>
    let below :=
      if 0 ≤ k then num < den * Nat.pow 10 k.toNat else num * Nat.pow 10 (-k).toNat < den
    if below then k else decimalPoint num den fuel (k + 1)

/-- The neighbours of `num / den` on the grid of step `10 ^ g`, the lower one and the
    distance to it in parts of the step (`(rest, step)`). -/
def gridBelow (num den : Nat) (g : Int) : Nat × Nat × Nat :=
  let (n, d) :=
    if 0 ≤ g then (num, den * Nat.pow 10 g.toNat) else (num * Nat.pow 10 (-g).toNat, den)
  (n / d, n % d, d)

/-- Try `n` digits, then more; 17 digits are always enough. -/
def shortestFrom (m : Nat) (e : Int) (num den : Nat) (point : Int) : Nat → Nat → Nat × Int
  | 0, n => ((gridBelow num den (point - n)).1, point - n)
  | fuel + 1, n =>
    let g := point - n
    let (lo, rest, step) := gridBelow num den g
    let hits (d : Nat) : Bool := ofDecimal false d g == .finite false m e
    match hits lo, hits (lo + 1) with
    -- the nearer of the two; of two that are equally near the one with the even last digit
    | true, true =>
      let up := step < 2 * rest || (2 * rest == step && lo % 2 == 1)
      if up then (lo + 1, g) else (lo, g)
    | true, false => (lo, g)
    | false, true => (lo + 1, g)
    | false, false => shortestFrom m e num den point fuel (n + 1)

/-- The shortest decimal `digits · 10 ^ exponent` of a positive number. -/
def shortest (m : Nat) (e : Int) : Nat × Int :=
  let (num, den) := ratio m e
  -- 30103 / 100000 is the logarithm of two; the guess falls short by no more than three
  let guess : Int := ((num.log2 : Int) - (den.log2 : Int)) * 30103 / 100000 - 1
  shortestFrom m e num den (decimalPoint num den 5 guess) 17 1

/-- How a number is laid out. -/
structure Layout where
  /-- The decimal exponents of the first digit that are written without an exponent. -/
  positionalFrom : Int
  positionalBelow : Int
  /-- The least number of digits of a written exponent. -/
  exponentDigits : Nat
  infinity : String
  notANumber : String

/-- Lay out `digits · 10 ^ exponent`, trailing zeros of the digits apart. -/
def Layout.write (f : Layout) (digits : Nat) (exponent : Int) : List Char :=
  let shown := Nat.toDigits 10 digits
  let kept := (shown.reverse.dropWhile (· == '0')).reverse
  let first : Int := (shown.length : Int) + exponent - 1
  if f.positionalFrom ≤ first && first < f.positionalBelow then
    if first < 0 then
      ['0', '.'] ++ List.replicate (-first - 1).toNat '0' ++ kept
    else
      let whole := first.toNat + 1
      if kept.length ≤ whole then
        kept ++ List.replicate (whole - kept.length) '0' ++ ['.', '0']
      else kept.take whole ++ ['.'] ++ kept.drop whole
  else
    let mantissa := match kept with
      | [] => []
      | [d] => [d]
      | d :: ds => d :: '.' :: ds
    let size := Nat.toDigits 10 first.natAbs
    mantissa ++ ['e', if first < 0 then '-' else '+'] ++
      List.replicate (f.exponentDigits - size.length) '0' ++ size

/-- The text of a number. -/
def render (f : Layout) : Binary64 → List Char
  | .nan => f.notANumber.toList
  | .infinite s => (if s then ['-'] else []) ++ f.infinity.toList
  | .finite s 0 _ => (if s then ['-'] else []) ++ ['0', '.', '0']
  | .finite s m e =>
    let (digits, exponent) := shortest m e
    (if s then ['-'] else []) ++ f.write digits exponent

end Binary64

end GhciHost
