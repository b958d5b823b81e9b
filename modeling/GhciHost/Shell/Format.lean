import GhciHost.Text.Digit
import GhciHost.Text.Utf8

/-! # Formats

`printf` writes its operands as a format says, and begins again with the format as long as
operands are left.  Texts are bytes here, since an escape can stand for any byte. -/

namespace GhciHost.Shell

/-- Text as bytes. -/
def bytes (s : String) : List UInt8 := Text.Utf8.encode s.toList

/-- The byte that a letter behind a backslash stands for. -/
def escapeByte? (c : Char) : Option UInt8 :=
  [('\\', 92), ('a', 7), ('b', 8), ('e', 27), ('f', 12), ('n', 10), ('r', 13), ('t', 9),
    ('v', 11)].lookup c

/-- Whether a character is an octal digit. -/
def isOctal (c : Char) : Bool := '0' ≤ c && c ≤ '7'

/-- The value of octal digits, as one byte. -/
def octalByte (digits : List Char) : UInt8 :=
  UInt8.ofNat (digits.foldl (fun n c => 8 * n + (c.toNat - '0'.toNat)) 0)

/-- What stands for the characters behind a backslash, and how many they are.  Of a backslash
    that means nothing only itself is left. -/
def escape (s : List Char) : List UInt8 × Nat :=
  let digits := (s.take 3).takeWhile isOctal
  if !digits.isEmpty then ([octalByte digits], digits.length)
  else match s.head?.bind escapeByte? with
    | some b => ([b], 1)
    | none => ([92], 0)

/-- The bytes of a text with escapes, and whether `\c` ended it.  An octal number may have a
    zero in front here. -/
def unescape (s : List Char) : List UInt8 × Bool :=
  match s with
  | [] => ([], false)
  | '\\' :: 'c' :: _ => ([], true)
  | '\\' :: r =>
    let skipped := if r.head? = some '0' && (r.drop 1).head?.any isOctal then 1 else 0
    let (b, n) := escape (r.drop skipped)
    let (rest, stops) := unescape (r.drop (skipped + n))
    (b ++ rest, stops)
  | c :: r =>
    let (rest, stops) := unescape r
    (String.utf8EncodeChar c ++ rest, stops)
termination_by s.length
decreasing_by all_goals simp_wf <;> omega

/-- How an operand is to be written. -/
structure Directive where
  leftAligned : Bool := false
  zeroFilled : Bool := false
  width : Nat := 0
  precision : Option Nat := none
  conversion : Char
deriving DecidableEq, Repr

/-- Read a directive behind its percent sign: the directive, and how many characters it has. -/
def Directive.read? (s : List Char) : Option (Directive × Nat) :=
  let flags := s.takeWhile "-+ #0".toList.contains
  let s := s.drop flags.length
  let width := s.takeWhile Char.isDigit
  let s := s.drop width.length
  let (precision, s, dot) := match s with
    | '.' :: r =>
      let ds := r.takeWhile Char.isDigit
      (some (Text.readNat ds), r.drop ds.length, ds.length + 1)
    | s => (none, s, 0)
  s.head?.map fun c =>
    ({ leftAligned := flags.contains '-', zeroFilled := flags.contains '0'
       width := Text.readNat width, precision, conversion := c },
      flags.length + width.length + dot + 1)

/-- Bytes filled up to the width of a directive. -/
def Directive.pad (d : Directive) (fill : UInt8) (s : List UInt8) : List UInt8 :=
  let missing := List.replicate (d.width - s.length)
  if d.leftAligned then s ++ missing 32 else missing fill ++ s

/-- A number with the digits of a base. -/
def numeral (base : Nat) (n : Int) : List UInt8 :=
  let m := if base = 10 || 0 ≤ n then n.natAbs else (n + Nat.pow 2 64).toNat
  (if base = 10 && n < 0 then [45] else []) ++ Text.Utf8.encode (Nat.toDigits base m)

/-- The number in front of a text, and whether the text is one. -/
def readNumber (s : List Char) : Int × Bool :=
  let (negative, t) := match s with
    | '-' :: r => (true, r)
    | '+' :: r => (false, r)
    | r => (false, r)
  let digits := t.takeWhile Char.isDigit
  let n : Int := Text.readNat digits
  (if negative then -n else n, s.isEmpty || (!digits.isEmpty && digits.length = t.length))

/-- What `printf` has written, with the complaints about operands that are no numbers. -/
structure Written where
  output : List UInt8 := []
  complaints : List String := []
  /-- Whether an operand ended everything. -/
  stops : Bool := false
  /-- A conversion that does not exist, which ends everything too. -/
  invalid : Option String := none

/-- Write an operand. -/
def Directive.write (d : Directive) (operand : String) : Written :=
  let cut (s : List UInt8) : List UInt8 := (d.precision.map fun n => s.take n).getD s
  let number (base : Nat) : Written :=
    let (n, good) := readNumber operand.toList
    let fill : UInt8 := if d.zeroFilled && !d.leftAligned && d.precision.isNone then 48 else 32
    let digits := numeral base n
    let padded := if fill = 48 && n < 0 && base = 10
      then 45 :: { d with width := d.width - 1 }.pad fill digits.tail else d.pad fill digits
    { output := padded
      complaints := if good then [] else [operand ++ ": expected numeric value"] }
  match d.conversion with
  | 's' => { output := d.pad 32 (cut (bytes operand)) }
  | 'b' =>
    let (s, stops) := unescape operand.toList
    { output := d.pad 32 (cut s), stops }
  | 'c' => { output := d.pad 32 [(bytes operand).headD 0] }
  | 'd' | 'i' => number 10
  | 'u' => number 10
  | 'o' => number 8
  | 'x' => number 16
  | 'X' => { number 16 with output := (number 16).output.map fun b => if 97 ≤ b && b ≤ 122 then b - 32 else b }
  | c => { invalid := some ("%" ++ String.singleton c ++ ": invalid directive") }

/-- Write a format once: what is written, and the operands that are left. -/
def writeOnce (fmt : List Char) (operands : List String) : Written × List String :=
  match fmt with
  | [] => ({}, operands)
  | '\\' :: r =>
    let (b, n) := escape r
    let (w, rest) := writeOnce (r.drop n) operands
    ({ w with output := b ++ w.output }, rest)
  | '%' :: '%' :: r =>
    let (w, rest) := writeOnce r operands
    ({ w with output := 37 :: w.output }, rest)
  | '%' :: r =>
    match Directive.read? r with
    | none => ({ invalid := some "%: missing format character" }, operands)
    | some (d, n) =>
      let first := d.write (operands.headD "")
      if first.stops || first.invalid.isSome then (first, operands.tail)
      else
        let (w, rest) := writeOnce (r.drop n) operands.tail
        ({ w with output := first.output ++ w.output, complaints := first.complaints ++ w.complaints },
          rest)
  | c :: r =>
    let (w, rest) := writeOnce r operands
    ({ w with output := String.utf8EncodeChar c ++ w.output }, rest)
termination_by fmt.length
decreasing_by all_goals simp_wf <;> omega

/-- Write a format as often as operands are left, at most `fuel` times. -/
def writeWithin (fmt : List Char) : Nat → List String → Written
  | 0, _ => {}
  | fuel + 1, operands =>
    let (w, rest) := writeOnce fmt operands
    -- a format that takes no operands is written once
    if w.stops || w.invalid.isSome || rest.isEmpty || rest.length = operands.length then w
    else
      let more := writeWithin fmt fuel rest
      { more with output := w.output ++ more.output, complaints := w.complaints ++ more.complaints }

/-- Write operands as a format says. -/
def printFormat (fmt : String) (operands : List String) : Written :=
  writeWithin fmt.toList (operands.length + 1) operands

end GhciHost.Shell
