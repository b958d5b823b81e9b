/-! # Decimal digits

The digits zero to nine of every script stand in ten consecutive code points, so a table of
the zeros says all.  `readNat` reads a run of digits of any scripts, most significant first. -/

namespace GhciHost.Text

/-- The code points of the digits zero (Unicode 14). -/
def digitZeros : List Nat := [
  0x30, 0x660, 0x6F0, 0x7C0, 0x966, 0x9E6, 0xA66, 0xAE6, 0xB66, 0xBE6, 0xC66, 0xCE6, 0xD66,
  0xDE6, 0xE50, 0xED0, 0xF20, 0x1040, 0x1090, 0x17E0, 0x1810, 0x1946, 0x19D0, 0x1A80, 0x1A90,
  0x1B50, 0x1BB0, 0x1C40, 0x1C50, 0xA620, 0xA8D0, 0xA900, 0xA9D0, 0xA9F0, 0xAA50, 0xABF0, 0xFF10,
  0x104A0, 0x10D30, 0x11066, 0x110F0, 0x11136, 0x111D0, 0x112F0, 0x11450, 0x114D0, 0x11650,
  0x116C0, 0x11730, 0x118E0, 0x11950, 0x11C50, 0x11D50, 0x11DA0, 0x16A60, 0x16AC0, 0x16B50,
  0x1D7CE, 0x1D7D8, 0x1D7E2, 0x1D7EC, 0x1D7F6, 0x1E140, 0x1E2F0, 0x1E950, 0x1FBF0]

/-- The value of a decimal digit. -/
def digitValue? (c : Char) : Option Nat :=
  if c.isDigit then some (c.toNat - '0'.toNat)
  else if c.toNat < 0x80 then none
  else (digitZeros.find? fun z => z ≤ c.toNat && c.toNat < z + 10).map (c.toNat - ·)

/-- Whether a character is a decimal digit of some script. -/
def isDecimal (c : Char) : Bool := (digitValue? c).isSome

/-- The number that a run of digits denotes; other characters count as zero. -/
def readNat (s : List Char) : Nat := s.foldl (fun n c => 10 * n + (digitValue? c).getD 0) 0

/-- A run of digits that is too long to be read as a number. -/
structure TooManyDigits where
  count : Nat
deriving DecidableEq, Repr

/-- The greatest number of digits that are read as a number. -/
def maxDigits : Nat := 4300

/-- Read a run of digits, at most `maxDigits` of them. -/
def readNat? (s : List Char) : Except TooManyDigits Nat :=
  if maxDigits < s.length then .error ⟨s.length⟩ else .ok (readNat s)

/-- The ASCII digits of a number, most significant first. -/
def showNat (n : Nat) : List Char := Nat.toDigits 10 n

/-- The ASCII digits of an integer, with a minus sign in front of a negative one. -/
def showInt : Int → List Char
  | .ofNat n => showNat n
  | .negSucc n => '-' :: showNat (n + 1)

/-- The lower-case hexadecimal digits of a number, zeros in front up to `width` of them. -/
def hexDigits (width n : Nat) : List Char :=
  let ds := Nat.toDigits 16 n
  List.replicate (width - ds.length) '0' ++ ds

@[inherit_doc TooManyDigits]
def TooManyDigits.message (e : TooManyDigits) : String :=
  "Exceeds the limit (" ++ String.ofList (showNat maxDigits) ++
    " digits) for integer string conversion: value has " ++ String.ofList (showNat e.count) ++
    " digits; use sys.set_int_max_str_digits() to increase the limit"

theorem digitValue?_lt {c : Char} {d : Nat} (h : digitValue? c = some d) : d < 10 := by
  unfold digitValue? at h
  split at h
  -- An ASCII digit is at most nine places behind the zero.
  · next hc =>
    simp only [Char.isDigit, Bool.and_eq_true, decide_eq_true_eq, UInt32.le_iff_toNat_le] at hc
    have hv : c.toNat = c.val.toNat := rfl
    have h0 : '0'.toNat = 48 := rfl
    simp only [Option.some.injEq] at h
    simp at hc
    omega
  · split at h
    · simp at h
    -- The zero that was found is less than ten places in front.
    · obtain ⟨z, hz, rfl⟩ := Option.map_eq_some_iff.1 h
      have := List.find?_some hz
      simp only [Bool.and_eq_true, decide_eq_true_eq] at this
      omega

theorem readNat_append (s t : List Char) :
    readNat (s ++ t) = t.foldl (fun n c => 10 * n + (digitValue? c).getD 0) (readNat s) := by
  simp [readNat]

end GhciHost.Text
