/-! # UTF-8

Reading and writing UTF-8.  A byte sequence falls into pieces: the characters it spells and
the longest beginnings of characters that go wrong.  Whoever reads decides what stands for
a piece that went wrong: the replacement character (`decode`) or nothing (`decodeKept`).
`Decoder` reads a stream piece by piece and withholds an unfinished character.

* `pieces`   the pieces, and the unfinished beginning of a character at the end;
* `encode`   the bytes of a text. -/

namespace GhciHost.Text.Utf8

/-- The replacement character. -/
def replacement : Char := '\uFFFD'

/-- The bytes that spell a text. -/
def encode (s : List Char) : List UInt8 := s.flatMap String.utf8EncodeChar

/-- The number of bytes that spell a text. -/
def size (s : List Char) : Nat := s.foldl (fun n c => n + c.utf8Size) 0

/-- What the first bytes of a sequence are. -/
inductive Piece
  /-- A character, and the bytes after it. -/
  | char (c : Char) (rest : List UInt8)
  /-- The longest beginning of a character that goes wrong, and the bytes after it. -/
  | wrong (rest : List UInt8)
  /-- The beginning of a character, cut off by the end. -/
  | unfinished

/-- How many bytes follow a first byte, its share of the code point, and the range of the
    second byte. -/
def lead? (b : UInt8) : Option (Nat × Nat × UInt8 × UInt8) :=
  if 0xC2 ≤ b && b ≤ 0xDF then some (1, b.toNat - 0xC0, 0x80, 0xBF)
  else if b == 0xE0 then some (2, 0, 0xA0, 0xBF)
  else if b == 0xED then some (2, 0xD, 0x80, 0x9F)
  else if 0xE1 ≤ b && b ≤ 0xEF then some (2, b.toNat - 0xE0, 0x80, 0xBF)
  else if b == 0xF0 then some (3, 0, 0x90, 0xBF)
  else if 0xF1 ≤ b && b ≤ 0xF3 then some (3, b.toNat - 0xF0, 0x80, 0xBF)
  else if b == 0xF4 then some (3, 4, 0x80, 0x8F)
  else none

/-- Read `n` further bytes of a character whose share so far is `acc`; the next byte lies
    between `lo` and `hi`, later ones between `0x80` and `0xBF`. -/
def follow : Nat → Nat → UInt8 → UInt8 → List UInt8 → Piece
  | 0, acc, _, _, bs => .char (Char.ofNat acc) bs
  | _ + 1, _, _, _, [] => .unfinished
  | n + 1, acc, lo, hi, b :: bs =>
    if lo ≤ b && b ≤ hi then follow n (acc * 0x40 + (b.toNat - 0x80)) 0x80 0xBF bs
    else .wrong (b :: bs)

/-- The first piece of a sequence that starts with `b`. -/
def firstPiece (b : UInt8) (bs : List UInt8) : Piece :=
  if b < 0x80 then .char (Char.ofNat b.toNat) bs
  else match lead? b with
    | none => .wrong bs
    | some (n, acc, lo, hi) => follow n acc lo hi bs

/-- A character that was read leaves no more bytes than there were. -/
theorem follow_char_length {n acc : Nat} {lo hi : UInt8} {bs rest : List UInt8} {c : Char}
    (h : follow n acc lo hi bs = .char c rest) : rest.length ≤ bs.length := by
  induction bs generalizing n acc lo hi with
  | nil => cases n <;> simp [follow] at h; simp [h]
  | cons b bs ih =>
    cases n with
    | zero => simp [follow] at h; simp [h.2]
    | succ n =>
      rw [follow] at h
      split at h
      · exact Nat.le_succ_of_le (ih h)
      · exact Piece.noConfusion h

/-- A beginning that goes wrong leaves no more bytes than there were. -/
theorem follow_wrong_length {n acc : Nat} {lo hi : UInt8} {bs rest : List UInt8}
    (h : follow n acc lo hi bs = .wrong rest) : rest.length ≤ bs.length := by
  induction bs generalizing n acc lo hi with
  | nil => cases n <;> simp [follow] at h
  | cons b bs ih =>
    cases n with
    | zero => simp [follow] at h
    | succ n =>
      rw [follow] at h
      split at h
      · exact Nat.le_succ_of_le (ih h)
      · injection h with h
        simp [← h]

theorem firstPiece_char_length {b : UInt8} {bs rest : List UInt8} {c : Char}
    (h : firstPiece b bs = .char c rest) : rest.length ≤ bs.length := by
  rw [firstPiece] at h
  split at h
  · injection h with _ h
    simp [h]
  · split at h
    · exact Piece.noConfusion h
    · exact follow_char_length h

theorem firstPiece_wrong_length {b : UInt8} {bs rest : List UInt8}
    (h : firstPiece b bs = .wrong rest) : rest.length ≤ bs.length := by
  rw [firstPiece] at h
  split at h
  · exact Piece.noConfusion h
  · split at h
    · injection h with h
      simp [h]
    · exact follow_wrong_length h

/-- The pieces of a sequence, `none` for each that went wrong, and the unfinished beginning
    of a character at its end.  `acc` holds the pieces found so far, newest first. -/
def piecesFrom (acc : List (Option Char)) (bs : List UInt8) : List (Option Char) × List UInt8 :=
  match bs with
  | [] => (acc.reverse, [])
  | b :: bs =>
    match h : firstPiece b bs with
    | .char c rest =>
      have := firstPiece_char_length h
      piecesFrom (some c :: acc) rest
    | .wrong rest =>
      have := firstPiece_wrong_length h
      piecesFrom (none :: acc) rest
    | .unfinished => (acc.reverse, b :: bs)
termination_by bs.length
decreasing_by all_goals simp_wf; omega

@[inherit_doc piecesFrom]
def pieces (bs : List UInt8) : List (Option Char) × List UInt8 := piecesFrom [] bs

/-- Read a whole sequence; the replacement character stands for each piece that went wrong,
    and for an unfinished end. -/
def decode (bs : List UInt8) : List Char :=
  let (ps, rest) := pieces bs
  ps.map (·.getD replacement) ++ if rest.isEmpty then [] else [replacement]

/-- Read a whole sequence and leave out what went wrong. -/
def decodeKept (bs : List UInt8) : List Char := (pieces bs).1.filterMap id

/-- A decoder of a stream: the bytes of a character that is not finished yet. -/
structure Decoder where
  withheld : List UInt8 := []
deriving DecidableEq, Repr

/-- The bytes before the last two, if those two begin the three bytes of a surrogate. -/
def beforeHalfSurrogate? (bs : List UInt8) : Option (List UInt8) :=
  match bs.reverse with
  | b :: 0xED :: before => if 0xA0 ≤ b && b ≤ 0xBF then some before.reverse else none
  | _ => none

/-- Read further bytes of the stream.  The first two bytes of a surrogate are sure to go wrong,
    and are still withheld until the byte after them is here. -/
def Decoder.feed (d : Decoder) (bs : List UInt8) : List Char × Decoder :=
  let bs := d.withheld ++ bs
  match beforeHalfSurrogate? bs with
  -- 0xED continues no character, so what comes before it ends there
  | some before => (decode before, ⟨bs.drop before.length⟩)
  | none =>
    let (ps, rest) := pieces bs
    (ps.map (·.getD replacement), ⟨rest⟩)

end GhciHost.Text.Utf8
