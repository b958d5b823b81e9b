import GhciHost.Output.Transcript
import GhciHost.Proofs.Text.Stream
import GhciHost.Proofs.Text.Written

/-!
# The tail of a text

A text of which only the last bytes are kept loses whole characters: what is left of a character
that was cut is left out.

* `firstPiece_encodeChar`   the bytes of a character are read as that character;
* `mem_of_mem_encode`   a byte below `0x80` stands for itself wherever it is found;
* `decodeKept_drop_encode`   what the last bytes of a text still spell;
* `truncate_keeps_longest`   a transcript keeps as much of its end as it may.
-/

namespace GhciHost.Text.Utf8

/-! ## The bytes of a character -/

/-- A byte that stands in a character, but not at its start. -/
def Continues (b : UInt8) : Prop := 0x80 ≤ b ∧ b ≤ 0xBF

theorem firstPiece_of_continues {b : UInt8} (h : Continues b) (bs : List UInt8) :
    firstPiece b bs = .wrong bs := by
  have hlead : lead? b = none := by
    unfold Continues at h
    unfold lead?
    grind
  rw [firstPiece, if_neg (UInt8.not_lt.2 h.1), hlead]

theorem firstPiece_of_lead {b lo hi : UInt8} {n acc : Nat} (h : lead? b = some (n, acc, lo, hi))
    (bs : List UInt8) : firstPiece b bs = follow n acc lo hi bs := by
  have hb : ¬ b < 0x80 := by
    intro hb
    have : lead? b = none := by
      unfold lead?
      grind
    rw [this] at h
    exact absurd h (by simp)
  rw [firstPiece, if_neg hb, h]

theorem toNat_ofNat_of_lt {n : Nat} (h : n < 256) : (UInt8.ofNat n).toNat = n := by
  simp [Nat.mod_eq_of_lt h]

/-- Reading on within a character, where the next byte holds six of its bits. -/
theorem follow_ofNat {n acc k : Nat} {lo hi : UInt8} (hlo : lo.toNat ≤ k % 0x40 + 0x80)
    (hhi : k % 0x40 + 0x80 ≤ hi.toNat) (bs : List UInt8) :
    follow (n + 1) acc lo hi (UInt8.ofNat (k % 0x40 + 0x80) :: bs) =
      follow n (acc * 0x40 + k % 0x40) 0x80 0xBF bs := by
  have hk : (UInt8.ofNat (k % 0x40 + 0x80)).toNat = k % 0x40 + 0x80 := toNat_ofNat_of_lt (by omega)
  have hin : (decide (lo ≤ UInt8.ofNat (k % 0x40 + 0x80)) &&
      decide (UInt8.ofNat (k % 0x40 + 0x80) ≤ hi)) = true := by
    simp only [Bool.and_eq_true, decide_eq_true_eq, UInt8.le_iff_toNat_le, hk]
    exact ⟨hlo, hhi⟩
  rw [follow, if_pos hin, hk, Nat.add_sub_cancel]

theorem follow_ofNat_later (n acc k : Nat) (bs : List UInt8) :
    follow (n + 1) acc 0x80 0xBF (UInt8.ofNat (k % 0x40 + 0x80) :: bs) =
      follow n (acc * 0x40 + k % 0x40) 0x80 0xBF bs :=
  follow_ofNat (Nat.le_add_left _ _) (Nat.le_of_lt_succ (Nat.add_lt_add_right (Nat.mod_lt k (by decide)) 0x80)) bs

theorem continues_ofNat (k : Nat) : Continues (UInt8.ofNat (k % 0x40 + 0x80)) := by
  have h : (UInt8.ofNat (k % 0x40 + 0x80)).toNat = k % 0x40 + 0x80 := toNat_ofNat_of_lt (by omega)
  unfold Continues
  rw [UInt8.le_iff_toNat_le, UInt8.le_iff_toNat_le, h]
  have h1 : (0x80 : UInt8).toNat = 0x80 := rfl
  have h2 : (0xBF : UInt8).toNat = 0xBF := rfl
  omega

/-- The first byte of two; the two smallest would write what one byte says. -/
theorem lead?_two : ∀ n < 0x1E, lead? (UInt8.ofNat (n + 0xC2)) = some (1, n + 2, 0x80, 0xBF) := by
  decide

/-- The first byte of three: a character is not written longer than it needs, and no surrogate is
    written. -/
theorem lead?_three : ∀ n < 0x10, lead? (UInt8.ofNat (n + 0xE0)) =
    some (2, n, if n = 0 then 0xA0 else 0x80, if n = 0xD then 0x9F else 0xBF) := by
  decide

/-- The first byte of four. -/
theorem lead?_four : ∀ n < 5, lead? (UInt8.ofNat (n + 0xF0)) =
    some (3, n, if n = 0 then 0x90 else 0x80, if n = 4 then 0x8F else 0xBF) := by
  decide

theorem firstPiece_encodeChar {c : Char} {b : UInt8} {bs : List UInt8}
    (h : String.utf8EncodeChar c = b :: bs) (rest : List UInt8) :
    firstPiece b (bs ++ rest) = .char c rest := by
  obtain ⟨v, hv⟩ : ∃ v, v = c.val.toNat := ⟨_, rfl⟩
  have hc : Char.ofNat v = c := by rw [hv]; exact Char.ofNat_toNat c
  have hvalid : v < 0xD800 ∨ 0xDFFF < v ∧ v < 0x110000 := by rw [hv]; exact c.valid
  unfold String.utf8EncodeChar at h
  simp only [← hv] at h
  by_cases h1 : v ≤ 0x7F
  · rw [if_pos h1] at h
    simp only [List.cons.injEq] at h
    obtain ⟨rfl, rfl⟩ := h
    have hb : (UInt8.ofNat v).toNat = v := toNat_ofNat_of_lt (by omega)
    have hlt : UInt8.ofNat v < 0x80 := by
      rw [UInt8.lt_iff_toNat_lt, hb]
      exact Nat.lt_succ_of_le h1
    rw [firstPiece, if_pos hlt, hb, hc]
    rfl
  rw [if_neg h1] at h
  by_cases h2 : v ≤ 0x7FF
  · rw [if_pos h2] at h
    simp only [List.cons.injEq] at h
    obtain ⟨rfl, rfl⟩ := h
    have hlead := lead?_two (v / 64 - 2) (by omega)
    have hfirst : v / 64 - 2 + 0xC2 = v / 64 % 0x20 + 0xC0 := by omega
    rw [hfirst] at hlead
    have hvalue : (v / 64 - 2 + 2) * 0x40 + v % 0x40 = v := by omega
    rw [firstPiece_of_lead hlead, List.cons_append, follow_ofNat_later, follow, hvalue, hc]
    rfl
  rw [if_neg h2] at h
  by_cases h3 : v ≤ 0xFFFF
  · rw [if_pos h3] at h
    simp only [List.cons.injEq] at h
    obtain ⟨rfl, rfl⟩ := h
    have hlo : (if v / 4096 % 0x10 = 0 then (0xA0 : UInt8) else 0x80).toNat ≤
        v / 64 % 0x40 + 0x80 := by
      split
      · show 0xA0 ≤ _
        omega
      · exact Nat.le_add_left _ _
    have hhi : v / 64 % 0x40 + 0x80 ≤
        (if v / 4096 % 0x10 = 0xD then (0x9F : UInt8) else 0xBF).toNat := by
      split
      · show _ ≤ 0x9F
        omega
      · show _ ≤ 0xBF
        omega
    have hvalue : (v / 4096 % 0x10 * 0x40 + v / 64 % 0x40) * 0x40 + v % 0x40 = v := by omega
    rw [firstPiece_of_lead (lead?_three _ (by omega)), List.cons_append, List.cons_append,
      follow_ofNat hlo hhi, follow_ofNat_later, follow, hvalue, hc]
    rfl
  · rw [if_neg h3] at h
    simp only [List.cons.injEq] at h
    obtain ⟨rfl, rfl⟩ := h
    have hlo : (if v / 262144 % 0x08 = 0 then (0x90 : UInt8) else 0x80).toNat ≤
        v / 4096 % 0x40 + 0x80 := by
      split
      · show 0x90 ≤ _
        omega
      · exact Nat.le_add_left _ _
    have hhi : v / 4096 % 0x40 + 0x80 ≤
        (if v / 262144 % 0x08 = 4 then (0x8F : UInt8) else 0xBF).toNat := by
      split
      · show _ ≤ 0x8F
        omega
      · show _ ≤ 0xBF
        omega
    have hvalue : ((v / 262144 % 0x08 * 0x40 + v / 4096 % 0x40) * 0x40 + v / 64 % 0x40) * 0x40 +
        v % 0x40 = v := by omega
    rw [firstPiece_of_lead (lead?_four _ (by omega)), List.cons_append, List.cons_append,
      List.cons_append, follow_ofNat hlo hhi, follow_ofNat_later, follow_ofNat_later, follow, hvalue,
      hc]
    rfl

theorem continues_of_mem_encodeChar {c : Char} {b : UInt8} {bs : List UInt8}
    (h : String.utf8EncodeChar c = b :: bs) : ∀ x ∈ bs, Continues x := by
  unfold String.utf8EncodeChar at h
  simp only at h
  split_ifs at h
  all_goals
    simp only [List.cons.injEq] at h
    obtain ⟨-, rfl⟩ := h
    simp only [List.forall_mem_cons, continues_ofNat, List.not_mem_nil, false_implies, implies_true,
      and_self]

/-- A byte below `0x80` stands for the character of its number, and for no part of another. -/
theorem eq_of_mem_encodeChar {c : Char} {b : UInt8} (h : b ∈ String.utf8EncodeChar c)
    (hb : b < 0x80) : c = Char.ofNat b.toNat := by
  obtain ⟨lead, bs, hc⟩ := List.exists_cons_of_ne_nil (String.utf8EncodeChar_ne_nil (c := c))
  rw [hc] at h
  obtain rfl | h := List.mem_cons.1 h
  · have hread := firstPiece_encodeChar hc []
    rw [firstPiece, if_pos hb] at hread
    exact (Piece.char.inj hread).1.symm
  · exact absurd hb (UInt8.not_lt.2 (continues_of_mem_encodeChar hc b h).1)

theorem mem_of_mem_encode {s : List Char} {b : UInt8} (h : b ∈ encode s) (hb : b < 0x80) :
    Char.ofNat b.toNat ∈ s := by
  obtain ⟨c, hc, hbc⟩ := List.mem_flatMap.1 h
  rwa [← eq_of_mem_encodeChar hbc hb]

/-! ## Texts that were cut -/

theorem encode_cons (c : Char) (s : List Char) :
    encode (c :: s) = String.utf8EncodeChar c ++ encode s := rfl

theorem length_encode_cons (c : Char) (s : List Char) :
    (encode (c :: s)).length = c.utf8Size + (encode s).length := by
  rw [encode_cons, List.length_append, String.length_utf8EncodeChar]

/-- A text that ends another has no more bytes. -/
theorem length_encode_le_of_suffix {s t : List Char} (h : s <:+ t) :
    (encode s).length ≤ (encode t).length := by
  obtain ⟨r, rfl⟩ := h
  simp [encode]

theorem decodeKept_of_char {b : UInt8} {bs rest : List UInt8} {c : Char}
    (h : firstPiece b bs = .char c rest) : decodeKept (b :: bs) = c :: decodeKept rest := by
  simp [decodeKept, pieces_of_char h]

theorem decodeKept_of_wrong {b : UInt8} {bs rest : List UInt8} (h : firstPiece b bs = .wrong rest) :
    decodeKept (b :: bs) = decodeKept rest := by
  simp [decodeKept, pieces_of_wrong h]

/-- What is left of a character that was cut is left out. -/
theorem decodeKept_continues_append {xs : List UInt8} (h : ∀ x ∈ xs, Continues x)
    (bs : List UInt8) : decodeKept (xs ++ bs) = decodeKept bs := by
  induction xs with
  | nil => rfl
  | cons x xs ih =>
    rw [List.cons_append, decodeKept_of_wrong (firstPiece_of_continues (h x (by simp)) _)]
    exact ih fun y hy => h y (by simp [hy])

/-- A text is read as it was written. -/
theorem decodeKept_encode (s : List Char) : decodeKept (encode s) = s := by
  induction s with
  | nil => simp [encode, decodeKept]
  | cons c s ih =>
    obtain ⟨b, bs, h⟩ := List.exists_cons_of_ne_nil (String.utf8EncodeChar_ne_nil (c := c))
    rw [encode_cons, h, List.cons_append, decodeKept_of_char (firstPiece_encodeChar h _), ih]

/-- The characters of a text that begin at some byte or behind it. -/
def fromByte (k : Nat) : List Char → List Char
  | [] => []
  | c :: s => if k = 0 then c :: s else fromByte (k - c.utf8Size) s

@[simp] theorem fromByte_zero (s : List Char) : fromByte 0 s = s := by
  cases s <;> simp [fromByte]

/-- The last bytes of a text spell the characters that begin among them. -/
theorem decodeKept_drop_encode (k : Nat) (s : List Char) :
    decodeKept ((encode s).drop k) = fromByte k s := by
  induction s generalizing k with
  | nil => simp [encode, fromByte, decodeKept]
  | cons c s ih =>
    cases k with
    | zero => rw [List.drop_zero, decodeKept_encode, fromByte_zero]
    | succ k =>
      obtain ⟨b, bs, h⟩ := List.exists_cons_of_ne_nil (String.utf8EncodeChar_ne_nil (c := c))
      have hsize : c.utf8Size = bs.length + 1 := by
        rw [← String.length_utf8EncodeChar, h, List.length_cons]
      have hrest : ∀ x ∈ bs.drop k, Continues x := fun x hx =>
        continues_of_mem_encodeChar h x (List.mem_of_mem_drop hx)
      have hnext : k + 1 - c.utf8Size = k - bs.length := by omega
      rw [fromByte, if_neg (by omega), hnext, encode_cons, h, List.cons_append, List.drop_succ_cons,
        List.drop_append, decodeKept_continues_append hrest, ih]

theorem fromByte_suffix (k : Nat) (s : List Char) : fromByte k s <:+ s := by
  induction s generalizing k with
  | nil => exact List.suffix_refl _
  | cons c s ih =>
    rw [fromByte]
    split
    · exact List.suffix_refl _
    · exact (ih _).trans (List.suffix_cons c s)

/-- They are no more bytes than there are, and lack at most three. -/
theorem length_encode_fromByte (k : Nat) (s : List Char) :
    (encode (fromByte k s)).length ≤ (encode s).length - k ∧
      (encode s).length ≤ k + (encode (fromByte k s)).length + 3 := by
  induction s generalizing k with
  | nil => simp [fromByte, encode]
  | cons c s ih =>
    rw [fromByte]
    split
    · next hk =>
      subst hk
      omega
    · next hk =>
      have hih := ih (k - c.utf8Size)
      have hpos := c.utf8Size_pos
      have hle := c.utf8Size_le_four
      rw [length_encode_cons]
      by_cases hc : c.utf8Size ≤ k
      · omega
      · -- the cut is within this character, so all that follows it is kept
        have hzero : k - c.utf8Size = 0 := by omega
        rw [hzero, fromByte_zero] at hih ⊢
        omega

/-- No text that ends as this one and has no more bytes is longer. -/
theorem suffix_fromByte {k : Nat} {s t : List Char} (h : t <:+ s)
    (hk : k + (encode t).length ≤ (encode s).length) : t <:+ fromByte k s := by
  induction s generalizing k with
  | nil => simpa [fromByte] using h
  | cons c s ih =>
    rw [fromByte]
    split
    · exact h
    · next hzero =>
      obtain rfl | h := List.suffix_cons_iff.1 h
      · omega
      · have hle := length_encode_le_of_suffix h
        rw [length_encode_cons] at hk
        exact ih h (by omega)

end GhciHost.Text.Utf8

namespace GhciHost.Output

open Text

/-- What tells of an omission is one line. -/
theorem omission_eq_line (n : Nat) : ∃ line, '\n' ∉ line ∧ omission n = line ++ ['\n'] := by
  refine ⟨"[... ".toList ++ showNat n ++ " bytes omitted]".toList, ?_, ?_⟩
  · simp only [List.mem_append, not_or]
    refine ⟨⟨by decide, fun h => ?_⟩, by decide⟩
    exact absurd (isDigit_of_mem_showNat h) (by decide)
  · simp [omission]

/-- A transcript that is too long becomes the line, and what is left of the text. -/
theorem truncate_of_lt {limit : Int} {text : List Char} (hlimit : 0 < limit)
    (h : limit < (Utf8.encode text).length) :
    truncate limit text = omission ((Utf8.encode text).length - limit.toNat) ++
      Utf8.fromByte ((Utf8.encode text).length - limit.toNat) text := by
  rw [truncate, if_neg (by omega)]
  show omission _ ++ Utf8.decodeKept ((Utf8.encode text).drop _) = _
  rw [Utf8.decodeKept_drop_encode]

/-- A transcript that is within the limit stays as it is.  One that is not becomes a line that tells
    of the omission, and behind it the longest end of the transcript, in whole characters, that is
    within the limit; it lacks at most three bytes. -/
theorem truncate_keeps_longest {limit : Int} (hlimit : 0 < limit) (text : List Char) :
    ((Utf8.encode text).length ≤ limit → truncate limit text = text) ∧
    (limit < (Utf8.encode text).length →
      ∃ line kept, truncate limit text = line ++ '\n' :: kept ∧
        '\n' ∉ line ∧ omission ((Utf8.encode text).length - limit.toNat) = line ++ ['\n'] ∧
        kept <:+ text ∧
        (Utf8.encode kept).length ≤ limit ∧ limit - 3 ≤ (Utf8.encode kept).length ∧
        ∀ other, other <:+ text → (Utf8.encode other).length ≤ limit → other <:+ kept) := by
  refine ⟨truncate_of_le, fun hlong => ?_⟩
  let omitted := (Utf8.encode text).length - limit.toNat
  obtain ⟨line, hline, homission⟩ := omission_eq_line omitted
  have hlength := Utf8.length_encode_fromByte omitted text
  refine ⟨line, Utf8.fromByte omitted text, ?_, hline, homission, Utf8.fromByte_suffix _ _, ?_, ?_, ?_⟩
  · rw [truncate_of_lt hlimit hlong, homission, List.append_assoc]
    rfl
  · omega
  · omega
  · intro other hother hle
    exact Utf8.suffix_fromByte hother (by omega)

/-- A cut within the second character keeps the third. -/
theorem truncate_keeps_longest_cut : (0 : Int) < 3 ∧ (3 : Int) < (Utf8.encode ['a', '€', 'ü']).length ∧
    ∃ line kept, truncate 3 ['a', '€', 'ü'] = line ++ '\n' :: kept ∧
      '\n' ∉ line ∧ omission 3 = line ++ ['\n'] ∧
      kept <:+ ['a', '€', 'ü'] ∧
      (Utf8.encode kept).length ≤ (3 : Int) ∧ (3 : Int) - 3 ≤ (Utf8.encode kept).length ∧
      ∀ other, other <:+ ['a', '€', 'ü'] → (Utf8.encode other).length ≤ (3 : Int) → other <:+ kept :=
  have hlong : (3 : Int) < (Utf8.encode ['a', '€', 'ü']).length := by decide
  ⟨by decide, hlong, (truncate_keeps_longest (by decide) ['a', '€', 'ü']).2 hlong⟩

end GhciHost.Output
