import Mathlib.Data.List.Basic
import GhciHost.Text.Utf8

/-!
# Streams of UTF-8

A stream may be cut anywhere, also within a character.  What a decoder makes of the parts, one after
the other, is what it makes of the whole.

* `pieces_induction`   a property of sequences, piece by piece;
* `pieces_append`   the pieces of a sequence that goes on;
* `pieces_append_lead`   a byte that continues no character ends whatever stands before it;
* `feed_append`   a stream in two parts.
-/

namespace GhciHost.Text.Utf8

/-! ## The first piece -/

theorem follow_char_suffix {n acc : Nat} {lo hi : UInt8} {bs rest : List UInt8} {c : Char}
    (h : follow n acc lo hi bs = .char c rest) : rest <:+ bs := by
  induction bs generalizing n acc lo hi with
  | nil => cases n <;> simp_all [follow]
  | cons b bs ih =>
    cases n with
    | zero =>
      simp only [follow, Piece.char.injEq] at h
      simp [h.2]
    | succ n =>
      simp only [follow] at h
      split at h
      · exact (ih h).trans (List.suffix_cons b bs)
      · exact absurd h (by simp)

theorem follow_wrong_suffix {n acc : Nat} {lo hi : UInt8} {bs rest : List UInt8}
    (h : follow n acc lo hi bs = .wrong rest) : rest <:+ bs := by
  induction bs generalizing n acc lo hi with
  | nil => cases n <;> simp [follow] at h
  | cons b bs ih =>
    cases n with
    | zero => simp [follow] at h
    | succ n =>
      simp only [follow] at h
      split at h
      · exact (ih h).trans (List.suffix_cons b bs)
      · simp only [Piece.wrong.injEq] at h
        simp [h]

theorem firstPiece_char_suffix {b : UInt8} {bs rest : List UInt8} {c : Char}
    (h : firstPiece b bs = .char c rest) : rest <:+ bs := by
  unfold firstPiece at h
  split at h
  · simp only [Piece.char.injEq] at h
    simp [h.2]
  · split at h
    · exact absurd h (by simp)
    · exact follow_char_suffix h

theorem firstPiece_wrong_suffix {b : UInt8} {bs rest : List UInt8}
    (h : firstPiece b bs = .wrong rest) : rest <:+ bs := by
  unfold firstPiece at h
  split at h
  · exact absurd h (by simp)
  · split at h
    · simp only [Piece.wrong.injEq] at h
      simp [h]
    · exact follow_wrong_suffix h

/-- A character that was read is read as well if more bytes come behind. -/
theorem follow_append_of_char {n acc : Nat} {lo hi : UInt8} {bs rest : List UInt8} {c : Char}
    (h : follow n acc lo hi bs = .char c rest) (more : List UInt8) :
    follow n acc lo hi (bs ++ more) = .char c (rest ++ more) := by
  induction bs generalizing n acc lo hi with
  | nil =>
    cases n with
    | zero =>
      simp only [follow, Piece.char.injEq] at h
      obtain ⟨rfl, rfl⟩ := h
      simp [follow]
    | succ n => simp [follow] at h
  | cons b bs ih =>
    cases n with
    | zero =>
      simp only [follow, Piece.char.injEq] at h
      obtain ⟨rfl, rfl⟩ := h
      simp [follow]
    | succ n =>
      simp only [follow] at h
      by_cases hb : lo ≤ b && b ≤ hi
      · rw [if_pos hb] at h
        simp only [List.cons_append, follow, if_pos hb, ih h]
      · simp [hb] at h

/-- A beginning that goes wrong does so whatever comes behind. -/
theorem follow_append_of_wrong {n acc : Nat} {lo hi : UInt8} {bs rest : List UInt8}
    (h : follow n acc lo hi bs = .wrong rest) (more : List UInt8) :
    follow n acc lo hi (bs ++ more) = .wrong (rest ++ more) := by
  induction bs generalizing n acc lo hi with
  | nil => cases n <;> simp [follow] at h
  | cons b bs ih =>
    cases n with
    | zero => simp [follow] at h
    | succ n =>
      simp only [follow] at h
      by_cases hb : lo ≤ b && b ≤ hi
      · rw [if_pos hb] at h
        simp only [List.cons_append, follow, if_pos hb, ih h]
      · rw [if_neg hb, Piece.wrong.injEq] at h
        subst h
        simp only [List.cons_append, follow, if_neg hb]

/-- A character that is not finished goes wrong at a byte that continues no character. -/
theorem follow_append_of_unfinished {n acc : Nat} {lo hi : UInt8} {bs : List UInt8}
    (h : follow n acc lo hi bs = .unfinished) (hhi : hi ≤ 0xBF) {x : UInt8} (hx : 0xBF < x)
    (more : List UInt8) :
    follow n acc lo hi (bs ++ x :: more) = .wrong (x :: more) := by
  induction bs generalizing n acc lo hi with
  | nil =>
    cases n with
    | zero => simp [follow] at h
    | succ n =>
      have : ¬ x ≤ hi := fun hle => absurd (UInt8.le_trans hle hhi) (UInt8.not_le.2 hx)
      simp [follow, this]
  | cons b bs ih =>
    cases n with
    | zero => simp [follow] at h
    | succ n =>
      simp only [follow] at h
      by_cases hb : lo ≤ b && b ≤ hi
      · rw [if_pos hb] at h
        simp only [List.cons_append, follow, if_pos hb, ih h (by decide)]
      · simp [hb] at h

/-- The second byte of a character lies no higher than its later ones. -/
theorem lead?_hi_le {b lo hi : UInt8} {n acc : Nat} (h : lead? b = some (n, acc, lo, hi)) :
    hi ≤ 0xBF := by
  have hmem : hi ∈ [0xBF, 0x9F, 0x8F] := by
    unfold lead? at h
    grind
  simp only [List.mem_cons, List.not_mem_nil, or_false] at hmem
  rcases hmem with rfl | rfl | rfl <;> decide

theorem firstPiece_append_of_char {b : UInt8} {bs rest : List UInt8} {c : Char}
    (h : firstPiece b bs = .char c rest) (more : List UInt8) :
    firstPiece b (bs ++ more) = .char c (rest ++ more) := by
  unfold firstPiece at h ⊢
  by_cases hb : b < 0x80
  · rw [if_pos hb] at h ⊢
    rw [Piece.char.injEq] at h
    rw [h.1, h.2]
  · rw [if_neg hb] at h ⊢
    cases hl : lead? b with
    | none => simp [hl] at h
    | some l =>
      simp only [hl] at h ⊢
      exact follow_append_of_char h more

theorem firstPiece_append_of_wrong {b : UInt8} {bs rest : List UInt8}
    (h : firstPiece b bs = .wrong rest) (more : List UInt8) :
    firstPiece b (bs ++ more) = .wrong (rest ++ more) := by
  unfold firstPiece at h ⊢
  by_cases hb : b < 0x80
  · simp [hb] at h
  · rw [if_neg hb] at h ⊢
    cases hl : lead? b with
    | none =>
      simp only [hl, Piece.wrong.injEq] at h ⊢
      rw [h]
    | some l =>
      simp only [hl] at h ⊢
      exact follow_append_of_wrong h more

theorem firstPiece_append_of_unfinished {b : UInt8} {bs : List UInt8}
    (h : firstPiece b bs = .unfinished) {x : UInt8} (hx : 0xBF < x) (more : List UInt8) :
    firstPiece b (bs ++ x :: more) = .wrong (x :: more) := by
  unfold firstPiece at h ⊢
  by_cases hb : b < 0x80
  · simp [hb] at h
  · rw [if_neg hb] at h ⊢
    cases hl : lead? b with
    | none => simp [hl] at h
    | some l =>
      simp only [hl] at h ⊢
      exact follow_append_of_unfinished h (lead?_hi_le hl) hx more

/-! ## All pieces -/

/-- What holds of nothing and of an unfinished character, and of whatever has one more piece in
    front, holds of every sequence. -/
@[elab_as_elim]
theorem pieces_induction {motive : List UInt8 → Prop} (nil : motive [])
    (char : ∀ b bs c rest, firstPiece b bs = .char c rest → motive rest → motive (b :: bs))
    (wrong : ∀ b bs rest, firstPiece b bs = .wrong rest → motive rest → motive (b :: bs))
    (unfinished : ∀ b bs, firstPiece b bs = .unfinished → motive (b :: bs))
    (bs : List UInt8) : motive bs := by
  -- the induction is on the number of bytes: what stands behind a piece is shorter
  suffices ∀ n, ∀ bs : List UInt8, bs.length ≤ n → motive bs from this _ bs (Nat.le_refl _)
  intro n
  induction n with
  | zero =>
    intro bs hn
    rw [List.length_eq_zero_iff.1 (Nat.le_zero.1 hn)]
    exact nil
  | succ n ih =>
    intro bs hn
    cases bs with
    | nil => exact nil
    | cons b bs =>
      simp only [List.length_cons] at hn
      cases h : firstPiece b bs with
      | char c rest =>
        have := firstPiece_char_length h
        exact char b bs c rest h (ih rest (by omega))
      | wrong rest =>
        have := firstPiece_wrong_length h
        exact wrong b bs rest h (ih rest (by omega))
      | unfinished => exact unfinished b bs h

theorem piecesFrom_of_char {b : UInt8} {bs rest : List UInt8} {c : Char}
    (h : firstPiece b bs = .char c rest) (acc : List (Option Char)) :
    piecesFrom acc (b :: bs) = piecesFrom (some c :: acc) rest := by
  rw [piecesFrom]
  split <;> simp_all

theorem piecesFrom_of_wrong {b : UInt8} {bs rest : List UInt8}
    (h : firstPiece b bs = .wrong rest) (acc : List (Option Char)) :
    piecesFrom acc (b :: bs) = piecesFrom (none :: acc) rest := by
  rw [piecesFrom]
  split <;> simp_all

theorem piecesFrom_of_unfinished {b : UInt8} {bs : List UInt8}
    (h : firstPiece b bs = .unfinished) (acc : List (Option Char)) :
    piecesFrom acc (b :: bs) = (acc.reverse, b :: bs) := by
  rw [piecesFrom]
  split <;> simp_all

/-- The pieces that were found before stand in front. -/
theorem piecesFrom_eq (acc : List (Option Char)) (bs : List UInt8) :
    piecesFrom acc bs = (acc.reverse ++ (pieces bs).1, (pieces bs).2) := by
  induction bs using pieces_induction generalizing acc with
  | nil => simp [pieces, piecesFrom]
  | char b bs c rest h ih =>
    rw [pieces, piecesFrom_of_char h, piecesFrom_of_char h, ih (some c :: acc), ih [some c]]
    simp
  | wrong b bs rest h ih =>
    rw [pieces, piecesFrom_of_wrong h, piecesFrom_of_wrong h, ih (none :: acc), ih [none]]
    simp
  | unfinished b bs h =>
    rw [pieces, piecesFrom_of_unfinished h, piecesFrom_of_unfinished h]
    simp

@[simp] theorem pieces_nil : pieces [] = ([], []) := by
  simp [pieces, piecesFrom]

theorem pieces_of_char {b : UInt8} {bs rest : List UInt8} {c : Char}
    (h : firstPiece b bs = .char c rest) :
    pieces (b :: bs) = (some c :: (pieces rest).1, (pieces rest).2) := by
  rw [pieces, piecesFrom_of_char h, piecesFrom_eq]
  rfl

theorem pieces_of_wrong {b : UInt8} {bs rest : List UInt8} (h : firstPiece b bs = .wrong rest) :
    pieces (b :: bs) = (none :: (pieces rest).1, (pieces rest).2) := by
  rw [pieces, piecesFrom_of_wrong h, piecesFrom_eq]
  rfl

theorem pieces_of_unfinished {b : UInt8} {bs : List UInt8} (h : firstPiece b bs = .unfinished) :
    pieces (b :: bs) = ([], b :: bs) := by
  rw [pieces, piecesFrom_of_unfinished h]
  rfl

/-- The pieces of a sequence that goes on: an unfinished character is read again, with what comes
    behind it. -/
theorem pieces_append (a b : List UInt8) :
    pieces (a ++ b) =
      ((pieces a).1 ++ (pieces ((pieces a).2 ++ b)).1, (pieces ((pieces a).2 ++ b)).2) := by
  induction a using pieces_induction with
  | nil => simp
  | char x bs c rest h ih =>
    rw [List.cons_append, pieces_of_char (firstPiece_append_of_char h b), pieces_of_char h, ih]
    simp
  | wrong x bs rest h ih =>
    rw [List.cons_append, pieces_of_wrong (firstPiece_append_of_wrong h b), pieces_of_wrong h, ih]
    simp
  | unfinished x bs h => simp [pieces_of_unfinished h]

/-- Nothing is left over but a character that was begun. -/
theorem pieces_rest (bs : List UInt8) :
    (pieces bs).2 = [] ∨ ∃ x xs, (pieces bs).2 = x :: xs ∧ firstPiece x xs = .unfinished := by
  induction bs using pieces_induction with
  | nil => simp
  | char x bs c rest h ih => simpa [pieces_of_char h] using ih
  | wrong x bs rest h ih => simpa [pieces_of_wrong h] using ih
  | unfinished x bs h => exact .inr ⟨x, bs, by rw [pieces_of_unfinished h], h⟩

/-- The bytes that are left over stand at the end. -/
theorem pieces_suffix (bs : List UInt8) : (pieces bs).2 <:+ bs := by
  induction bs using pieces_induction with
  | nil => simp
  | char b bs c rest h ih =>
    rw [pieces_of_char h]
    exact (ih.trans (firstPiece_char_suffix h)).trans (List.suffix_cons b bs)
  | wrong b bs rest h ih =>
    rw [pieces_of_wrong h]
    exact (ih.trans (firstPiece_wrong_suffix h)).trans (List.suffix_cons b bs)
  | unfinished b bs h => simp [pieces_of_unfinished h]

/-- The pieces of a sequence that is over. -/
def closedPieces (bs : List UInt8) : List (Option Char) :=
  (pieces bs).1 ++ if (pieces bs).2.isEmpty then [] else [none]

theorem decode_eq (bs : List UInt8) : decode bs = (closedPieces bs).map (·.getD replacement) := by
  unfold decode closedPieces
  cases h : (pieces bs).2 <;> simp [h]

/-- A byte that continues no character ends whatever stands before it. -/
theorem pieces_append_lead (a : List UInt8) {x : UInt8} (hx : 0xBF < x) (b : List UInt8) :
    pieces (a ++ x :: b) = (closedPieces a ++ (pieces (x :: b)).1, (pieces (x :: b)).2) := by
  rw [pieces_append a]
  obtain h | ⟨y, ys, h, hy⟩ := pieces_rest a
  · simp [closedPieces, h]
  · have hwrong := pieces_of_wrong (firstPiece_append_of_unfinished hy hx b)
    rw [h, List.cons_append, hwrong]
    simp [closedPieces, h]

theorem decode_append_lead (a : List UInt8) {x : UInt8} (hx : 0xBF < x) (b : List UInt8) :
    decode (a ++ x :: b) = decode a ++ decode (x :: b) := by
  rw [decode_eq, decode_eq, decode_eq, ← List.map_append]
  congr 1
  rw [closedPieces, pieces_append_lead a hx, closedPieces, List.append_assoc]
  rfl

theorem decode_append (a b : List UInt8) :
    decode (a ++ b) = (pieces a).1.map (·.getD replacement) ++ decode ((pieces a).2 ++ b) := by
  rw [decode_eq, decode_eq, ← List.map_append]
  congr 1
  rw [closedPieces, pieces_append a, closedPieces, List.append_assoc]

/-! ## Decoders -/

theorem beforeHalfSurrogate?_eq_some {bs before : List UInt8} :
    beforeHalfSurrogate? bs = some before ↔
      ∃ x, bs = before ++ [0xED, x] ∧ 0xA0 ≤ x ∧ x ≤ 0xBF := by
  constructor
  · intro h
    unfold beforeHalfSurrogate? at h
    split at h
    · next b rest hrev =>
      split at h
      · next hb =>
        simp only [Option.some.injEq] at h
        refine ⟨b, ?_, by simpa using hb⟩
        rw [← List.reverse_reverse bs, hrev, ← h]
        simp
      · exact absurd h (by simp)
    · exact absurd h (by simp)
  · rintro ⟨x, rfl, hx⟩
    simp [beforeHalfSurrogate?, hx]

/-- A decoder goes on as if what it withholds were read again. -/
theorem feed_eq_feed_withheld (d : Decoder) (bs : List UInt8) :
    d.feed bs = ({} : Decoder).feed (d.withheld ++ bs) := rfl

theorem feed_of_half {before : List UInt8} {x : UInt8} (hx : 0xA0 ≤ x ∧ x ≤ 0xBF) :
    ({} : Decoder).feed (before ++ [0xED, x]) = (decode before, ⟨[0xED, x]⟩) := by
  have h : beforeHalfSurrogate? (before ++ [0xED, x]) = some before :=
    beforeHalfSurrogate?_eq_some.2 ⟨x, rfl, hx⟩
  simp [Decoder.feed, h]

theorem feed_of_not_half {bs : List UInt8} (h : beforeHalfSurrogate? bs = none) :
    ({} : Decoder).feed bs = ((pieces bs).1.map (·.getD replacement), ⟨(pieces bs).2⟩) := by
  simp [Decoder.feed, h]

/-- What stands before a byte that continues no character is told for good. -/
theorem feed_append_lead (a : List UInt8) {x : UInt8} (hx : 0xBF < x) (b : List UInt8) :
    ({} : Decoder).feed (a ++ x :: b) =
      (decode a ++ (({} : Decoder).feed (x :: b)).1, (({} : Decoder).feed (x :: b)).2) := by
  cases hb : beforeHalfSurrogate? (x :: b) with
  | some z =>
    obtain ⟨y, hz, hy⟩ := beforeHalfSurrogate?_eq_some.1 hb
    rw [hz, ← List.append_assoc, feed_of_half hy, feed_of_half hy]
    -- between the two there is nothing, or the byte and what follows it
    cases z with
    | nil => simp [decode_eq, closedPieces]
    | cons x' z =>
      simp only [List.cons_append, List.cons.injEq] at hz
      rw [← hz.1, decode_append_lead a hx]
  | none =>
    have hab : beforeHalfSurrogate? (a ++ x :: b) = none := by
      refine Option.eq_none_iff_forall_ne_some.2 fun z hz => ?_
      obtain ⟨y, h, hy⟩ := beforeHalfSurrogate?_eq_some.1 hz
      cases b with
      | nil =>
        -- the byte would be the last, but it is too large for that
        have hxy : x = y := by simpa using congrArg List.getLast? h
        exact UInt8.not_le.2 hx (hxy ▸ hy.2)
      | cons b bs =>
        have hend : [0xED, y] <:+ x :: b :: bs :=
          List.suffix_of_suffix_length_le ⟨z, h.symm⟩ (List.suffix_append _ _) (by simp)
        obtain ⟨z', hz'⟩ := hend
        rw [beforeHalfSurrogate?_eq_some.2 ⟨y, hz'.symm, hy⟩] at hb
        exact absurd hb (by simp)
    rw [feed_of_not_half hb, feed_of_not_half hab, pieces_append_lead a hx, decode_eq]
    simp

/-- Where two parts together end in half a surrogate and the first part does not, what the first
    part leaves over ends so with the second. -/
theorem exists_half_of_append {a b before : List UInt8} {x : UInt8} (hx : 0xA0 ≤ x ∧ x ≤ 0xBF)
    (ha : beforeHalfSurrogate? a = none) (h : a ++ b = before ++ [0xED, x]) :
    ∃ z, (pieces a).2 ++ b = z ++ [0xED, x] ∧
      decode before = (pieces a).1.map (·.getD replacement) ++ decode z := by
  obtain ⟨w, rfl, rfl⟩ | ⟨w, rfl, hw⟩ := List.append_eq_append_iff.1 h
  · exact ⟨(pieces a).2 ++ w, by simp, decode_append a w⟩
  · -- the cut falls before, within or behind the two bytes
    match w, hw with
    | [], hw =>
      have hwhole := decode_append before []
      simp only [List.append_nil] at hwhole ⊢
      have hb : b = [0xED, x] := hw.symm
      exact ⟨(pieces before).2, by rw [hb], hwhole⟩
    | [y], hw =>
      simp only [List.cons_append, List.nil_append, List.cons.injEq] at hw
      obtain ⟨rfl, hb⟩ := hw
      have hlead : pieces (before ++ [0xED]) = (closedPieces before, [0xED]) := by
        rw [pieces_append_lead before (by decide), pieces_of_unfinished (by rfl)]
        simp
      exact ⟨[], by rw [hlead, ← hb]; rfl, by simp [hlead, decode_eq, closedPieces]⟩
    | [y, y'], hw =>
      simp only [List.cons_append, List.nil_append, List.cons.injEq] at hw
      obtain ⟨rfl, rfl, -⟩ := hw
      rw [beforeHalfSurrogate?_eq_some.2 ⟨x, rfl, hx⟩] at ha
      exact absurd ha (by simp)

@[simp] theorem feed_nil : ({} : Decoder).feed [] = ([], {}) := by
  rw [feed_of_not_half rfl]
  simp

/-- What a decoder makes of a stream in two parts is what it makes of the whole. -/
theorem feed_append (d : Decoder) (a b : List UInt8) :
    d.feed (a ++ b) = ((d.feed a).1 ++ ((d.feed a).2.feed b).1, ((d.feed a).2.feed b).2) := by
  -- what the decoder withholds belongs to the first part
  rw [feed_eq_feed_withheld d, feed_eq_feed_withheld d, ← List.append_assoc]
  generalize d.withheld ++ a = a
  rw [feed_eq_feed_withheld (({} : Decoder).feed a).2]
  cases ha : beforeHalfSurrogate? a with
  | some before =>
    obtain ⟨x, rfl, hx⟩ := beforeHalfSurrogate?_eq_some.1 ha
    rw [feed_of_half hx]
    simpa using feed_append_lead before (x := 0xED) (by decide) (x :: b)
  | none =>
    rw [feed_of_not_half ha]
    cases hab : beforeHalfSurrogate? (a ++ b) with
    | some before =>
      obtain ⟨x, h, hx⟩ := beforeHalfSurrogate?_eq_some.1 hab
      obtain ⟨z, hz, hdecode⟩ := exists_half_of_append hx ha h
      rw [h, hz, feed_of_half hx, feed_of_half hx, hdecode]
    | none =>
      have hrest : beforeHalfSurrogate? ((pieces a).2 ++ b) = none := by
        refine Option.eq_none_iff_forall_ne_some.2 fun z hz => ?_
        obtain ⟨x, h, hx⟩ := beforeHalfSurrogate?_eq_some.1 hz
        obtain ⟨read, hread⟩ := pieces_suffix a
        have : a ++ b = (read ++ z) ++ [0xED, x] := by
          rw [List.append_assoc, ← h, ← List.append_assoc, hread]
        rw [beforeHalfSurrogate?_eq_some.2 ⟨x, this, hx⟩] at hab
        exact absurd hab (by simp)
      rw [feed_of_not_half hab, feed_of_not_half hrest, pieces_append a b]
      simp

/-- A whole sequence is read as a stream is, and then what the stream withholds. -/
theorem decode_eq_feed (bs : List UInt8) :
    decode bs = (({} : Decoder).feed bs).1 ++ decode (({} : Decoder).feed bs).2.withheld := by
  cases h : beforeHalfSurrogate? bs with
  | some before =>
    obtain ⟨x, rfl, hx⟩ := beforeHalfSurrogate?_eq_some.1 h
    rw [feed_of_half hx]
    exact decode_append_lead before (by decide) [x]
  | none =>
    rw [feed_of_not_half h]
    simpa using decode_append bs []

/-- A character that is not finished lacks at least one byte. -/
theorem length_lt_of_unfinished {n acc : Nat} {lo hi : UInt8} {bs : List UInt8}
    (h : follow n acc lo hi bs = .unfinished) : bs.length < n := by
  induction bs generalizing n acc lo hi with
  | nil =>
    cases n with
    | zero => simp [follow] at h
    | succ n => simp
  | cons b bs ih =>
    cases n with
    | zero => simp [follow] at h
    | succ n =>
      simp only [follow] at h
      split at h
      · exact Nat.succ_lt_succ (ih h)
      · exact absurd h (by simp)

/-- No character has more than four bytes. -/
theorem lead?_count_le {b lo hi : UInt8} {n acc : Nat} (h : lead? b = some (n, acc, lo, hi)) :
    n ≤ 3 := by
  unfold lead? at h
  grind

theorem length_pieces_rest_le (bs : List UInt8) : (pieces bs).2.length ≤ 3 := by
  obtain h | ⟨x, xs, h, hx⟩ := pieces_rest bs
  · simp [h]
  · unfold firstPiece at hx
    split at hx
    · exact absurd hx (by simp)
    · cases hl : lead? x with
      | none => simp [hl] at hx
      | some l =>
        simp only [hl] at hx
        have hlt := length_lt_of_unfinished hx
        have hle := lead?_count_le hl
        rw [h, List.length_cons]
        omega

/-- A stream withholds no more than the beginning of a character. -/
theorem length_withheld_feed_le (bs : List UInt8) :
    (({} : Decoder).feed bs).2.withheld.length ≤ 3 := by
  cases h : beforeHalfSurrogate? bs with
  | some before =>
    obtain ⟨x, rfl, hx⟩ := beforeHalfSurrogate?_eq_some.1 h
    rw [feed_of_half hx]
    simp
  | none =>
    rw [feed_of_not_half h]
    exact length_pieces_rest_le bs

/-- What a stream withholds stands at its end. -/
theorem withheld_feed_suffix (bs : List UInt8) : (({} : Decoder).feed bs).2.withheld <:+ bs := by
  cases h : beforeHalfSurrogate? bs with
  | some before =>
    obtain ⟨x, rfl, hx⟩ := beforeHalfSurrogate?_eq_some.1 h
    rw [feed_of_half hx]
    exact List.suffix_append _ _
  | none =>
    rw [feed_of_not_half h]
    exact pieces_suffix bs

end GhciHost.Text.Utf8
