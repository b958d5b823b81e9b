import Mathlib.Data.List.Basic
import GhciHost.Text.Blank
import GhciHost.Text.Digit
import GhciHost.Text.Lines

/-!
# Written texts

What is written can be read back: the digits of a number, lines with a line feed between each two,
and words with a space between each two.

* `readNat_showNat`, `isDecimal_of_mem_showNat`   the digits of a number;
* `lines_intercalate`   lines that hold no line break are cut apart again;
* `squeeze_intercalate`   words with single spaces between them are squeezed already.
-/

namespace GhciHost.Text

/-- What a text starts with is told apart from what it does not go on with. -/
theorem takeWhile_dropWhile_append {p : Char → Bool} {s t : List Char}
    (hs : ∀ c ∈ s, p c = true) (ht : ∀ c ∈ t.head?, p c = false) :
    (s ++ t).takeWhile p = s ∧ (s ++ t).dropWhile p = t := by
  rw [List.takeWhile_append_of_pos hs, List.dropWhile_append_of_pos hs]
  cases t with
  | nil => simp
  | cons c t =>
    have hc : ¬ p c = true := by simp [ht c rfl]
    rw [List.takeWhile_cons_of_neg hc, List.dropWhile_cons_of_neg hc, List.append_nil]
    exact ⟨rfl, rfl⟩

/-! ## Numbers -/

theorem digitValue?_of_isDigit {c : Char} (h : c.isDigit = true) :
    digitValue? c = some (c.toNat - '0'.toNat) := by
  rw [digitValue?, if_pos h]

theorem isDecimal_of_isDigit {c : Char} (h : c.isDigit = true) : isDecimal c = true := by
  rw [isDecimal, digitValue?_of_isDigit h]
  rfl

theorem isDigit_of_mem_showNat {n : Nat} {c : Char} (h : c ∈ showNat n) : c.isDigit = true :=
  Nat.isDigit_of_mem_toDigits (by decide) (by decide) h

theorem isDecimal_of_mem_showNat {n : Nat} {c : Char} (h : c ∈ showNat n) : isDecimal c = true :=
  isDecimal_of_isDigit (isDigit_of_mem_showNat h)

theorem showNat_ne_nil (n : Nat) : showNat n ≠ [] := Nat.toDigits_ne_nil

/-- ASCII digits are read like the digits of the library. -/
theorem readNat_of_isDigit {s : List Char} (h : ∀ c ∈ s, c.isDigit = true) :
    readNat s = Nat.ofDigitChars 10 s 0 := by
  rw [readNat, Nat.ofDigitChars_eq_foldl]
  refine List.foldl_ext _ _ 0 fun n c hc => ?_
  rw [digitValue?_of_isDigit (h c hc), Option.getD_some]

/-- The digits of a number denote it. -/
theorem readNat_showNat (n : Nat) : readNat (showNat n) = n := by
  rw [readNat_of_isDigit fun _ => isDigit_of_mem_showNat]
  exact Nat.ofDigitChars_ten_toDigits

theorem readNat?_of_length_le {s : List Char} (h : s.length ≤ maxDigits) :
    readNat? s = .ok (readNat s) := by
  rw [readNat?, if_neg (Nat.not_lt.2 h)]

theorem readNat?_showNat {n : Nat} (h : (showNat n).length ≤ maxDigits) :
    readNat? (showNat n) = .ok n := by
  rw [readNat?_of_length_le h, readNat_showNat]

/-! ## Lines -/

/-- A text holds no line break. -/
def Unbroken (s : List Char) : Prop := ∀ c ∈ s, isLineBreak c = false

-- the members are tried, not all characters
instance (s : List Char) : Decidable (Unbroken s) := List.decidableBAll _ s

theorem ne_of_not_isLineBreak {c : Char} (h : isLineBreak c = false) : c ≠ '\r' := by
  rintro rfl
  exact absurd h (by decide)

theorem unbroken_append {s t : List Char} : Unbroken (s ++ t) ↔ Unbroken s ∧ Unbroken t :=
  List.forall_mem_append

theorem unbroken_cons {c : Char} {s : List Char} :
    Unbroken (c :: s) ↔ isLineBreak c = false ∧ Unbroken s :=
  List.forall_mem_cons

theorem unbroken_showNat (n : Nat) : Unbroken (showNat n) := by
  intro c hc
  have h := isDigit_of_mem_showNat hc
  simp only [Char.isDigit, Bool.and_eq_true, decide_eq_true_eq, UInt32.le_iff_toNat_le] at h
  have hv : c.toNat = c.val.toNat := rfl
  simp at h
  simp only [isLineBreak, Bool.or_eq_false_iff, Bool.and_eq_false_iff, decide_eq_false_iff_not,
    beq_eq_false_iff_ne]
  omega

/-- A character that ends no line is kept.  `l` is the line so far, newest character first. -/
theorem lines_go_cons {c : Char} (h : isLineBreak c = false) (s l : List Char) :
    lines.go (c :: s) l = lines.go s (c :: l) := by
  rw [lines.go.eq_4 _ _ _ fun _ e => absurd e (ne_of_not_isLineBreak h), h]
  rfl

theorem lines_go_append {s : List Char} (h : Unbroken s) (t l : List Char) :
    lines.go (s ++ t) l = lines.go t (s.reverse ++ l) := by
  induction s generalizing l with
  | nil => rfl
  | cons c s ih =>
    obtain ⟨hc, hs⟩ := List.forall_mem_cons.1 h
    rw [List.cons_append, lines_go_cons hc, ih hs, List.reverse_cons, List.append_assoc]
    rfl

theorem lines_go_lineFeed (s l : List Char) : lines.go ('\n' :: s) l = l.reverse :: lines.go s [] :=
  rfl

/-- Lines that hold no line break are cut apart again, but for an empty one at the end. -/
theorem lines_intercalate {ls : List (List Char)} (h : ∀ l ∈ ls, Unbroken l) :
    lines (List.intercalate ['\n'] ls) = ls ∨ lines (List.intercalate ['\n'] ls) ++ [[]] = ls := by
  induction ls with
  | nil => exact .inl rfl
  | cons l ls ih =>
    obtain ⟨hl, hls⟩ := List.forall_mem_cons.1 h
    cases ls with
    | nil =>
      have e : lines (List.intercalate ['\n'] [l]) = lines.go [] l.reverse := by
        have := lines_go_append hl [] []
        rw [List.append_nil] at this
        rw [List.intercalate_singleton, lines, this, List.append_nil]
      rw [e]
      cases l with
      | nil => exact .inr rfl
      | cons c l =>
        -- the reversed line is not empty, so it is one
        obtain ⟨d, r, hr⟩ := List.exists_cons_of_ne_nil (l := (c :: l).reverse) (by simp)
        rw [hr]
        exact .inl (by rw [← List.reverse_reverse (c :: l), hr]; rfl)
    | cons l' ls =>
      have e : lines (List.intercalate ['\n'] (l :: l' :: ls)) =
          l :: lines (List.intercalate ['\n'] (l' :: ls)) := by
        have := lines_go_append hl ('\n' :: List.intercalate ['\n'] (l' :: ls)) []
        rw [List.append_nil, lines_go_lineFeed, List.reverse_reverse] at this
        exact this
      rw [e]
      exact (ih hls).imp (congrArg (l :: ·)) (congrArg (l :: ·))

/-! ## Words -/

/-- A word is a text without blanks. -/
def IsWord (w : List Char) : Prop := w ≠ [] ∧ ∀ c ∈ w, isBlank c = false

instance (w : List Char) : Decidable (IsWord w) :=
  have : Decidable (∀ c ∈ w, isBlank c = false) := List.decidableBAll _ w
  inferInstanceAs (Decidable (w ≠ [] ∧ _))

section

variable {c : Char} {w : List Char}

/-- What is not blank goes on with a word.  `w` is the word so far, newest character first. -/
theorem words_go_cons (h : isBlank c = false) (s : List Char) :
    words.go (c :: s) w = words.go s (c :: w) := by
  rw [words.go.eq_def]
  simp only [h, Bool.false_eq_true, if_false]

/-- A blank ends the word. -/
theorem words_go_blank {b : Char} (h : isBlank b = true) (s : List Char) :
    words.go (b :: s) (c :: w) = (c :: w).reverse :: words.go s [] := by
  rw [words.go.eq_def]
  simp only [h, if_true]

theorem words_go_nil : words.go [] (c :: w) = [(c :: w).reverse] := by
  rw [words.go.eq_def]

theorem words_go_append {s : List Char} (h : ∀ c ∈ s, isBlank c = false) (t : List Char) :
    words.go (s ++ t) w = words.go t (s.reverse ++ w) := by
  induction s generalizing w with
  | nil => rfl
  | cons c s ih =>
    obtain ⟨hc, hs⟩ := List.forall_mem_cons.1 h
    rw [List.cons_append, words_go_cons hc, ih hs, List.reverse_cons, List.append_assoc]
    rfl

end

/-- Words with a space between each two are found again. -/
theorem words_intercalate {ws : List (List Char)} (h : ∀ w ∈ ws, IsWord w) :
    words (List.intercalate [' '] ws) = ws := by
  induction ws with
  | nil => rfl
  | cons w ws ih =>
    obtain ⟨⟨hne, hw⟩, hws⟩ := List.forall_mem_cons.1 h
    obtain ⟨c, r, hr⟩ := List.exists_cons_of_ne_nil (List.reverse_ne_nil_iff.2 hne)
    have hback : w = (c :: r).reverse := by rw [← hr, List.reverse_reverse]
    cases ws with
    | nil =>
      have e := words_go_append (w := []) hw []
      rw [List.append_nil, List.append_nil, hr] at e
      rw [List.intercalate_singleton, words, e, words_go_nil, hback]
    | cons w' ws =>
      have hjoin : List.intercalate [' '] (w :: w' :: ws) =
          w ++ ' ' :: List.intercalate [' '] (w' :: ws) := by simp [List.intercalate]
      rw [hjoin, words, words_go_append hw, List.append_nil, hr, words_go_blank (by decide),
        ← words, ih hws, hback]

theorem squeeze_intercalate {ws : List (List Char)} (h : ∀ w ∈ ws, IsWord w) :
    squeeze (List.intercalate [' '] ws) = List.intercalate [' '] ws := by
  rw [squeeze, words_intercalate h]

end GhciHost.Text
