import GhciHost.Proofs.Suggestion.Curled
import GhciHost.Proofs.Text.Squeezed
import GhciHost.Text.Blank
import GhciHost.Text.Digit
import GhciHost.Text.Lines

/-!
# Runs of digits

A run of digits can be read as a number if it is not too long.  No run grows when a text is cut, when
texts are put together with something between them that is no digit, or when characters are replaced
by others that are no digits.

* `ShortRuns`   no run of digits in a text is too long;
* `infix_of_mem_words`, `infix_trim`   pieces of a text;
* `ShortRuns.intercalate`, `ShortRuns.squeeze`   texts with a separator between each two;
* `Redigits`, `ShortRuns.curled`   a text with other quotes.
-/

namespace GhciHost

namespace Text

variable {s t : List Char}

/-- No run of digits is too long to be read as a number. -/
def ShortRuns (s : List Char) : Prop :=
  ∀ ds, ds <:+: s → (∀ c ∈ ds, isDecimal c = true) → ds.length ≤ maxDigits

/-! ## Pieces of a text -/

theorem suffix_trimLeft (s : List Char) : trimLeft s <:+ s := List.dropWhile_suffix _

theorem prefix_trimRight (s : List Char) : trimRight s <+: s := by
  have h := List.reverse_prefix.2 (List.dropWhile_suffix isBlank (l := s.reverse))
  rwa [List.reverse_reverse] at h

theorem infix_trim (s : List Char) : trim s <:+: s :=
  (prefix_trimRight _).isInfix.trans (suffix_trimLeft s).isInfix

/-- A word is a piece of the text.  `w` is the word that is open before it, newest character
    first. -/
theorem infix_of_mem_words_go {word w : List Char} (h : word ∈ words.go s w) :
    word <:+: w.reverse ++ s := by
  fun_induction words.go s w with
  | case1 => cases h
  | case2 w =>
    rw [List.mem_singleton.1 h]
    exact (List.prefix_append _ _).isInfix
  | case3 c s hblank ih => exact (ih h).trans (List.suffix_cons c s).isInfix
  | case4 c s hblank w hw ih =>
    rcases List.mem_cons.1 h with rfl | h
    · exact (List.prefix_append _ _).isInfix
    · have hs := List.suffix_append (w.reverse ++ [c]) s
      rw [List.append_assoc] at hs
      exact (ih h).trans hs.isInfix
  | case5 c s w hblank ih =>
    have hword := ih h
    rwa [List.reverse_cons, List.append_assoc] at hword

theorem infix_of_mem_words {word : List Char} (h : word ∈ words s) : word <:+: s :=
  infix_of_mem_words_go h

/-! ## Short runs -/

namespace ShortRuns

theorem of_length_le (h : s.length ≤ maxDigits) : ShortRuns s := fun _ hds _ =>
  Nat.le_trans hds.length_le h

theorem of_isInfix (h : ShortRuns s) (ht : t <:+: s) : ShortRuns t := fun ds hds =>
  h ds (hds.trans ht)

/-- A run of digits does not reach across a character that is none. -/
theorem append_cons (hs : ShortRuns s) {c : Char} (hc : isDecimal c = false) (ht : ShortRuns t) :
    ShortRuns (s ++ c :: t) := by
  intro ds hds hdigits
  have hmem : c ∉ ds := fun hm => by
    rw [hdigits c hm] at hc
    cases hc
  rcases List.infix_append_iff_ne_nil.1 hds with hds | hds | ⟨l₁, l₂, -, hne, rfl, -, hl₂⟩
  · exact hs ds hds hdigits
  · rcases List.infix_cons_iff.1 hds with hds | hds
    · obtain ⟨r, hr⟩ := hds
      cases ds with
      | nil => exact Nat.zero_le _
      | cons d ds =>
        rw [(List.cons.inj hr).1] at hmem
        exact absurd List.mem_cons_self hmem
    · exact ht ds hds hdigits
  · obtain ⟨d, l₂, rfl⟩ := List.exists_cons_of_ne_nil hne
    obtain ⟨r, hr⟩ := hl₂
    rw [(List.cons.inj hr).1] at hmem
    exact absurd (List.mem_append_right l₁ List.mem_cons_self) hmem

/-- Texts that are joined by a character that is no digit. -/
theorem intercalate {c : Char} (hc : isDecimal c = false) {ps : List (List Char)}
    (hps : ∀ p ∈ ps, ShortRuns p) : ShortRuns (List.intercalate [c] ps) := by
  induction ps with
  | nil => exact .of_length_le (Nat.zero_le _)
  | cons p ps ih =>
    obtain ⟨hp, hps⟩ := List.forall_mem_cons.1 hps
    cases ps with
    | nil => rwa [List.intercalate_singleton]
    | cons q ps =>
      rw [List.intercalate_cons_cons, List.append_assoc]
      exact hp.append_cons hc (ih hps)

/-- Blanks that are squeezed still part the digits. -/
theorem squeeze (hs : ShortRuns s) : ShortRuns (squeeze s) :=
  .intercalate (by decide) fun _ hw => hs.of_isInfix (infix_of_mem_words hw)

end ShortRuns

/-! ## Characters that are replaced -/

/-- A text has the digits that another has at the same places, and perhaps not all of them. -/
def Redigits (s t : List Char) : Prop :=
  List.Forall₂ (fun c d => isDecimal d = true → c = d) s t

namespace Redigits

/-- Digits are those that were there before. -/
theorem eq_of_digits (h : Redigits s t) (hdigits : ∀ c ∈ t, isDecimal c = true) : s = t := by
  induction h with
  | nil => rfl
  | cons hcd _ ih =>
    obtain ⟨hd, hdigits⟩ := List.forall_mem_cons.1 hdigits
    rw [hcd hd, ih hdigits]

/-- A run of digits was there before. -/
theorem infix_of_digits (h : Redigits s t) {ds : List Char} (hds : ds <:+: t)
    (hdigits : ∀ c ∈ ds, isDecimal c = true) : ds <:+: s := by
  obtain ⟨p, q, rfl⟩ := hds
  have hpd : Redigits (s.take (p ++ ds).length) (p ++ ds) :=
    List.forall₂_take_append s (p ++ ds) q h
  have hd : Redigits ((s.take (p ++ ds).length).drop p.length) ds :=
    List.forall₂_drop_append _ p ds hpd
  rw [← hd.eq_of_digits hdigits]
  exact (List.drop_suffix _ _).isInfix.trans (List.take_prefix _ _).isInfix

end Redigits

theorem ShortRuns.redigits (hs : ShortRuns s) (h : Redigits s t) : ShortRuns t :=
  fun ds hds hdigits => hs ds (h.infix_of_digits hds hdigits) hdigits

/-- Quotes that are curled are no digits, and neither are those that they stand for. -/
theorem redigits_curled (s : List Char) : Redigits s (Suggestion.curled s) :=
  (Suggestion.recurled_curled s).imp fun c d h hd => by
    obtain rfl | ⟨-, rfl⟩ | ⟨-, rfl⟩ := h
    · rfl
    · exact absurd hd (by decide)
    · exact absurd hd (by decide)

theorem ShortRuns.curled (hs : ShortRuns s) : ShortRuns (Suggestion.curled s) :=
  hs.redigits (redigits_curled s)

end Text

end GhciHost
