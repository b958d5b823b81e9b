import Mathlib.Data.List.TakeWhile
import GhciHost.Proofs.Diagnostic.Printed
import GhciHost.Text.Word

/-!
# Squeezed texts

Squeezing leaves the words of a text with one space between each two.  It can be followed character
by character: blanks in front go, a character in front of a word stays in front of it, and the blanks
behind a word become one space if another word follows.

* `Padded`, `padded_trim`   a text with blanks around it;
* `flatten_words`, `words_append_cons`   the words of a text, and of two with a blank between;
* `squeeze_blank_append`, `squeeze_cons`, `squeeze_cons_blank`   one character, or some blanks, in front;
* `Leads`   a text in front of another is squeezed on its own, but for the space between them;
* `spread`, `squeeze_spread`   words that stand apart are squeezed to the words with single spaces.
-/

namespace GhciHost

open Text

variable {c d : Char} {s t w : List Char}

namespace Diagnostic

theorem starts_cons : Starts (c :: s) ↔ isBlank c = false := by simp [Starts]

theorem Starts.append (h : Starts s) (t : List Char) : Starts (s ++ t) := by
  obtain ⟨c, hc, hb⟩ := h
  obtain ⟨r, rfl⟩ := List.head?_eq_some_iff.1 hc
  exact starts_cons.2 hb

/-- What ends with no blank stays when blanks behind it are dropped. -/
theorem Ends.trimRight_append (h : Ends s) (t : List Char) :
    ∃ r, Text.trimRight (s ++ t) = s ++ r := by
  have hs : (s.reverse.dropWhile isBlank).reverse = s := h.trimRight
  rw [Text.trimRight, List.reverse_append, List.dropWhile_append]
  split
  · exact ⟨[], by rw [hs, List.append_nil]⟩
  · exact ⟨(t.reverse.dropWhile isBlank).reverse, by rw [List.reverse_append, List.reverse_reverse]⟩

end Diagnostic

namespace Text

open Diagnostic (Starts Ends starts_cons)

/-! ## Blanks -/

/-- The code points of the blank characters. -/
def blankCodes : List Nat :=
  List.range' 0x09 5 ++ List.range' 0x1C 5 ++ [0x85, 0xA0, 0x1680] ++ List.range' 0x2000 11 ++
    [0x2028, 0x2029, 0x202F, 0x205F, 0x3000]

theorem toNat_mem_blankCodes (h : isBlank c = true) : c.toNat ∈ blankCodes := by
  simp only [isBlank, Bool.or_eq_true, Bool.and_eq_true, decide_eq_true_eq, beq_iff_eq] at h
  simp only [blankCodes, List.mem_append, List.mem_range'_1, List.mem_cons, List.not_mem_nil,
    or_false]
  omega

/-- What is true of no blank is true of characters that are not blank. -/
theorem isBlank_eq_false_of {p : Char → Bool} (hp : ∀ n ∈ blankCodes, p (Char.ofNat n) = false)
    (hc : p c = true) : isBlank c = false := by
  by_contra hb
  have h := hp _ (toNat_mem_blankCodes (by simpa using hb))
  rw [Char.ofNat_toNat, hc] at h
  cases h

/-- A digit is not blank. -/
theorem isBlank_of_isDecimal (h : isDecimal c = true) : isBlank c = false :=
  isBlank_eq_false_of (by decide +kernel) h

-- the list of the ranges is evaluated much faster than the array
theorem isWord_eq (c : Char) : isWord c = if c.toNat < 0x80 then c.isAlphanum || c == '_'
    else letterRanges.toList.any fun r => r.1 ≤ c.toNat && c.toNat ≤ r.2 := by
  rw [isWord, inRanges, Array.any_toList]

/-- A letter is not blank. -/
theorem isBlank_of_isWord (h : isWord c = true) : isBlank c = false :=
  isBlank_eq_false_of (p := fun c => if c.toNat < 0x80 then c.isAlphanum || c == '_'
    else letterRanges.toList.any fun r => r.1 ≤ c.toNat && c.toNat ≤ r.2) (by decide +kernel)
    (isWord_eq c ▸ h)

/-- Some blanks, and nothing else. -/
def IsGap (g : List Char) : Prop := g ≠ [] ∧ ∀ c ∈ g, isBlank c = true

-- the members are tried, not all characters
instance (g : List Char) : Decidable (IsGap g) :=
  have : Decidable (∀ c ∈ g, isBlank c = true) := List.decidableBAll _ g
  inferInstanceAs (Decidable (g ≠ [] ∧ _))

theorem IsWord.starts (h : IsWord w) : Starts w := by
  obtain ⟨c, r, rfl⟩ := List.exists_cons_of_ne_nil h.1
  exact starts_cons.2 (h.2 c List.mem_cons_self)

/-! ## Blanks around a text -/

/-- A text with blanks around it. -/
def Padded (x s : List Char) : Prop :=
  ∃ g g', (∀ c ∈ g, isBlank c = true) ∧ (∀ c ∈ g', isBlank c = true) ∧ s = g ++ (x ++ g')

theorem Padded.refl (s : List Char) : Padded s s := ⟨[], [], by simp⟩

theorem Padded.cons (h : Padded s t) (hc : isBlank c = true) : Padded s (c :: t) := by
  obtain ⟨g, g', hg, hg', rfl⟩ := h
  exact ⟨c :: g, g', List.forall_mem_cons.2 ⟨hc, hg⟩, hg', rfl⟩

/-- Blanks around a text make no difference when it is trimmed. -/
theorem Padded.trim_eq (h : Padded s t) : trim t = trim s := by
  obtain ⟨g, g', hg, hg', rfl⟩ := h
  have hright (s : List Char) : trimRight (s ++ g') = trimRight s := by
    have hg'' : ∀ c ∈ g'.reverse, isBlank c = true := fun c hc => hg' c (List.mem_reverse.1 hc)
    rw [trimRight, List.reverse_append, List.dropWhile_append_of_pos hg'', trimRight]
  rw [trim, trimLeft, List.dropWhile_append_of_pos hg, List.dropWhile_append]
  split
  · next hs =>
    rw [trim, trimLeft, List.isEmpty_iff.1 hs]
    simp [List.dropWhile_eq_nil_iff.2 hg', trimRight]
  · rw [hright]
    rfl

/-- A text is what is left when it is trimmed, with the blanks that were. -/
theorem padded_trim (s : List Char) : Padded (trim s) s := by
  have hleft := List.takeWhile_append_dropWhile (p := isBlank) (l := s)
  have hright := List.takeWhile_append_dropWhile (p := isBlank) (l := (trimLeft s).reverse)
  refine ⟨s.takeWhile isBlank, ((trimLeft s).reverse.takeWhile isBlank).reverse,
    fun c => List.mem_takeWhile_imp, fun c hc => List.mem_takeWhile_imp (List.mem_reverse.1 hc), ?_⟩
  conv_lhs => rw [← hleft]
  rw [trim, trimRight, ← List.reverse_append, hright, List.reverse_reverse]
  rfl

/-- A trimmed text does not end at a blank. -/
theorem ends_trim (h : trim s ≠ []) : Ends (trim s) := by
  have hhead := List.head?_dropWhile_not isBlank (trimLeft s).reverse
  obtain ⟨c, r, hr⟩ : ∃ c r, (trimLeft s).reverse.dropWhile isBlank = c :: r :=
    List.exists_cons_of_ne_nil fun e => h (by rw [trim, trimRight, e, List.reverse_nil])
  rw [hr] at hhead
  exact ⟨c, by rw [trim, trimRight, hr]; simp, by simpa using hhead⟩

theorem length_trim_le (s : List Char) : (trim s).length ≤ s.length := by
  obtain ⟨g, g', -, -, h⟩ := padded_trim s
  have hlength := congrArg List.length h
  simp only [List.length_append] at hlength
  omega

/-- A trimmed text does not begin with a blank. -/
theorem starts_trim (h : trim s ≠ []) : Starts (trim s) := by
  obtain ⟨c, r, hr⟩ := List.exists_cons_of_ne_nil h
  have htrim : trim (c :: r) = c :: r := by rw [← hr]; exact (padded_trim s).trim_eq.symm
  rw [hr, starts_cons, Bool.eq_false_iff]
  intro hc
  have hshort := length_trim_le r
  rw [← Padded.trim_eq ((Padded.refl r).cons hc), htrim, List.length_cons] at hshort
  omega

/-! ## The first word -/

theorem words_blank_append {g : List Char} (hg : ∀ c ∈ g, isBlank c = true) (s : List Char) :
    words (g ++ s) = words s := by
  induction g with
  | nil => rfl
  | cons c g ih =>
    obtain ⟨hc, hg⟩ := List.forall_mem_cons.1 hg
    rw [List.cons_append, words, words.go.eq_def]
    simp only [hc, if_true]
    exact ih hg

/-- The word that is open, or begins, ends at the first blank.  `w` is what there is of it, newest
    character first. -/
theorem words_go_open (h : w ≠ [] ∨ Starts s) :
    words.go s w =
      (w.reverse ++ s.takeWhile (!isBlank ·)) :: words (s.dropWhile (!isBlank ·)) := by
  induction s generalizing w with
  | nil =>
    have hw : w ≠ [] := h.resolve_right (by simp [Starts])
    obtain ⟨c, w, rfl⟩ := List.exists_cons_of_ne_nil hw
    rw [words_go_nil, List.takeWhile_nil, List.dropWhile_nil, List.append_nil]
    rfl
  | cons c s ih =>
    cases hc : isBlank c with
    | true =>
      have hw : w ≠ [] := h.resolve_right (by simp [starts_cons, hc])
      obtain ⟨d, w, rfl⟩ := List.exists_cons_of_ne_nil hw
      have hrest : words (c :: s) = words s :=
        words_blank_append (g := [c]) (List.forall_mem_singleton.2 hc) s
      rw [words_go_blank hc, List.takeWhile_cons_of_neg (by simp [hc]),
        List.dropWhile_cons_of_neg (by simp [hc]), List.append_nil, hrest]
      rfl
    | false =>
      rw [words_go_cons hc, ih (.inl (List.cons_ne_nil _ _)),
        List.takeWhile_cons_of_pos (by simp [hc]), List.dropWhile_cons_of_pos (by simp [hc]),
        List.reverse_cons, List.append_assoc]
      rfl

theorem words_of_starts (h : Starts s) :
    words s = s.takeWhile (!isBlank ·) :: words (s.dropWhile (!isBlank ·)) :=
  words_go_open (w := []) (.inr h)

/-! ## The words of parts -/

/-- The words of a text are all of it that is not blank.  `w` is the word that is open, newest
    character first. -/
theorem flatten_words_go (s w : List Char) :
    (words.go s w).flatten = w.reverse ++ s.filter (!isBlank ·) := by
  fun_induction words.go s w with
  | case1 => rfl
  | case2 => simp
  | case3 c s h ih => simpa [h] using ih
  | case4 c s h w hw ih => simpa [h] using ih
  | case5 c s w h ih => simpa [h] using ih

theorem flatten_words (s : List Char) : (words s).flatten = s.filter (!isBlank ·) :=
  flatten_words_go s []

theorem words_eq_nil : words s = [] ↔ ∀ c ∈ s, isBlank c = true := by
  constructor
  · intro h c hc
    have hfilter := flatten_words s
    rw [h, List.flatten_nil, eq_comm, List.filter_eq_nil_iff] at hfilter
    simpa using hfilter c hc
  · intro h
    have hwords := words_blank_append h []
    rwa [List.append_nil] at hwords

/-- A blank parts the words. -/
theorem words_append_cons {b : Char} (hb : isBlank b = true) (s t : List Char) :
    words (s ++ b :: t) = words s ++ words t := by
  have hgo (w : List Char) : words.go (s ++ b :: t) w = words.go s w ++ words t := by
    fun_induction words.go s w with
    | case1 => exact words_blank_append (g := [b]) (List.forall_mem_singleton.2 hb) t
    | case2 w hw =>
      obtain ⟨c, w, rfl⟩ := List.exists_cons_of_ne_nil hw
      exact words_go_blank hb t
    | case3 c s h ih =>
      rw [List.cons_append, words.go.eq_def]
      simpa only [h, if_true] using ih
    | case4 c s h w hw ih =>
      obtain ⟨d, w, rfl⟩ := List.exists_cons_of_ne_nil hw
      rw [List.cons_append, words_go_blank h, ih, List.cons_append]
    | case5 c s w h ih =>
      rw [List.cons_append, words_go_cons (by simpa using h), ih]
  exact hgo []

theorem words_intercalate_blank {b : Char} (hb : isBlank b = true) (ls : List (List Char)) :
    words (List.intercalate [b] ls) = ls.flatMap words := by
  induction ls with
  | nil => rfl
  | cons l ls ih =>
    cases ls with
    | nil => rw [List.intercalate_singleton, List.flatMap_singleton]
    | cons m ls =>
      rw [List.intercalate_cons_cons, List.append_assoc, List.singleton_append,
        words_append_cons hb, ih]
      rfl

theorem words_padded (h : Padded s t) : words t = words s := by
  obtain ⟨g, g', hg, hg', rfl⟩ := h
  rw [words_blank_append hg]
  cases g' with
  | nil => rw [List.append_nil]
  | cons b g' =>
    obtain ⟨hb, hg'⟩ := List.forall_mem_cons.1 hg'
    rw [words_append_cons hb, words_eq_nil.2 hg', List.append_nil]

theorem squeeze_padded (h : Padded s t) : squeeze t = squeeze s := by
  rw [squeeze, words_padded h, squeeze]

/-! ## One character in front -/

theorem squeeze_blank_append {g : List Char} (hg : ∀ c ∈ g, isBlank c = true) (s : List Char) :
    squeeze (g ++ s) = squeeze s := by
  rw [squeeze, words_blank_append hg, squeeze]

theorem words_cons (hc : isBlank c = false) (s : List Char) :
    words (c :: s) = (c :: s.takeWhile (!isBlank ·)) :: words (s.dropWhile (!isBlank ·)) := by
  rw [words_of_starts (starts_cons.2 hc), List.takeWhile_cons_of_pos (by simp [hc]),
    List.dropWhile_cons_of_pos (by simp [hc])]

theorem squeeze_cons (hc : isBlank c = false) (hs : Starts s) :
    squeeze (c :: s) = c :: squeeze s := by
  rw [squeeze, words_cons hc, squeeze, words_of_starts hs]
  cases words (s.dropWhile (!isBlank ·)) <;> simp [List.intercalate]

/-- Blanks behind a word become one space, if another word follows. -/
theorem squeeze_cons_blank (hc : isBlank c = false) (hs : ¬ Starts s) (hne : words s ≠ []) :
    squeeze (c :: s) = c :: ' ' :: squeeze s := by
  cases s with
  | nil => exact absurd rfl hne
  | cons d s =>
    have hd : isBlank d = true := by
      rw [starts_cons] at hs
      simpa using hs
    rw [squeeze, words_cons hc, List.takeWhile_cons_of_neg (by simp [hd]),
      List.dropWhile_cons_of_neg (by simp [hd]), squeeze]
    obtain ⟨v, vs, hv⟩ := List.exists_cons_of_ne_nil hne
    rw [hv, List.intercalate_cons_cons]
    rfl

/-- Blanks behind a word go, if no other word follows. -/
theorem squeeze_cons_nil (hc : isBlank c = false) (hs : ∀ d ∈ s, isBlank d = true) :
    squeeze (c :: s) = [c] := by
  have hpadded : Padded [c] (c :: s) := ⟨[], s, List.forall_mem_nil _, hs, rfl⟩
  rw [squeeze_padded hpadded, squeeze, words_cons hc]
  rfl

/-- What follows a character that is not blank stands behind it, perhaps with a space between. -/
theorem squeeze_cons_gap (hc : isBlank c = false) (s : List Char) :
    squeeze (c :: s) = c :: squeeze s ∨ squeeze (c :: s) = c :: ' ' :: squeeze s := by
  by_cases hs : Starts s
  · exact .inl (squeeze_cons hc hs)
  · by_cases hne : words s = []
    · rw [squeeze_cons_nil hc (words_eq_nil.1 hne), squeeze, hne]
      exact .inl rfl
    · exact .inr (squeeze_cons_blank hc hs hne)

/-- A squeezed text begins and ends with a word. -/
theorem starts_ends_squeeze (hs : words s ≠ []) : Starts (squeeze s) ∧ Ends (squeeze s) := by
  induction s with
  | nil => exact absurd rfl hs
  | cons c s ih =>
    cases hc : isBlank c with
    | true =>
      have hskip := words_blank_append (g := [c]) (List.forall_mem_singleton.2 hc) s
      rw [List.singleton_append] at hskip
      rw [hskip] at hs
      rw [squeeze, hskip]
      exact ih hs
    | false =>
      have hfirst (t : List Char) : Starts (c :: t) := starts_cons.2 hc
      by_cases hne : words s = []
      · rw [squeeze_cons_nil hc (words_eq_nil.1 hne)]
        exact ⟨hfirst _, c, rfl, hc⟩
      · have hends := (ih hne).2
        by_cases hs : Starts s
        · rw [squeeze_cons hc hs]
          exact ⟨hfirst _, hends.append [c]⟩
        · rw [squeeze_cons_blank hc hs hne]
          exact ⟨hfirst _, hends.append [c, ' ']⟩

theorem squeeze_eq_nil : squeeze s = [] ↔ words s = [] := by
  constructor
  · intro h
    by_contra hs
    obtain ⟨c, hc, -⟩ := (starts_ends_squeeze hs).1
    rw [h] at hc
    cases hc
  · intro h
    rw [squeeze, h]
    rfl

theorem trim_eq_nil : trim s = [] ↔ words s = [] := by
  constructor
  · intro h
    rw [words_padded (padded_trim s), h]
    rfl
  · intro h
    rw [trim, trimLeft, List.dropWhile_eq_nil_iff.2 (words_eq_nil.1 h)]
    rfl

/-- A text behind blanks begins alike when it is trimmed. -/
theorem trim_blank_append_cons {g : List Char} (hg : ∀ c ∈ g, isBlank c = true)
    (hc : isBlank c = false) (s : List Char) : ∃ r, trim (g ++ c :: s) = c :: r := by
  have htrim : trim (g ++ c :: s) = trim (c :: s) := Padded.trim_eq ⟨g, [], hg, nofun, by simp⟩
  obtain ⟨g, g', hg, hg', hs⟩ := padded_trim (c :: s)
  rw [htrim]
  cases g with
  | cons d g =>
    rw [(List.cons.inj hs).1, hg d List.mem_cons_self] at hc
    cases hc
  | nil =>
    cases hcore : trim (c :: s) with
    | cons d r =>
      rw [hcore] at hs
      exact ⟨r, by rw [(List.cons.inj hs).1]⟩
    | nil =>
      rw [words_eq_nil.1 (trim_eq_nil.1 hcore) c List.mem_cons_self] at hc
      cases hc

theorem trim_squeeze (s : List Char) : trim (squeeze s) = squeeze s := by
  by_cases hs : words s = []
  · rw [squeeze_eq_nil.2 hs]
    rfl
  · obtain ⟨hstarts, hends⟩ := starts_ends_squeeze hs
    exact Diagnostic.trim_of_starts_ends hstarts hends

/-! ## A text in front -/

theorem words_ne_nil (ht : Starts t) (s : List Char) : words (s ++ t) ≠ [] := fun h => by
  obtain ⟨c, hc, hb⟩ := ht
  rw [words_eq_nil.1 h c (List.mem_append_right s (List.mem_of_mem_head? hc))] at hb
  cases hb

/-- What squeezing leaves of a text in front of another one. -/
structure Leads (s t lead : List Char) : Prop where
  eq : squeeze (s ++ t) = lead ++ squeeze t
  /-- It is the text squeezed on its own, but for the space before the other one. -/
  space : lead = squeeze s ∨ lead = squeeze s ++ [' ']
  /-- What begins within it, and not at a blank, begins within the text as it was. -/
  within : ∀ u c v, lead = u ++ c :: v → isBlank c = false →
    ∃ a b, s = a ++ c :: b ∧ squeeze (c :: (b ++ t)) = c :: (v ++ squeeze t)

namespace Leads

variable {lead : List Char}

theorem nil (t : List Char) : Leads [] t [] where
  eq := rfl
  space := .inl rfl
  within u c v h := absurd h (by simp)

theorem eq_nil (h : Leads s t lead) (hs : ∀ c ∈ s, isBlank c = true) : lead = [] :=
  List.self_eq_append_left.1 ((squeeze_blank_append hs t).symm.trans h.eq)

/-- What begins behind the first character begins within the rest. -/
theorem within_cons (h : Leads s t lead) {u v : List Char} (hlead : lead = u ++ c :: v)
    (hc : isBlank c = false) (d : Char) :
    ∃ a b, d :: s = a ++ c :: b ∧ squeeze (c :: (b ++ t)) = c :: (v ++ squeeze t) := by
  obtain ⟨a, b, rfl, hb⟩ := h.within u c v hlead hc
  exact ⟨d :: a, b, rfl, hb⟩

theorem blank (h : Leads s t lead) (hd : isBlank d = true) : Leads (d :: s) t lead := by
  have hskip (s : List Char) : squeeze (d :: s) = squeeze s :=
    squeeze_blank_append (g := [d]) (List.forall_mem_singleton.2 hd) s
  refine ⟨?_, ?_, fun u c v hlead hc => h.within_cons hlead hc d⟩
  · rw [← h.eq]
    exact hskip _
  · rw [hskip]
    exact h.space

/-- A character that a character follows. -/
theorem cons (h : Leads s t lead) (hd : isBlank d = false) (hs : Starts (s ++ t)) :
    Leads (d :: s) t (d :: lead) := by
  have hfirst : squeeze (d :: (s ++ t)) = d :: (lead ++ squeeze t) := by
    rw [squeeze_cons hd hs, h.eq]
  refine ⟨hfirst, ?_, fun u c v hlead hc => ?_⟩
  · cases s with
    | nil =>
      rw [h.eq_nil (List.forall_mem_nil _), squeeze_cons_nil hd (List.forall_mem_nil _)]
      exact .inl rfl
    | cons e s =>
      rw [squeeze_cons hd (starts_cons.2 (starts_cons.1 hs))]
      exact h.space.imp (congrArg (d :: ·)) (congrArg (d :: ·))
  · cases u with
    | nil =>
      cases hlead
      exact ⟨[], s, rfl, hfirst⟩
    | cons e u => exact h.within_cons (List.cons.inj hlead).2 hc d

/-- A character that a blank follows. -/
theorem cons_blank (h : Leads s t lead) (hd : isBlank d = false) (ht : Starts t)
    (hs : ¬ Starts (s ++ t)) : Leads (d :: s) t (d :: ' ' :: lead) := by
  have hfirst : squeeze (d :: (s ++ t)) = d :: ' ' :: (lead ++ squeeze t) := by
    rw [squeeze_cons_blank hd hs (words_ne_nil ht s), h.eq]
  refine ⟨hfirst, ?_, fun u c v hlead hc => ?_⟩
  · by_cases hne : words s = []
    · have hall := words_eq_nil.1 hne
      rw [h.eq_nil hall, squeeze_cons_nil hd hall]
      exact .inr rfl
    · rw [squeeze_cons_blank hd (fun h => hs (h.append t)) hne]
      exact h.space.imp (congrArg (d :: ' ' :: ·)) (congrArg (d :: ' ' :: ·))
  · match u, hlead with
    | [], hlead =>
      cases hlead
      exact ⟨[], s, rfl, hfirst⟩
    | [_], hlead =>
      cases hlead
      exact absurd hc (by decide)
    | _ :: _ :: u, hlead => exact h.within_cons (List.cons.inj (List.cons.inj hlead).2).2 hc d

/-- A phrase that does not end with the space is in the text squeezed on its own. -/
theorem infix_squeeze (h : Leads s t lead) {p : List Char} (hc : c ≠ ' ')
    (hp : p ++ [c] <:+: lead) : p ++ [c] <:+: squeeze s := by
  obtain rfl | rfl := h.space
  · exact hp
  · obtain hlast | hp := List.infix_concat_iff.1 hp
    · obtain ⟨x, hx⟩ := hlast
      rw [← List.append_assoc] at hx
      exact absurd (List.singleton_inj.1 (List.append_inj' hx rfl).2) hc
    · exact hp

end Leads

theorem exists_leads (ht : Starts t) (s : List Char) : ∃ lead, Leads s t lead := by
  induction s with
  | nil => exact ⟨[], .nil t⟩
  | cons d s ih =>
    obtain ⟨lead, h⟩ := ih
    cases hd : isBlank d with
    | true => exact ⟨lead, h.blank hd⟩
    | false =>
      by_cases hs : Starts (s ++ t)
      · exact ⟨_, h.cons hd hs⟩
      · exact ⟨_, h.cons_blank hd ht hs⟩

/-- A text in front of a word is squeezed on its own, but for the blanks behind it. -/
theorem squeeze_append (ht : Starts t) (s : List Char) :
    ∃ lead, Padded (squeeze s) lead ∧ squeeze (s ++ t) = lead ++ squeeze t := by
  obtain ⟨lead, h⟩ := exists_leads ht s
  refine ⟨lead, ?_, h.eq⟩
  rcases h.space with rfl | rfl
  · exact .refl _
  · exact ⟨[], [' '], List.forall_mem_nil _, List.forall_mem_singleton.2 (by decide), rfl⟩

/-! ## Words that stand apart -/

/-- A word stays, and the blanks between it and the next word become one space. -/
theorem squeeze_word_append {g : List Char} (hw : IsWord w) (hg : IsGap g) (ht : Starts t) :
    squeeze (w ++ (g ++ t)) = w ++ ' ' :: squeeze t := by
  obtain ⟨hne, hw⟩ := hw
  induction w with
  | nil => exact absurd rfl hne
  | cons c w ih =>
    obtain ⟨hc, hw⟩ := List.forall_mem_cons.1 hw
    cases w with
    | nil =>
      obtain ⟨d, g', rfl⟩ := List.exists_cons_of_ne_nil hg.1
      have hs : ¬ Starts (d :: g' ++ t) := fun h => by
        rw [List.cons_append, starts_cons, hg.2 d List.mem_cons_self] at h
        cases h
      rw [List.singleton_append, squeeze_cons_blank hc hs (words_ne_nil ht _),
        squeeze_blank_append hg.2]
      rfl
    | cons d w =>
      have hs : Starts (d :: w ++ (g ++ t)) := starts_cons.2 (hw d List.mem_cons_self)
      rw [List.cons_append, squeeze_cons hc hs, ih (List.cons_ne_nil _ _) hw]
      rfl

/-- A word in front of a text stays, whatever follows. -/
theorem prefix_squeeze (hw : IsWord w) (s : List Char) : w <+: squeeze (w ++ s) := by
  have htake : (w ++ s).takeWhile (!isBlank ·) = w ++ s.takeWhile (!isBlank ·) :=
    List.takeWhile_append_of_pos fun c hc => by simp [hw.2 c hc]
  rw [squeeze, words_of_starts (hw.starts.append s), htake]
  cases words ((w ++ s).dropWhile (!isBlank ·)) with
  | nil =>
    rw [List.intercalate_singleton]
    exact List.prefix_append _ _
  | cons v vs =>
    rw [List.intercalate_cons_cons, List.append_assoc, List.append_assoc]
    exact List.prefix_append _ _

theorem intercalate_append_of_ne_nil {sep : List Char} {ws vs : List (List Char)} (hws : ws ≠ [])
    (hvs : vs ≠ []) : List.intercalate sep (ws ++ vs) =
      List.intercalate sep ws ++ (sep ++ List.intercalate sep vs) := by
  induction ws with
  | nil => exact absurd rfl hws
  | cons w ws ih =>
    cases ws with
    | nil =>
      rw [List.singleton_append, List.intercalate_cons_of_ne_nil hvs, List.intercalate_singleton,
        List.append_assoc]
    | cons w' ws =>
      rw [List.cons_append, List.cons_append, List.intercalate_cons_cons, ← List.cons_append,
        ih (List.cons_ne_nil _ _), List.intercalate_cons_cons, List.append_assoc (w ++ sep)]

theorem IsWord.squeeze_eq (hw : IsWord w) : squeeze w = w := by
  have h := squeeze_intercalate (List.forall_mem_singleton.2 hw)
  rwa [List.intercalate_singleton] at h

/-- A text that is squeezed to one word is that word, if there are no blanks around it. -/
theorem squeeze_eq_self (hs : trim s = s) (hw : IsWord (squeeze s)) : squeeze s = s := by
  have hinked : ∀ c ∈ s, isBlank c = false := by
    by_contra hno
    simp only [not_forall, Bool.not_eq_false] at hno
    obtain ⟨b, hb, hblank⟩ := hno
    obtain ⟨u, v, rfl⟩ := List.append_of_mem hb
    have hlength {t : List Char} (ht : Padded t (u ++ b :: v)) :
        (u ++ b :: v).length ≤ t.length := by
      rw [← hs, ht.trim_eq]
      exact length_trim_le t
    have hu : words u ≠ [] := fun h => by
      have hpadded : Padded v (u ++ b :: v) :=
        ⟨u ++ [b], [], by simpa [or_imp, forall_and, hblank] using words_eq_nil.1 h, by simp, by simp⟩
      have hle := hlength hpadded
      simp only [List.length_append, List.length_cons] at hle
      omega
    have hv : words v ≠ [] := fun h => by
      have hpadded : Padded u (u ++ b :: v) :=
        ⟨[], b :: v, by simp, List.forall_mem_cons.2 ⟨hblank, words_eq_nil.1 h⟩, rfl⟩
      have hle := hlength hpadded
      simp only [List.length_append, List.length_cons] at hle
      omega
    -- the words on either side of the blank would stay apart
    have hspace : ' ' ∈ squeeze (u ++ b :: v) := by
      rw [squeeze, words_append_cons hblank, intercalate_append_of_ne_nil hu hv]
      simp
    exact absurd (hw.2 ' ' hspace) (by decide)
  have hne : s ≠ [] := by
    rintro rfl
    exact hw.1 rfl
  exact IsWord.squeeze_eq ⟨hne, hinked⟩

/-- Words with blanks between each two; `gap` says which. -/
def spread (gap : Nat → List Char) : List (List Char) → List Char
  | [] => []
  | [w] => w
  | w :: w' :: ws => w ++ (gap 0 ++ spread (fun i => gap (i + 1)) (w' :: ws))

/-- Each of the words stands in the text. -/
theorem infix_spread (gap : Nat → List Char) {ws : List (List Char)} (hw : w ∈ ws) :
    w <:+: spread gap ws := by
  induction ws generalizing gap with
  | nil => cases hw
  | cons v ws ih =>
    cases ws with
    | nil =>
      exact List.mem_singleton.1 hw ▸ List.infix_rfl
    | cons v' ws =>
      rw [spread]
      obtain rfl | hw := List.mem_cons.1 hw
      · exact (List.prefix_append _ _).isInfix
      · exact (ih (fun i => gap (i + 1)) hw).trans ⟨v ++ gap 0, [], by simp⟩

theorem starts_spread {gap : Nat → List Char} (hw : IsWord w) (ws : List (List Char)) :
    Starts (spread gap (w :: ws)) := by
  cases ws with
  | nil => exact hw.starts
  | cons w' ws => exact hw.starts.append _

/-- Words that stand apart are squeezed to the words with single spaces, whatever follows. -/
theorem squeeze_spread {gap : Nat → List Char} (hgap : ∀ i, IsGap (gap i)) {ws : List (List Char)}
    (hws : ∀ w ∈ ws, IsWord w) (s : List Char) :
    List.intercalate [' '] ws <+: squeeze (spread gap ws ++ s) := by
  induction ws generalizing gap with
  | nil => exact List.nil_prefix
  | cons w ws ih =>
    obtain ⟨hw, hws⟩ := List.forall_mem_cons.1 hws
    cases ws with
    | nil =>
      rw [List.intercalate_singleton]
      exact prefix_squeeze hw s
    | cons w' ws =>
      have hnext : Starts (spread (fun i => gap (i + 1)) (w' :: ws) ++ s) :=
        (starts_spread (hws w' List.mem_cons_self) ws).append s
      rw [spread, List.append_assoc, List.append_assoc, squeeze_word_append hw (hgap 0) hnext,
        List.intercalate_cons_cons, List.append_assoc, List.singleton_append]
      exact (List.prefix_append_right_inj w).2 ((List.prefix_cons_inj ' ').2
        (ih (fun i => hgap (i + 1)) hws))

end Text

end GhciHost
