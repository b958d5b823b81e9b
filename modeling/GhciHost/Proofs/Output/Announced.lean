import Mathlib.Data.List.TakeWhile
import GhciHost.Output.Announcement
import GhciHost.Proofs.Text.Written

/-!
# Announced ports

A line announces a port if it starts with the phrase, some blanks and a digit.  It may go on with
anything: what is taken out of the text goes from the phrase to the digits and the blanks behind
them, and over the line feed only if that comes next.  A number may have more digits than can be
read.

* `announced?_text`   what is read where an announcement stands, whatever follows;
* `findAnnouncement_fed`   lines that announce nothing are passed;
* `exists_firstAt`, `extractPort_of_not_announces`, `FirstAt.extractPort_eq`   what is read of any
  text;
* `extractPort_line`, `extractPort_lastLine`   a whole line is taken out;
* `extractPort_eq_error_iff`   when nothing can be read.
-/

namespace GhciHost.Output

open Text

variable {l s : List Char} {ls : List (List Char)}

/-! ## Announcements -/

/-- A port as it is announced. -/
structure Announcement where
  /-- The blanks in front of the number. -/
  gap : List Char
  digits : List Char
  /-- The blanks behind the number. -/
  trail : List Char
  isGap_gap : ∀ c ∈ gap, isGap c = true
  digits_ne_nil : digits ≠ []
  isDecimal_digits : ∀ c ∈ digits, isDecimal c = true
  isGap_trail : ∀ c ∈ trail, isGap c = true

/-- An announcement as it is written. -/
def Announcement.text (a : Announcement) : List Char :=
  announcement ++ (a.gap ++ (a.digits ++ a.trail))

/-- A text does not go on with an announcement: neither with its blanks nor with its digits. -/
def Announcement.EndsAt (a : Announcement) (s : List Char) : Prop :=
  ∀ c ∈ s.head?, isGap c = false ∧ (a.trail = [] → isDecimal c = false)

/-- The text behind a line feed, if it starts with one. -/
def behindLineFeed : List Char → List Char
  | '\n' :: s => s
  | s => s

theorem isGap_of_isDecimal {c : Char} (h : isDecimal c = true) : isGap c = false := by
  by_contra hgap
  simp only [Bool.not_eq_false, isGap, Bool.or_eq_true, beq_iff_eq] at hgap
  rcases hgap with rfl | rfl
  · exact absurd h (by decide)
  · exact absurd h (by decide)

/-- What is read where an announcement stands. -/
theorem announced?_text (a : Announcement) (h : a.EndsAt s) :
    announced? (a.text ++ s) = some (a.digits, behindLineFeed s) := by
  have hdigit : ∀ c ∈ (a.digits ++ (a.trail ++ s)).head?, isGap c = false := by
    intro c hc
    obtain ⟨d, ds, hds⟩ := List.exists_cons_of_ne_nil a.digits_ne_nil
    rw [hds, List.cons_append, List.head?_cons, Option.mem_some_iff] at hc
    exact hc ▸ isGap_of_isDecimal (a.isDecimal_digits d (hds ▸ List.mem_cons_self))
  have htrail : ∀ c ∈ (a.trail ++ s).head?, isDecimal c = false := by
    intro c hc
    cases ht : a.trail with
    | nil =>
      rw [ht] at hc
      exact (h c hc).2 ht
    | cons d ds =>
      rw [ht, List.cons_append, List.head?_cons, Option.mem_some_iff] at hc
      by_contra hdecimal
      have hgap := isGap_of_isDecimal (Bool.not_eq_false _ ▸ hdecimal)
      rw [← hc, a.isGap_trail d (ht ▸ List.mem_cons_self)] at hgap
      cases hgap
  have hsplit : a.text ++ s = announcement ++ (a.gap ++ (a.digits ++ (a.trail ++ s))) := by
    simp [Announcement.text]
  obtain ⟨-, hgap⟩ := takeWhile_dropWhile_append a.isGap_gap hdigit
  obtain ⟨htake, hdrop⟩ := takeWhile_dropWhile_append a.isDecimal_digits htrail
  obtain ⟨-, hrest⟩ := takeWhile_dropWhile_append a.isGap_trail fun c hc => (h c hc).1
  have hsome : a.digits.isEmpty = false := List.isEmpty_eq_false_iff.2 a.digits_ne_nil
  rw [hsplit, announced?, stripPrefix?_eq_some.2 rfl]
  simp only [Option.bind_eq_bind, Option.bind_some, hgap, htake, hdrop, hrest, hsome,
    Bool.false_eq_true, if_false]
  rfl

/-- A line announces a port: behind the phrase and some blanks a digit stands. -/
def Announces (s : List Char) : Prop :=
  ∃ gap d rest, (∀ c ∈ gap, isGap c = true) ∧ isDecimal d = true ∧
    s = announcement ++ (gap ++ d :: rest)

/-- What a span goes up to is not in it. -/
theorem head?_dropWhile_eq_false {p : Char → Bool} {t : List Char} :
    ∀ c ∈ (t.dropWhile p).head?, p c = false := by
  intro c hc
  have h := List.head?_dropWhile_not p t
  rwa [Option.mem_def.1 hc] at h

/-- A text that announces a port is an announcement and what it does not go on with. -/
theorem Announces.exists_text (h : Announces s) :
    ∃ (a : Announcement) (rest : List Char), a.EndsAt rest ∧ s = a.text ++ rest := by
  obtain ⟨gap, d, rest, hgap, hd, rfl⟩ := h
  let behind := (d :: rest).dropWhile isDecimal
  let a : Announcement :=
    { gap
      digits := (d :: rest).takeWhile isDecimal
      trail := behind.takeWhile isGap
      isGap_gap := hgap
      digits_ne_nil := by rw [List.takeWhile_cons_of_pos hd]; exact List.cons_ne_nil _ _
      isDecimal_digits := fun c hc => List.mem_takeWhile_imp hc
      isGap_trail := fun c hc => List.mem_takeWhile_imp hc }
  refine ⟨a, behind.dropWhile isGap,
    fun c hc => ⟨head?_dropWhile_eq_false c hc, fun htrail => ?_⟩, ?_⟩
  -- without blanks, what stands behind the announcement stands behind the digits
  · have hbehind : behind.dropWhile isGap = behind := by
      simpa [a, show behind.takeWhile isGap = [] from htrail] using
        List.takeWhile_append_dropWhile (p := isGap) (l := behind)
    exact head?_dropWhile_eq_false c (hbehind ▸ hc)
  · simp only [Announcement.text, List.append_assoc, a, behind, List.takeWhile_append_dropWhile]

theorem announces_of_announced? {x : List Char × List Char} (h : announced? s = some x) :
    Announces s := by
  simp only [announced?, Option.bind_eq_bind, Option.bind_eq_some_iff] at h
  obtain ⟨t, ht, h⟩ := h
  split at h
  · cases h
  · next hdigits =>
    cases hdrop : t.dropWhile isGap with
    | nil => simp [hdrop] at hdigits
    | cons d u =>
      have hd : isDecimal d = true := by
        by_contra hd
        exact hdigits (by rw [hdrop, List.takeWhile_cons_of_neg hd]; rfl)
      refine ⟨t.takeWhile isGap, d, u, fun c hc => List.mem_takeWhile_imp hc, hd, ?_⟩
      rw [← hdrop, List.takeWhile_append_dropWhile]
      exact stripPrefix?_eq_some.1 ht

theorem announced?_eq_none : announced? s = none ↔ ¬ Announces s := by
  constructor
  · intro h hs
    obtain ⟨a, rest, hends, rfl⟩ := hs.exists_text
    rw [announced?_text a hends] at h
    cases h
  · intro h
    by_contra hne
    obtain ⟨x, hx⟩ := Option.ne_none_iff_exists'.1 hne
    exact h (announces_of_announced? hx)

/-- A prefix without the character ends in front of it. -/
theorem prefix_of_not_mem {c : Char} {p t r : List Char} (hp : c ∉ p)
    (h : t ++ c :: s = p ++ r) : p <+: t := by
  rcases List.append_eq_append_iff.1 h with ⟨u, rfl, hu⟩ | ⟨u, rfl, -⟩
  · cases u with
    | nil => exact ⟨[], by simp⟩
    | cons d u =>
      rw [List.cons_append, List.cons.injEq] at hu
      exact absurd (List.mem_append_right t (hu.1 ▸ List.mem_cons_self)) hp
  · exact List.prefix_append p u

/-- Whether a line announces a port does not depend on the lines behind it. -/
theorem announces_line (h : '\n' ∉ l) (s : List Char) :
    Announces (l ++ '\n' :: s) ↔ Announces l := by
  constructor
  · rintro ⟨gap, d, rest, hgap, hd, heq⟩
    have hhead : '\n' ∉ announcement ++ (gap ++ [d]) := by
      simp only [List.mem_append, List.mem_singleton, not_or]
      refine ⟨by decide, fun hmem => absurd (hgap _ hmem) (by decide), ?_⟩
      rintro rfl
      exact absurd hd (by decide)
    have hsplit : l ++ '\n' :: s = (announcement ++ (gap ++ [d])) ++ rest := by simp [heq]
    obtain ⟨u, hu⟩ := prefix_of_not_mem hhead hsplit
    exact ⟨gap, d, u, hgap, hd, by simp [← hu]⟩
  · rintro ⟨gap, d, rest, hgap, hd, rfl⟩
    exact ⟨gap, d, rest ++ '\n' :: s, hgap, hd, by simp⟩

/-! ## Lines in front of an announcement -/

/-- The first character of a line ends no line, and none of the others does. -/
theorem lineFeed_not_mem_cons {c : Char} (h : '\n' ∉ c :: l) : (c == '\n') = false ∧ '\n' ∉ l := by
  simp only [List.mem_cons, not_or] at h
  exact ⟨beq_eq_false_iff_ne.2 (Ne.symm h.1), h.2⟩

theorem findAnnouncement_false_of_not_mem (h : '\n' ∉ l) : findAnnouncement false l = none := by
  induction l with
  | nil => rfl
  | cons c l ih =>
    obtain ⟨hc, hl⟩ := lineFeed_not_mem_cons h
    simp only [findAnnouncement, Bool.false_eq_true, if_false, hc, ih hl, Option.map_none]

/-- No announcement starts inside a line. -/
theorem findAnnouncement_false_line (h : '\n' ∉ l) (s : List Char) :
    findAnnouncement false (l ++ '\n' :: s) =
      (findAnnouncement true s).map
        fun (front, digits, rest) => (l ++ '\n' :: front, digits, rest) := by
  induction l with
  | nil =>
    simp only [List.nil_append, findAnnouncement, Bool.false_eq_true, if_false, beq_self_eq_true]
  | cons c l ih =>
    obtain ⟨hc, hl⟩ := lineFeed_not_mem_cons h
    simp only [List.cons_append, findAnnouncement, Bool.false_eq_true, if_false, hc, ih hl,
      Option.map_map]
    rfl

/-- Where nothing is announced, the search goes on behind the first character. -/
theorem findAnnouncement_cons {c : Char} (h : ¬ Announces (c :: s)) :
    findAnnouncement true (c :: s) =
      (findAnnouncement (c == '\n') s).map
        fun (front, digits, rest) => (c :: front, digits, rest) := by
  simp only [findAnnouncement, if_true, announced?_eq_none.2 h]

theorem findAnnouncement_of_not_announces (h : '\n' ∉ l) (hl : ¬ Announces l) :
    findAnnouncement true l = none := by
  cases l with
  | nil => rfl
  | cons c l =>
    obtain ⟨hc, hline⟩ := lineFeed_not_mem_cons h
    rw [findAnnouncement_cons hl, hc, findAnnouncement_false_of_not_mem hline, Option.map_none]

/-- A line that announces no port is passed. -/
theorem findAnnouncement_line (h : '\n' ∉ l) (hl : ¬ Announces l) (s : List Char) :
    findAnnouncement true (l ++ '\n' :: s) =
      (findAnnouncement true s).map
        fun (front, digits, rest) => (l ++ '\n' :: front, digits, rest) := by
  have hnone : ¬ Announces (l ++ '\n' :: s) := (announces_line h s).not.2 hl
  cases l with
  | nil => rw [List.nil_append, findAnnouncement_cons hnone, beq_self_eq_true]; rfl
  | cons c l =>
    obtain ⟨hc, hline⟩ := lineFeed_not_mem_cons h
    rw [List.cons_append] at hnone ⊢
    rw [findAnnouncement_cons hnone, hc, findAnnouncement_false_line hline, Option.map_map]
    rfl

/-- Lines with a line feed behind each. -/
def fed (ls : List (List Char)) : List Char := ls.flatMap (· ++ ['\n'])

/-- Lines that announce no port are passed. -/
theorem findAnnouncement_fed (h : ∀ l ∈ ls, '\n' ∉ l ∧ ¬ Announces l) (s : List Char) :
    findAnnouncement true (fed ls ++ s) =
      (findAnnouncement true s).map
        fun (front, digits, rest) => (fed ls ++ front, digits, rest) := by
  induction ls with
  | nil => simp [fed]
  | cons l ls ih =>
    obtain ⟨hl, hls⟩ := List.forall_mem_cons.1 h
    have hfront (t : List Char) : fed (l :: ls) ++ t = l ++ '\n' :: (fed ls ++ t) := by simp [fed]
    simp only [hfront, findAnnouncement_line hl.1 hl.2, ih hls, Option.map_map]
    rfl

/-- The first announcement at the start of a line. -/
theorem findAnnouncement_text (h : ∀ l ∈ ls, '\n' ∉ l ∧ ¬ Announces l) (a : Announcement)
    (hends : a.EndsAt s) :
    findAnnouncement true (fed ls ++ (a.text ++ s)) =
      some (fed ls, a.digits, behindLineFeed s) := by
  have hfirst : findAnnouncement true (a.text ++ s) = some ([], a.digits, behindLineFeed s) := by
    obtain ⟨c, t, hct⟩ : ∃ c t, a.text ++ s = c :: t := ⟨_, _, rfl⟩
    have hread := announced?_text a hends
    rw [hct] at hread ⊢
    simp only [findAnnouncement, if_true, hread]
  rw [findAnnouncement_fed h, hfirst, Option.map_some]
  simp only [List.append_nil]

/-! ## What is read of a text -/

/-- Along the lines of a text, the last of which has no line feed behind it. -/
@[elab_as_elim]
theorem lines_induction {motive : List Char → Prop} (last : ∀ l, '\n' ∉ l → motive l)
    (line : ∀ l s, '\n' ∉ l → motive s → motive (l ++ '\n' :: s)) (s : List Char) : motive s := by
  by_cases h : '\n' ∈ s
  · obtain ⟨l, t, hs, hl⟩ := List.eq_append_cons_of_mem h
    have : t.length < s.length := by simp only [hs, List.length_append, List.length_cons]; omega
    exact hs ▸ line l t hl (lines_induction last line t)
  · exact last s h
termination_by s.length

/-- The first announcement in a text. -/
structure FirstAt (ls : List (List Char)) (a : Announcement) (rest s : List Char) : Prop where
  lead : ∀ l ∈ ls, '\n' ∉ l ∧ ¬ Announces l
  ends : a.EndsAt rest
  eq : s = fed ls ++ (a.text ++ rest)

/-- Either no line announces a port, or one does first. -/
theorem exists_firstAt (s : List Char) :
    (∀ l ∈ segments '\n' s, ¬ Announces l) ∨ ∃ ls a rest, FirstAt ls a rest s := by
  induction s using lines_induction with
  | last l h =>
    rw [segments_of_not_mem h, List.forall_mem_singleton]
    refine (Classical.em (Announces l)).symm.imp id fun hl => ?_
    obtain ⟨a, rest, hends, rfl⟩ := hl.exists_text
    exact ⟨[], a, rest, List.forall_mem_nil _, hends, rfl⟩
  | line l s h ih =>
    rw [segments_append h, List.forall_mem_cons]
    by_cases hl : Announces l
    · obtain ⟨a, rest, hends, heq⟩ := ((announces_line h s).2 hl).exists_text
      exact .inr ⟨[], a, rest, List.forall_mem_nil _, hends, heq⟩
    · refine ih.imp (⟨hl, ·⟩) ?_
      rintro ⟨ls, a, rest, hfirst⟩
      exact ⟨l :: ls, a, rest, List.forall_mem_cons.2 ⟨⟨h, hl⟩, hfirst.lead⟩, hfirst.ends,
        by simp [hfirst.eq, fed]⟩

/-- Where no line announces a port, none is found. -/
theorem findAnnouncement_of_segments (h : ∀ l ∈ segments '\n' s, ¬ Announces l) :
    findAnnouncement true s = none := by
  induction s using lines_induction with
  | last l hl =>
    rw [segments_of_not_mem hl, List.forall_mem_singleton] at h
    exact findAnnouncement_of_not_announces hl h
  | line l s hl ih =>
    rw [segments_append hl, List.forall_mem_cons] at h
    rw [findAnnouncement_line hl h.1, ih h.2, Option.map_none]

/-- A text without an announcement is kept. -/
theorem extractPort_of_not_announces (h : ∀ l ∈ segments '\n' s, ¬ Announces l) :
    extractPort s = .ok (none, s) :=
  extractPort_of_none (findAnnouncement_of_segments h)

variable {a : Announcement} {rest : List Char}

/-- The first announcement is read and taken out, whatever its line goes on with. -/
theorem FirstAt.extractPort_eq (h : FirstAt ls a rest s) :
    extractPort s =
      (readNat? a.digits).map fun port => (some port, fed ls ++ behindLineFeed rest) := by
  rw [h.eq, extractPort, findAnnouncement_text h.lead a h.ends]

/-- A line that is an announcement is taken out with its line feed. -/
theorem extractPort_line (h : ∀ l ∈ ls, '\n' ∉ l ∧ ¬ Announces l) (a : Announcement)
    (hshort : a.digits.length ≤ maxDigits) (s : List Char) :
    extractPort (fed ls ++ (a.text ++ '\n' :: s)) = .ok (some (readNat a.digits), fed ls ++ s) := by
  have hfirst : FirstAt ls a ('\n' :: s) _ :=
    ⟨h, fun c hc => Option.some.inj hc ▸ ⟨by decide, fun _ => by decide⟩, rfl⟩
  rw [hfirst.extractPort_eq, readNat?_of_length_le hshort]
  rfl

/-- So is the last line, which has no line feed. -/
theorem extractPort_lastLine (h : ∀ l ∈ ls, '\n' ∉ l ∧ ¬ Announces l) (a : Announcement)
    (hshort : a.digits.length ≤ maxDigits) :
    extractPort (fed ls ++ a.text) = .ok (some (readNat a.digits), fed ls) := by
  have hfirst : FirstAt ls a [] (fed ls ++ a.text) := ⟨h, fun c hc => (by cases hc), by simp⟩
  rw [hfirst.extractPort_eq, readNat?_of_length_le hshort]
  simp only [Except.map, behindLineFeed, List.append_nil]

/-- A text cannot be read if the first number it announces is too long. -/
theorem extractPort_eq_error_iff {e : TooManyDigits} :
    extractPort s = .error e ↔
      ∃ ls a rest, FirstAt ls a rest s ∧ maxDigits < a.digits.length ∧ e = ⟨a.digits.length⟩ := by
  constructor
  · intro h
    rcases exists_firstAt s with hnone | ⟨ls, a, rest, hfirst⟩
    · rw [extractPort_of_not_announces hnone] at h
      cases h
    · refine ⟨ls, a, rest, hfirst, ?_⟩
      rw [hfirst.extractPort_eq, readNat?] at h
      split at h
      · next hlong => exact ⟨hlong, (Except.error.inj h).symm⟩
      · cases h
  · rintro ⟨ls, a, rest, hfirst, hlong, rfl⟩
    rw [hfirst.extractPort_eq, readNat?, if_pos hlong]
    rfl

/-- A line that goes on behind the number is no announcement, and is read as one. -/
example : extractPort "Port-Announcement: 80 (local)\n".toList =
    .ok (some 80, "(local)\n".toList) := rfl

end GhciHost.Output
