import GhciHost.Proofs.Suggestion.Paragraph
import GhciHost.Proofs.Suggestion.Proposed

/-!
# Packages and their versions

A hidden package is named with its version, and perhaps with something behind it that tells builds of
that version apart.  A version is made of digits and full stops, and there is a letter in every
component of a name, so the first hyphen that a version stands behind is the one that ends the name.

* `Release`   a package as it is named in a message;
* `isVersionSuffix_component`   no version begins within the name;
* `withoutVersion_text`   the name is what is left without the version;
* `enablePackage_release`   what is suggested.
-/

namespace GhciHost.Suggestion

open Text

variable {c : Char} {s t : List Char}

/-! ## Releases -/

/-- A component of a package's name: ASCII letters and digits, one letter at least. -/
def IsComponent (s : List Char) : Prop :=
  (∀ c ∈ s, c.isAlphanum = true) ∧ ∃ c ∈ s, c.isAlpha = true

instance (s : List Char) : Decidable (IsComponent s) :=
  have : Decidable (∀ c ∈ s, c.isAlphanum = true) := List.decidableBAll _ s
  have : Decidable (∃ c ∈ s, c.isAlpha = true) := List.decidableBEx _ s
  inferInstanceAs (Decidable (_ ∧ _))

/-- What may stand behind a version. -/
def IsSuffix (s : List Char) : Prop :=
  (∀ c ∈ s.head?, c ∈ ['-', '@', ':']) ∧
    ∀ c ∈ s, isBlank c = false ∧ c ≠ '’' ∧ c ≠ '\'' ∧ c ≠ grave

instance (s : List Char) : Decidable (IsSuffix s) :=
  have : Decidable (∀ c ∈ s.head?, c ∈ ['-', '@', ':']) :=
    decidable_of_iff (s.head?.all (· ∈ ['-', '@', ':']) = true) (by cases s <;> simp)
  have : Decidable (∀ c ∈ s, isBlank c = false ∧ c ≠ '’' ∧ c ≠ '\'' ∧ c ≠ grave) :=
    List.decidableBAll _ s
  inferInstanceAs (Decidable (_ ∧ _))

/-- A package in some version. -/
structure Release where
  /-- The first component of the name. -/
  first : List Char
  /-- The other components. -/
  more : List (List Char)
  /-- The first group of digits of the version. -/
  major : List Char
  /-- The other groups. -/
  minors : List (List Char)
  suffix : List Char
  isComponent : ∀ s ∈ first :: more, IsComponent s
  isNumeral : ∀ ds ∈ major :: minors, Location.IsNumeral ds
  isSuffix : IsSuffix suffix

namespace Release

/-- The name of the package, with hyphens between its components. -/
def name (r : Release) : List Char := r.first ++ r.more.flatMap ('-' :: ·)

/-- The version, with full stops between its groups. -/
def version (r : Release) : List Char := r.major ++ r.minors.flatMap ('.' :: ·)

/-- A release as it is named in a message. -/
def text (r : Release) : List Char := r.name ++ '-' :: (r.version ++ r.suffix)

end Release

/-! ## Versions -/

/-- An ASCII letter is no digit. -/
theorem isDecimal_of_isAlpha (h : c.isAlpha = true) : isDecimal c = false := by
  have hletter : 65 ≤ c.toNat ∧ c.toNat ≤ 90 ∨ 97 ≤ c.toNat ∧ c.toNat ≤ 122 := by
    change (decide (65 ≤ c.val ∧ c.val ≤ 90) || decide (97 ≤ c.val) && decide (c.val ≤ 122)) = true
      at h
    simp only [Bool.or_eq_true, Bool.and_eq_true, decide_eq_true_eq, UInt32.le_iff_toNat_le] at h
    exact h
  have hdigit : c.isDigit = false := by
    change (decide (48 ≤ c.val) && decide (c.val ≤ 57)) = false
    simp only [Bool.and_eq_false_iff, decide_eq_false_iff_not, UInt32.le_iff_toNat_le]
    change ¬ 48 ≤ c.toNat ∨ ¬ c.toNat ≤ 57
    omega
  have hascii : c.toNat < 0x80 := by omega
  simp [isDecimal, digitValue?, hdigit, hascii]

/-- Digits in front are passed, up to what is none. -/
theorem takeWhile_dropWhile_numeral {ds : List Char} (hds : Location.IsNumeral ds)
    (ht : ∀ c ∈ t.head?, isDecimal c = false) :
    (ds ++ t).takeWhile isDecimal = ds ∧ (ds ++ t).dropWhile isDecimal = t :=
  takeWhile_dropWhile_append hds.2 ht

theorem IsSuffix.head_not_decimal (hs : IsSuffix s) : ∀ c ∈ s.head?, isDecimal c = false := by
  intro c hc
  have hmarks : ['-', '@', ':'].all (!isDecimal ·) = true := by decide
  simpa using List.all_eq_true.1 hmarks c (hs.1 c hc)

/-- Neither behind a group of digits nor behind the last one does a digit stand. -/
theorem head_groups_not_decimal (groups : List (List Char)) (hs : IsSuffix s) :
    ∀ c ∈ (groups.flatMap ('.' :: ·) ++ s).head?, isDecimal c = false := by
  cases groups with
  | nil => exact hs.head_not_decimal
  | cons ds groups =>
    intro c hc
    cases hc
    decide

/-- The groups of a version are passed, up to what stands behind it. -/
theorem afterDotted_append {groups : List (List Char)} {fuel : Nat}
    (hgroups : ∀ ds ∈ groups, Location.IsNumeral ds) (hs : IsSuffix s)
    (hfuel : groups.length ≤ fuel) :
    afterDotted fuel (groups.flatMap ('.' :: ·) ++ s) = s := by
  induction groups generalizing fuel with
  | nil =>
    rw [List.flatMap_nil, List.nil_append]
    cases fuel with
    | zero => rfl
    | succ fuel =>
      unfold afterDotted
      split
      · next r => exact absurd (hs.1 '.' rfl) (by decide)
      · rfl
  | cons ds groups ih =>
    obtain ⟨hds, hgroups⟩ := List.forall_mem_cons.1 hgroups
    obtain ⟨fuel, rfl⟩ : ∃ k, fuel = k + 1 := ⟨fuel - 1, by simp at hfuel; omega⟩
    obtain ⟨htake, hdrop⟩ := takeWhile_dropWhile_numeral hds (head_groups_not_decimal groups hs)
    rw [List.flatMap_cons, List.append_assoc, List.cons_append, afterDotted, htake, hdrop,
      if_neg (by simpa using hds.1)]
    exact ih hgroups (by simpa using hfuel)

theorem length_groups_le (groups : List (List Char)) :
    groups.length ≤ (groups.flatMap ('.' :: ·)).length := by
  induction groups with
  | nil => rfl
  | cons ds groups ih =>
    simp only [List.flatMap_cons, List.length_append, List.length_cons]
    omega

/-- A hyphen, a version and what may stand behind it make up a whole text. -/
theorem isVersionSuffix_version (r : Release) :
    isVersionSuffix ('-' :: (r.version ++ r.suffix)) = true := by
  obtain ⟨hmajor, hminors⟩ := List.forall_mem_cons.1 r.isNumeral
  have hhead := head_groups_not_decimal r.minors r.isSuffix
  obtain ⟨htake, hdrop⟩ := takeWhile_dropWhile_numeral hmajor hhead
  have hafter : afterDotted (r.version ++ r.suffix).length
      (r.minors.flatMap ('.' :: ·) ++ r.suffix) = r.suffix := by
    apply afterDotted_append hminors r.isSuffix
    have hle := length_groups_le r.minors
    simp only [Release.version, List.length_append]
    omega
  rw [Release.version, List.append_assoc] at hafter ⊢
  simp only [isVersionSuffix, htake, hdrop, hafter]
  have hmarks := r.isSuffix.1
  cases hsuffix : r.suffix with
  | nil => simpa using hmajor.1
  | cons c s =>
    rw [hsuffix] at hmarks
    simpa [hmajor.1, or_assoc] using hmarks c rfl

/-- A component with anything behind it is no version: its letter comes too soon. -/
theorem isVersionSuffix_component (hs : IsComponent s) (t : List Char) :
    isVersionSuffix ('-' :: (s ++ t)) = false := by
  obtain ⟨halnum, letter, hmem, hletter⟩ := hs
  have hne : s.dropWhile isDecimal ≠ [] := by
    intro h
    have hdecimal := List.dropWhile_eq_nil_iff.1 h letter hmem
    rw [isDecimal_of_isAlpha hletter] at hdecimal
    cases hdecimal
  obtain ⟨c, r, hdrop⟩ := List.exists_cons_of_ne_nil hne
  have hc : c.isAlphanum = true := by
    apply halnum
    apply (List.dropWhile_suffix isDecimal).subset
    rw [hdrop]
    exact List.mem_cons_self
  have hmark {d : Char} (hd : d.isAlphanum = false) : c ≠ d := by
    rintro rfl
    rw [hc] at hd
    cases hd
  have hafter (fuel : Nat) : afterDotted fuel (c :: (r ++ t)) = c :: (r ++ t) := by
    cases fuel with
    | zero => rfl
    | succ fuel =>
      unfold afterDotted
      split
      · next h => exact absurd (List.cons.inj h).1 (hmark (by decide))
      · rfl
  have hwhole : (s ++ t).dropWhile isDecimal = c :: (r ++ t) := by
    rw [List.dropWhile_append, hdrop]
    rfl
  simp [isVersionSuffix, hwhole, hafter, hmark (d := '-') (by decide), hmark (d := '@') (by decide),
    hmark (d := ':') (by decide)]

/-! ## Names -/

/-- No version begins where there is no hyphen. -/
theorem withoutVersion_append (hs : '-' ∉ s) (t : List Char) :
    withoutVersion (s ++ t) = s ++ withoutVersion t := by
  induction s with
  | nil => rfl
  | cons c s ih =>
    simp only [List.mem_cons, not_or] at hs
    have hno : isVersionSuffix (c :: (s ++ t)) = false := by
      unfold isVersionSuffix
      split
      · next h => exact absurd (List.cons.inj h).1.symm hs.1
      · rfl
    rw [List.cons_append, withoutVersion, hno, ih hs.2]
    rfl

theorem IsComponent.hyphen_not_mem (hs : IsComponent s) : '-' ∉ s := fun hm =>
  absurd (hs.1 '-' hm) (by decide)

/-- The components behind a hyphen stay. -/
theorem withoutVersion_components {more : List (List Char)} (hmore : ∀ s ∈ more, IsComponent s)
    (t : List Char) :
    withoutVersion (more.flatMap ('-' :: ·) ++ t) = more.flatMap ('-' :: ·) ++ withoutVersion t := by
  induction more with
  | nil => rfl
  | cons s more ih =>
    obtain ⟨hs, hmore⟩ := List.forall_mem_cons.1 hmore
    rw [List.flatMap_cons, List.append_assoc, List.cons_append, withoutVersion,
      isVersionSuffix_component hs, if_neg Bool.false_ne_true,
      withoutVersion_append hs.hyphen_not_mem, ih hmore, List.append_assoc, List.cons_append]

/-- The name is what is left of a release. -/
theorem withoutVersion_text (r : Release) : withoutVersion r.text = r.name := by
  obtain ⟨hfirst, hmore⟩ := List.forall_mem_cons.1 r.isComponent
  rw [Release.text, Release.name, List.append_assoc, withoutVersion_append hfirst.hyphen_not_mem,
    withoutVersion_components hmore, withoutVersion, isVersionSuffix_version, if_pos rfl,
    List.append_nil]

/-- A character of a kind that has neither blanks nor quotes can stand in any quotes. -/
theorem plain_of {p : Char → Bool} (hblank : ∀ c, p c = true → isBlank c = false)
    (hquotes : ['’', '\'', grave].any p = false) (hc : p c = true) :
    isBlank c = false ∧ c ≠ '’' ∧ c ≠ '\'' ∧ c ≠ grave := by
  have hne : ∀ d ∈ ['’', '\'', grave], c ≠ d := by
    rintro d hd rfl
    exact List.any_eq_false.1 hquotes c hd hc
  simpa [hblank c hc] using hne

/-- A release can stand in quotes of either kind. -/
theorem isName_text (r : Release) : IsName r.text := by
  have halnum {c : Char} (hc : c.isAlphanum = true) :=
    plain_of (fun _ => isBlank_eq_false_of (p := Char.isAlphanum) (by decide +kernel)) (by decide) hc
  have hdecimal {c : Char} (hc : isDecimal c = true) :=
    plain_of (fun _ => isBlank_of_isDecimal) (by decide) hc
  have hmark {c : Char} (hc : (c == '-' || c == '.') = true) :=
    plain_of (fun _ => isBlank_eq_false_of (p := fun c => c == '-' || c == '.') (by decide +kernel))
      (by decide) hc
  refine ⟨by simp [Release.text], fun c hc => ?_⟩
  obtain ⟨hfirst, hmore⟩ := List.forall_mem_cons.1 r.isComponent
  obtain ⟨hmajor, hminors⟩ := List.forall_mem_cons.1 r.isNumeral
  simp only [Release.text, Release.name, Release.version, List.mem_append, List.mem_cons,
    List.mem_flatMap] at hc
  rcases hc with (hc | ⟨s, hs, rfl | hc⟩) | rfl | (hc | ⟨ds, hds, rfl | hc⟩) | hc
  · exact halnum (hfirst.1 c hc)
  · exact hmark rfl
  · exact halnum ((hmore s hs).1 c hc)
  · exact hmark rfl
  · exact hdecimal (hmajor.2 c hc)
  · exact hmark rfl
  · exact hdecimal ((hminors ds hds).2 c hc)
  · exact r.isSuffix.2 c hc

/-! ## Texts that are squeezed -/

namespace Recurled

/-- A curled quote is no more a blank than the other quotes are. -/
theorem words_go {w v : List Char} (h : Recurled s t) (hw : Recurled w v) :
    List.Forall₂ Recurled (words.go s w) (words.go t v) := by
  induction h generalizing w v with
  | nil =>
    cases hw with
    | nil => exact .nil
    | cons hcd hw =>
      rw [words_go_nil, words_go_nil]
      exact .cons (List.rel_reverse (.cons hcd hw)) .nil
  | @cons c d s t hcd _ ih =>
    have hblank : isBlank d = isBlank c := by
      obtain rfl | ⟨rfl, rfl⟩ | ⟨rfl, rfl⟩ := hcd
      · rfl
      · decide
      · decide
    rw [words.go.eq_def, words.go.eq_def (d :: t)]
    simp only [hblank]
    split
    · cases hw with
      | nil => exact ih .nil
      | cons hab hw => exact .cons (List.rel_reverse (.cons hab hw)) (ih .nil)
    · exact ih (.cons hcd hw)

theorem squeeze (h : Recurled s t) : Recurled (squeeze s) (squeeze t) := by
  have hwords : List.Forall₂ Recurled (words s) (words t) := h.words_go .nil
  unfold Text.squeeze
  generalize words s = ws at hwords
  generalize words t = vs at hwords
  induction hwords with
  | nil => exact .nil
  | @cons w v ws vs hw hws ih =>
    cases hws with
    | nil =>
      rw [List.intercalate_singleton, List.intercalate_singleton]
      exact hw
    | cons hw' hws =>
      rw [List.intercalate_cons_cons, List.intercalate_cons_cons, List.append_assoc, List.append_assoc]
      exact List.rel_append hw (List.rel_append (Recurled.refl [' ']) ih)

/-- A text without curled quotes was not curled. -/
theorem eq_of_not_mem_right (h : Recurled s t) (hopen : '‘' ∉ t) (hclose : '’' ∉ t) : s = t := by
  induction h with
  | nil => rfl
  | cons hcd _ ih =>
    simp only [List.mem_cons, not_or] at hopen hclose
    rw [ih hopen.2 hclose.2]
    obtain rfl | ⟨-, rfl⟩ | ⟨-, rfl⟩ := hcd
    · rfl
    · exact absurd rfl hopen.1
    · exact absurd rfl hclose.1

/-- A text that is curled is put together of parts as it was before. -/
theorem of_append_right {t₁ t₂ : List Char} (h : Recurled s (t₁ ++ t₂)) :
    ∃ s₁ s₂, s = s₁ ++ s₂ ∧ Recurled s₁ t₁ ∧ Recurled s₂ t₂ := by
  obtain ⟨s₁, s₂, rfl, h₁, h₂⟩ := exists_append_of_forall₂ (List.Forall₂.flip h)
  exact ⟨s₁, s₂, rfl, h₁.flip, h₂.flip⟩

/-- A phrase with a quote behind it stood there before, if it has no quotes itself. -/
theorem infix_quote {p : List Char} (h : Recurled s t) (hopen : '‘' ∉ p) (hclose : '’' ∉ p)
    (hp : p ++ ['‘'] <:+: t) : ∃ c ∈ ['‘', grave], p ++ [c] <:+: s := by
  obtain ⟨u, v, rfl⟩ := hp
  rw [List.append_assoc, List.append_assoc] at h
  obtain ⟨s₁, r, rfl, -, h⟩ := h.of_append_right
  obtain ⟨s₂, r, rfl, hphrase, h⟩ := h.of_append_right
  obtain ⟨s₃, s₄, rfl, hquote, -⟩ := h.of_append_right
  obtain rfl := hphrase.eq_of_not_mem_right hopen hclose
  obtain ⟨c, s₃, hc, hnil, rfl⟩ := List.forall₂_cons_right_iff.1 hquote
  obtain rfl := List.forall₂_nil_right_iff.1 hnil
  refine ⟨c, ?_, s₁, s₄, by simp⟩
  obtain rfl | ⟨rfl, -⟩ | ⟨-, h⟩ := hc
  · exact List.mem_cons_self
  · exact List.mem_cons_of_mem _ List.mem_cons_self
  · exact absurd h (by decide)

end Recurled

/-! ## What is suggested -/

/-- The words in front of a package that is hidden. -/
def hiddenWords : List (List Char) :=
  ["It", "is", "a", "member", "of", "the", "hidden", "package"].map String.toList

/-- These words on one line, with the space behind them. -/
def hiddenPhrase : String := "It is a member of the hidden package "

/-- A package that is said to be hidden. -/
def hiddenPackage? (s : List Char) : Option (List Char) := do
  let s ← after? hiddenPhrase s
  let (package, _) ← quoted? s
  pure package

theorem enablePackage_of_search? {d : Diagnostic} {package : List Char}
    (h : search? hiddenPackage? (flatMessage d) = some package) :
    enablePackage d = (placeOf d).map fun place =>
      [⟨place, .enablePackage (String.ofList (withoutVersion package))⟩] := by
  unfold enablePackage
  dsimp only
  split
  · next hnone => cases h.symm.trans hnone
  · next name hname =>
    cases h.symm.trans hname
    cases placeOf d <;> rfl

theorem prefix_of_hiddenPackage? {package : List Char} (h : hiddenPackage? s = some package) :
    hiddenPhrase.toList ++ ['‘'] <+: s := by
  simp only [hiddenPackage?, Option.bind_eq_bind, Option.bind_eq_some_iff, Option.pure_def,
    Option.some.injEq, Prod.exists] at h
  obtain ⟨s₁, h₁, name, s₂, h₂, -⟩ := h
  obtain ⟨h₂, -⟩ := quoted?_eq_some.1 h₂
  rw [stripPrefix?_eq_some.1 h₁, h₂]
  exact ⟨name ++ ['’'] ++ s₂, by simp⟩

section Hidden

variable (r : Release) {gap : Nat → List Char} (hgap : ∀ i, IsGap (gap i))

theorem isWord_hidden : ∀ w ∈ hiddenWords ++ [Quotes.curly.around r.text], IsWord w := by
  intro w hw
  obtain hw | hw := List.mem_append.1 hw
  · exact (by decide : ∀ w ∈ hiddenWords, IsWord w) w hw
  · rw [List.mem_singleton.1 hw]
    exact (isName_text r).isWord_around

include hgap

/-- Where a message says so in quotes of either kind, it does in curled ones when it is curled. -/
theorem curled_hidden (q : Quotes) (before after : List Char) :
    ∃ b a, curled (before ++ (spread gap (hiddenWords ++ [q.around r.text]) ++ after)) =
      b ++ (spread gap (hiddenWords ++ [Quotes.curly.around r.text]) ++ a) ∧ Recurled before b := by
  obtain ⟨b, ws, a, hcurled, hb, hws, -⟩ := curled_spread hgap before
    (hiddenWords ++ [q.around r.text]) after
  obtain ⟨us, vs, rfl, hus, hvs⟩ := exists_append_of_forall₂ hws
  obtain rfl := rewritten_plain hus (by decide)
  obtain ⟨v, vs, hv, hnil, rfl⟩ := List.forall₂_cons_left_iff.1 hvs
  obtain rfl := List.forall₂_nil_left_iff.1 hnil
  obtain rfl := hv.quotes q _ (isName_text r).quotable rfl
  exact ⟨b, a, hcurled, hb⟩

/-- On one line the words are the phrase, and the package is read behind it. -/
theorem squeeze_hidden (a : List Char) :
    ∃ u, squeeze (spread gap (hiddenWords ++ [Quotes.curly.around r.text]) ++ a) =
        hiddenPhrase.toList ++ ['‘'] ++ u ∧
      hiddenPackage? (hiddenPhrase.toList ++ ['‘'] ++ u) = some r.text := by
  obtain ⟨rest, hrest⟩ := squeeze_spread hgap (isWord_hidden r) a
  refine ⟨r.text ++ '’' :: rest, ?_, ?_⟩
  · have hjoined : List.intercalate [' '] hiddenWords ++ [' '] = hiddenPhrase.toList := by decide
    rw [← hrest, intercalate_append_of_ne_nil (by decide) (List.cons_ne_nil _ _),
      ← List.append_assoc, hjoined, List.intercalate_singleton, List.append_assoc, around_curly,
      List.append_assoc]
    rfl
  · have hquoted := quoted?_around (isName_text r).closed rest
    rw [around_curly] at hquoted
    rw [List.append_assoc, hiddenPackage?, Option.bind_eq_bind, after?_append, Option.bind_some,
      List.singleton_append, hquoted]
    rfl

end Hidden

/-- A message that says that something is a member of a hidden package, in quotes of either kind and
    with any blanks between the words, makes the rule offer that package by its name alone. -/
theorem enablePackage_release (r : Release) (q : Quotes) {gap : Nat → List Char}
    (hgap : ∀ i, IsGap (gap i)) {before after : List Char} {d : Diagnostic}
    (hmessage : d.message.toList =
      before ++ (spread gap (hiddenWords ++ [q.around r.text]) ++ after))
    (hbefore : ∀ c ∈ ['‘', grave], ¬ hiddenPhrase.toList ++ [c] <:+: squeeze before) :
    enablePackage d = (placeOf d).map fun place =>
      [⟨place, .enablePackage (String.ofList r.name)⟩] := by
  obtain ⟨b, a, hcurled, hb⟩ := curled_hidden r hgap q before after
  obtain ⟨u, hsqueeze, hfound⟩ := squeeze_hidden r hgap a
  have hstarts : Diagnostic.Starts
      (spread gap (hiddenWords ++ [Quotes.curly.around r.text]) ++ a) :=
    (starts_spread (isWord_hidden r _ List.mem_cons_self) _).append a
  obtain ⟨lead, hlead⟩ := exists_leads hstarts b
  -- the phrase would stand in front of the message already, with a quote of one kind or the other
  have hnone : ¬ hiddenPhrase.toList ++ ['‘'] <:+: lead := by
    intro hearlier
    obtain ⟨c, hc, hphrase⟩ := hb.squeeze.infix_quote (by decide) (by decide)
      (hlead.infix_squeeze (by decide) hearlier)
    exact hbefore c hc hphrase
  have hsearch : search? hiddenPackage? (flatMessage d) = some r.text := by
    rw [flatMessage, curledMessage, hmessage, hcurled, hlead.eq, hsqueeze,
      search?_label (by decide) (by decide) prefix_of_hiddenPackage? hnone]
    exact search?_of_some hfound
  rw [enablePackage_of_search? hsearch, withoutVersion_text]

/-- A package whose name has digits in front of its letters, and something behind its version. -/
def Release.graphics : Release where
  first := "3d".toList
  more := ["graphics", "2x"].map String.toList
  major := ['1']
  minors := ["2", "10"].map String.toList
  suffix := "-inplace:core".toList
  isComponent := by decide
  isNumeral ds hds := by
    have hdigits : ∀ ds ∈ [['1'], ['2'], ['1', '0']], ds ≠ [] ∧ ds.all isDecimal = true := by decide
    exact (hdigits ds hds).imp_right List.all_eq_true.1
  isSuffix := by decide

/-- It is offered by its name where a message in ASCII quotes says so over two lines. -/
theorem enablePackage_release_two_lines :
    let before := "Could not load module ‘Graphics.Scene’.\n".toList
    let gap (i : Nat) := if i = 3 then "\n    ".toList else [' ']
    let words := hiddenWords ++ [Quotes.ascii.around Release.graphics.text]
    let d : Diagnostic :=
      { severity := .error, file := "src/Foo.hs", line := 10, column := 3, endLine := 10,
        endColumn := 9, message := String.ofList (before ++ (spread gap words ++ ['.'])) }
    (∀ i, IsGap (gap i)) ∧
      (∀ c ∈ ['‘', grave], ¬ hiddenPhrase.toList ++ [c] <:+: squeeze before) ∧
      enablePackage d = .ok [⟨⟨⟨10, 3, 10, 9⟩, "src/Foo.hs"⟩, .enablePackage "3d-graphics-2x"⟩] := by
  intro before gap words d
  have hgap : ∀ i, IsGap (gap i) := by
    intro i
    show IsGap (if i = 3 then _ else _)
    split
    · decide
    · decide
  have hbefore : ∀ c ∈ ['‘', grave], ¬ hiddenPhrase.toList ++ [c] <:+: squeeze before :=
    List.forall_mem_cons.2 ⟨by decide +kernel, List.forall_mem_singleton.2 (by decide +kernel)⟩
  have hmessage : d.message.toList = before ++ (spread gap words ++ ['.']) := String.toList_ofList
  refine ⟨hgap, hbefore, ?_⟩
  rw [enablePackage_release Release.graphics .ascii hgap hmessage hbefore]
  decide +kernel

end GhciHost.Suggestion
