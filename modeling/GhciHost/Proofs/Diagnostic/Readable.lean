import Mathlib.Data.List.TakeWhile
import GhciHost.Proofs.Diagnostic.Reported
import GhciHost.Proofs.Text.Runs

/-!
# Texts that are read without failure

The only numbers of a report are runs of digits that stand in the output.  If each of these is short
enough to be read, then every block of the output becomes a diagnostic with a place, every rule comes
to an end on it, and so does the report.

* `eq_text_of_written?`   a location that is read is what stands at the start of the text;
* `blocksFrom_short`   blocks have short runs, if the lines that are left have;
* `ofBlock_short`   such a block becomes a diagnostic with a place;
* `placeReadable_of_shortRuns`   and the place that its message names can be read;
* `ofOutput_ok`   so there is a report.
-/

namespace GhciHost

open Text

/-! ## Locations that are read -/

namespace Location

variable {α : Type} {s r : List Char}

theorem eq_append_of_digits? {ds : List Char} (h : digits? s = some (ds, r)) :
    IsNumeral ds ∧ s = ds ++ r := by
  rw [digits?] at h
  split at h
  · cases h
  · next hne =>
    cases h
    exact ⟨⟨fun e => hne (List.isEmpty_iff.2 e), fun _ hc => List.mem_takeWhile_imp hc⟩,
      List.takeWhile_append_dropWhile.symm⟩

theorem eq_text_of_span? {w : Written} (h : span? s = some (w, r)) :
    (∀ ds ∈ w.numerals, IsNumeral ds) ∧ s = w.text ++ r := by
  simp only [span?, Option.bind_eq_bind, Option.bind_eq_some_iff, Option.pure_def,
    Option.some.injEq, Prod.mk.injEq, Prod.exists] at h
  obtain ⟨s₁, h₁, l, s₂, h₂, s₃, h₃, c, s₄, h₄, s₅, h₅, l', s₆, h₆, s₇, h₇, c', s₈, h₈, s₉, h₉,
    rfl, rfl⟩ := h
  obtain ⟨hl, rfl⟩ := eq_append_of_digits? h₂
  obtain ⟨hc, rfl⟩ := eq_append_of_digits? h₄
  obtain ⟨hl', rfl⟩ := eq_append_of_digits? h₆
  obtain ⟨hc', rfl⟩ := eq_append_of_digits? h₈
  refine ⟨by simp [Written.numerals, hl, hc, hl', hc'], ?_⟩
  rw [stripPrefix?_eq_some.1 h₁, stripPrefix?_eq_some.1 h₃, stripPrefix?_eq_some.1 h₅,
    stripPrefix?_eq_some.1 h₇, stripPrefix?_eq_some.1 h₉]
  simp only [Written.text, List.append_assoc]

theorem eq_of_pair? {l c : List Char} (h : pair? s = some (l, c, r)) :
    IsNumeral l ∧ IsNumeral c ∧ s = (Written.point l c).text ++ r := by
  simp only [pair?, Option.bind_eq_bind, Option.bind_eq_some_iff, Option.pure_def,
    Option.some.injEq, Prod.mk.injEq, Prod.exists] at h
  obtain ⟨_, s₁, h₁, s₂, h₂, _, _, h₃, rfl, rfl, rfl⟩ := h
  obtain ⟨hl, rfl⟩ := eq_append_of_digits? h₁
  obtain ⟨hc, rfl⟩ := eq_append_of_digits? h₃
  refine ⟨hl, hc, ?_⟩
  rw [stripPrefix?_eq_some.1 h₂]
  simp only [Written.text, List.append_assoc]

/-- A location that is read is what stands at the start of the text. -/
theorem eq_text_of_written? {w : Written} (h : written? s = some (w, r)) :
    (∀ ds ∈ w.numerals, IsNumeral ds) ∧ s = w.text ++ r := by
  rw [written?] at h
  split at h
  · next hspan =>
    cases h
    exact eq_text_of_span? hspan
  · split at h
    · cases h
    · next l c r' hpair =>
      obtain ⟨hl, hc, rfl⟩ := eq_of_pair? hpair
      split at h
      · next c' r'' hrange =>
        cases h
        obtain ⟨s', hs', hdigits⟩ := Option.bind_eq_some_iff.1 hrange
        obtain ⟨hc', rfl⟩ := eq_append_of_digits? hdigits
        refine ⟨by simp [Written.numerals, hl, hc, hc'], ?_⟩
        rw [stripPrefix?_eq_some.1 hs']
        simp only [Written.text, List.append_assoc]
      · cases h
        exact ⟨by simp [Written.numerals, hl, hc], rfl⟩

/-- The numbers of a location stand in it. -/
theorem Written.infix_text {w : Written} {ds : List Char} (h : ds ∈ w.numerals) :
    ds <:+: w.text := by
  have hhead (p q : List Char) : p <:+: p ++ q := (List.prefix_append p q).isInfix
  have hskip (p : List Char) {q : List Char} (hq : ds <:+: q) : ds <:+: p ++ q :=
    hq.trans (List.suffix_append p q).isInfix
  cases w with
  | span l c l' c' =>
    simp only [numerals, List.mem_cons, List.not_mem_nil, or_false] at h
    unfold text
    rcases h with rfl | rfl | rfl | rfl
    · exact hskip _ (hhead _ _)
    · exact hskip _ (hskip _ (hskip _ (hhead _ _)))
    · exact hskip _ (hskip _ (hskip _ (hskip _ (hskip _ (hhead _ _)))))
    · exact hskip _ (hskip _ (hskip _ (hskip _ (hskip _ (hskip _ (hskip _ (hhead _ _)))))))
  | range l c c' =>
    simp only [numerals, List.mem_cons, List.not_mem_nil, or_false] at h
    unfold text
    rcases h with rfl | rfl | rfl
    · exact hhead _ _
    · exact hskip _ (hskip _ (hhead _ _))
    · exact hskip _ (hskip _ (hskip _ (hskip _ (List.infix_refl _))))
  | point l c =>
    simp only [numerals, List.mem_cons, List.not_mem_nil, or_false] at h
    unfold text
    rcases h with rfl | rfl
    · exact hhead _ _
    · exact hskip _ (hskip _ (List.infix_refl _))

/-- The numbers of a written location are short enough to be read. -/
def Written.Short (w : Written) : Prop := ∀ ds ∈ w.numerals, ds.length ≤ maxDigits

/-- The location that the digits of a written location denote; a point ends where it starts. -/
def Written.denotes : Written → Location
  | span l c l' c' => ⟨Text.readNat l, Text.readNat c, Text.readNat l', Text.readNat c'⟩
  | range l c c' => ⟨Text.readNat l, Text.readNat c, Text.readNat l, Text.readNat c'⟩
  | point l c => ⟨Text.readNat l, Text.readNat c, Text.readNat l, Text.readNat c⟩

theorem Written.Short.read_eq {w : Written} (h : w.Short) : w.read = .ok w.denotes := by
  have hread {ds : List Char} (hds : ds ∈ w.numerals) : readNat? ds = .ok (readNat ds) :=
    if_neg (Nat.not_lt.2 (h ds hds))
  cases w with
  | span l c l' c' =>
    rw [Written.read, hread (by simp [numerals]), hread (by simp [numerals]),
      hread (by simp [numerals]), hread (by simp [numerals])]
    rfl
  | range l c c' =>
    rw [Written.read, hread (by simp [numerals]), hread (by simp [numerals]),
      hread (by simp [numerals])]
    rfl
  | point l c =>
    rw [Written.read, hread (by simp [numerals]), hread (by simp [numerals])]
    rfl

theorem Written.Short.read {w : Written} (h : w.Short) : ∃ l, w.read = .ok l := ⟨_, h.read_eq⟩

/-- A location is found behind a colon, and what follows it is accepted. -/
theorem infix_of_behindColon {follow : List Char → Option α} {acc file : List Char} {w : Written}
    {a : α} (h : behindColon follow acc s = some (file, w, a)) :
    ∃ r, follow r = some a ∧ w.text ++ r <:+ s ∧ ∀ ds ∈ w.numerals, IsNumeral ds := by
  induction s generalizing acc with
  | nil => cases h
  | cons c s ih =>
    rw [behindColon] at h
    dsimp only at h
    split at h
    · next hhere =>
      cases h
      split at hhere
      · obtain ⟨⟨w', r⟩, hw, hfollow⟩ := Option.bind_eq_some_iff.1 hhere
        obtain ⟨a', ha, heq⟩ := Option.map_eq_some_iff.1 hfollow
        cases heq
        obtain ⟨hnum, rfl⟩ := eq_text_of_written? hw
        exact ⟨r, ha, List.suffix_cons c _, hnum⟩
      · cases hhere
    · split at h
      · cases h
      · obtain ⟨r, hr, hsuffix, hnum⟩ := ih h
        exact ⟨r, hr, hsuffix.trans (List.suffix_cons c s), hnum⟩

/-- In a text with short runs the location behind a file name is short. -/
theorem short_of_fileThen? {follow : List Char → Option α} (hs : ShortRuns s) {file : List Char}
    {w : Written} {a : α} (h : fileThen? follow s = some (file, w, a)) :
    w.Short ∧ ∃ r, follow r = some a ∧ r <:+ s := by
  cases s with
  | nil => cases h
  | cons c s =>
    rw [fileThen?] at h
    split at h
    · cases h
    · obtain ⟨r, hr, hsuffix, hnum⟩ := infix_of_behindColon h
      have hsuffix := hsuffix.trans (List.suffix_cons c s)
      have htext : w.text <:+: c :: s := (List.prefix_append _ _).isInfix.trans hsuffix.isInfix
      exact ⟨fun ds hds => hs ds ((Written.infix_text hds).trans htext) (hnum ds hds).2,
        r, hr, (List.suffix_append _ _).trans hsuffix⟩

end Location

/-! ## Places that a message names -/

namespace Suggestion

theorem suffix_of_search? {α : Type} {m : List Char → Option α} {s : List Char} {a : α}
    (h : search? m s = some a) : ∃ t, t <:+ s ∧ m t = some a := by
  induction s with
  | nil => exact ⟨[], List.suffix_refl _, h⟩
  | cons c s ih =>
    rw [search?] at h
    cases hhere : m (c :: s) with
    | some b =>
      rw [hhere] at h
      exact ⟨_, List.suffix_refl _, hhere.trans h⟩
    | none =>
      rw [hhere] at h
      obtain ⟨t, ht, hm⟩ := ih h
      exact ⟨t, ht.trans (List.suffix_cons c s), hm⟩

/-- What is passed up to the closing parenthesis is a piece of the text. -/
theorem infix_of_untilClose {acc s place : List Char} (h : untilClose acc s = some place) :
    place <:+: acc.reverse ++ s := by
  fun_induction untilClose acc s with
  | case1 => cases h
  | case2 acc c s ends hclose =>
    cases h
    exact (List.prefix_append _ _).isInfix
  | case3 acc c s ends hclose ih =>
    have hplace := ih h
    rwa [List.reverse_cons, List.append_assoc] at hplace

/-- The place that a proposal names is a piece of the message. -/
theorem infix_of_importProposal? {s item module place : List Char}
    (h : importProposal? s = some (item, module, place)) : place <:+: s := by
  have hafter {p : String} {s r : List Char} (h : after? p s = some r) : r <:+ s :=
    ⟨p.toList, (stripPrefix?_eq_some.1 h).symm⟩
  have hquoted {s name r : List Char} (h : quoted? s = some (name, r)) : r <:+ s :=
    ⟨_, (quoted?_eq_some.1 h).1.symm⟩
  simp only [importProposal?, Option.bind_eq_bind, Option.bind_eq_some_iff, Option.pure_def,
    Option.some.injEq, Prod.mk.injEq, Prod.exists] at h
  obtain ⟨s₁, h₁, _, s₂, h₂, s₃, h₃, _, s₄, h₄, s₅, h₅, _, hclose, rfl, rfl, rfl⟩ := h
  have hrest : s₅ <:+ s :=
    (hafter h₅).trans ((hquoted h₄).trans ((hafter h₃).trans ((hquoted h₂).trans (hafter h₁))))
  exact (infix_of_untilClose hclose).trans hrest.isInfix

/-- The place that a message with short runs names can be read. -/
theorem placeReadable_of_shortRuns {d : Diagnostic} (h : ShortRuns d.message.toList) :
    PlaceReadable d := by
  rintro ⟨item, module, place⟩ hproposal ⟨file, written, rest⟩ hplace
  obtain ⟨t, ht, hfound⟩ := suffix_of_search? hproposal
  have hflat : ShortRuns (flatMessage d) := h.curled.squeeze
  have hshort : ShortRuns place :=
    hflat.of_isInfix ((infix_of_importProposal? hfound).trans ht.isInfix)
  obtain ⟨l, hl⟩ := (Location.short_of_fileThen? hshort hplace).1.read
  rw [hl]
  rfl

end Suggestion

/-! ## Blocks -/

namespace Diagnostic

/-- The runs of digits that a block is read from are short. -/
structure Block.Short (b : Block) : Prop where
  place : b.header.place.Short
  message : ShortRuns b.header.message
  body : ∀ line ∈ b.body, ShortRuns line

theorem header?_short {line : List Char} (hline : ShortRuns line) {h : Header}
    (hh : header? line = some h) : h.place.Short ∧ ShortRuns h.message := by
  obtain ⟨⟨file, place, rest⟩, hfound, rfl⟩ := Option.map_eq_some_iff.1 hh
  obtain ⟨hplace, r, hr, hsuffix⟩ := Location.short_of_fileThen? hline hfound
  have hrest : rest <:+ r := ⟨_, (stripPrefix?_eq_some.1 hr).symm⟩
  exact ⟨hplace, hline.of_isInfix
    ((List.dropWhile_suffix _).trans (hrest.trans hsuffix)).isInfix⟩

/-- Blocks have short runs, if the block that is open and the lines to come have. -/
theorem blocksFrom_short {open_ : Option (Header × List (List Char))}
    (hopen : ∀ b ∈ closed open_, b.Short) {ls : List (List Char)} (hls : ∀ l ∈ ls, ShortRuns l) :
    ∀ b ∈ blocksFrom open_ ls, b.Short := by
  induction ls generalizing open_ with
  | nil => exact hopen
  | cons line ls ih =>
    obtain ⟨hline, hls⟩ := List.forall_mem_cons.1 hls
    -- a line that goes on with no block opens one at most
    have hnew : ∀ b ∈ closed ((if isIndented line then none else header? line).map (·, [])),
        b.Short := by
      split
      · exact fun b hb => by cases hb
      · cases hh : header? line with
        | none => exact fun b hb => by cases hb
        | some h =>
          obtain ⟨hplace, hmessage⟩ := header?_short hline hh
          exact List.forall_mem_singleton.2 ⟨hplace, hmessage, fun l hl => by cases hl⟩
    cases open_ with
    | none => exact ih hnew hls
    | some o =>
      obtain ⟨h, body⟩ := o
      have hb := List.forall_mem_singleton.1 hopen
      rw [blocksFrom]
      split
      · split
        · exact List.forall_mem_cons.2 ⟨hb, ih (fun b hb => by cases hb) hls⟩
        · refine ih (List.forall_mem_singleton.2 ⟨hb.place, hb.message, fun l hl => ?_⟩) hls
          rcases List.mem_cons.1 (List.mem_reverse.1 hl) with rfl | hl
          · exact hline
          · exact hb.body l (List.mem_reverse.2 hl)
      · exact List.forall_mem_cons.2 ⟨hb, ih hnew hls⟩

/-- The blocks of a text with short runs. -/
theorem blocks_short {text : List Char} (h : ShortRuns text) : ∀ b ∈ blocks text, b.Short :=
  blocksFrom_short (fun b hb => by cases hb) fun _ hl => h.of_isInfix (infix_of_mem_lines hl)

/-! ## Messages -/

theorem suffix_of_mem_dedent {ls : List (List Char)} {p : List Char} (hp : p ∈ dedent ls) :
    ∃ l ∈ ls, p <:+ l := by
  cases ls with
  | nil => cases hp
  | cons l ls =>
    obtain ⟨l', hl', rfl⟩ := List.mem_map.1 hp
    exact ⟨l', hl', List.drop_suffix _ _⟩

theorem Block.Short.messageOf {b : Block} (h : b.Short) : ShortRuns (messageOf b) := by
  refine .intercalate (by decide) fun p hp => ?_
  rcases List.mem_append.1 hp with hp | hp
  · split at hp
    · cases hp
    · rw [List.mem_singleton.1 hp]
      exact h.message.of_isInfix (infix_trim _)
  · obtain ⟨l, hl, hsuffix⟩ := suffix_of_mem_dedent hp
    exact (h.body l hl).of_isInfix hsuffix.isInfix

/-- The words in front of a message are cut off. -/
theorem suffix_classify (message : List Char) : (classify message).2.1 <:+ message := by
  have hrest (n : Nat) : trimLeft (message.drop n) <:+ message :=
    (suffix_trimLeft _).trans (List.drop_suffix _ _)
  rw [classify]
  dsimp only
  split
  · split
    · exact hrest _
    · exact hrest _
  · split
    · exact List.suffix_refl _
    · split
      · exact hrest _
      · exact List.suffix_refl _

/-- A block with short runs becomes a diagnostic with a place and a message with short runs. -/
theorem ofBlock_short {b : Block} (h : b.Short) (staging : Staging) :
    ∃ p, ofBlock staging b = .ok p ∧ p.1.negatives = [] ∧ ShortRuns p.1.message.toList := by
  obtain ⟨l, hl⟩ := h.place.read
  rw [ofBlock, hl]
  refine ⟨_, rfl, by simp [negatives], ?_⟩
  rw [String.toList_ofList]
  exact h.messageOf.of_isInfix ((infix_trim _).trans (suffix_classify _).isInfix)

theorem span_ok {d : Diagnostic} (h : d.negatives = []) : ∃ own, d.span = .ok own := by
  rw [span, h]
  exact ⟨_, rfl⟩

/-! ## Reports -/

theorem mem_of_mem_withoutMasked {parsed : List (Diagnostic × Bool)} {d : Diagnostic}
    (h : d ∈ withoutMasked parsed) : d ∈ parsed.map (·.1) := by
  rw [withoutMasked] at h
  split at h
  · exact List.mem_of_mem_filter h
  · exact h

/-- A diagnostic that is offered suggestions stays where it is. -/
theorem span_withSuggestions {supported : List String} {d d' : Diagnostic}
    (h : withSuggestions supported d = .ok d') : d'.span = d.span := by
  obtain ⟨ss, rfl, -⟩ := withSuggestions_eq h
  rfl

/-- If no run of digits in an output is too long to be read, every block of the output becomes a
    diagnostic with a place, every rule comes to an end on it, and there is a report, whose
    diagnostics have places too. -/
theorem ofOutput_ok {text : String} (h : ShortRuns text.toList) (staging : Staging)
    (supported : List String) :
    (∀ b ∈ blocks text.toList, ∃ d promoted, ofBlock staging b = .ok (d, promoted) ∧
      (∃ own, d.span = .ok own) ∧ ∀ k, ∃ ss, Suggestion.apply supported d k = .ok ss) ∧
    ∃ report, ofOutput staging supported text = .ok report ∧
      ∀ d ∈ report, ∃ own, d.span = .ok own := by
  have hread : ∀ b ∈ blocks text.toList, ∃ p, ofBlock staging b = .ok p ∧
      p.1.negatives = [] ∧ Suggestion.PlaceReadable p.1 := by
    intro b hb
    obtain ⟨p, hp, hneg, hmessage⟩ := ofBlock_short (blocks_short h b hb) staging
    exact ⟨p, hp, hneg, Suggestion.placeReadable_of_shortRuns hmessage⟩
  constructor
  · intro b hb
    obtain ⟨⟨d, promoted⟩, hd, hneg, hplace⟩ := hread b hb
    exact ⟨d, promoted, hd, span_ok hneg, Suggestion.apply_ok hneg hplace supported⟩
  obtain ⟨parsed, hparsed, hR⟩ := exists_mapM hread
  have hkept : ∀ d ∈ firstOfEach [] (withoutMasked parsed), ∃ d',
      withSuggestions supported d = .ok d' ∧ ∃ own, d'.span = .ok own := by
    intro d hd
    obtain ⟨p, hp, rfl⟩ := List.mem_map.1 (mem_of_mem_withoutMasked (mem_of_mem_firstOfEach hd))
    obtain ⟨b, -, hneg, hplace⟩ := exists_of_forall₂ hR hp
    obtain ⟨d', hd', -⟩ := withSuggestions_ok hneg hplace supported
    exact ⟨d', hd', span_withSuggestions hd' ▸ span_ok hneg⟩
  obtain ⟨report, hreport, hplaces⟩ := exists_mapM hkept
  refine ⟨report, ?_, fun d hd => ?_⟩
  · rw [ofOutput, hparsed]
    exact hreport
  · obtain ⟨_, -, hplace⟩ := exists_of_forall₂ hplaces hd
    exact hplace

/-- An error that names a place in other digits. -/
theorem ofOutput_ok_proposal :
    let text := "A.hs:(7,1)-(8,2): error: Perhaps you want to add ‘x’\n" ++
      "  to the import list in the import of ‘M’ (B.hs:٣:1-20)."
    ShortRuns text.toList ∧ (blocks text.toList).length = 1 ∧
      (∀ b ∈ blocks text.toList, ∃ d promoted, ofBlock [] b = .ok (d, promoted) ∧
        (∃ own, d.span = .ok own) ∧ ∀ k, ∃ ss, Suggestion.apply [] d k = .ok ss) ∧
      ∃ report, ofOutput [] [] text = .ok report ∧ ∀ d ∈ report, ∃ own, d.span = .ok own := by
  intro text
  have hlength : text.toList.length ≤ maxDigits := by decide +kernel
  have h : ShortRuns text.toList := .of_length_le hlength
  exact ⟨h, by decide +kernel, ofOutput_ok h [] []⟩

end Diagnostic

end GhciHost
