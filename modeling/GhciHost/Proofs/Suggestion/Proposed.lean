import GhciHost.Proofs.Diagnostic.Readable
import GhciHost.Proofs.Text.Squeezed

/-!
# Proposals to extend an import list

A compiler that proposes to extend an import list names the import by its place.  Its words stand
apart by any blanks, its names are in quotes of either kind, and the place may hold parentheses of
its own.  The suggestion is for the first proposal of the message, and points at that place in the
diagnostic's file.

* `proposes_of_importProposal?`   what is read as a proposal;
* `untilClose_text`   the closing parenthesis is found behind a place of any form;
* `curled_spread`   words that stand apart are curled each on its own;
* `Proposal`, `Proposal.importProposal?_eq`   a proposal as it is printed, and as it is read;
* `addImportItem_proposal`   what is suggested;
* `addImportItem_astray`   where the text in front, the file and the message's own place matter.
-/

namespace GhciHost

open Text

/-! ## Places -/

namespace Location

/-- A location is made of digits and marks. -/
theorem Written.mem_text {w : Written} (hw : ∀ ds ∈ w.numerals, IsNumeral ds) {c : Char}
    (hc : c ∈ w.text) : isDecimal c = true ∨ c ∈ "(),:-".toList := by
  have hdigit {ds : List Char} (hds : ds ∈ w.numerals) (hc : c ∈ ds) :
      isDecimal c = true ∨ c ∈ "(),:-".toList := .inl ((hw ds hds).2 c hc)
  have hmark {p : String} (hp : p.toList ⊆ "(),:-".toList) (hc : c ∈ p.toList) :
      isDecimal c = true ∨ c ∈ "(),:-".toList := .inr (hp hc)
  cases w with
  | span l c₁ l' c₂ =>
    simp only [text, List.mem_append] at hc
    rcases hc with hc | hc | hc | hc | hc | hc | hc | hc | hc
    · exact hmark (by decide) hc
    · exact hdigit (by simp [numerals]) hc
    · exact hmark (by decide) hc
    · exact hdigit (by simp [numerals]) hc
    · exact hmark (by decide) hc
    · exact hdigit (by simp [numerals]) hc
    · exact hmark (by decide) hc
    · exact hdigit (by simp [numerals]) hc
    · exact hmark (by decide) hc
  | range l c₁ c₂ =>
    simp only [text, List.mem_append] at hc
    rcases hc with hc | hc | hc | hc | hc
    · exact hdigit (by simp [numerals]) hc
    · exact hmark (by decide) hc
    · exact hdigit (by simp [numerals]) hc
    · exact hmark (by decide) hc
    · exact hdigit (by simp [numerals]) hc
  | point l c₁ =>
    simp only [text, List.mem_append] at hc
    rcases hc with hc | hc | hc
    · exact hdigit (by simp [numerals]) hc
    · exact hmark (by decide) hc
    · exact hdigit (by simp [numerals]) hc

end Location

namespace Suggestion

variable {s t : List Char}

/-! ## What is read as a proposal -/

/-- The text up to the closing parenthesis.  `acc` was passed, newest character first. -/
theorem untilClose_eq_some {acc place : List Char} (h : untilClose acc s = some place) :
    ∃ passed rest, s = passed ++ ([')'] ++ rest) ∧ place = acc.reverse ++ passed ∧ place ≠ [] ∧
      Ended rest := by
  fun_induction untilClose acc s with
  | case1 => cases h
  | case2 acc c s ends hclose =>
    cases h
    simp only [Bool.and_eq_true, decide_eq_true_eq, Bool.not_eq_true', List.isEmpty_eq_false_iff]
      at hclose
    obtain ⟨⟨rfl, hacc⟩, hends⟩ := hclose
    refine ⟨[], s, rfl, (List.append_nil _).symm, List.reverse_ne_nil_iff.2 hacc, ?_⟩
    intro d hd
    obtain ⟨r, rfl⟩ := List.head?_eq_some_iff.1 hd
    simpa [ends] using hends
  | case3 acc c s ends hclose ih =>
    obtain ⟨passed, rest, rfl, rfl, hne, hrest⟩ := ih h
    exact ⟨c :: passed, rest, rfl, by simp, by simp, hrest⟩

/-- A proposal stands at the start of a text: any names in curled quotes, and any text in
    parentheses. -/
def Proposes (s : List Char) : Prop :=
  ∃ item module place rest, Closed item ∧ Closed module ∧ place ≠ [] ∧ Ended rest ∧
    s = proposal item module place ++ rest

theorem proposes_of_importProposal? {item module place : List Char}
    (h : importProposal? s = some (item, module, place)) : Proposes s := by
  simp only [importProposal?, Option.bind_eq_bind, Option.bind_eq_some_iff, Option.pure_def,
    Option.some.injEq, Prod.mk.injEq, Prod.exists] at h
  obtain ⟨s₁, h₁, _, s₂, h₂, s₃, h₃, _, s₄, h₄, s₅, h₅, _, hclose, rfl, rfl, rfl⟩ := h
  obtain ⟨h₂, hitem⟩ := quoted?_eq_some.1 h₂
  obtain ⟨h₄, hmodule⟩ := quoted?_eq_some.1 h₄
  obtain ⟨place, rest, h₆, hplace, hne, hrest⟩ := untilClose_eq_some hclose
  have hassoc (a b c d e f : List Char) : a ++ (b ++ (c ++ (d ++ (e ++ (place ++ f))))) ++ rest =
      a ++ (b ++ (c ++ (d ++ (e ++ (place ++ (f ++ rest)))))) := by
    simp only [List.append_assoc]
  rw [hplace] at hne
  refine ⟨_, _, place, rest, hitem, hmodule, hne, hrest, ?_⟩
  unfold proposal
  rw [stripPrefix?_eq_some.1 h₁, h₂, stripPrefix?_eq_some.1 h₃, h₄, stripPrefix?_eq_some.1 h₅, h₆]
  exact (hassoc _ _ _ _ _ _).symm

/-- The closing parenthesis is found behind a place of any form. -/
theorem untilClose_text {w : Location.Written} (hw : ∀ ds ∈ w.numerals, Location.IsNumeral ds)
    {acc : List Char} (hacc : acc ≠ []) (ht : Ended t) :
    untilClose acc (w.text ++ ([')'] ++ t)) = some (acc.reverse ++ w.text) := by
  have hdigits : ∀ ds ∈ w.numerals, ')' ∉ ds := fun ds hds hm =>
    absurd ((hw ds hds).2 _ hm) (by decide)
  -- a place without parentheses is passed as a whole
  have hplain (hclose : ')' ∉ w.text) :
      untilClose acc (w.text ++ ([')'] ++ t)) = some (acc.reverse ++ w.text) := by
    rw [untilClose_skip hclose, List.singleton_append,
      untilClose_close (List.append_ne_nil_of_right_ne_nil _ hacc) ht, List.reverse_append,
      List.reverse_reverse]
  cases w with
  | range l c c' =>
    simp only [Location.Written.numerals, List.forall_mem_cons] at hdigits
    obtain ⟨hl, hc, hc', -⟩ := hdigits
    exact hplain (by simp [Location.Written.text, hl, hc, hc'])
  | point l c =>
    simp only [Location.Written.numerals, List.forall_mem_cons] at hdigits
    obtain ⟨hl, hc, -⟩ := hdigits
    exact hplain (by simp [Location.Written.text, hl, hc])
  | span l c l' c' =>
    simp only [Location.Written.numerals, List.forall_mem_cons] at hdigits
    obtain ⟨hl, hc, hl', hc', -⟩ := hdigits
    have hfirst : ')' ∉ '(' :: (l ++ ',' :: c) := by simp [hl, hc]
    have hlast : ')' ∉ '(' :: (l' ++ ',' :: c') := by simp [hl', hc']
    have htext (r : List Char) : (Location.Written.span l c l' c').text ++ r =
        '(' :: (l ++ ',' :: c) ++ (')' :: '-' :: ('(' :: (l' ++ ',' :: c') ++ (')' :: r))) := by
      simp [Location.Written.text]
    rw [htext, untilClose_skip hfirst, untilClose_pass (by decide) (by decide),
      untilClose_cons (by decide), untilClose_skip hlast, List.singleton_append,
      untilClose_pass (by decide) (by decide), untilClose_close (List.cons_ne_nil _ _) ht]
    simp [Location.Written.text]

/-! ## Words that stand apart -/

/-- What becomes of a word when the text that it stands in is curled. -/
structure Rewritten (w w' : List Char) : Prop where
  recurled : Recurled w w'
  quotes : ∀ q name, Quotable name → w = Quotes.around q name → w' = Quotes.curly.around name

/-- A part of a text is curled on its own, or quoted on its own. -/
theorem exists_rewritten (s w t : List Char) : ∃ s' w' t', curled (s ++ (w ++ t)) = s' ++ (w' ++ t') ∧
    Recurled s s' ∧ Rewritten w w' ∧ Recurled t t' := by
  obtain ⟨s', r, heq, hs, hr⟩ := (recurled_curled (s ++ (w ++ t))).of_append
  obtain ⟨w', t', rfl, hw, ht⟩ := hr.of_append
  refine ⟨s', w', t', heq, hs, ⟨hw, ?_⟩, ht⟩
  rintro q name hname rfl
  obtain ⟨s'', t'', heq', hlength⟩ := curled_quotes q hname s t
  rw [heq] at heq'
  obtain ⟨-, heq'⟩ := List.append_inj heq' (hs.length_eq.symm.trans hlength.symm)
  refine (List.append_inj heq' ?_).1
  rw [← hw.length_eq, length_around, length_around]

/-- Words that stand apart are curled each on its own, and the blanks between them stay. -/
theorem curled_spread {gap : Nat → List Char} (hgap : ∀ i, IsGap (gap i)) (s : List Char)
    (ws : List (List Char)) (t : List Char) :
    ∃ s' ws' t', curled (s ++ (spread gap ws ++ t)) = s' ++ (spread gap ws' ++ t') ∧
      Recurled s s' ∧ List.Forall₂ Rewritten ws ws' ∧ Recurled t t' := by
  induction ws generalizing gap s with
  | nil =>
    obtain ⟨s', t', heq, hs, ht⟩ := (recurled_curled (s ++ t)).of_append
    exact ⟨s', [], t', heq, hs, .nil, ht⟩
  | cons w ws ih =>
    cases ws with
    | nil =>
      obtain ⟨s', w', t', heq, hs, hw, ht⟩ := exists_rewritten s w t
      exact ⟨s', [w'], t', heq, hs, .cons hw .nil, ht⟩
    | cons w₂ ws =>
      have htext : s ++ (spread gap (w :: w₂ :: ws) ++ t) =
          s ++ (w ++ (gap 0 ++ (spread (fun i => gap (i + 1)) (w₂ :: ws) ++ t))) := by
        simp only [spread, List.append_assoc]
      obtain ⟨s', w', r, heq, hs, hw, hr⟩ := exists_rewritten s w
        (gap 0 ++ (spread (fun i => gap (i + 1)) (w₂ :: ws) ++ t))
      obtain ⟨g, r, rfl, hg, hr⟩ := hr.of_append
      -- blanks are no quotes
      have hblank {c : Char} (hc : isBlank c = false) : c ∉ gap 0 := fun hm => by
        rw [(hgap 0).2 c hm] at hc
        cases hc
      obtain rfl := hg.eq_of_not_mem (hblank (by decide)) (hblank (by decide))
      obtain ⟨p, ws', t', heq', hp, hws, ht⟩ := ih (fun i => hgap (i + 1)) (s ++ (w ++ gap 0))
      obtain ⟨w₂', ws', hw₂, hws', rfl⟩ := List.forall₂_cons_left_iff.1 hws
      have hrest : s' ++ (w' ++ gap 0) ++ r =
          p ++ (spread (fun i => gap (i + 1)) (w₂' :: ws') ++ t') := by
        rw [← heq', List.append_assoc, List.append_assoc, ← heq]
        simp only [List.append_assoc]
      obtain ⟨-, rfl⟩ := List.append_inj hrest (by
        rw [← hp.length_eq]
        simp [hs.length_eq, hw.recurled.length_eq])
      refine ⟨s', w' :: w₂' :: ws', t', ?_, hs, .cons hw hws, ht⟩
      rw [htext, heq, spread]
      simp only [List.append_assoc]

/-- Words without quotes stay. -/
theorem rewritten_plain {ws ws' : List (List Char)} (h : List.Forall₂ Rewritten ws ws')
    (hws : ∀ w ∈ ws, grave ∉ w ∧ '\'' ∉ w) : ws' = ws := by
  induction h with
  | nil => rfl
  | cons hw _ ih =>
    obtain ⟨⟨hgrave, hprime⟩, hws⟩ := List.forall_mem_cons.1 hws
    rw [ih hws, hw.recurled.eq_of_not_mem hgrave hprime]

/-! ## Proposals as they are printed -/

/-- A name that can stand in quotes of either kind: it holds neither blanks nor quotes. -/
def IsName (name : List Char) : Prop :=
  name ≠ [] ∧ ∀ c ∈ name, isBlank c = false ∧ c ≠ '’' ∧ c ≠ '\'' ∧ c ≠ grave

theorem IsName.quotable {name : List Char} (h : IsName name) : Quotable name := by
  refine ⟨h.1, fun c hc => ?_⟩
  obtain ⟨hblank, -, hprime, hgrave⟩ := h.2 c hc
  by_contra hno
  obtain rfl | rfl | rfl := isQuotable_eq_false.1 (Bool.eq_false_iff.2 hno)
  · exact hgrave rfl
  · exact hprime rfl
  · exact absurd hblank (by decide)

theorem IsName.closed {name : List Char} (h : IsName name) : Closed name :=
  ⟨h.1, fun hm => (h.2 _ hm).2.1 rfl⟩

theorem IsName.isWord_around {name : List Char} (h : IsName name) :
    IsWord (Quotes.curly.around name) := by
  refine ⟨around_ne_nil _ _, fun c hc => ?_⟩
  simp only [Quotes.around, List.mem_cons, List.mem_append, List.not_mem_nil, or_false] at hc
  obtain rfl | hc | rfl := hc
  · decide
  · exact (h.2 c hc).1
  · decide

/-- A file name as it stands in front of a place in parentheses. -/
def IsFile (file : List Char) : Prop :=
  file ≠ [] ∧ ∀ c ∈ file, isBlank c = false ∧ c ≠ ':' ∧ c ≠ ')'

instance (name : List Char) : Decidable (IsName name) :=
  have : Decidable (∀ c ∈ name, isBlank c = false ∧ c ≠ '’' ∧ c ≠ '\'' ∧ c ≠ grave) :=
    List.decidableBAll _ name
  inferInstanceAs (Decidable (name ≠ [] ∧ _))

instance (file : List Char) : Decidable (IsFile file) :=
  have : Decidable (∀ c ∈ file, isBlank c = false ∧ c ≠ ':' ∧ c ≠ ')') :=
    List.decidableBAll _ file
  inferInstanceAs (Decidable (file ≠ [] ∧ _))

/-- A proposal to extend an import list, as a compiler prints it. -/
structure Proposal where
  item : List Char
  itemQuotes : Quotes
  module : List Char
  moduleQuotes : Quotes
  file : List Char
  place : Location.Written
  /-- The blanks behind each word. -/
  gap : Nat → List Char
  isName_item : IsName item
  isName_module : IsName module
  isFile : IsFile file
  isNumeral : ∀ ds ∈ place.numerals, Location.IsNumeral ds
  short : place.Short
  isGap : ∀ i, IsGap (gap i)

namespace Proposal

/-- The words in front of the item. -/
def opening : List (List Char) := ["Perhaps", "you", "want", "to", "add"].map String.toList

/-- The words between the item and the module. -/
def between : List (List Char) :=
  ["to", "the", "import", "list", "in", "the", "import", "of"].map String.toList

/-- The last word: a place in a file, in parentheses, and a full stop. -/
def ending (file : List Char) (place : Location.Written) : List Char :=
  '(' :: (file ++ ':' :: (place.text ++ [')', '.']))

/-- The words of a proposal. -/
def sentence (item module ending : List Char) : List (List Char) :=
  opening ++ item :: (between ++ [module, ending])

variable (p : Proposal)

/-- The words of a proposal, its names in quotes. -/
def words : List (List Char) :=
  sentence (p.itemQuotes.around p.item) (p.moduleQuotes.around p.module) (ending p.file p.place)

/-- A proposal in characters. -/
def text : List Char := spread p.gap p.words

/-! ### How it is read -/

/-- The last word keeps all but the name of the file. -/
theorem rewritten_ending {last : List Char} (h : Rewritten (ending p.file p.place) last) :
    ∃ file, IsFile file ∧ last = ending file p.place := by
  have hmarks {c : Char} (hdigit : isDecimal c = false) (hmark : c ∉ "(),:-".toList) :
      c ∉ p.place.text := fun hm =>
    (Location.Written.mem_text p.isNumeral hm).elim (fun hd => by rw [hdigit] at hd; cases hd) hmark
  have hgrave : grave ∉ ':' :: (p.place.text ++ [')', '.']) := by
    simpa [hmarks (c := grave) (by decide) (by decide)] using (by decide)
  have hprime : '\'' ∉ ':' :: (p.place.text ++ [')', '.']) := by
    simp [hmarks (c := '\'') (by decide) (by decide)]
  obtain ⟨paren, r, rfl, hparen, h₁⟩ := (show Recurled (['('] ++ _) last from h.recurled).of_append
  obtain ⟨file, rest, rfl, hfile, hrest⟩ := h₁.of_append
  obtain rfl := hparen.eq_of_not_mem (by decide) (by decide)
  obtain rfl := hrest.eq_of_not_mem hgrave hprime
  refine ⟨file, ⟨fun e => ?_, ?_⟩, rfl⟩
  · have hlength := hfile.length_eq
    rw [e] at hlength
    exact p.isFile.1 (List.eq_nil_of_length_eq_zero hlength)
  · exact hfile.forall_mem p.isFile.2 (by decide) (by decide)

/-- What becomes of the words of a proposal when the message that it stands in is curled: the file
    may be called otherwise. -/
theorem rewritten_words {ws : List (List Char)} (h : List.Forall₂ Rewritten p.words ws) :
    ∃ file, IsFile file ∧ ws = sentence (Quotes.curly.around p.item)
      (Quotes.curly.around p.module) (ending file p.place) := by
  obtain ⟨us, r₁, rfl, hopening, h₁⟩ := exists_append_of_forall₂ h
  obtain ⟨item, r₂, hitem, h₂, rfl⟩ := List.forall₂_cons_left_iff.1 h₁
  obtain ⟨us', r₃, rfl, hbetween, h₃⟩ := exists_append_of_forall₂ h₂
  obtain ⟨module, r₄, hmodule, h₄, rfl⟩ := List.forall₂_cons_left_iff.1 h₃
  obtain ⟨last, r₅, hlast, h₅, rfl⟩ := List.forall₂_cons_left_iff.1 h₄
  obtain rfl := List.forall₂_nil_left_iff.1 h₅
  obtain rfl := rewritten_plain hopening (by decide)
  obtain rfl := rewritten_plain hbetween (by decide)
  obtain rfl := hitem.quotes _ _ p.isName_item.quotable rfl
  obtain rfl := hmodule.quotes _ _ p.isName_module.quotable rfl
  obtain ⟨file, hfile, rfl⟩ := p.rewritten_ending hlast
  exact ⟨file, hfile, rfl⟩

/-- The words of a proposal with single spaces between them. -/
theorem intercalate_sentence (item module file : List Char) (place : Location.Written) :
    List.intercalate [' '] (sentence (Quotes.curly.around item) (Quotes.curly.around module)
      (ending file place)) = proposal item module (file ++ ':' :: place.text) ++ ['.'] := by
  have hproposal : proposal item module (file ++ ':' :: place.text) =
      List.intercalate [' '] opening ++ [' '] ++ (['‘'] ++ item ++ ['’'] ++
        (' ' :: (List.intercalate [' '] between ++ [' ']) ++ (['‘'] ++ module ++ ['’'] ++
          ([' ', '('] ++ (file ++ ':' :: place.text ++ [')']))))) := rfl
  have hlast (v w : List Char) : List.intercalate [' '] [v, w] = v ++ ' ' :: w := by simp
  rw [hproposal, sentence, intercalate_append_of_ne_nil (by decide) (List.cons_ne_nil _ _),
    List.intercalate_cons_of_ne_nil (by simp [between]),
    intercalate_append_of_ne_nil (by decide) (List.cons_ne_nil _ _), hlast]
  generalize List.intercalate [' '] opening = a
  generalize List.intercalate [' '] between = b
  simp [Quotes.around, ending]

theorem isWord_sentence {file : List Char} (hfile : IsFile file) :
    ∀ w ∈ sentence (Quotes.curly.around p.item) (Quotes.curly.around p.module)
      (ending file p.place), IsWord w := by
  have hplace : ∀ c ∈ p.place.text, isBlank c = false := fun c hc =>
    (Location.Written.mem_text p.isNumeral hc).elim isBlank_of_isDecimal fun hm => by
      simpa using List.all_eq_true.1 (by decide : "(),:-".toList.all (!isBlank ·) = true) c hm
  have hending : IsWord (ending file p.place) := by
    refine ⟨List.cons_ne_nil _ _, fun c hc => ?_⟩
    simp only [ending, List.mem_cons, List.mem_append, List.not_mem_nil, or_false] at hc
    obtain rfl | hc | rfl | hc | rfl | rfl := hc
    · decide
    · exact (hfile.2 c hc).1
    · decide
    · exact hplace c hc
    · decide
    · decide
  have hopening : ∀ w ∈ opening, IsWord w := by decide
  have hbetween : ∀ w ∈ between, IsWord w := by decide
  intro w hw
  simp only [sentence, List.mem_cons, List.mem_append, List.not_mem_nil, or_false] at hw
  obtain hw | rfl | hw | rfl | rfl := hw
  · exact hopening w hw
  · exact p.isName_item.isWord_around
  · exact hbetween w hw
  · exact p.isName_module.isWord_around
  · exact hending

/-- A proposal that stands first is read as its item, its module and its place, whatever follows. -/
theorem importProposal?_eq {file : List Char} (hfile : IsFile file) (rest : List Char) :
    importProposal? (proposal p.item p.module (file ++ ':' :: p.place.text) ++ '.' :: rest) =
      some (p.item, p.module, file ++ ':' :: p.place.text) := by
  refine importProposal?_append p.isName_item.closed p.isName_module.closed ?_
  have hclose : ')' ∉ file ++ [':'] := by
    simpa using fun hm => (hfile.2 _ hm).2.2 rfl
  have hended : Ended ('.' :: rest) := fun c hc => by
    cases hc
    exact .inl rfl
  have hsplit (t : List Char) : file ++ ':' :: p.place.text ++ t =
      file ++ [':'] ++ (p.place.text ++ t) := by simp
  rw [hsplit, untilClose_skip hclose, untilClose_text p.isNumeral (by simp) hended]
  simp

/-- The place is found behind the file. -/
theorem fileLocation?_eq {file : List Char} (hfile : IsFile file) :
    Location.fileLocation? (file ++ ':' :: p.place.text) = some (file, p.place, []) := by
  obtain ⟨c, file, rfl⟩ := List.exists_cons_of_ne_nil hfile.1
  have hcolon : ':' ∉ file := fun hm => (hfile.2 _ (List.mem_cons_of_mem c hm)).2.1 rfl
  have hbreak : '\n' ∉ file := fun hm =>
    absurd (hfile.2 _ (List.mem_cons_of_mem c hm)).1 (by decide)
  have hbehind : Location.Behind [] := fun c hc => by cases hc
  have hfound := Location.fileThen?_text p.isNumeral hbehind (rfl : some [] = some [])
    (hfile.2 c List.mem_cons_self).1 hcolon hbreak
  rwa [List.append_nil] at hfound

end Proposal

/-! ## What is suggested -/

/-- No proposal begins before the last `n` characters of a text. -/
def NoneBefore (n : Nat) (s : List Char) : Prop :=
  ∀ t, t <:+ s → n < t.length → Diagnostic.Starts t → ¬ Proposes (squeeze t)

theorem Proposes.starts (h : Proposes s) : ∃ r, s = 'P' :: r := by
  obtain ⟨item, module, place, rest, -, -, -, -, rfl⟩ := h
  exact ⟨_, rfl⟩

/-- A proposal begins with a capital, which a text without it does not hold. -/
theorem noneBefore_of_not_mem (hs : 'P' ∉ s) (t : List Char) :
    NoneBefore t.length (curled (s ++ t)) := by
  obtain ⟨s', t', heq, hs', ht'⟩ := (recurled_curled (s ++ t)).of_append
  intro u hu hlength hstarts hproposes
  rw [heq] at hu
  rw [ht'.length_eq] at hlength
  obtain ⟨c, hc, hblank⟩ := hstarts
  obtain ⟨r, rfl⟩ := List.head?_eq_some_iff.1 hc
  have hcapital : c = 'P' := by
    obtain ⟨v, hv⟩ := hproposes.starts
    obtain ⟨w, hw⟩ := prefix_squeeze (w := [c]) ⟨List.cons_ne_nil _ _, by simpa using hblank⟩ r
    exact (List.cons.inj (hw.trans hv)).1
  -- the proposal would begin with a character of the text in front
  obtain ⟨x, hx⟩ := List.suffix_of_suffix_length_le (List.suffix_append s' t') hu (Nat.le_of_lt hlength)
  cases x with
  | nil => exact absurd (congrArg List.length hx) (Nat.ne_of_lt hlength)
  | cons d x =>
    have hmem : c ∈ s' := by
      rw [← hx] at hu
      rw [← (List.cons.inj hx).1]
      exact (List.suffix_append_self_iff.1 hu).subset List.mem_cons_self
    exact hs'.forall_mem (p := (· ≠ 'P')) (fun x hx => ne_of_mem_of_not_mem hx hs) (by decide)
      (by decide) c hmem hcapital

/-- Where none begins before it, the proposal at the start of a text is the first that is found. -/
theorem search?_importProposal {b rest : List Char} {found : List Char × List Char × List Char}
    (hstarts : Diagnostic.Starts rest) (hfound : importProposal? (squeeze rest) = some found)
    (hfirst : NoneBefore rest.length (b ++ rest)) :
    search? importProposal? (squeeze (b ++ rest)) = some found := by
  obtain ⟨lead, hlead⟩ := exists_leads hstarts b
  rw [hlead.eq, search?_append, search?_of_some hfound]
  intro u c v huv
  refine Option.eq_none_iff_forall_ne_some.2 fun other hother => ?_
  obtain ⟨item, module, place⟩ := other
  have hproposes := proposes_of_importProposal? hother
  obtain ⟨_, hcapital⟩ := hproposes.starts
  obtain ⟨rfl, -⟩ := List.cons.inj hcapital
  -- it would begin in the message too
  obtain ⟨x, y, rfl, hy⟩ := hlead.within u 'P' v huv (by decide)
  rw [← hy] at hproposes
  refine hfirst ('P' :: (y ++ rest)) ⟨x, by simp⟩ ?_ (Diagnostic.starts_cons.2 (by decide)) hproposes
  rw [List.length_cons, List.length_append]
  omega

/-- The first proposal of a message is suggested, at the place that it names, whatever the quotes of
    its names and the blanks between its words. -/
theorem addImportItem_proposal (p : Proposal) {before after : List Char} {d : Diagnostic}
    (hd : d.negatives = []) (hmessage : d.message.toList = before ++ (p.text ++ after))
    (hfirst : NoneBefore (p.text ++ after).length (curledMessage d)) :
    addImportItem d = .ok [⟨{ p.place.denotes with file := d.file },
      .addImportItem (String.ofList p.module) (String.ofList p.item)⟩] := by
  obtain ⟨b, ws, a, hcurled, hb, hws, ha⟩ := curled_spread p.isGap before p.words after
  obtain ⟨file, hfile, rfl⟩ := p.rewritten_words hws
  have hwords := p.isWord_sentence hfile
  generalize hrest : spread p.gap (Proposal.sentence (Quotes.curly.around p.item)
    (Quotes.curly.around p.module) (Proposal.ending file p.place)) ++ a = rest at hcurled
  have hstarts : Diagnostic.Starts rest := by
    rw [← hrest]
    exact (starts_spread (hwords _ List.mem_cons_self) _).append a
  have hcurledMessage : curledMessage d = b ++ rest := by
    rw [curledMessage, hmessage]
    exact hcurled
  have hlength : (p.text ++ after).length = rest.length := by
    have htotal : d.message.toList.length = (b ++ rest).length :=
      hcurledMessage ▸ (recurled_curled d.message.toList).length_eq
    simpa only [hmessage, List.length_append, hb.length_eq, Nat.add_left_cancel_iff] using htotal
  -- the proposal is read where it stands
  obtain ⟨r, hr⟩ := squeeze_spread p.isGap hwords a
  rw [hrest, Proposal.intercalate_sentence, List.append_assoc, List.singleton_append] at hr
  have hproposal : importProposal? (squeeze rest) =
      some (p.item, p.module, file ++ ':' :: p.place.text) := by
    rw [← hr]
    exact p.importProposal?_eq hfile r
  rw [hlength, hcurledMessage] at hfirst
  have hsearch : search? importProposal? (flatMessage d) =
      some (p.item, p.module, file ++ ':' :: p.place.text) := by
    rw [flatMessage, hcurledMessage]
    exact search?_importProposal hstarts hproposal hfirst
  obtain ⟨own, hown⟩ := placeOf_ok hd
  simp only [addImportItem, hsearch, hown, p.fileLocation?_eq hfile, p.short.read_eq]
  rfl

/-- A name that is in a module whose import names its items. -/
def Proposal.sortOn : Proposal where
  item := "sortOn".toList
  itemQuotes := .ascii
  module := "Data.List".toList
  moduleQuotes := .curly
  file := "src/Foo.hs".toList
  place := .span ['3'] ['1'] ['4'] ['2', '0']
  gap i := if i = 4 then "\n    ".toList else [' ']
  isName_item := by decide
  isName_module := by decide
  isFile := by decide
  isNumeral ds hds := by
    have hdigits : ∀ ds ∈ [['3'], ['1'], ['4'], ['2', '0']], ds ≠ [] ∧ ds.all isDecimal = true := by
      decide
    exact (hdigits ds hds).imp_right List.all_eq_true.1
  short := (by decide : ∀ ds ∈ [['3'], ['1'], ['4'], ['2', '0']], ds.length ≤ maxDigits)
  isGap i := by
    split
    · decide
    · decide

/-- A proposal behind another line, in quotes of both kinds and over two lines, of a place over
    two lines. -/
theorem addImportItem_proposal_two_lines :
    let before := "• Variable not in scope: sortOn\n• ".toList
    let after := "\n  (imported from Data.List)".toList
    let d : Diagnostic :=
      { severity := .error, file := "src/Foo.hs", line := 10, column := 3, endLine := 10,
        endColumn := 9, message := String.ofList (before ++ (Proposal.sortOn.text ++ after)) }
    d.negatives = [] ∧ NoneBefore (Proposal.sortOn.text ++ after).length (curledMessage d) ∧
      addImportItem d = .ok [⟨⟨⟨3, 1, 4, 20⟩, "src/Foo.hs"⟩, .addImportItem "Data.List" "sortOn"⟩] := by
  intro before after d
  have hmessage : d.message.toList = before ++ (Proposal.sortOn.text ++ after) :=
    String.toList_ofList
  have hfirst : NoneBefore (Proposal.sortOn.text ++ after).length (curledMessage d) := by
    rw [curledMessage, hmessage]
    exact noneBefore_of_not_mem (by decide) _
  exact ⟨by decide, hfirst, addImportItem_proposal .sortOn (by decide) hmessage hfirst⟩

/-- A proposal is read with another item behind the start of one that was never finished.  It is
    placed at the message where the file has no name, and nowhere where the message has a negative
    position. -/
theorem addImportItem_astray :
    let sentence (file : String) := "Perhaps you want to add ‘sortOn’ to the import list in the " ++
      "import of ‘Data.List’ (" ++ file ++ ":3:1-24)."
    let message (line : Int) (text : String) : Diagnostic :=
      { severity := .error, file := "src/Foo.hs", line, column := 3, endLine := 10,
        endColumn := 9, message := text }
    (∀ q : Proposal, ¬ q.text <:+: "Perhaps you want to add ‘".toList) ∧
      addImportItem (message 10 ("Perhaps you want to add ‘" ++ sentence "src/Foo.hs")) =
        .ok [⟨⟨⟨3, 1, 3, 24⟩, "src/Foo.hs"⟩,
          .addImportItem "Data.List" "Perhaps you want to add ‘sortOn"⟩] ∧
      addImportItem (message 10 (sentence "")) =
        .ok [⟨⟨⟨10, 3, 10, 9⟩, "src/Foo.hs"⟩, .addImportItem "Data.List" "sortOn"⟩] ∧
      addImportItem (message (-1) (sentence "src/Foo.hs")) = .error (.negative [.line]) := by
  refine ⟨fun q hq => ?_, by decide +kernel, by decide +kernel, by decide +kernel⟩
  have hending : Proposal.ending q.file q.place <:+: q.text :=
    infix_spread q.gap (by simp [Proposal.words, Proposal.sentence])
  exact absurd ((hending.trans hq).subset List.mem_cons_self) (by decide)

end Suggestion

end GhciHost
