import Mathlib.Data.List.Forall2
import Mathlib.Data.List.TakeWhile
import GhciHost.Suggestion.Quoted

/-!
# Curled quotations

A message is read with curled quotes in place of ASCII ones.  Nothing else of it changes, a quotation
is recognised wherever it stands, and a text without grave accents stays as it is.

An ASCII quotation ends at its first apostrophe, and on its own line.  So curled quotations that are
written with ASCII quotes are read as the same names if none holds an apostrophe or a line feed, and
only then.

* `curled_induction`   a text is read quotation by quotation;
* `Recurled`, `curled_quotes`   what curling changes, and what it does to a quotation;
* `uncurled`, `curled_uncurled_iff`   curled quotations that are written with ASCII quotes.
-/

namespace GhciHost

theorem exists_append_of_forall₂ {α β : Type} {R : α → β → Prop} {xs xs' : List α} {ys : List β}
    (h : List.Forall₂ R (xs ++ xs') ys) :
    ∃ zs zs', ys = zs ++ zs' ∧ List.Forall₂ R xs zs ∧ List.Forall₂ R xs' zs' := by
  have htake := List.forall₂_take xs.length h
  have hdrop := List.forall₂_drop xs.length h
  rw [List.take_left] at htake
  rw [List.drop_left] at hdrop
  exact ⟨_, _, (List.take_append_drop _ _).symm, htake, hdrop⟩

/-! ## Replacing -/

namespace Text

variable {m : List Char → Option (List Char × Nat)} {s new : List Char} {n : Nat}

theorem replaceFrom_eq (k : Nat) (s : List Char) : replaceFrom m k s = replaceAll m (s.drop k) := by
  induction s generalizing k with
  | nil => cases k <;> rfl
  | cons c s ih =>
    cases k with
    | zero => rfl
    | succ k => exact ih k

/-- What a match replaces is left out. -/
theorem replaceAll_of_some (hs : s ≠ []) (h : m s = some (new, n)) (hn : 0 < n) :
    replaceAll m s = new ++ replaceAll m (s.drop n) := by
  obtain ⟨c, s, rfl⟩ := List.exists_cons_of_ne_nil hs
  obtain ⟨n, rfl⟩ := Nat.exists_eq_succ_of_ne_zero (Nat.pos_iff_ne_zero.1 hn)
  rw [replaceAll, replaceFrom, h]
  exact congrArg (new ++ ·) (replaceFrom_eq n s)

theorem replaceAll_of_none {c : Char} (h : m (c :: s) = none) :
    replaceAll m (c :: s) = c :: replaceAll m s := by
  rw [replaceAll, replaceFrom, h]
  rfl

end Text

namespace Suggestion

open Text

/-! ## Quotations -/

/-- The quotes that a compiler puts around a name. -/
inductive Quotes
  | curly
  | ascii
deriving DecidableEq, Repr

/-- A name in quotes. -/
def Quotes.around : Quotes → List Char → List Char
  | curly, name => '‘' :: (name ++ ['’'])
  | ascii, name => grave :: (name ++ ['\''])

/-- A name that is recognised in ASCII quotes. -/
def Quotable (name : List Char) : Prop := name ≠ [] ∧ ∀ c ∈ name, isQuotable c = true

variable {c : Char} {s t name : List Char}

theorem around_curly (name t : List Char) :
    Quotes.curly.around name ++ t = '‘' :: (name ++ '’' :: t) := by simp [Quotes.around]

theorem around_ascii (name t : List Char) :
    Quotes.ascii.around name ++ t = grave :: (name ++ '\'' :: t) := by simp [Quotes.around]

theorem around_ne_nil (q : Quotes) (name : List Char) : q.around name ≠ [] := by
  cases q <;> exact List.cons_ne_nil _ _

theorem length_around (q : Quotes) (name : List Char) :
    (q.around name).length = name.length + 2 := by
  cases q <;> simp [Quotes.around]

theorem isQuotable_eq_false : isQuotable c = false ↔ c = grave ∨ c = '\'' ∨ c = '\n' := by
  simp only [isQuotable, Bool.and_eq_false_iff, bne_eq_false_iff_eq, or_assoc]

theorem Quotable.not_mem (h : Quotable name) (hc : isQuotable c = false) : c ∉ name := fun hm => by
  rw [h.2 c hm] at hc
  cases hc

/-- An ASCII quotation is a grave accent, a name and an apostrophe. -/
theorem asciiQuoted?_eq_some {new : List Char} {n : Nat} :
    asciiQuoted? s = some (new, n) ↔ ∃ name rest, Quotable name ∧
      s = grave :: (name ++ '\'' :: rest) ∧ new = Quotes.curly.around name ∧
        n = name.length + 2 := by
  constructor
  · intro h
    cases s with
    | nil => cases h
    | cons c s =>
      have hs := List.takeWhile_append_dropWhile (p := isQuotable) (l := s)
      have hall : ∀ x ∈ s.takeWhile isQuotable, isQuotable x = true := fun x =>
        List.mem_takeWhile_imp
      rw [asciiQuoted?] at h
      dsimp only at h
      split at h
      · cases h
      · next hc =>
        split at h
        · cases h
        · next rest hrest hne =>
          cases h
          rw [hrest] at hs
          exact ⟨_, rest, ⟨hne, hall⟩, by rw [hs, not_ne_iff.1 hc], rfl, rfl⟩
        · cases h
  · rintro ⟨name, rest, ⟨hne, hall⟩, rfl, rfl, rfl⟩
    have htake : (name ++ '\'' :: rest).takeWhile isQuotable = name := by
      rw [List.takeWhile_append_of_pos hall, List.takeWhile_cons_of_neg (by decide),
        List.append_nil]
    have hdrop : (name ++ '\'' :: rest).dropWhile isQuotable = '\'' :: rest := by
      rw [List.dropWhile_append_of_pos hall, List.dropWhile_cons_of_neg (by decide)]
    rw [asciiQuoted?, if_neg (not_ne_iff.2 rfl)]
    simp only [htake, hdrop]
    rfl

theorem asciiQuoted?_of_ne (h : c ≠ grave) (s : List Char) : asciiQuoted? (c :: s) = none :=
  if_pos h

/-- A quotation is curled, and what stands behind it on its own. -/
theorem curled_quotation (h : Quotable name) (rest : List Char) :
    curled (grave :: (name ++ '\'' :: rest)) = Quotes.curly.around name ++ curled rest := by
  have hdrop : (grave :: (name ++ '\'' :: rest)).drop (name.length + 2) = rest := by
    rw [List.drop_succ_cons, List.drop_length_add_append, List.drop_succ_cons, List.drop_zero]
  rw [curled, replaceAll_of_some (List.cons_ne_nil _ _)
    (asciiQuoted?_eq_some.2 ⟨name, rest, h, rfl, rfl, rfl⟩) (Nat.succ_pos _), hdrop]
  rfl

theorem curled_cons (h : asciiQuoted? (c :: s) = none) : curled (c :: s) = c :: curled s :=
  replaceAll_of_none h

theorem curled_cons_of_ne (h : c ≠ grave) (s : List Char) : curled (c :: s) = c :: curled s :=
  curled_cons (asciiQuoted?_of_ne h s)

/-- A text without grave accents is left as it is. -/
theorem curled_of_not_mem (h : grave ∉ s) : curled s = s := by
  induction s with
  | nil => rfl
  | cons c s ih =>
    simp only [List.mem_cons, not_or] at h
    rw [curled_cons_of_ne (Ne.symm h.1), ih h.2]

/-- A text is read quotation by quotation, and what is none character by character. -/
@[elab_as_elim]
theorem curled_induction {motive : List Char → Prop} (nil : motive [])
    (quotation : ∀ name rest, Quotable name → motive rest →
      motive (grave :: (name ++ '\'' :: rest)))
    (char : ∀ c s, asciiQuoted? (c :: s) = none → motive s → motive (c :: s)) (s : List Char) :
    motive s :=
  match s with
  | [] => nil
  | c :: s =>
    match h : asciiQuoted? (c :: s) with
    | none => char c s h (curled_induction nil quotation char s)
    | some (new, n) => by
      obtain ⟨name, rest, hname, heq, -⟩ := asciiQuoted?_eq_some.1 h
      have hlength : rest.length ≤ s.length := by
        rw [(List.cons.inj heq).2, List.length_append, List.length_cons]
        omega
      rw [heq]
      exact quotation name rest hname (curled_induction nil quotation char rest)
termination_by s.length

/-! ## What curling changes -/

/-- A text whose ASCII quotes have been curled, or some of them. -/
def Recurled (s t : List Char) : Prop :=
  List.Forall₂ (fun c d => c = d ∨ (c = grave ∧ d = '‘') ∨ (c = '\'' ∧ d = '’')) s t

namespace Recurled

theorem refl (s : List Char) : Recurled s s := List.forall₂_same.2 fun _ _ => .inl rfl

theorem length_eq (h : Recurled s t) : s.length = t.length := List.Forall₂.length_eq h

theorem eq_of_not_mem (h : Recurled s t) (hgrave : grave ∉ s) (hprime : '\'' ∉ s) : t = s := by
  induction h with
  | nil => rfl
  | cons hcd _ ih =>
    simp only [List.mem_cons, not_or] at hgrave hprime
    rw [ih hgrave.2 hprime.2]
    obtain rfl | ⟨rfl, -⟩ | ⟨rfl, -⟩ := hcd
    · rfl
    · exact absurd rfl hgrave.1
    · exact absurd rfl hprime.1

/-- A text that is put together is curled part by part. -/
theorem of_append {s₁ s₂ : List Char} (h : Recurled (s₁ ++ s₂) t) :
    ∃ t₁ t₂, t = t₁ ++ t₂ ∧ Recurled s₁ t₁ ∧ Recurled s₂ t₂ :=
  exists_append_of_forall₂ h

/-- What holds of all characters and of the curled quotes still holds of all. -/
theorem forall_mem {p : Char → Prop} (h : Recurled s t) (hs : ∀ c ∈ s, p c) (hopen : p '‘')
    (hclose : p '’') : ∀ c ∈ t, p c := by
  induction h with
  | nil => exact hs
  | cons hcd _ ih =>
    obtain ⟨hc, hs⟩ := List.forall_mem_cons.1 hs
    refine List.forall_mem_cons.2 ⟨?_, ih hs⟩
    obtain rfl | ⟨-, rfl⟩ | ⟨-, rfl⟩ := hcd
    · exact hc
    · exact hopen
    · exact hclose

end Recurled

theorem recurled_curled (s : List Char) : Recurled s (curled s) := by
  induction s using curled_induction with
  | nil => exact .nil
  | quotation name rest hname ih =>
    rw [curled_quotation hname, around_curly]
    refine .cons (.inr (.inl ⟨rfl, rfl⟩)) ?_
    exact List.rel_append (Recurled.refl name) (.cons (.inr (.inr ⟨rfl, rfl⟩)) ih)
  | char c s h ih =>
    rw [curled_cons h]
    exact .cons (.inl rfl) ih

/-- No quotation reaches across a grave accent. -/
theorem curled_append_grave (s t : List Char) :
    curled (s ++ grave :: t) = curled s ++ curled (grave :: t) := by
  induction s using curled_induction with
  | nil => rfl
  | quotation name rest hname ih =>
    rw [List.cons_append, List.append_assoc, List.cons_append, curled_quotation hname, ih,
      curled_quotation hname, List.append_assoc]
  | char c s h ih =>
    have hnone : asciiQuoted? (c :: (s ++ grave :: t)) = none := by
      refine Option.eq_none_iff_forall_ne_some.2 fun ⟨new, n⟩ hsome => ?_
      obtain ⟨name, rest, hname, heq, -⟩ := asciiQuoted?_eq_some.1 hsome
      obtain ⟨rfl, heq⟩ := List.cons.inj heq
      have hclosed : grave ∉ name ++ ['\''] := by
        simpa using ⟨hname.not_mem (isQuotable_eq_false.2 (.inl rfl)), by decide⟩
      -- the apostrophe comes before the accent, so there was a quotation without it
      have heq : s ++ grave :: t = name ++ ['\''] ++ rest := by simpa using heq
      rcases List.append_eq_append_iff.1 heq with ⟨r, hr, hrest⟩ | ⟨r, rfl, -⟩
      · cases r with
        | nil =>
          have hs : s = name ++ '\'' :: [] := by simpa using hr.symm
          rw [hs, asciiQuoted?_eq_some.2 ⟨name, [], hname, rfl, rfl, rfl⟩] at h
          cases h
        | cons d r =>
          rw [List.cons_append] at hrest
          rw [hr, ← (List.cons.inj hrest).1] at hclosed
          exact hclosed (List.mem_append_right _ List.mem_cons_self)
      · rw [List.append_assoc, List.singleton_append,
          asciiQuoted?_eq_some.2 ⟨name, r, hname, rfl, rfl, rfl⟩] at h
        cases h
    rw [List.cons_append, curled_cons hnone, ih, curled_cons h]
    rfl

/-- A name in quotes of either kind is read in curled ones, whatever stands around it. -/
theorem curled_quotes (q : Quotes) (hname : Quotable name) (s t : List Char) :
    ∃ s' t', curled (s ++ (q.around name ++ t)) = s' ++ (Quotes.curly.around name ++ t') ∧
      s'.length = s.length := by
  cases q with
  | curly =>
    obtain ⟨s', r, heq, hs, hr⟩ := (recurled_curled (s ++ (Quotes.curly.around name ++ t))).of_append
    obtain ⟨q, t', rfl, hq, -⟩ := hr.of_append
    have hplain {c : Char} (hc : isQuotable c = false) (hopen : c ≠ '‘') (hclose : c ≠ '’') :
        c ∉ Quotes.curly.around name := by
      simp [Quotes.around, hopen, hclose, hname.not_mem hc]
    rw [hq.eq_of_not_mem (hplain (isQuotable_eq_false.2 (.inl rfl)) (by decide) (by decide))
      (hplain (isQuotable_eq_false.2 (.inr (.inl rfl))) (by decide) (by decide))] at heq
    exact ⟨s', t', heq, hs.length_eq.symm⟩
  | ascii =>
    refine ⟨curled s, curled t, ?_, (recurled_curled s).length_eq.symm⟩
    rw [around_ascii, curled_append_grave, curled_quotation hname]

/-! ## Quotations that are written with ASCII quotes -/

/-- Write every curled quotation with ASCII quotes. -/
def uncurled (s : List Char) : List Char :=
  replaceAll (fun s => (quoted? s).map fun (name, _) => (Quotes.ascii.around name, name.length + 2)) s

/-- A name that is recognised in curled quotes. -/
def Closed (name : List Char) : Prop := name ≠ [] ∧ '’' ∉ name

instance (name : List Char) : Decidable (Closed name) :=
  inferInstanceAs (Decidable (name ≠ [] ∧ '’' ∉ name))

theorem quoted?_around (h : Closed name) (rest : List Char) :
    quoted? (Quotes.curly.around name ++ rest) = some (name, rest) :=
  quoted?_eq_some.2 ⟨by simp [Quotes.around], h⟩

/-- A text is read curled quotation by curled quotation, and what is none character by character. -/
@[elab_as_elim]
theorem quoted_induction {motive : List Char → Prop} (nil : motive [])
    (quotation : ∀ name rest, Closed name → motive rest →
      motive (Quotes.curly.around name ++ rest))
    (char : ∀ c s, quoted? (c :: s) = none → motive s → motive (c :: s)) (s : List Char) :
    motive s :=
  match s with
  | [] => nil
  | c :: s =>
    match h : quoted? (c :: s) with
    | none => char c s h (quoted_induction nil quotation char s)
    | some (name, rest) => by
      obtain ⟨heq, hname⟩ := quoted?_eq_some.1 h
      have hlength : rest.length ≤ s.length := by
        have htotal := congrArg List.length heq
        simp only [List.length_append, List.length_cons, List.length_nil] at htotal
        omega
      have hs : c :: s = Quotes.curly.around name ++ rest := by rw [heq]; simp [Quotes.around]
      rw [hs]
      exact quotation name rest hname (quoted_induction nil quotation char rest)
termination_by s.length

theorem drop_around (q : Quotes) (name t : List Char) :
    (q.around name ++ t).drop (name.length + 2) = t := by
  rw [← length_around q, List.drop_left]

theorem uncurled_quotation (h : Closed name) (rest : List Char) :
    uncurled (Quotes.curly.around name ++ rest) = Quotes.ascii.around name ++ uncurled rest := by
  have hne : Quotes.curly.around name ++ rest ≠ [] :=
    List.append_ne_nil_of_left_ne_nil (around_ne_nil _ _) _
  rw [uncurled, replaceAll_of_some hne (congrArg _ (quoted?_around h rest)) (Nat.succ_pos _)]
  exact congrArg (fun t => _ ++ uncurled t) (drop_around .curly name rest)

theorem uncurled_cons (h : quoted? (c :: s) = none) : uncurled (c :: s) = c :: uncurled s :=
  replaceAll_of_none (by rw [h]; rfl)

/-- Matches do not depend on what was passed, if the matcher does not look at it. -/
theorem findAllFrom_map_snd {α : Type} (m : List Char → Option (α × Nat)) (i : Nat)
    (prev : Option Char) (k : Nat) (s : List Char) :
    (findAllFrom (fun _ => m) i prev k s).map (·.2) =
      (findAll (fun _ => m) (s.drop k)).map (·.2) := by
  induction s generalizing i prev k with
  | nil => cases k <;> rfl
  | cons c s ih =>
    cases k with
    | succ k => exact ih _ _ k
    | zero =>
      rw [List.drop_zero, findAll, findAllFrom.eq_3, findAllFrom.eq_3]
      split
      · rw [List.map_cons, List.map_cons, ih, ih]
      · rw [ih, ih]

theorem quotedNames_quotation (h : Closed name) (rest : List Char) :
    quotedNames (Quotes.curly.around name ++ rest) = name :: quotedNames rest := by
  have hq := quoted?_around h rest
  have hdrop := drop_around .curly name rest
  rw [around_curly] at hq hdrop ⊢
  rw [quotedNames, findAll, findAllFrom.eq_3, hq]
  dsimp only [Option.map_some]
  rw [List.map_cons, findAllFrom_map_snd, quotedNames]
  exact congrArg (fun t => name :: List.map _ (findAll _ t)) hdrop

theorem quotedNames_cons (h : quoted? (c :: s) = none) :
    quotedNames (c :: s) = quotedNames s := by
  rw [quotedNames, findAll, findAllFrom.eq_3, h]
  exact findAllFrom_map_snd _ _ _ 0 s

/-- A name that comes back in curled quotes was recognised in ASCII ones. -/
theorem quotable_of_curled_eq {r : List Char}
    (h : curled (Quotes.ascii.around name ++ t) = Quotes.curly.around name ++ r) :
    Quotable name := by
  rw [around_ascii, around_curly] at h
  cases hq : asciiQuoted? (grave :: (name ++ '\'' :: t)) with
  | none =>
    rw [curled_cons hq] at h
    exact absurd (List.cons.inj h).1 (by decide)
  | some x =>
    obtain ⟨name', rest, hname', heq, -⟩ := asciiQuoted?_eq_some.1 hq
    rw [heq, curled_quotation hname', around_curly] at h
    -- where one name is longer, an apostrophe would have to be a closing quote
    rcases List.append_eq_append_iff.1 (List.cons.inj heq).2 with ⟨r', rfl, hr⟩ | ⟨r', rfl, hr⟩
    · cases r' with
      | nil => rwa [List.append_nil] at hname'
      | cons d r' =>
        have hd := (List.cons.inj hr).1
        rw [List.append_assoc] at h
        exact absurd (hd.trans (List.cons.inj (List.append_cancel_left (List.cons.inj h).2)).1)
          (by decide)
    · cases r' with
      | nil => rwa [List.append_nil]
      | cons d r' =>
        have hd := (List.cons.inj hr).1
        rw [List.append_assoc] at h
        exact absurd
          (hd.trans (List.cons.inj (List.append_cancel_left (List.cons.inj h).2)).1.symm) (by decide)

theorem quotable_iff (h : Closed name) (hgrave : grave ∉ name) :
    Quotable name ↔ '\'' ∉ name ∧ '\n' ∉ name := by
  constructor
  · intro hq
    exact ⟨hq.not_mem (isQuotable_eq_false.2 (.inr (.inl rfl))),
      hq.not_mem (isQuotable_eq_false.2 (.inr (.inr rfl)))⟩
  · rintro ⟨hprime, hbreak⟩
    refine ⟨h.1, fun c hc => ?_⟩
    by_contra hno
    obtain rfl | rfl | rfl := isQuotable_eq_false.1 (Bool.eq_false_iff.2 hno)
    · exact hgrave hc
    · exact hprime hc
    · exact hbreak hc

/-- Curled quotations that are written with ASCII quotes are read as they were exactly if none of
    their names holds an apostrophe or a line feed. -/
theorem curled_uncurled_iff (h : grave ∉ s) :
    curled (uncurled s) = s ↔ ∀ name ∈ quotedNames s, '\'' ∉ name ∧ '\n' ∉ name := by
  induction s using quoted_induction with
  | nil => exact ⟨fun _ => List.forall_mem_nil _, fun _ => rfl⟩
  | quotation name rest hname ih =>
    simp only [List.mem_append, not_or] at h
    have hgrave : grave ∉ name := fun hm => h.1 (by simp [Quotes.around, hm])
    rw [uncurled_quotation hname, quotedNames_quotation hname, List.forall_mem_cons, ← ih h.2,
      ← quotable_iff hname hgrave]
    constructor
    · intro heq
      have hq := quotable_of_curled_eq heq
      rw [around_ascii, curled_quotation hq] at heq
      exact ⟨hq, List.append_cancel_left heq⟩
    · rintro ⟨hq, heq⟩
      rw [around_ascii, curled_quotation hq, heq]
  | char c s hc ih =>
    simp only [List.mem_cons, not_or] at h
    rw [uncurled_cons hc, curled_cons_of_ne (Ne.symm h.1), quotedNames_cons hc, ← ih h.2,
      List.cons_inj_right]

end Suggestion

end GhciHost
