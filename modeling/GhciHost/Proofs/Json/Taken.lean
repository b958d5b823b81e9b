import Mathlib.Data.List.Infix
import Mathlib.Data.List.TakeWhile
import GhciHost.Json.Reader
import GhciHost.Proofs.Text.Written

/-!
# What a JSON reader takes

A reader takes the beginning of a text and leaves the rest.  What it took it takes again when less of
the rest follows.

* `Taken`   the beginning of a text that is read, whatever part of the rest follows;
* `taken_stringTail`   a text in quotes, with any fuel that is more than its length;
* `taken_number`, `taken_word?`   numbers and words.
-/

namespace GhciHost.Json

open Text

variable {s t r m q : List Char} {v : Json} {n : Nat}

/-! ## Beginnings of a text -/

/-- The beginning of a text, of which `r` is the rest, is read; and again when only a beginning of the
    rest follows.  `Reads t q` says that `t` is read and `q` is left. -/
def Taken (Reads : List Char → List Char → Prop) (s r : List Char) : Prop :=
  ∃ c, s = c ++ r ∧ ∀ q, q <+: r → Reads (c ++ q) q

namespace Taken

variable {P Q R : List Char → List Char → Prop}

theorem mono (h : Taken P s r) (hP : ∀ t q, q <:+ t → P t q → Q t q) : Taken Q s r := by
  obtain ⟨c, hs, hc⟩ := h
  exact ⟨c, hs, fun q hq => hP _ _ (List.suffix_append c q) (hc q hq)⟩

/-- What is read in two parts. -/
theorem trans (h : Taken P s m) (h' : Taken Q m r)
    (hR : ∀ t u q, u <:+ t → q <:+ u → P t u → Q u q → R t q) : Taken R s r := by
  obtain ⟨c, rfl, hc⟩ := h
  obtain ⟨d, rfl, hd⟩ := h'
  refine ⟨c ++ d, (List.append_assoc ..).symm, fun q hq => ?_⟩
  rw [List.append_assoc]
  exact hR _ _ _ (List.suffix_append ..) (List.suffix_append ..)
    (hc _ ((List.prefix_append_right_inj d).2 hq)) (hd q hq)

/-- A character is read. -/
theorem single (c : Char) (r : List Char) : Taken (fun t q => t = c :: q) (c :: r) r :=
  ⟨[c], rfl, fun _ _ => rfl⟩

/-- A character stands in front of what is read. -/
theorem cons (c : Char) (h : Taken P s r) (hR : ∀ t q, q <:+ t → P t q → R (c :: t) q) :
    Taken R (c :: s) r :=
  (single c s).trans h fun _ u q _ hq ht hu => ht ▸ hR u q hq hu

/-- Nothing is read. -/
theorem nothing (h : ∀ q, q <+: s → P q q) : Taken P s s := ⟨[], rfl, h⟩

/-- Characters of a kind are read up to the first of another. -/
theorem dropWhile (p : Char → Bool) (s : List Char) :
    Taken (fun t q => t.takeWhile p = s.takeWhile p ∧ t.dropWhile p = q) s (s.dropWhile p) := by
  refine ⟨s.takeWhile p, List.takeWhile_append_dropWhile.symm, fun q hq => ?_⟩
  refine takeWhile_dropWhile_append (fun c hc => List.mem_takeWhile_imp hc) fun c hc => ?_
  obtain ⟨u, rfl⟩ := List.head?_eq_some_iff.1 hc
  obtain ⟨u', hu⟩ := hq
  have hhead := List.head?_dropWhile_not p s
  rw [← hu] at hhead
  simpa using hhead

theorem skipSpace (s : List Char) :
    Taken (fun t q => Json.skipSpace t = q) s (Json.skipSpace s) :=
  (dropWhile isSpace s).mono fun _ _ _ h => h.2

end Taken

theorem takeWhile_eq_nil_of_isPrefix {p : Char → Bool} (h : s.takeWhile p = []) (hq : q <+: s) :
    q.takeWhile p = [] := by
  obtain ⟨u, rfl⟩ := hq
  cases q with
  | nil => rfl
  | cons c q =>
    rw [List.cons_append, List.takeWhile_cons] at h
    rw [List.takeWhile_cons]
    split at h
    · cases h
    · next hc => rw [if_neg hc]

/-! ## Texts in quotes -/

theorem unit?_eq_some {k : Nat} (h : unit? s = some (k, r)) :
    ∃ c, s = c ++ r ∧ ∀ u, unit? (c ++ u) = some (k, u) := by
  unfold unit? at h
  split at h
  · next a b c d rest =>
    simp only [Option.bind_eq_bind, Option.bind_eq_some_iff, Option.pure_def, Option.some.injEq,
      Prod.mk.injEq] at h
    obtain ⟨a', ha, b', hb, c', hc, d', hd, rfl, rfl⟩ := h
    exact ⟨[a, b, c, d], rfl, fun u => by simp [unit?, ha, hb, hc, hd]⟩
  · cases h

theorem taken_unit? {k : Nat} (h : unit? s = some (k, r)) :
    Taken (fun t q => unit? t = some (k, q)) s r := by
  obtain ⟨c, hs, hc⟩ := unit?_eq_some h
  exact ⟨c, hs, fun q _ => hc q⟩

/-- The second unit of a surrogate pair, if one follows, and the text behind it. -/
def partner? : List Char → Option (Nat × List Char)
  | '\\' :: 'u' :: r =>
    (unit? r).bind fun p => if 0xDC00 ≤ p.1 && p.1 ≤ 0xDFFF then some p else none
  | _ => none

/-- The character of a unit, with its partner if it has one, and the text behind. -/
def unitChar (hi : Nat) (r : List Char) : Char × List Char :=
  if 0xD800 ≤ hi && hi ≤ 0xDBFF then
    match partner? r with
    | some (lo, r) => (Char.ofNat (0x10000 + (hi - 0xD800) * 0x400 + (lo - 0xDC00)), r)
    | none => ('\uFFFD', r)
  else if 0xDC00 ≤ hi && hi ≤ 0xDFFF then ('\uFFFD', r)
  else (Char.ofNat hi, r)

theorem escape?_unit (s : List Char) :
    escape? ('u' :: s) = (unit? s).map fun p => unitChar p.1 p.2 := by
  rw [escape?, Option.bind_eq_bind, Option.map_eq_bind]
  refine congrArg (Option.bind (unit? s)) (funext fun ⟨hi, r⟩ => ?_)
  simp only [unitChar, Function.comp_apply, Option.pure_def]
  split
  · split
    · next r' =>
      rw [partner?]
      cases hr : unit? r' with
      | none => simp only [Option.bind_none]
      | some p =>
        simp only [Option.bind_some]
        split <;> simp only
    · next hr =>
      rw [partner?]
      exact hr
  · split <;> rfl

theorem taken_partner? {lo : Nat} (h : partner? s = some (lo, r)) :
    Taken (fun t q => partner? t = some (lo, q)) s r := by
  unfold partner? at h
  split at h
  · next s =>
    obtain ⟨⟨k, m⟩, hk, hlo⟩ := Option.bind_eq_some_iff.1 h
    dsimp only at hlo
    split at hlo
    · next hrange =>
      cases hlo
      refine ((taken_unit? hk).cons (R := fun t q => partner? ('\\' :: t) = some (lo, q)) 'u'
        fun t q _ ht => ?_).cons '\\' fun t q _ ht => ht
      rw [partner?, ht, Option.bind_some, if_pos hrange]
    · cases hlo
  · cases h

theorem partner?_eq_none_of_isPrefix (h : partner? s = none) (hq : q <+: s) : partner? q = none := by
  obtain ⟨u, rfl⟩ := hq
  unfold partner?
  split
  · next q =>
    refine Option.bind_eq_none_iff.2 fun ⟨lo, m⟩ hlo => ?_
    obtain ⟨c, rfl, hc⟩ := unit?_eq_some hlo
    rw [List.cons_append, List.cons_append, partner?, List.append_assoc, hc, Option.bind_some] at h
    dsimp only at h ⊢
    split at h
    · cases h
    · next hrange => rw [if_neg hrange]
  · rfl

theorem taken_unitChar (hi : Nat) (s : List Char) :
    Taken (fun t q => unitChar hi t = ((unitChar hi s).1, q)) s (unitChar hi s).2 := by
  unfold unitChar
  split
  · cases hlo : partner? s with
    | some p => exact (taken_partner? hlo).mono fun t q _ ht => by rw [ht]
    | none => exact .nothing fun q hq => by rw [partner?_eq_none_of_isPrefix hlo hq]
  · split <;> exact .nothing fun q _ => rfl

theorem taken_escape? {c : Char} (h : escape? s = some (c, r)) :
    Taken (fun t q => escape? t = some (c, q)) s r := by
  by_cases hs : ∃ s', s = 'u' :: s'
  · obtain ⟨s, rfl⟩ := hs
    rw [escape?_unit, Option.map_eq_some_iff] at h
    obtain ⟨⟨hi, m⟩, hhi, h⟩ := h
    have hrest := taken_unitChar hi m
    rw [h] at hrest
    refine ((taken_unit? hhi).trans hrest (R := fun t q => escape? ('u' :: t) = some (c, q))
      fun t u q _ _ ht hu => ?_).cons 'u' fun t q _ ht => ht
    rw [escape?_unit, ht, Option.map_some, hu]
  · unfold escape? at h
    split at h
    case h_9 s => exact absurd ⟨s, rfl⟩ hs
    case h_10 => cases h
    all_goals
      cases h
      exact (Taken.single _ _).mono fun t q _ ht => ht ▸ rfl

/-- A character that stands for itself in a text in quotes. -/
def IsPlain (c : Char) : Prop := c ≠ '"' ∧ c ≠ '\\' ∧ ¬ c.toNat < 0x20

theorem stringTail_plain {c : Char} (hc : IsPlain c) (acc s : List Char) :
    stringTail (n + 1) acc (c :: s) = stringTail n (c :: acc) s := by
  rw [stringTail, if_neg hc.2.2]
  · exact hc.1
  · exact hc.2.1

theorem taken_stringTail {x : String} {acc : List Char} (h : stringTail n acc s = .ok (x, r)) :
    Taken (fun t q => ∀ k, t.length < k → stringTail k acc t = .ok (x, q)) s r := by
  induction n generalizing acc s with
  | zero => cases h
  | succ n ih =>
    rw [stringTail.eq_def] at h
    dsimp only at h
    split at h
    · cases h
    · cases h
      refine (Taken.single _ _).mono fun t q _ ht k hk => ?_
      obtain ⟨k, rfl⟩ := Nat.exists_eq_add_one_of_ne_zero (Nat.ne_zero_of_lt hk)
      rw [ht]
      rfl
    · next s =>
      split at h
      · next c m hc =>
        refine ((taken_escape? hc).trans (ih h) (R := fun t q => ∀ k, t.length < k →
          stringTail (k + 1) acc ('\\' :: t) = .ok (x, q)) fun t u q hut _ ht hu k hk => ?_).cons
          '\\' fun t q _ ht k hk => ?_
        · rw [stringTail, ht]
          exact hu k (Nat.lt_of_le_of_lt hut.length_le hk)
        · obtain ⟨k, rfl⟩ := Nat.exists_eq_add_one_of_ne_zero (Nat.ne_zero_of_lt hk)
          exact ht k (by simpa using hk)
      · cases h
    · next c s hquote hescape =>
      split at h
      · cases h
      · next hc =>
        have hplain : IsPlain c :=
          ⟨hquote, hescape, hc⟩
        refine (ih h).cons c fun t q _ ht k hk => ?_
        obtain ⟨k, rfl⟩ := Nat.exists_eq_add_one_of_ne_zero (Nat.ne_zero_of_lt hk)
        rw [stringTail_plain hplain]
        exact ht k (by simpa using hk)

/-! ## Numbers and words -/

/-- The digits of a number in front of its fraction: a zero stands alone. -/
def integral (s : List Char) : List Char :=
  let all := s.takeWhile Char.isDigit
  if all.head? == some '0' then ['0'] else all

/-- The number of some digits, a fraction and an exponent, and the text behind. -/
def numeral (negative : Bool) (ds : List Char) (frac : Option (List Char)) (exp : Option Int)
    (r : List Char) : Except ReadError (Json × List Char) :=
  match frac, exp with
  | none, none =>
    match Text.readNat? ds with
    | .error e => .error (.tooManyDigits e)
    | .ok n => .ok (.int (if negative then -(n : Int) else n), r)
  | frac, exp =>
    let fs := frac.getD []
    .ok (.float (Binary64.ofDecimal negative (Text.readNat (ds ++ fs))
      (exp.getD 0 - fs.length)), r)

theorem numeral_eq_ok {negative : Bool} {ds : List Char} {frac : Option (List Char)}
    {exp : Option Int} (h : numeral negative ds frac exp m = .ok (v, r)) :
    m = r ∧ ∀ q, numeral negative ds frac exp q = .ok (v, q) := by
  unfold numeral at h ⊢
  split at h
  · split at h
    · cases h
    · cases h
      exact ⟨rfl, fun q => rfl⟩
  · cases h
    exact ⟨rfl, fun q => rfl⟩

theorem number_eq (negative : Bool) (s : List Char) : number negative s =
    if (integral s).isEmpty then .error .malformed
    else
      let (frac, m) := fraction (s.drop (integral s).length)
      let (exp, r) := exponent m
      numeral negative (integral s) frac exp r := rfl

theorem number_eq_ok {negative : Bool} : number negative s = .ok (v, r) ↔
    integral s ≠ [] ∧ ∃ frac m exp, fraction (s.drop (integral s).length) = (frac, m) ∧
      exponent m = (exp, r) ∧ numeral negative (integral s) frac exp r = .ok (v, r) := by
  rw [number_eq]
  constructor
  · intro h
    split at h
    · cases h
    · next hne =>
      obtain ⟨rfl, -⟩ := numeral_eq_ok h
      exact ⟨fun h => hne (List.isEmpty_iff.2 h), _, _, _, rfl, rfl, h⟩
  · rintro ⟨hne, frac, m, exp, hfrac, hexp, hv⟩
    rw [if_neg fun h => hne (List.isEmpty_iff.1 h), hfrac]
    dsimp only
    rw [hexp]
    exact hv

theorem taken_integral (s : List Char) :
    Taken (fun t q => integral t = integral s ∧ t.drop (integral s).length = q) s
      (s.drop (integral s).length) := by
  by_cases hs : (s.takeWhile Char.isDigit).head? = some '0'
  · obtain ⟨ds, hds⟩ := List.head?_eq_some_iff.1 hs
    obtain ⟨s, rfl⟩ : ∃ s', s = '0' :: s' := by
      obtain ⟨u, hu⟩ := hds ▸ List.takeWhile_prefix Char.isDigit
      exact ⟨ds ++ u, hu.symm⟩
    exact (Taken.single '0' s).mono fun t q _ ht => ht ▸ ⟨rfl, rfl⟩
  · have hintegral {t : List Char} (ht : t.takeWhile Char.isDigit = s.takeWhile Char.isDigit) :
        integral t = s.takeWhile Char.isDigit := by
      rw [integral, ht]
      exact if_neg (by simpa using hs)
    have hdrop {t : List Char} (ht : t.takeWhile Char.isDigit = s.takeWhile Char.isDigit) :
        t.drop (s.takeWhile Char.isDigit).length = t.dropWhile Char.isDigit := by
      conv_lhs => rw [← List.takeWhile_append_dropWhile (p := Char.isDigit) (l := t), ← ht]
      exact List.drop_left
    rw [hintegral rfl, hdrop rfl]
    exact (Taken.dropWhile Char.isDigit s).mono fun t q _ ht =>
      ⟨hintegral ht.1, (hdrop ht.1).trans ht.2⟩

/-- What begins with no fraction is not made to by leaving out its end. -/
theorem taken_fraction (s : List Char) :
    Taken (fun t q => fraction t = ((fraction s).1, q)) s (fraction s).2 := by
  unfold fraction
  split
  · next s =>
    dsimp only
    split
    · next hs =>
      refine .nothing fun q hq => ?_
      split
      · next q =>
        have hq : q.takeWhile Char.isDigit = [] :=
          takeWhile_eq_nil_of_isPrefix (List.isEmpty_iff.1 hs) ((List.prefix_cons_inj '.').1 hq)
        rw [hq]
        rfl
      · rfl
    · next hs =>
      refine (Taken.dropWhile Char.isDigit s).cons '.' fun t q _ ht => ?_
      simp only [ht.1, ht.2, if_neg hs]
  · next hs =>
    refine .nothing fun q hq => ?_
    split
    · next q =>
      obtain ⟨u, rfl⟩ := hq
      exact absurd rfl (hs _)
    · rfl

/-- A whole number of at least one digit, and the text behind it. -/
def run? (sign : Int) (s : List Char) : Option (Int × List Char) :=
  if (s.takeWhile Char.isDigit).isEmpty then none
  else some (sign * (Text.readNat (s.takeWhile Char.isDigit) : Nat), s.dropWhile Char.isDigit)

/-- The same behind a sign, or without one. -/
def power? : List Char → Option (Int × List Char)
  | [] => none
  | c :: s => if c = '+' then run? 1 s else if c = '-' then run? (-1) s else run? 1 (c :: s)

theorem exponent_cons (e : Char) (s : List Char) : exponent (e :: s) =
    if e == 'e' || e == 'E' then
      match power? s with
      | some (k, r) => (some k, r)
      | none => (none, e :: s)
    else (none, e :: s) := by
  have hrun (sign : Int) (r : List Char) :
      (if (r.takeWhile Char.isDigit).isEmpty then (none, e :: s)
        else (some (sign * (Text.readNat (r.takeWhile Char.isDigit) : Nat)),
          r.dropWhile Char.isDigit)) =
        match run? sign r with
        | some (k, r) => (some k, r)
        | none => (none, e :: s) := by
    rw [run?]
    split <;> rfl
  unfold exponent
  dsimp only
  split
  · split
    · exact hrun 1 _
    · exact hrun (-1) _
    · next hplus hminus =>
      cases s with
      | nil => rfl
      | cons c s =>
        have hc : ¬ c = '+' ∧ ¬ c = '-' := ⟨fun h => hplus s (h ▸ rfl), fun h => hminus s (h ▸ rfl)⟩
        rw [power?, if_neg hc.1, if_neg hc.2]
        exact hrun 1 _
  · rfl

theorem taken_run? {sign k : Int} (h : run? sign s = some (k, r)) :
    Taken (fun t q => run? sign t = some (k, q)) s r := by
  rw [run?] at h
  split at h
  · cases h
  · next hs =>
    cases h
    refine (Taken.dropWhile Char.isDigit s).mono fun t q _ ht => ?_
    rw [run?, ht.1, ht.2, if_neg hs]

theorem run?_eq_none_of_isPrefix {sign : Int} (h : run? sign s = none) (hq : q <+: s) :
    run? sign q = none := by
  rw [run?] at h
  split at h
  · next hs => rw [run?, takeWhile_eq_nil_of_isPrefix (List.isEmpty_iff.1 hs) hq]; rfl
  · cases h

/-- A digit is no sign. -/
theorem power?_of_run? {p : Int × List Char} (h : run? 1 s = some p) : power? s = some p := by
  cases s with
  | nil => cases h
  | cons c s =>
    have hc : c.isDigit = true := by
      by_contra hc
      rw [run?, List.takeWhile_cons_of_neg hc] at h
      cases h
    rw [power?, if_neg, if_neg, h]
    all_goals
      rintro rfl
      exact absurd hc (by decide)

theorem taken_power? {k : Int} (h : power? s = some (k, r)) :
    Taken (fun t q => power? t = some (k, q)) s r := by
  cases s with
  | nil => cases h
  | cons c s =>
    rw [power?] at h
    split_ifs at h with hplus hminus
    · exact (taken_run? h).cons c fun t q _ ht => by rw [power?, if_pos hplus, ht]
    · exact (taken_run? h).cons c fun t q _ ht => by rw [power?, if_neg hplus, if_pos hminus, ht]
    · exact (taken_run? h).mono fun t q _ => power?_of_run?

theorem power?_eq_none_of_isPrefix (h : power? s = none) (hq : q <+: s) : power? q = none := by
  cases q with
  | nil => rfl
  | cons c q =>
    obtain ⟨u, rfl⟩ := hq
    rw [List.cons_append, power?] at h
    rw [power?]
    split_ifs at h ⊢
    · exact run?_eq_none_of_isPrefix h (List.prefix_append q u)
    · exact run?_eq_none_of_isPrefix h (List.prefix_append q u)
    · exact run?_eq_none_of_isPrefix h (List.prefix_append (c :: q) u)

theorem taken_exponent (s : List Char) :
    Taken (fun t q => exponent t = ((exponent s).1, q)) s (exponent s).2 := by
  cases s with
  | nil =>
    refine .nothing fun q hq => ?_
    rw [List.prefix_nil.1 hq]
    rfl
  | cons e s =>
    rw [exponent_cons]
    split
    · next he =>
      cases hk : power? s with
      | some p =>
        refine (taken_power? hk).cons e fun t q _ ht => ?_
        rw [exponent_cons, if_pos he, ht]
      | none =>
        refine .nothing fun q hq => ?_
        cases q with
        | nil => rfl
        | cons e' q =>
          obtain ⟨rfl, hprefix⟩ := List.cons_prefix_cons.1 hq
          rw [exponent_cons, if_pos he, power?_eq_none_of_isPrefix hk hprefix]
    · next he =>
      refine .nothing fun q hq => ?_
      cases q with
      | nil => rfl
      | cons e' q =>
        obtain ⟨rfl, -⟩ := List.cons_prefix_cons.1 hq
        rw [exponent_cons, if_neg he]

theorem taken_number {negative : Bool} (h : number negative s = .ok (v, r)) :
    Taken (fun t q => number negative t = .ok (v, q)) s r := by
  obtain ⟨hne, frac, m, exp, hfrac, hexp, hv⟩ := number_eq_ok.1 h
  have hintegral := taken_integral s
  have hfraction := taken_fraction (s.drop (integral s).length)
  have hexponent := taken_exponent m
  rw [hfrac] at hfraction
  rw [hexp] at hexponent
  refine hintegral.trans (hfraction.trans hexponent (R := fun t q => ∃ m, fraction t = (frac, m) ∧
    exponent m = (exp, q)) fun t u q _ _ ht hu => ⟨u, ht, hu⟩) fun t u q _ _ ht hu => ?_
  obtain ⟨m, hm, hq⟩ := hu
  refine number_eq_ok.2 ⟨by rwa [ht.1], frac, m, exp, by rwa [ht.1, ht.2], hq, ?_⟩
  rw [ht.1]
  exact (numeral_eq_ok hv).2 q

/-- The words of JSON and what they stand for. -/
def spellings : List (String × Json) :=
  [("null", .null), ("true", .bool true), ("false", .bool false), ("NaN", .float .nan),
    ("Infinity", .float (.infinite false)), ("-Infinity", .float (.infinite true))]

theorem word?_append {w : String} {j : Json} (h : (w, j) ∈ spellings) (r : List Char) :
    word? (w.toList ++ r) = some (j, r) := by
  simp only [spellings, List.mem_cons, Prod.mk.injEq, List.not_mem_nil, or_false] at h
  rcases h with ⟨rfl, rfl⟩ | ⟨rfl, rfl⟩ | ⟨rfl, rfl⟩ | ⟨rfl, rfl⟩ | ⟨rfl, rfl⟩ | ⟨rfl, rfl⟩ <;> rfl

/-- The first word that the text begins with is read. -/
theorem word?_eq (s : List Char) : word? s = spellings.findSome? fun p =>
    if p.1.toList.isPrefixOf s then some (p.2, s.drop p.1.length) else none := by
  have hcons (f : String × Json → Option (Json × List Char)) (p : String × Json)
      (ps : List (String × Json)) : (p :: ps).findSome? f = (f p).or (ps.findSome? f) := by
    rw [List.findSome?_cons]
    cases f p <;> rfl
  simp only [spellings, hcons, List.findSome?_nil, Option.or_none, word?, Option.orElse_eq_orElse,
    Option.orElse_eq_or]

theorem spelling_of_word? (h : word? s = some (v, r)) :
    ∃ w, (w, v) ∈ spellings ∧ s = w.toList ++ r := by
  rw [word?_eq] at h
  obtain ⟨⟨w, j⟩, hw, h⟩ := List.exists_of_findSome?_eq_some h
  split at h
  · next hprefix =>
    obtain ⟨u, rfl⟩ := List.isPrefixOf_iff_prefix.1 hprefix
    cases h
    refine ⟨w, hw, ?_⟩
    rw [← String.length_toList, List.drop_left]
  · cases h

theorem taken_word? (h : word? s = some (v, r)) :
    Taken (fun t q => word? t = some (v, q)) s r := by
  obtain ⟨w, hw, hs⟩ := spelling_of_word? h
  exact ⟨w.toList, hs, fun q _ => word?_append hw q⟩

end GhciHost.Json
