/-! # Looking for phrases in a text

A matcher looks at the start of a text.  `search?` tries it at every place from left to
right; `findAll` and `replaceAll` go on behind each match.

* `stripPrefix?_eq_some`   what stands after a phrase;
* `contains_iff`   a phrase occurs where it stands, for instance in itself;
* `search?_of_some`, `search?_append`   the first result is at the start, or not before some place. -/

namespace GhciHost.Text

/-- The text after `p`, if the text starts with `p`. -/
def stripPrefix? : List Char → List Char → Option (List Char)
  | [], s => some s
  | _ :: _, [] => none
  | p :: ps, c :: s => if p = c then stripPrefix? ps s else none

theorem stripPrefix?_eq_some {p s r : List Char} : stripPrefix? p s = some r ↔ s = p ++ r := by
  induction p generalizing s with
  | nil => simp [stripPrefix?]
  | cons c p ih =>
    cases s with
    | nil => simp [stripPrefix?]
    | cons d s =>
      rw [stripPrefix?]
      split
      · next h => subst h; simp [ih]
      · next h => simpa using fun e => absurd e.symm h

/-- The text after a phrase, if the text starts with the phrase. -/
def after? (phrase : String) (s : List Char) : Option (List Char) :=
  stripPrefix? phrase.toList s

/-- Whether a phrase occurs. -/
def contains (phrase s : List Char) : Bool :=
  match s with
  | [] => phrase.isEmpty
  | c :: s => (stripPrefix? phrase (c :: s)).isSome || contains phrase s

/-- A phrase occurs if it stands somewhere in the text. -/
theorem contains_iff {p s : List Char} : contains p s = true ↔ p <:+: s := by
  induction s with
  | nil => simp [contains]
  | cons c s ih =>
    have hprefix : (stripPrefix? p (c :: s)).isSome = true ↔ p <+: c :: s := by
      rw [Option.isSome_iff_exists]
      constructor
      · rintro ⟨r, h⟩
        exact ⟨r, (stripPrefix?_eq_some.1 h).symm⟩
      · rintro ⟨r, h⟩
        exact ⟨r, stripPrefix?_eq_some.2 h.symm⟩
    rw [contains, Bool.or_eq_true, hprefix, ih, List.infix_cons_iff]

theorem contains_self (p : List Char) : contains p p = true := contains_iff.2 (List.infix_refl p)

/-- The text before the first occurrence of a phrase, all of it if there is none. -/
def before (phrase : List Char) : List Char → List Char
  | [] => []
  | c :: s => if (stripPrefix? phrase (c :: s)).isSome then [] else c :: before phrase s

/-- The first result of a matcher, from left to right. -/
def search? (m : List Char → Option α) : List Char → Option α
  | [] => m []
  | c :: s => m (c :: s) <|> search? m s

theorem search?_of_some {m : List Char → Option α} {s : List Char} {a : α}
    (h : m s = some a) : search? m s = some a := by
  cases s with
  | nil => exact h
  | cons c s => rw [search?, h]; rfl

/-- Where nothing matches before some place, the search goes on from there. -/
theorem search?_append {m : List Char → Option α} {s t : List Char}
    (h : ∀ u c v, s = u ++ c :: v → m (c :: (v ++ t)) = none) :
    search? m (s ++ t) = search? m t := by
  induction s with
  | nil => rfl
  | cons c s ih =>
    rw [List.cons_append, search?, h [] c s rfl, ih fun u d v e => h (c :: u) d v (by rw [e]; rfl)]
    rfl

/-- The matches from left to right, none overlapping an earlier one, each with the number of
    characters before it.  The matcher sees the character before and tells how many
    characters it took; it takes at least one. -/
def findAllFrom (m : Option Char → List Char → Option (α × Nat)) :
    Nat → Option Char → Nat → List Char → List (Nat × α)
  | _, _, _, [] => []
  | at_, _, skip + 1, c :: s => findAllFrom m (at_ + 1) (some c) skip s
  | at_, prev, 0, c :: s =>
    match m prev (c :: s) with
    | some (a, n) => (at_, a) :: findAllFrom m (at_ + 1) (some c) (n - 1) s
    | none => findAllFrom m (at_ + 1) (some c) 0 s

@[inherit_doc findAllFrom]
def findAll (m : Option Char → List Char → Option (α × Nat)) (s : List Char) : List (Nat × α) :=
  findAllFrom m 0 none 0 s

/-- Replace the matches from left to right, none overlapping an earlier one.  The matcher
    tells the replacement and how many characters it took, at least one. -/
def replaceFrom (m : List Char → Option (List Char × Nat)) : Nat → List Char → List Char
  | _, [] => []
  | skip + 1, _ :: s => replaceFrom m skip s
  | 0, c :: s =>
    match m (c :: s) with
    | some (new, n) => new ++ replaceFrom m (n - 1) s
    | none => c :: replaceFrom m 0 s

@[inherit_doc replaceFrom]
def replaceAll (m : List Char → Option (List Char × Nat)) (s : List Char) : List Char :=
  replaceFrom m 0 s

end GhciHost.Text
