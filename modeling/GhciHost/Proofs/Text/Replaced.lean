import GhciHost.Text.Scan

/-!
# Phrases that are replaced

A pass over a text that puts one phrase in the place of another takes the occurrences from left to
right.  What it does is said by one equation for each way a text can begin.

* `replacePhrase_append`   an occurrence in front;
* `replacePhrase_cons`   a character with which no occurrence begins;
* `replacePhrase_singleton`   a single character is replaced wherever it stands.
-/

namespace GhciHost.Text

variable {old new : List Char}

/-- The text with `new` in the place of every occurrence of `old`. -/
def replacePhrase (old new : List Char) : List Char → List Char :=
  replaceAll fun s => (stripPrefix? old s).map fun _ => (new, old.length)

@[simp] theorem replacePhrase_nil (old new : List Char) : replacePhrase old new [] = [] := rfl

/-- What a match took is passed over. -/
theorem replaceFrom_append (m : List Char → Option (List Char × Nat)) (s t : List Char) :
    replaceFrom m s.length (s ++ t) = replaceFrom m 0 t := by
  induction s with
  | nil => rfl
  | cons c s ih => exact ih

theorem replacePhrase_append (hne : old ≠ []) (s : List Char) :
    replacePhrase old new (old ++ s) = new ++ replacePhrase old new s := by
  obtain ⟨c, old, rfl⟩ := List.exists_cons_of_ne_nil hne
  rw [replacePhrase, replaceAll, List.cons_append, replaceFrom, ← List.cons_append,
    stripPrefix?_eq_some.2 rfl]
  exact congrArg (new ++ ·) (replaceFrom_append _ old s)

theorem replacePhrase_cons {c : Char} {s : List Char} (h : ¬ old <+: c :: s) :
    replacePhrase old new (c :: s) = c :: replacePhrase old new s := by
  have hnone : stripPrefix? old (c :: s) = none := by
    rw [Option.eq_none_iff_forall_ne_some]
    exact fun r hr => h ⟨r, (stripPrefix?_eq_some.1 hr).symm⟩
  rw [replacePhrase, replaceAll, replaceFrom, hnone]
  rfl

theorem replacePhrase_singleton (c : Char) (new s : List Char) :
    replacePhrase [c] new s = s.flatMap fun d => if d = c then new else [d] := by
  induction s with
  | nil => rfl
  | cons d s ih =>
    rw [List.flatMap_cons, ← ih]
    split
    · next h =>
      subst h
      exact replacePhrase_append (List.cons_ne_nil _ _) s
    · next h =>
      exact replacePhrase_cons fun hprefix => h (List.cons_prefix_cons.1 hprefix).1.symm

end GhciHost.Text
