import GhciHost.Proofs.Suggestion.Curled
import GhciHost.Suggestion.Rules

/-!
# Suggestions for messages in ASCII quotes

The rules read a message with curled quotes and see no more of it.  So the suggestions do not depend
on the quotes of a message as long as its names are read from ASCII quotes as they are from curled
ones.  A name with an apostrophe is read up to that apostrophe only, and one that reaches over
several lines is not read as quoted at all.

* `apply_congr`   a rule depends on the message with curled quotes;
* `curled_primed`, `curled_wrapped`   what is read of names with apostrophes and line feeds;
* `suggestionsOf_uncurled`   the suggestions for a message with ASCII quotes;
* `suggestionsOf_uncurled_astray`   they differ for an apostrophe, and for a line feed.
-/

namespace GhciHost.Suggestion

open Text

variable {d : Diagnostic} {m : String}

/-! ## What the rules read -/

/-- A rule sees no more of a message than how it reads with curled quotes. -/
theorem apply_congr (h : curledMessage { d with message := m } = curledMessage d)
    (supported : List String) (k : Fix.Kind) :
    apply supported { d with message := m } k = apply supported d k := by
  have hflat : flatMessage { d with message := m } = flatMessage d := congrArg squeeze h
  have hplace : placeOf { d with message := m } = placeOf d := rfl
  cases k with
  | addImportItem => simp only [apply, addImportItem, hflat, hplace]
  | removeImportItem => simp only [apply, removeImportItem, hflat, hplace]
  | addExtension => simp only [apply, addExtension, hflat, hplace]
  | addGhcOption => simp only [apply, addGhcOption, hflat, hplace]
  | addMissingRecordFields => simp only [apply, addMissingRecordFields, h, hplace]
  | fixTypo => simp only [apply, fixTypo, h, hplace]
  | addTypeSignature => simp only [apply, addTypeSignature, h, hplace]
  | removeRedundantConstraint => simp only [apply, removeRedundantConstraint, h, hplace]
  | enablePackage => simp only [apply, enablePackage, hflat, hplace]

theorem firstOf_congr (h : curledMessage { d with message := m } = curledMessage d)
    (supported : List String) (ks : List Fix.Kind) :
    firstOf supported { d with message := m } ks = firstOf supported d ks := by
  induction ks with
  | nil => rfl
  | cons k ks ih => rw [firstOf, firstOf, apply_congr h, ih]

/-! ## Names in ASCII quotes -/

/-- A name in ASCII quotes is closed by its first apostrophe. -/
theorem curled_primed {p : List Char} (hp : Quotable p) (q t : List Char) :
    curled (Quotes.ascii.around (p ++ '\'' :: q) ++ t) =
      Quotes.curly.around p ++ curled (q ++ '\'' :: t) := by
  rw [around_ascii, List.append_assoc, List.cons_append, curled_quotation hp]

/-- A name in ASCII quotes that goes on behind a line feed is not quoted. -/
theorem curled_wrapped {p : List Char} (hp : ∀ c ∈ p, isQuotable c = true) (t : List Char) :
    curled (grave :: (p ++ '\n' :: t)) = grave :: (p ++ '\n' :: curled t) := by
  have hnone : asciiQuoted? (grave :: (p ++ '\n' :: t)) = none := by
    refine Option.eq_none_iff_forall_ne_some.2 fun ⟨new, n⟩ hsome => ?_
    obtain ⟨name, rest, hname, heq, -⟩ := asciiQuoted?_eq_some.1 hsome
    -- both are the longest run of characters that can be quoted
    have hrun := congrArg (List.dropWhile isQuotable) (List.cons.inj heq).2
    rw [List.dropWhile_append_of_pos hp, List.dropWhile_append_of_pos hname.2,
      List.dropWhile_cons_of_neg (by decide), List.dropWhile_cons_of_neg (by decide)] at hrun
    exact absurd (List.cons.inj hrun).1 (by decide)
  have hgrave : grave ∉ p := fun hm => absurd (hp _ hm) (by decide)
  rw [curled_cons hnone]
  congr 1
  clear hnone
  induction p with
  | nil => exact curled_cons_of_ne (by decide) t
  | cons c p ih =>
    simp only [List.mem_cons, not_or] at hgrave
    rw [List.cons_append, curled_cons_of_ne (Ne.symm hgrave.1),
      ih (fun c hc => hp c (List.mem_cons_of_mem _ hc)) hgrave.2, List.cons_append]

/-! ## What is suggested -/

/-- A message without grave accents, and with neither apostrophes nor line feeds in its quoted
    names, yields the same suggestions with ASCII quotes. -/
theorem suggestionsOf_uncurled (hgrave : grave ∉ d.message.toList)
    (hnames : ∀ name ∈ quotedNames d.message.toList, '\'' ∉ name ∧ '\n' ∉ name)
    (supported : List String) :
    suggestionsOf supported { d with message := String.ofList (uncurled d.message.toList) } =
      suggestionsOf supported d := by
  refine firstOf_congr ?_ supported rules
  rw [curledMessage, String.toList_ofList, (curled_uncurled_iff hgrave).2 hnames, curledMessage,
    curled_of_not_mem hgrave]

/-- A name that is proposed with an apostrophe in it is cut there, and a list of imports that is
    wrapped is not found, where the quotes are ASCII. -/
theorem suggestionsOf_uncurled_astray :
    let message (text : List Char) : Diagnostic :=
      { severity := .error, file := "src/Foo.hs", line := 10, column := 3, endLine := 10,
        endColumn := 9, message := String.ofList text }
    let place : Span := ⟨⟨10, 3, 10, 9⟩, "src/Foo.hs"⟩
    let primed := ("Variable not in scope: foldlx\n" ++
      "Perhaps you meant ‘foldl'x’ (imported from Data.List)").toList
    let wrapped := ("The import of ‘nub,\n               sortBy’\n" ++
      "from module ‘Data.List’ is redundant").toList
    suggestionsOf [] (message primed) = .ok [⟨place, .fixTypo "foldlx" "foldl'x"⟩] ∧
      suggestionsOf [] (message (uncurled primed)) = .ok [⟨place, .fixTypo "foldlx" "foldl"⟩] ∧
      suggestionsOf [] (message wrapped) =
        .ok [⟨place, .removeImportItem "Data.List" ["nub", "sortBy"] false⟩] ∧
      suggestionsOf [] (message (uncurled wrapped)) = .ok [] := by
  decide +kernel

end GhciHost.Suggestion
