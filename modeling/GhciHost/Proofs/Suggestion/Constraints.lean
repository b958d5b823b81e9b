import GhciHost.Proofs.Suggestion.Bracketed
import GhciHost.Proofs.Suggestion.Paragraph

/-!
# Redundant constraints

Constraints that are not used stand behind a label, in parentheses if there are several.  A parenthesis
at either end of the text is left out, so the constraints come out whole exactly if the text is still
balanced without: a tuple of balanced constraints is, and a text without outer parentheses is, but not
one that begins with one pair of parentheses and ends with another.

* `balanced_withoutParens`   what is left of a balanced text;
* `removeRedundantConstraint_balanced_iff`   when the constraints are balanced;
* `constraintsOf_around`   what stands in parentheses is cut on its own;
* `removeRedundantConstraint_tuple`   the constraints of a tuple are found again;
* `removeRedundantConstraint_astray`   a parenthesis is dropped that does not match.
-/

namespace GhciHost.Suggestion

open Text

variable {d : Diagnostic} {s t u rest : List Char}

/-! ## Parentheses around a text -/

theorem withoutParens_around (u : List Char) : withoutParens ('(' :: (u ++ [')'])) = u := by
  simp [withoutParens]

/-- Either a parenthesis is left out at both ends, or nothing is. -/
theorem withoutParens_cases (s : List Char) :
    s = '(' :: (withoutParens s ++ [')']) ∨ withoutParens s = s := by
  unfold withoutParens
  split
  · next r =>
    split
    · next h =>
      refine .inl ?_
      obtain ⟨u, rfl⟩ := List.getLast?_eq_some_iff.1 h
      rw [List.dropLast_concat]
    · exact .inr rfl
  · exact .inr rfl

/-- A balanced text stays balanced if parentheses at both its ends match each other. -/
theorem balanced_withoutParens (hs : Balanced s)
    (hmatch : ∀ u, s = '(' :: (u ++ [')']) → Balanced u) : Balanced (withoutParens s) := by
  rcases withoutParens_cases s with h | h
  · exact hmatch _ h
  · rwa [h]

/-! ## The label -/

/-- The label of constraints that are not used. -/
def constraintLabel (plural : Bool) : List Char :=
  "Redundant constraint".toList ++ if plural then ['s', ':'] else [':']

theorem redundantConstraint?_label (plural : Bool) (rest : List Char) :
    redundantConstraint? (constraintLabel plural ++ rest) = some rest := by
  unfold redundantConstraint? constraintLabel
  rw [List.append_assoc, Option.bind_eq_bind, after?_append, Option.bind_some]
  cases plural <;> rfl

theorem prefix_of_redundantConstraint? (h : redundantConstraint? s = some rest) :
    "Redundant constraint".toList <+: s := by
  unfold redundantConstraint? at h
  rw [Option.bind_eq_bind, Option.bind_eq_some_iff] at h
  obtain ⟨r, hr, -⟩ := h
  exact ⟨r, (stripPrefix?_eq_some.1 hr).symm⟩

/-- The first label is found. -/
theorem search?_constraintLabel {before : List Char}
    (hbefore : ¬ "Redundant constraint".toList <:+: before) (plural : Bool) (rest : List Char) :
    search? redundantConstraint? (before ++ (constraintLabel plural ++ rest)) = some rest := by
  have hlabel : constraintLabel plural ++ rest =
      "Redundant constraint".toList ++ ((if plural then ['s', ':'] else [':']) ++ rest) :=
    List.append_assoc ..
  have hfirst := search?_of_some (redundantConstraint?_label plural rest)
  rw [hlabel] at hfirst ⊢
  exact (search?_label (by decide) (by decide) prefix_of_redundantConstraint? hbefore _).trans hfirst

/-! ## What is suggested -/

/-- The constraints that a text behind the label names. -/
def constraintsOf (rest : List Char) : List (List Char) :=
  topLevelItems (withoutParens (squeeze (joined (paragraph rest))))

theorem removeRedundantConstraint_eq {own : Span} (hown : placeOf d = .ok own)
    (hrest : search? redundantConstraint? (curledMessage d) = some rest)
    (hne : constraintsOf rest ≠ []) :
    removeRedundantConstraint d =
      .ok [⟨own, .removeRedundantConstraint ((constraintsOf rest).map String.ofList)⟩] := by
  obtain ⟨c, cs, hcs⟩ := List.exists_cons_of_ne_nil hne
  have hitems : topLevelItems (withoutParens (squeeze (joined (paragraph rest)))) = c :: cs := hcs
  simp only [removeRedundantConstraint, hrest, hitems, hown, hcs]
  rfl

/-- The constraints behind a label are balanced exactly if the text is without the parentheses at its
    ends. -/
theorem removeRedundantConstraint_balanced_iff (hd : d.negatives = [])
    (hrest : search? redundantConstraint? (curledMessage d) = some rest) :
    ∃ ss, removeRedundantConstraint d = .ok ss ∧
      ((∀ s ∈ ss, ∀ cs, s.fix = .removeRedundantConstraint cs → ∀ c ∈ cs, Balanced c.toList) ↔
        Balanced (withoutParens (squeeze (joined (paragraph rest))))) := by
  obtain ⟨own, hown⟩ := placeOf_ok hd
  rw [← forall_balanced_topLevelItems]
  by_cases hne : constraintsOf rest = []
  · have hitems : topLevelItems (withoutParens (squeeze (joined (paragraph rest)))) = [] := hne
    refine ⟨[], ?_, ?_⟩
    · simp only [removeRedundantConstraint, hrest, hitems]
    · rw [hitems]
      exact iff_of_true (List.forall_mem_nil _) (List.forall_mem_nil _)
  · refine ⟨_, removeRedundantConstraint_eq hown hrest hne, ?_⟩
    rw [List.forall_mem_singleton]
    constructor
    · intro h c hc
      have hmem : String.ofList c ∈ (constraintsOf rest).map String.ofList :=
        List.mem_map_of_mem hc
      simpa using h _ rfl _ hmem
    · rintro h cs ⟨⟩ c hc
      obtain ⟨x, hx, rfl⟩ := List.mem_map.1 hc
      rw [String.toList_ofList]
      exact h x hx

/-- What stands in parentheses is cut on its own, whatever blanks stand around it. -/
theorem constraintsOf_around (hgoes : GoesOn t) (hstops : Stops s)
    (ht : Padded ('(' :: (u ++ [')'])) t) :
    constraintsOf (t ++ s) = (topLevelItems u).map squeeze := by
  obtain ⟨lead, hlead, heq⟩ := squeeze_append (t := [')']) (Diagnostic.starts_cons.2 (by decide)) u
  have hinner : ∃ v, Padded (squeeze u) v ∧ squeeze ('(' :: (u ++ [')'])) = '(' :: (v ++ [')']) := by
    have hclose : squeeze [')'] = [')'] := by decide
    rw [hclose] at heq
    rcases squeeze_cons_gap (c := '(') (by decide) (u ++ [')']) with h | h
    · exact ⟨lead, hlead, by rw [h, heq]⟩
    · exact ⟨' ' :: lead, hlead.cons (by decide), by rw [h, heq]; rfl⟩
  obtain ⟨v, hv, hinner⟩ := hinner
  rw [constraintsOf, squeeze_joined_paragraph hgoes hstops, squeeze_padded ht, hinner,
    withoutParens_around, topLevelItems_padded hv, topLevelItems_squeeze]

/-- The constraints that a message names in a tuple are suggested, in order. -/
theorem removeRedundantConstraint_tuple (hd : d.negatives = []) {before : List Char}
    (hbefore : ¬ "Redundant constraint".toList <:+: before) {plural : Bool}
    (hmessage : curledMessage d = before ++ (constraintLabel plural ++ (t ++ s)))
    {items ps : List (List Char)} (hps : List.Forall₂ Padded items ps)
    (hitems : ∀ x ∈ items, IsItem x ∧ squeeze x = x) (hne : items ≠ [])
    (ht : Padded ('(' :: (List.intercalate [','] ps ++ [')'])) t) (hgoes : GoesOn t)
    (hstops : Stops s) :
    ∃ own, placeOf d = .ok own ∧ removeRedundantConstraint d =
      .ok [⟨own, .removeRedundantConstraint (items.map String.ofList)⟩] := by
  obtain ⟨own, hown⟩ := placeOf_ok hd
  have hrest : search? redundantConstraint? (curledMessage d) = some (t ++ s) := by
    rw [hmessage, search?_constraintLabel hbefore]
  have htuple : constraintsOf (t ++ s) = items := by
    rw [constraintsOf_around hgoes hstops ht,
      topLevelItems_intercalate hps fun x hx => (hitems x hx).1]
    exact (List.map_congr_left fun x hx => (hitems x hx).2).trans (List.map_id items)
  have heq := removeRedundantConstraint_eq hown hrest (htuple ▸ hne)
  rw [htuple] at heq
  exact ⟨own, hown, heq⟩

/-- Two constraints, one of them with brackets of its own. -/
theorem removeRedundantConstraint_tuple_two :
    let d : Diagnostic :=
      { severity := .warning, file := "src/Foo.hs", line := 10, column := 3, endLine := 10,
        endColumn := 9, message := "• Redundant constraints: (Eq a, Show (f a))" }
    ∃ own, placeOf d = .ok own ∧ removeRedundantConstraint d =
      .ok [⟨own, .removeRedundantConstraint ["Eq a", "Show (f a)"]⟩] := by
  intro d
  have hmessage : curledMessage d =
      "• ".toList ++ (constraintLabel true ++ (" (Eq a, Show (f a))".toList ++ [])) := by
    decide +kernel
  have hps : List.Forall₂ Padded ["Eq a".toList, "Show (f a)".toList]
      ["Eq a".toList, " Show (f a)".toList] :=
    .cons (.refl _) (.cons ((Padded.refl _).cons (by decide)) .nil)
  exact removeRedundantConstraint_tuple (by decide) (by decide) hmessage hps (by decide) (by decide)
    ((Padded.refl _).cons (by decide)) (by decide) (by decide)

/-- The constraints behind a label are balanced if the paragraph is, unless parentheses at both its
    ends do not match each other. -/
theorem removeRedundantConstraint_balanced (hd : d.negatives = [])
    (hrest : search? redundantConstraint? (curledMessage d) = some rest)
    (hbalanced : Balanced (joined (paragraph rest)))
    (hmatch : ∀ u, squeeze (joined (paragraph rest)) = '(' :: (u ++ [')']) → Balanced u) :
    ∃ ss, removeRedundantConstraint d = .ok ss ∧
      ∀ s ∈ ss, ∀ cs, s.fix = .removeRedundantConstraint cs → ∀ c ∈ cs, Balanced c.toList := by
  obtain ⟨ss, hss, hiff⟩ := removeRedundantConstraint_balanced_iff hd hrest
  exact ⟨ss, hss, hiff.2 (balanced_withoutParens (balanced_squeeze.2 hbalanced) hmatch)⟩

/-- A constraint that begins with one pair of parentheses and ends with another loses one of each, and
    so do two constraints that are no tuple. -/
theorem removeRedundantConstraint_astray :
    let message (text : String) : Diagnostic :=
      { severity := .error, file := "src/Foo.hs", line := 10, column := 3, endLine := 10,
        endColumn := 9, message := text }
    let place : Span := ⟨⟨10, 3, 10, 9⟩, "src/Foo.hs"⟩
    Balanced " (f a) ~ (g b)".toList ∧ ¬ Balanced "f a) ~ (g b".toList ∧
      removeRedundantConstraint (message "• Redundant constraint: (f a) ~ (g b)") =
        .ok [⟨place, .removeRedundantConstraint ["f a) ~ (g b"]⟩] ∧
      Balanced " (Eq a) => b, (Show c)".toList ∧ ¬ Balanced "Eq a) => b, (Show c".toList ∧
      removeRedundantConstraint (message "• Redundant constraints: (Eq a) => b, (Show c)") =
        .ok [⟨place, .removeRedundantConstraint ["Eq a) => b, (Show c"]⟩] := by
  decide +kernel

end GhciHost.Suggestion
