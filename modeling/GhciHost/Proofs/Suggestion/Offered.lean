import GhciHost.Proofs.Diagnostic.Placed
import GhciHost.Proofs.Suggestion.Curled
import GhciHost.Suggestion.Rules

/-!
# When suggestions are found

A rule fails only on a number that is too long: that of a place which a message names in a proposal
to extend an import list.  All other rules take the diagnostic's own place.

* `suggestionsOf_ok`   the rules come to an end, if that place can be read;
* `suggestionsOf_error`   they do not, if it cannot.
-/

namespace GhciHost.Suggestion

open Text

variable {d : Diagnostic}

/-- If the message proposes to extend an import list at some place, the numbers of that place can
    be read. -/
def PlaceReadable (d : Diagnostic) : Prop :=
  ∀ proposal ∈ search? importProposal? (flatMessage d),
    ∀ place ∈ Location.fileLocation? proposal.2.2, place.2.1.read.isOk = true

instance (d : Diagnostic) : Decidable (PlaceReadable d) :=
  inferInstanceAs (Decidable (∀ proposal ∈ search? importProposal? (flatMessage d), _))

/-- A diagnostic has a place if none of its positions is negative. -/
theorem placeOf_ok (h : d.negatives = []) : ∃ own, placeOf d = .ok own := by
  rw [placeOf, Diagnostic.span, h]
  exact ⟨_, rfl⟩

theorem addImportItem_ok (hd : d.negatives = []) (h : PlaceReadable d) :
    ∃ ss, addImportItem d = .ok ss := by
  obtain ⟨own, hown⟩ := placeOf_ok hd
  unfold addImportItem
  split
  · exact ⟨_, rfl⟩
  · next item module place hfound =>
    rw [hown]
    cases hplace : Location.fileLocation? place with
    | none => exact ⟨_, rfl⟩
    | some x =>
      obtain ⟨file, written, rest⟩ := x
      have hread : written.read.isOk = true := h _ hfound _ hplace
      cases hl : written.read with
      | error e =>
        rw [hl] at hread
        cases hread
      | ok l =>
        simp only [hl]
        exact ⟨_, rfl⟩

/-- Each rule comes to an end. -/
theorem apply_ok (hd : d.negatives = []) (h : PlaceReadable d) (supported : List String)
    (k : Fix.Kind) : ∃ ss, apply supported d k = .ok ss := by
  obtain ⟨own, hown⟩ := placeOf_ok hd
  have hplaced (f : Span → List Suggestion) :
      ∃ ss, (do let location ← placeOf d; pure (f location) : Except RuleError _) = .ok ss := by
    rw [hown]
    exact ⟨_, rfl⟩
  cases k with
  | addImportItem => exact addImportItem_ok hd h
  | removeImportItem =>
    unfold apply removeImportItem
    dsimp only
    split
    · exact hplaced _
    · split
      · exact hplaced _
      · exact ⟨_, rfl⟩
  | addExtension =>
    unfold apply addExtension
    dsimp only
    split
    · exact ⟨_, rfl⟩
    · exact hplaced _
  | addGhcOption =>
    unfold apply addGhcOption
    dsimp only
    split
    · exact ⟨_, rfl⟩
    · exact hplaced _
  | addMissingRecordFields =>
    unfold apply addMissingRecordFields
    dsimp only
    split
    · exact ⟨_, rfl⟩
    · split
      · exact ⟨_, rfl⟩
      · exact hplaced _
  | fixTypo =>
    unfold apply fixTypo
    dsimp only
    split
    · exact ⟨_, rfl⟩
    · split
      · exact ⟨_, rfl⟩
      · split
        · exact ⟨_, rfl⟩
        · exact hplaced _
  | addTypeSignature =>
    unfold apply addTypeSignature
    dsimp only
    split
    · exact ⟨_, rfl⟩
    · split
      · exact hplaced _
      · exact ⟨_, rfl⟩
  | removeRedundantConstraint =>
    unfold apply removeRedundantConstraint
    dsimp only
    split
    · exact ⟨_, rfl⟩
    · split
      · exact ⟨_, rfl⟩
      · exact hplaced _
  | enablePackage =>
    unfold apply enablePackage
    dsimp only
    split
    · exact ⟨_, rfl⟩
    · exact hplaced _

theorem firstOf_ok (hd : d.negatives = []) (h : PlaceReadable d) (supported : List String)
    (ks : List Fix.Kind) : ∃ ss, firstOf supported d ks = .ok ss := by
  induction ks with
  | nil => exact ⟨_, rfl⟩
  | cons k ks ih =>
    obtain ⟨ss, hss⟩ := apply_ok hd h supported k
    rw [firstOf, hss]
    cases ss with
    | nil => exact ih
    | cons s ss => exact ⟨_, rfl⟩

theorem suggestionsOf_ok (hd : d.negatives = []) (h : PlaceReadable d) (supported : List String) :
    ∃ ss, suggestionsOf supported d = .ok ss :=
  firstOf_ok hd h supported rules

/-- A place that is named in a proposal, and has a number that is too long, is a failure. -/
theorem suggestionsOf_error (hd : d.negatives = []) {item module place file rest : List Char}
    {written : Location.Written} {e : TooManyDigits}
    (hfound : search? importProposal? (flatMessage d) = some (item, module, place))
    (hplace : Location.fileLocation? place = some (file, written, rest))
    (hread : written.read = .error e) (supported : List String) :
    suggestionsOf supported d = .error (.tooManyDigits e) := by
  obtain ⟨own, hown⟩ := placeOf_ok hd
  have happly : apply supported d .addImportItem = .error (.tooManyDigits e) := by
    simp only [apply, addImportItem, hfound, hown, hplace, hread]
    rfl
  rw [suggestionsOf, rules, firstOf, happly]

/-! ## Proposals to extend an import list -/

theorem untilClose_cons {c : Char} (hc : c ≠ ')') (acc s : List Char) :
    untilClose acc (c :: s) = untilClose (c :: acc) s := by
  rw [untilClose.eq_def]
  simp [hc]

/-- What holds no closing parenthesis is passed. -/
theorem untilClose_skip {s : List Char} (hs : ')' ∉ s) (acc t : List Char) :
    untilClose acc (s ++ t) = untilClose (s.reverse ++ acc) t := by
  induction s generalizing acc with
  | nil => rfl
  | cons c s ih =>
    simp only [List.mem_cons, not_or] at hs
    rw [List.cons_append, untilClose_cons (Ne.symm hs.1), ih hs.2, List.reverse_cons,
      List.append_assoc]
    rfl

/-- What may follow the closing parenthesis: nothing, a full stop or a blank. -/
def Ended (s : List Char) : Prop := ∀ c ∈ s.head?, c = '.' ∨ isBlank c = true

theorem untilClose_close {acc : List Char} (hacc : acc ≠ []) {t : List Char} (ht : Ended t) :
    untilClose acc (')' :: t) = some acc.reverse := by
  have hne : acc.isEmpty = false := by simpa using hacc
  rw [untilClose.eq_def]
  cases t with
  | nil => simp [hne]
  | cons c t => simp [hne, ht c rfl]

/-- A parenthesis that closes nothing else than a part of the place is passed. -/
theorem untilClose_pass {c : Char} (hdot : c ≠ '.') (hblank : isBlank c = false)
    (acc t : List Char) : untilClose acc (')' :: c :: t) = untilClose (')' :: acc) (c :: t) := by
  rw [untilClose.eq_def]
  simp [hdot, hblank]

/-- A proposal to extend an import list, as the compiler writes it. -/
def proposal (item module place : List Char) : List Char :=
  "Perhaps you want to add ".toList ++ (['‘'] ++ item ++ ['’'] ++
    (" to the import list in the import of ".toList ++ (['‘'] ++ module ++ ['’'] ++
      (" (".toList ++ (place ++ [')'])))))

/-- The parts of a proposal are found again, whatever follows. -/
theorem importProposal?_append {item module place rest : List Char} (hitem : Closed item)
    (hmodule : Closed module) (hclose : untilClose [] (place ++ ([')'] ++ rest)) = some place) :
    importProposal? (proposal item module place ++ rest) = some (item, module, place) := by
  have hquoted {name : List Char} (h : Closed name) (t : List Char) :
      quoted? (['‘'] ++ name ++ ['’'] ++ t) = some (name, t) :=
    quoted?_eq_some.2 ⟨rfl, h⟩
  have hassoc (a b c d e : List Char) : a ++ (b ++ (c ++ (d ++ (e ++ (place ++ [')']))))) ++ rest =
      a ++ (b ++ (c ++ (d ++ (e ++ (place ++ ([')'] ++ rest)))))) := by
    simp only [List.append_assoc]
  unfold importProposal? proposal
  rw [hassoc, Option.bind_eq_bind, after?_append, Option.bind_some, Option.bind_eq_bind,
    hquoted hitem, Option.bind_some]
  dsimp only
  rw [after?_append, Option.bind_some, hquoted hmodule, Option.bind_some]
  dsimp only
  rw [after?_append, Option.bind_some, hclose]
  rfl

/-- The parts of a proposal are found again. -/
theorem importProposal?_proposal {item module place : List Char} (hitem : Closed item)
    (hmodule : Closed module) (hplace : place ≠ [] ∧ ')' ∉ place) :
    importProposal? (proposal item module place) = some (item, module, place) := by
  have hclose : untilClose [] (place ++ ([')'] ++ [])) = some place := by
    have hended : Ended [] := fun c hc => by cases hc
    rw [untilClose_skip hplace.2, List.append_nil, List.append_nil,
      untilClose_close (List.reverse_ne_nil_iff.2 hplace.1) hended, List.reverse_reverse]
  have happend := importProposal?_append hitem hmodule hclose
  rwa [List.append_nil] at happend

/-- The characters of a proposal are fixed but for those of the place. -/
theorem mem_proposal {item module place : List Char} {c : Char}
    (hc : c ∈ proposal item module place) : c ∈ proposal item module [] ∨ c ∈ place := by
  have hfixed {p q r : List Char} (hq : c ∈ q → c ∈ r ∨ c ∈ place) (hc : c ∈ p ++ q) :
      c ∈ p ++ r ∨ c ∈ place := by
    rcases List.mem_append.1 hc with hc | hc
    · exact .inl (List.mem_append_left _ hc)
    · exact (hq hc).imp_left (List.mem_append_right _)
  exact hfixed (hfixed (hfixed (hfixed (hfixed fun hc => (List.mem_append.1 hc).symm)))) hc

end GhciHost.Suggestion
