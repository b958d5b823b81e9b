import GhciHost.Proofs.Diagnostic.Kept
import GhciHost.Proofs.Diagnostic.Printed
import GhciHost.Proofs.Suggestion.Offered

/-!
# Reports of printed diagnostics

The report on what a compiler printed says what was printed, each diagnostic once, unless a message
proposes to extend an import list at a place whose numbers are too long to be read.

* `mapM_ofBlock_output`   the blocks are read as the diagnostics;
* `identities_firstOfEach`   what says nothing new is dropped;
* `ofOutput_output`   the report says what was printed.
-/

namespace GhciHost.Diagnostic

open Text

/-- If each member of a list can be taken somewhere, the list can. -/
theorem exists_mapM {α β ε : Type} {f : α → Except ε β} {R : α → β → Prop} {xs : List α}
    (h : ∀ x ∈ xs, ∃ y, f x = .ok y ∧ R x y) : ∃ ys, xs.mapM f = .ok ys ∧ List.Forall₂ R xs ys := by
  induction xs with
  | nil => exact ⟨[], rfl, .nil⟩
  | cons x xs ih =>
    obtain ⟨⟨y, hy, hR⟩, hxs⟩ := List.forall_mem_cons.1 h
    obtain ⟨ys, hys, hRs⟩ := ih hxs
    refine ⟨y :: ys, ?_, .cons hR hRs⟩
    rw [List.mapM_cons, hy, hys]
    rfl

theorem map_eq_map_of_forall₂ {α β γ : Type} {f : α → γ} {g : β → γ} {xs : List α} {ys : List β}
    (h : List.Forall₂ (fun x y => f x = g y) xs ys) : xs.map f = ys.map g := by
  induction h with
  | nil => rfl
  | cons hxy _ ih => rw [List.map_cons, List.map_cons, hxy, ih]

/-- The first of each are those that say something new. -/
theorem identities_firstOfEach (seen : List Identity) (ds : List Diagnostic) :
    (firstOfEach seen ds).map identity =
      ((ds.map identity).filter fun i => decide (i ∉ seen)).eraseDups := by
  induction ds generalizing seen with
  | nil => rfl
  | cons d ds ih =>
    rw [firstOfEach, List.map_cons, List.filter_cons]
    split
    · next hd => rw [ih, if_neg (by simpa using hd)]
    · next hd =>
      rw [if_pos (by simpa using hd), List.map_cons, ih, List.eraseDups_cons, List.filter_filter]
      congr 3
      funext i
      simp [not_or, Bool.beq_eq_decide_eq]

/-- Suggestions are found for a diagnostic, if a place that its message names can be read. -/
theorem withSuggestions_ok {d : Diagnostic} (hd : d.negatives = [])
    (h : Suggestion.PlaceReadable d) (supported : List String) :
    ∃ d', withSuggestions supported d = .ok d' ∧ d.identity = d'.identity := by
  obtain ⟨ss, hss⟩ := Suggestion.suggestionsOf_ok hd h supported
  have hok : ∃ d', withSuggestions supported d = .ok d' := by
    rw [withSuggestions, hss]
    split
    · exact ⟨_, rfl⟩
    · exact ⟨_, rfl⟩
  obtain ⟨d', hd'⟩ := hok
  exact ⟨d', hd', (identity_withSuggestions hd').symm⟩

theorem Printed.negatives_diagnostic (d : Printed) : d.diagnostic.negatives = [] := by
  simp [negatives, Printed.diagnostic]

/-- The blocks of what is printed are read as the diagnostics. -/
theorem mapM_ofBlock_output (es : List Entry) :
    (blocks (output es).toList).mapM (ofBlock []) =
      .ok (es.map fun e => (e.diagnostic.diagnostic, false)) := by
  have hread : ∀ e ∈ es, ∃ p, (ofBlock [] ∘ Entry.block) e = .ok p ∧
      (e.diagnostic.diagnostic, false) = id p := fun e _ => ⟨_, e.ofBlock_block, rfl⟩
  obtain ⟨parsed, hparsed, hR⟩ := exists_mapM hread
  rw [blocks_output, List.mapM_map, hparsed, map_eq_map_of_forall₂ hR, List.map_id]

/-- No warning is left out of what is printed. -/
theorem ofOutput_output_eq (supported : List String) (es : List Entry) :
    ofOutput [] supported (output es) =
      (firstOfEach [] (es.map (·.diagnostic.diagnostic))).mapM (withSuggestions supported) := by
  have hunmasked : withoutMasked (es.map fun e => (e.diagnostic.diagnostic, false)) =
      es.map (·.diagnostic.diagnostic) := by
    rw [withoutMasked, if_neg (by simp), List.map_map]
    rfl
  rw [ofOutput, mapM_ofBlock_output, ← hunmasked]
  rfl

/-- A report says what was printed, each diagnostic once, if the places that the messages name can
    be read. -/
theorem ofOutput_output (supported : List String) (es : List Entry)
    (h : ∀ e ∈ es, Suggestion.PlaceReadable e.diagnostic.diagnostic) :
    (ofOutput [] supported (output es)).map (·.map identity) =
      .ok (es.map (·.diagnostic.diagnostic.identity)).eraseDups := by
  have hfound : ∀ d ∈ firstOfEach [] (es.map (·.diagnostic.diagnostic)),
      ∃ d', withSuggestions supported d = .ok d' ∧ d.identity = d'.identity := by
    intro d hd
    obtain ⟨e, he, rfl⟩ := List.mem_map.1 (mem_of_mem_firstOfEach hd)
    exact withSuggestions_ok e.diagnostic.negatives_diagnostic (h e he) supported
  obtain ⟨kept, hkept, hR⟩ := exists_mapM hfound
  rw [ofOutput_output_eq, hkept]
  show Except.ok (kept.map identity) = _
  rw [← map_eq_map_of_forall₂ hR, identities_firstOfEach, List.map_map]
  congr 2
  exact List.filter_eq_self.2 fun _ _ => rfl

/-- Two errors that span lines, of which one is printed twice, and a warning between them. -/
theorem ofOutput_output_repeated :
    let e : Printed := {
      severity := .error, file := "src/Foo.hs".toList, place := .span 3 1 5 10
      first := "• Perhaps you want to add ‘x’ to the import list".toList
      more := ["  in the import of ‘M’ (Foo.hs:3:1-20)".toList, "• f :: a:1:2: b".toList] }
    let w : Printed := {
      severity := .warning, file := "src/B.hs".toList, place := .columns 7 5 9
      first := "[-Wunused-matches]".toList }
    let es : List Entry := [⟨e, 4, 0, by decide⟩, ⟨w, 1, 2, by decide⟩, ⟨e, 2, 1, by decide⟩]
    (∀ e ∈ es, Suggestion.PlaceReadable e.diagnostic.diagnostic) ∧
      (ofOutput [] [] (output es)).map (·.map identity) =
        .ok [e.diagnostic.identity, w.diagnostic.identity] := by
  intro e w es
  have he : Suggestion.PlaceReadable e.diagnostic := by decide +kernel
  have hw : Suggestion.PlaceReadable w.diagnostic := by decide +kernel
  have h : ∀ x ∈ es, Suggestion.PlaceReadable x.diagnostic.diagnostic := by
    simp only [es, List.forall_mem_cons]
    exact ⟨he, hw, he, List.forall_mem_nil _⟩
  refine ⟨h, (ofOutput_output [] es h).trans ?_⟩
  have hne : w.diagnostic.identity ≠ e.diagnostic.identity := fun h =>
    absurd (congrArg Identity.line h) (by decide)
  simp [es, List.eraseDups_cons, hne]

/-- A line number with one digit too many. -/
def overlongLine : List Char := List.replicate 4301 '1'

theorem isNumeral_overlongLine : Location.IsNumeral overlongLine := by
  refine ⟨mt (List.replicate_eq_nil_iff '1').1 (by decide), fun c hc => ?_⟩
  rw [List.eq_of_mem_replicate hc]
  decide

/-- A place in that line. -/
def overlongPlace : List Char := "A.hs:".toList ++ (overlongLine ++ ":1".toList)

/-- The proposal to extend the import list at that place. -/
def overlongProposal : List Char := Suggestion.proposal ['x'] ['M'] overlongPlace

theorem mem_overlongPlace {c : Char} (h : c ∈ overlongPlace) : c ∈ "A.hs:1".toList := by
  rcases List.mem_append.1 h with h | h
  · exact List.mem_append_left ['1'] h
  rcases List.mem_append.1 h with h | h
  · rw [List.eq_of_mem_replicate h]
    decide
  · have h : c ∈ [':', '1'] := h
    rcases List.mem_cons.1 h with rfl | h
    · decide
    · rw [List.mem_singleton.1 h]
      decide

/-- The proposal is written with the characters of one for a place with few digits. -/
theorem mem_overlongProposal {c : Char} (h : c ∈ overlongProposal) :
    c ∈ Suggestion.proposal ['x'] ['M'] [] ∨ c ∈ "A.hs:1".toList :=
  (Suggestion.mem_proposal h).imp_right mem_overlongPlace

theorem unbroken_overlongProposal : Unbroken overlongProposal := by
  intro c hc
  rcases mem_overlongProposal hc with hc | hc
  · exact (by decide : Unbroken (Suggestion.proposal ['x'] ['M'] [])) c hc
  · exact (by decide : Unbroken "A.hs:1".toList) c hc

theorem grave_not_mem_overlongProposal : Suggestion.grave ∉ overlongProposal := by
  intro hc
  rcases mem_overlongProposal hc with hc | hc
  · exact absurd hc (by decide)
  · exact absurd hc (by decide)

theorem ends_overlongProposal : Ends overlongProposal := by
  have hclose : Ends [')'] := by decide
  exact (((((hclose.append _).append _).append _).append _).append _).append _

theorem squeeze_overlongProposal : squeeze overlongProposal = overlongProposal := by
  have hwords : overlongProposal = List.intercalate [' ']
      (["Perhaps", "you", "want", "to", "add", "‘x’", "to", "the", "import", "list", "in", "the",
        "import", "of", "‘M’"].map String.toList ++ ['(' :: (overlongPlace ++ [')'])]) := by
    unfold overlongProposal
    generalize overlongPlace = place
    simp only [List.map_cons, List.map_nil, List.cons_append, List.nil_append, List.intercalate,
      List.intersperse, List.flatten_cons, List.flatten_nil, List.append_nil]
    rfl
  rw [hwords]
  refine squeeze_intercalate fun w hw => ?_
  rcases List.mem_append.1 hw with hw | hw
  · have h : ∀ w ∈ ["Perhaps", "you", "want", "to", "add", "‘x’", "to", "the", "import", "list",
        "in", "the", "import", "of", "‘M’"].map String.toList, IsWord w := by decide
    exact h w hw
  · have hplace : IsWord "A.hs:1".toList := by decide
    rw [List.mem_singleton.1 hw]
    refine ⟨List.cons_ne_nil _ _, List.forall_mem_cons.2 ⟨by decide, ?_⟩⟩
    exact List.forall_mem_append.2 ⟨fun c hc => hplace.2 c (mem_overlongPlace hc),
      List.forall_mem_singleton.2 (by decide)⟩

/-- An error whose message proposes to extend the import list at the overlong place. -/
def overlong : Printed where
  severity := .error
  file := "A.hs".toList
  place := .point 1 1
  first := overlongProposal
  first_start := ⟨'P', rfl, by decide⟩
  first_end := ends_overlongProposal
  first_unbroken := unbroken_overlongProposal
  plain := by rintro ⟨⟩

theorem flatMessage_overlong : Suggestion.flatMessage overlong.diagnostic = overlongProposal := by
  have hmessage : overlong.diagnostic.message.toList = overlongProposal :=
    String.toList_ofList.trans List.intercalate_singleton
  rw [Suggestion.flatMessage, Suggestion.curledMessage, hmessage,
    Suggestion.curled_of_not_mem grave_not_mem_overlongProposal, squeeze_overlongProposal]

/-- No suggestion is found for that error. -/
theorem suggestionsOf_overlong :
    Suggestion.suggestionsOf [] overlong.diagnostic = .error (.tooManyDigits ⟨4301⟩) := by
  have hmargin : overlongPlace ≠ [] ∧ ')' ∉ overlongPlace :=
    ⟨List.cons_ne_nil _ _, fun h => absurd (mem_overlongPlace h) (by decide)⟩
  have hfound : search? Suggestion.importProposal?
      (Suggestion.flatMessage overlong.diagnostic) = some (['x'], ['M'], overlongPlace) := by
    rw [flatMessage_overlong]
    exact Text.search?_of_some
      (Suggestion.importProposal?_proposal (by decide) (by decide) hmargin)
  have hnumerals : ∀ ds ∈ (Location.Written.point overlongLine ['1']).numerals,
      Location.IsNumeral ds := by
    intro ds hds
    rcases List.mem_cons.1 hds with rfl | hds
    · exact isNumeral_overlongLine
    · rw [List.mem_singleton.1 hds]
      exact ⟨List.cons_ne_nil _ _, List.forall_mem_singleton.2 (by decide)⟩
  have hplace : Location.fileLocation? overlongPlace =
      some ("A.hs".toList, .point overlongLine ['1'], []) := by
    have e : overlongPlace =
        "A.hs".toList ++ ':' :: ((Location.Written.point overlongLine ['1']).text ++ []) := by
      rw [List.append_nil]
      rfl
    rw [e]
    exact Location.fileThen?_text hnumerals (fun c hc => absurd hc (by simp)) rfl (by decide) (by decide)
      (by decide)
  refine Suggestion.suggestionsOf_error overlong.negatives_diagnostic hfound hplace ?_ []
  have hread : readNat? overlongLine = .error ⟨4301⟩ := by
    rw [readNat?, overlongLine, List.length_replicate]
    rfl
  rw [Location.Written.read, hread]
  rfl

/-- What is printed is not always read: the place in the proposal has too many digits. -/
theorem not_all_output_read :
    ¬ ∀ (supported : List String) (es : List Entry),
      (ofOutput [] supported (output es)).map (·.map identity) =
        .ok (es.map (·.diagnostic.diagnostic.identity)).eraseDups := by
  intro h
  have h := h [] [⟨overlong, 1, 0, by decide⟩]
  have hnone : withSuggestions [] overlong.diagnostic = .error (.tooManyDigits ⟨4301⟩) := by
    rw [withSuggestions, if_neg (by exact overlong.not_splice), suggestionsOf_overlong]
    rfl
  have hfirst : firstOfEach [] [overlong.diagnostic] = [overlong.diagnostic] := rfl
  rw [ofOutput_output_eq, List.map_singleton, hfirst, List.mapM_cons, hnone] at h
  cases h

end GhciHost.Diagnostic
