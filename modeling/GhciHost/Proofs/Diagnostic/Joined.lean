import GhciHost.Proofs.Diagnostic.Kept
import GhciHost.Proofs.Diagnostic.Printed

/-!
# Outputs one after the other

A text that ends its last line has no part in the lines of the text behind it, and a text that is
not indented goes on with no block.  So the blocks of two such outputs are those of the one and then
those of the other, and an output that comes twice is reported once.

* `lines_append`, `blocksFrom_append`   lines and blocks across the seam;
* `blocks_append`   the blocks of two outputs;
* `firstOfEach_append_of_said`, `withoutMasked_append_self`   what comes twice;
* `outputs_compose`   outputs and reports.
-/

namespace GhciHost

namespace Text

variable {s : List Char}

/-! ## Lines -/

/-- A text is empty, or ends with a line feed. -/
def EndsLine (s : List Char) : Prop := s = [] ∨ s.getLast? = some '\n'

instance (s : List Char) : Decidable (EndsLine s) :=
  inferInstanceAs (Decidable (s = [] ∨ s.getLast? = some '\n'))

/-- A text that goes on after its first character ends as the rest of it does. -/
theorem getLast?_cons_of_ne_nil {c : Char} (hs : s ≠ []) : (c :: s).getLast? = s.getLast? := by
  obtain ⟨d, s, rfl⟩ := List.exists_cons_of_ne_nil hs
  exact List.getLast?_cons_cons

/-- Lines that end before the seam are the same whatever stands behind it.  `l` is the line so far,
    newest character first. -/
theorem lines_go_append_of_ends (hs : s.getLast? = some '\n') (t l : List Char) :
    lines.go (s ++ t) l = lines.go s l ++ lines t := by
  -- what comes first is no carriage return that a line feed behind the seam belongs to
  have happend {c : Char} {s : List Char} (hne : s ≠ [])
      (hc : ∀ s', c = '\r' → s = '\n' :: s' → False) (l : List Char) :
      lines.go (c :: s ++ t) l =
        if isLineBreak c then l.reverse :: lines.go (s ++ t) [] else lines.go (s ++ t) (c :: l) := by
    refine lines.go.eq_4 _ _ _ fun s' hr hn => ?_
    obtain ⟨d, s, rfl⟩ := List.exists_cons_of_ne_nil hne
    exact hc s hr (by rw [(List.cons.inj hn).1])
  fun_induction lines.go s l with
  | case1 => cases hs
  | case2 => cases hs
  | case3 s l ih =>
    by_cases hnil : s = []
    · subst hnil
      rfl
    · rw [getLast?_cons_of_ne_nil (List.cons_ne_nil _ _), getLast?_cons_of_ne_nil hnil] at hs
      exact congrArg (l.reverse :: ·) (ih hs)
  | case4 c s l hc hbreak ih =>
    by_cases hnil : s = []
    · subst hnil
      cases hs
      rfl
    · rw [getLast?_cons_of_ne_nil hnil] at hs
      rw [happend hnil hc, if_pos hbreak, ih hs]
      rfl
  | case5 c s l hc hbreak ih =>
    by_cases hnil : s = []
    · subst hnil
      cases hs
      exact absurd rfl hbreak
    · rw [getLast?_cons_of_ne_nil hnil] at hs
      rw [happend hnil hc, if_neg hbreak, ih hs]

/-- The lines of a text that ends its last line stand in front of those of the text behind it. -/
theorem lines_append (hs : EndsLine s) (t : List Char) : lines (s ++ t) = lines s ++ lines t := by
  rcases hs with rfl | hs
  · rfl
  · exact lines_go_append_of_ends hs t []

/-- A line goes on as it began. -/
theorem prefix_of_mem_head? {l line : List Char} (h : line ∈ (lines.go s l).head?) :
    l.reverse <+: line := by
  fun_induction lines.go s l with
  | case1 => cases h
  | case2 l =>
    cases h
    exact List.prefix_rfl
  | case3 s l =>
    cases h
    exact List.prefix_rfl
  | case4 c s l =>
    cases h
    exact List.prefix_rfl
  | case5 c s l hc hbreak ih =>
    have hprefix := ih h
    rw [List.reverse_cons] at hprefix
    exact (List.prefix_append _ _).trans hprefix

end Text

namespace Diagnostic

open Text

/-! ## Blocks -/

/-- The first line of a text is indented only if the text is. -/
theorem flush_lines_of_not_isIndented {s : List Char} (hs : isIndented s = false) :
    Flush (lines s) := by
  intro line hline
  cases s with
  | nil => cases hline
  | cons c s =>
    by_cases hfeed : ∃ s', c = '\r' ∧ s = '\n' :: s'
    · obtain ⟨s', rfl, rfl⟩ := hfeed
      cases hline
      rfl
    · rw [lines, lines.go.eq_4 _ _ _ fun s' hr hn => hfeed ⟨s', hr, hn⟩] at hline
      split at hline
      · cases hline
        rfl
      · obtain ⟨rest, rfl⟩ := prefix_of_mem_head? hline
        exact hs

/-- The blocks of lines of which the first goes on with no block stand by themselves. -/
theorem blocksFrom_append {ls ms : List (List Char)} (hms : Flush ms)
    (o : Option (Header × List (List Char))) :
    blocksFrom o (ls ++ ms) = blocksFrom o ls ++ blocksFrom none ms := by
  induction ls generalizing o with
  | nil =>
    cases o with
    | none => rfl
    | some b => exact blocksFrom_flush hms
  | cons l ls ih =>
    cases o with
    | none => exact ih _
    | some b =>
      obtain ⟨h, acc⟩ := b
      simp only [List.cons_append, blocksFrom, ih]
      split
      · split <;> rfl
      · rfl

/-- The blocks of an output that ends its last line, and of one behind it that is not indented. -/
theorem blocks_append {a b : List Char} (ha : EndsLine a) (hb : isIndented b = false) :
    blocks (a ++ b) = blocks a ++ blocks b := by
  rw [blocks, lines_append ha, blocksFrom_append (flush_lines_of_not_isIndented hb)]
  rfl

/-! ## Reports -/

/-- Nothing is said by what was said before. -/
theorem firstOfEach_of_said {seen : List Identity} {ds : List Diagnostic}
    (h : ∀ d ∈ ds, d.identity ∈ seen) : firstOfEach seen ds = [] := by
  induction ds with
  | nil => rfl
  | cons d ds ih =>
    obtain ⟨hd, hds⟩ := List.forall_mem_cons.1 h
    rw [firstOfEach, if_pos hd, ih hds]

/-- Diagnostics that say only what was said before them make no difference. -/
theorem firstOfEach_append_of_said {seen : List Identity} {ds es : List Diagnostic}
    (h : ∀ e ∈ es, e.identity ∈ seen ∨ e.identity ∈ ds.map identity) :
    firstOfEach seen (ds ++ es) = firstOfEach seen ds := by
  induction ds generalizing seen with
  | nil => exact firstOfEach_of_said fun e he => (h e he).resolve_right List.not_mem_nil
  | cons d ds ih =>
    rw [List.cons_append, firstOfEach, firstOfEach]
    split
    · next hd =>
      refine ih fun e he => (h e he).elim .inl fun hsaid => ?_
      rcases List.mem_cons.1 hsaid with hsame | hsaid
      · exact .inl (hsame ▸ hd)
      · exact .inr hsaid
    · refine congrArg (d :: ·) (ih fun e he => (h e he).elim (.inl ∘ List.mem_cons_of_mem _) ?_)
      intro hsaid
      rcases List.mem_cons.1 hsaid with hsame | hsaid
      · exact .inl (hsame ▸ List.mem_cons_self)
      · exact .inr hsaid

/-- Of what comes twice the same is masked both times. -/
theorem withoutMasked_append_self (parsed : List (Diagnostic × Bool)) :
    withoutMasked (parsed ++ parsed) = withoutMasked parsed ++ withoutMasked parsed := by
  rw [withoutMasked_eq, withoutMasked_eq, List.any_append, Bool.or_self, List.map_append,
    List.filter_append]

/-- An output that comes twice is reported once, or cannot be read for the same reason. -/
theorem ofOutput_append_self {a : String} (ha : EndsLine a.toList) (hi : isIndented a.toList = false)
    (staging : Staging) (supported : List String) :
    ofOutput staging supported (a ++ a) = ofOutput staging supported a := by
  unfold ofOutput
  rw [String.toList_append, blocks_append ha hi, List.mapM_append]
  cases (blocks a.toList).mapM (ofBlock staging) with
  | error e => rfl
  | ok parsed =>
    have hsaid : ∀ d ∈ withoutMasked parsed, d.identity ∈ ([] : List Identity) ∨
        d.identity ∈ (withoutMasked parsed).map identity := fun d hd =>
      .inr (List.mem_map_of_mem hd)
    show (firstOfEach [] (withoutMasked (parsed ++ parsed))).mapM (withSuggestions supported) =
      (firstOfEach [] (withoutMasked parsed)).mapM (withSuggestions supported)
    rw [withoutMasked_append_self, firstOfEach_append_of_said hsaid]

/-- Behind an output that ends its last line stand the blocks of an output that is not indented, and
    if that is the same output again, it makes no difference to the report. -/
theorem outputs_compose {a : String} (ha : EndsLine a.toList) :
    (∀ b : String, isIndented b.toList = false →
      blocks (a ++ b).toList = blocks a.toList ++ blocks b.toList) ∧
    (isIndented a.toList = false → ∀ (staging : Staging) (supported : List String),
      ofOutput staging supported (a ++ a) = ofOutput staging supported a) := by
  refine ⟨fun b hb => ?_, fun hi staging supported => ofOutput_append_self ha hi staging supported⟩
  rw [String.toList_append, blocks_append ha hb]

/-- A diagnostic with a line of message behind it, with an open block at the seam: the output that
    comes behind it begins with a line break, and the report on the output told twice has one
    diagnostic. -/
theorem outputs_compose_open :
    let a := "A.hs:1:2: error: x\n  y\n"
    let b := "\x0bB.hs:3:4: z"
    (EndsLine a.toList ∧ isIndented b.toList = false ∧ isIndented a.toList = false) ∧
      blocks (a ++ b).toList = blocks a.toList ++ blocks b.toList ∧
      (blocks a.toList).length = 1 ∧ (blocks b.toList).length = 1 ∧
      ofOutput [] [] (a ++ a) = ofOutput [] [] a ∧ (ofOutput [] [] a).isOk = true := by
  intro a b
  have ha : EndsLine a.toList := by decide +kernel
  have hi : isIndented a.toList = false := by decide +kernel
  have hb : isIndented b.toList = false := by decide +kernel
  obtain ⟨hblocks, hreport⟩ := outputs_compose ha
  exact ⟨⟨ha, hb, hi⟩, hblocks b hb, by decide +kernel, by decide +kernel, hreport hi [] [],
    by decide +kernel⟩

end Diagnostic

end GhciHost
