import Mathlib.Data.List.DropRight
import Mathlib.Logic.Function.Iterate
import GhciHost.Host.Lane
import GhciHost.Proofs.Text.Replaced

/-!
# Carriage returns at the ends of lines

A response is delivered without the carriage returns at its end, and with one less in front of
every line feed.  Nothing else is taken from it.  Where terminals are nested, several returns stand
in a row in front of a line feed: then one pass is not enough, and the delivered text holds the very
pair that the pass takes out.

* `joinLineEnds_eq_replacePhrase`   the pass over line ends is a plain replacement;
* `trimmed_withLineFeeds`   what is taken out, and that all else is kept;
* `stacked_infix_iterate`   each pass takes one return from every row of them;
* `clean_iterate_iff`, `withLineFeeds_idem_iff`   how many passes make a text clean, and when one
  does.
-/

namespace GhciHost.Output

open Text

variable {s t : List Char}

/-! ## The pass over line ends -/

/-- A character that starts no pair of return and line feed is kept. -/
theorem joinLineEnds_cons {c : Char} (h : ¬ ['\r', '\n'] <+: c :: s) :
    joinLineEnds (c :: s) = c :: joinLineEnds s := by
  rw [joinLineEnds]
  rintro r rfl rfl
  exact h ⟨r, rfl⟩

theorem joinLineEnds_eq_replacePhrase (s : List Char) :
    joinLineEnds s = replacePhrase ['\r', '\n'] ['\n'] s := by
  fun_induction joinLineEnds s with
  | case1 => rfl
  | case2 s ih =>
    have hpair : replacePhrase ['\r', '\n'] ['\n'] (['\r', '\n'] ++ s) =
        ['\n'] ++ replacePhrase ['\r', '\n'] ['\n'] s :=
      replacePhrase_append (List.cons_ne_nil _ _) s
    rw [ih]
    exact hpair.symm
  | case3 c s h ih =>
    rw [ih, replacePhrase_cons]
    intro hpair
    obtain ⟨rfl, hfeed⟩ := List.cons_prefix_cons.1 hpair
    obtain ⟨r, rfl⟩ := hfeed
    exact h r rfl rfl

/-! ## The returns at the end -/

theorem dropFinalReturns_eq (s : List Char) : dropFinalReturns s = s.rdropWhile (· == '\r') := rfl

/-- Nothing but returns is taken from the end. -/
theorem exists_eq_append_dropFinalReturns (s : List Char) :
    ∃ k, s = dropFinalReturns s ++ List.replicate k '\r' := by
  have hreturns : ∀ c ∈ s.rtakeWhile (· == '\r'), c = '\r' := fun c hc =>
    beq_iff_eq.1 (List.mem_rtakeWhile_imp (p := (· == '\r')) hc)
  refine ⟨(s.rtakeWhile (· == '\r')).length, ?_⟩
  rw [← List.eq_replicate_iff.2 ⟨rfl, hreturns⟩, dropFinalReturns_eq]
  exact List.rdropWhile_append_rtakeWhile.symm

theorem getLast?_dropFinalReturns (s : List Char) : (dropFinalReturns s).getLast? ≠ some '\r' := by
  rw [dropFinalReturns_eq]
  intro h
  have hne : s.rdropWhile (· == '\r') ≠ [] := fun hnil => by
    rw [hnil] at h
    cases h
  rw [List.getLast?_eq_some_getLast hne, Option.some.injEq] at h
  exact List.rdropWhile_last_not (· == '\r') s hne (beq_iff_eq.2 h)

theorem getLast?_withLineFeeds (s : List Char) : (withLineFeeds s).getLast? ≠ some '\r' :=
  getLast?_dropFinalReturns _

/-! ## What is taken out -/

/-- A line ends here, perhaps behind some returns. -/
def EndsLine : List Char → Prop
  | [] => True
  | c :: s => c = '\n' ∨ c = '\r' ∧ EndsLine s

/-- A text without some of its carriage returns, each of which stood at the end of a line. -/
inductive Trimmed : List Char → List Char → Prop
  | nil : Trimmed [] []
  | keep {s t : List Char} (c : Char) : Trimmed s t → Trimmed (c :: s) (c :: t)
  | drop {s t : List Char} : EndsLine s → Trimmed s t → Trimmed ('\r' :: s) t

namespace Trimmed

theorem refl : (s : List Char) → Trimmed s s
  | [] => nil
  | c :: s => keep c (refl s)

/-- A line that ends in what is left ended there before. -/
theorem endsLine (h : Trimmed s t) (ht : EndsLine t) : EndsLine s := by
  induction h with
  | nil => exact ht
  | keep c _ ih => exact ht.imp_right (And.imp_right ih)
  | drop hs _ _ => exact .inr ⟨rfl, hs⟩

theorem trans {u : List Char} (h : Trimmed s t) (h' : Trimmed t u) : Trimmed s u := by
  induction h generalizing u with
  | nil => exact h'
  | keep c h ih =>
    cases h' with
    | keep _ h' => exact keep c (ih h')
    | drop ht h' => exact drop (h.endsLine ht) (ih h')
  | drop hs _ ih => exact drop hs (ih h')

theorem sublist (h : Trimmed s t) : t.Sublist s := by
  induction h with
  | nil => exact .slnil
  | keep c _ ih => exact ih.cons_cons c
  | drop _ _ ih => exact ih.cons _

end Trimmed

theorem endsLine_replicate (k : Nat) : EndsLine (List.replicate k '\r') := by
  induction k with
  | zero => trivial
  | succ k ih => exact .inr ⟨rfl, ih⟩

theorem trimmed_joinLineEnds (s : List Char) : Trimmed s (joinLineEnds s) := by
  fun_induction joinLineEnds s with
  | case1 => exact .nil
  | case2 s ih => exact .drop (.inl rfl) (.keep _ ih)
  | case3 c s _ ih => exact .keep c ih

theorem trimmed_dropFinalReturns (s : List Char) : Trimmed s (dropFinalReturns s) := by
  obtain ⟨k, hk⟩ := exists_eq_append_dropFinalReturns s
  have hend : Trimmed (List.replicate k '\r') [] := by
    clear hk
    induction k with
    | zero => exact .nil
    | succ k ih => exact .drop (endsLine_replicate k) ih
  generalize dropFinalReturns s = front at hk ⊢
  subst hk
  induction front with
  | nil => exact hend
  | cons c front ih => exact .keep c ih

/-- Only carriage returns at the end of a line are taken out; every other character is kept, and so
    is every carriage return behind which no line ends. -/
theorem trimmed_withLineFeeds (s : List Char) : Trimmed s (withLineFeeds s) :=
  (trimmed_joinLineEnds s).trans (trimmed_dropFinalReturns _)

/-! ## Returns in a row -/

/-- Some carriage returns in a row in front of a line feed. -/
def stacked (k : Nat) : List Char := List.replicate k '\r' ++ ['\n']

theorem stacked_succ (k : Nat) : stacked (k + 1) = '\r' :: stacked k := rfl

/-- A line feed comes first once it was behind no more than one return. -/
theorem lineFeed_prefix_joinLineEnds :
    ['\n'] <+: joinLineEnds s ↔ ['\n'] <+: s ∨ ['\r', '\n'] <+: s := by
  unfold joinLineEnds
  split
  · simp
  · simp
  · next c s h =>
    simp only [List.cons_prefix_cons, List.nil_prefix, and_true]
    refine ⟨.inl, fun hs => hs.resolve_right ?_⟩
    rintro ⟨rfl, r, rfl⟩
    exact h r rfl rfl

/-- A pass takes one return from a row of them that comes first. -/
theorem stacked_prefix_joinLineEnds (k : Nat) (s : List Char) :
    stacked (k + 1) <+: joinLineEnds s ↔ stacked (k + 2) <+: s := by
  by_cases hpair : ['\r', '\n'] <+: s
  -- one return alone is taken out with nothing left of it
  · obtain ⟨r, rfl⟩ := hpair
    simp [joinLineEnds, stacked, List.replicate_succ]
  cases s with
  | nil => simp [joinLineEnds, stacked]
  | cons c s =>
    rw [joinLineEnds_cons hpair, stacked_succ, stacked_succ, List.cons_prefix_cons,
      List.cons_prefix_cons]
    refine and_congr_right ?_
    rintro rfl
    cases k with
    | zero =>
      have hfeed : ¬ ['\n'] <+: s := fun h => hpair (List.cons_prefix_cons.2 ⟨rfl, h⟩)
      exact lineFeed_prefix_joinLineEnds.trans (or_iff_right hfeed)
    | succ k => exact stacked_prefix_joinLineEnds k s

theorem stacked_infix_joinLineEnds (k : Nat) (s : List Char) :
    stacked (k + 1) <:+: joinLineEnds s ↔ stacked (k + 2) <:+: s := by
  fun_induction joinLineEnds s with
  | case1 => simp [stacked]
  | case2 s ih =>
    have hleft : ¬ stacked (k + 1) <+: '\n' :: joinLineEnds s := by simp [stacked_succ]
    have hright : ¬ stacked (k + 2) <+: '\r' :: '\n' :: s := by simp [stacked_succ]
    have hfeed : ¬ stacked (k + 2) <+: '\n' :: s := by simp [stacked_succ]
    simp only [List.infix_cons_iff, hleft, hright, hfeed, false_or, ih]
  | case3 c s h ih =>
    have hpair : ¬ ['\r', '\n'] <+: c :: s := by
      rintro ⟨r, hr⟩
      injection hr with hc hs
      exact h r hc.symm hs.symm
    rw [List.infix_cons_iff, ← joinLineEnds_cons hpair, stacked_prefix_joinLineEnds, ih,
      ← List.infix_cons_iff]

/-- A row in front of a line feed does not reach into the returns at the end. -/
theorem stacked_infix_append_replicate (k n : Nat) (s : List Char) :
    stacked k <:+: s ++ List.replicate n '\r' ↔ stacked k <:+: s := by
  induction n with
  | zero => rw [List.replicate_zero, List.append_nil]
  | succ n ih =>
    have hlast : ¬ stacked k <:+ (s ++ List.replicate n '\r') ++ ['\r'] := fun ⟨u, hu⟩ => by
      rw [stacked, ← List.append_assoc] at hu
      exact absurd (List.append_inj_right' hu rfl) (by decide)
    rw [List.replicate_succ', ← List.append_assoc, List.infix_concat_iff, or_iff_right hlast, ih]

theorem stacked_infix_dropFinalReturns (k : Nat) (s : List Char) :
    stacked k <:+: dropFinalReturns s ↔ stacked k <:+: s := by
  obtain ⟨n, hn⟩ := exists_eq_append_dropFinalReturns s
  conv_rhs => rw [hn]
  exact (stacked_infix_append_replicate k n _).symm

theorem stacked_infix_withLineFeeds (k : Nat) (s : List Char) :
    stacked (k + 1) <:+: withLineFeeds s ↔ stacked (k + 2) <:+: s :=
  (stacked_infix_dropFinalReturns _ _).trans (stacked_infix_joinLineEnds k s)

/-- Each pass takes one return from every row of them. -/
theorem stacked_infix_iterate (n k : Nat) (s : List Char) :
    stacked (k + 1) <:+: withLineFeeds^[n] s ↔ stacked (k + 1 + n) <:+: s := by
  induction n generalizing k with
  | zero => rfl
  | succ n ih =>
    rw [Function.iterate_succ_apply', stacked_infix_withLineFeeds, ih]
    exact iff_of_eq (congrArg (stacked · <:+: s) (by omega))

/-! ## Clean texts -/

/-- No line ends with a carriage return. -/
structure Clean (s : List Char) : Prop where
  lines : ¬ ['\r', '\n'] <:+: s
  last : s.getLast? ≠ some '\r'

/-- How many passes it takes until the text is clean. -/
theorem clean_iterate_iff (n : Nat) (s : List Char) :
    Clean (withLineFeeds^[n + 1] s) ↔ ¬ stacked (n + 2) <:+: s := by
  have hrows : ['\r', '\n'] <:+: withLineFeeds^[n + 1] s ↔ stacked (n + 2) <:+: s := by
    have h := stacked_infix_iterate (n + 1) 0 s
    rwa [show 0 + 1 + (n + 1) = n + 2 by omega] at h
  refine ⟨fun h => mt hrows.2 h.lines, fun h => ⟨mt hrows.1 h, ?_⟩⟩
  rw [Function.iterate_succ_apply']
  exact getLast?_withLineFeeds _

/-- A delivered text is clean unless two returns stood in front of a line feed. -/
theorem clean_withLineFeeds_iff (s : List Char) :
    Clean (withLineFeeds s) ↔ ¬ stacked 2 <:+: s := clean_iterate_iff 0 s

theorem joinLineEnds_eq_self (h : ¬ ['\r', '\n'] <:+: s) : joinLineEnds s = s := by
  induction s with
  | nil => rfl
  | cons c s ih =>
    rw [joinLineEnds_cons fun hpair => h hpair.isInfix, ih fun hpair => h (List.infix_cons hpair)]

/-- Clean texts are the ones that a pass leaves alone. -/
theorem withLineFeeds_eq_self_iff (s : List Char) : withLineFeeds s = s ↔ Clean s := by
  constructor
  · intro h
    refine ⟨fun hpair => ?_, h ▸ getLast?_withLineFeeds s⟩
    -- a row that no pass makes shorter would be longer than the text
    have hrow (n : Nat) : stacked (n + 1) <:+: s := by
      induction n with
      | zero => exact hpair
      | succ n ih => exact (stacked_infix_withLineFeeds n s).1 (h.symm ▸ ih)
    have hlength := (hrow s.length).length_le
    rw [stacked, List.length_append, List.length_replicate, List.length_singleton] at hlength
    omega
  · intro h
    have hjoin := joinLineEnds_eq_self h.lines
    have hlast : s.rdropWhile (· == '\r') = s := List.rdropWhile_eq_self_iff.2 fun hne hc =>
      h.last (by rw [List.getLast?_eq_some_getLast hne, beq_iff_eq.1 hc])
    rw [withLineFeeds, hjoin, dropFinalReturns_eq, hlast]

/-- A second pass does nothing exactly if the first one left a clean text. -/
theorem withLineFeeds_idem_iff (s : List Char) :
    withLineFeeds (withLineFeeds s) = withLineFeeds s ↔ ¬ stacked 2 <:+: s :=
  (withLineFeeds_eq_self_iff _).trans (clean_withLineFeeds_iff s)

/-- Of two returns in front of a line feed one is left, and a second pass takes it. -/
theorem withLineFeeds_doubled :
    withLineFeeds "a\r\r\nb".toList = "a\r\nb".toList ∧
      withLineFeeds "a\r\nb".toList = "a\nb".toList := by decide

/-- A response is delivered with clean lines unless two returns stood in front of a line feed of it;
    no response ends with a return. -/
theorem bodyOf_clean (bytes : List UInt8) :
    (Clean (Host.bodyOf bytes).toList ↔ ¬ stacked 2 <:+: Utf8.decode bytes) ∧
      (Host.bodyOf bytes).toList.getLast? ≠ some '\r' := by
  rw [Host.bodyOf, String.toList_ofList]
  exact ⟨clean_withLineFeeds_iff _, getLast?_withLineFeeds _⟩

end GhciHost.Output
