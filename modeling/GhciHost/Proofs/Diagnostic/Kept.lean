import Mathlib.Data.List.Forall2
import GhciHost.Diagnostic.Report

/-!
# What a report keeps

Each block of a compiler output is read as a diagnostic.  Of those that say the same the report
keeps the first, it leaves out all plain warnings if one warning was promoted, wherever that one
stands, and it offers what the first rule has to offer.

* `firstOfEach_distinct`, `mem_firstOfEach`, `firstOfEach_ordered`   the first of each identity;
* `FirstOffer`   the suggestions of the first rule that makes any;
* `Keeps`, `ofOutput_keeps`   what a report keeps, and that every report does.
-/

namespace GhciHost

/-- Members of a list that all can be taken to something are taken there one by one. -/
theorem forall₂_of_mapM {α β ε : Type} {f : α → Except ε β} {xs : List α} {ys : List β}
    (h : xs.mapM f = .ok ys) : List.Forall₂ (fun x y => f x = .ok y) xs ys := by
  induction xs generalizing ys with
  | nil =>
    cases h
    exact .nil
  | cons x xs ih =>
    rw [List.mapM_cons] at h
    cases hx : f x with
    | error e =>
      rw [hx] at h
      cases h
    | ok y =>
      rw [hx] at h
      cases hxs : xs.mapM f with
      | error e =>
        rw [hxs] at h
        cases h
      | ok zs =>
        rw [hxs] at h
        cases h
        exact .cons hx (ih hxs)

theorem exists_of_forall₂ {α β : Type} {R : α → β → Prop} {xs : List α} {ys : List β} {y : β}
    (h : List.Forall₂ R xs ys) (hy : y ∈ ys) : ∃ x ∈ xs, R x y := by
  induction h with
  | nil => cases hy
  | @cons a b as bs hab _ ih =>
    rcases List.mem_cons.1 hy with rfl | hy
    · exact ⟨a, List.mem_cons_self, hab⟩
    · obtain ⟨x, hx, hxy⟩ := ih hy
      exact ⟨x, List.mem_cons_of_mem _ hx, hxy⟩

namespace Diagnostic

variable {seen : List Identity} {ds : List Diagnostic}

/-! ## The first of each -/

theorem mem_firstOfEach {i : Identity} :
    i ∈ (firstOfEach seen ds).map identity ↔ i ∈ ds.map identity ∧ i ∉ seen := by
  induction ds generalizing seen with
  | nil => simp [firstOfEach]
  | cons d ds ih =>
    rw [firstOfEach]
    split
    · next hd =>
      rw [ih, List.map_cons, List.mem_cons]
      constructor
      · rintro ⟨hi, hs⟩
        exact ⟨.inr hi, hs⟩
      · rintro ⟨rfl | hi, hs⟩
        · exact absurd hd hs
        · exact ⟨hi, hs⟩
    · next hd =>
      rw [List.map_cons, List.mem_cons, ih, List.map_cons, List.mem_cons, List.mem_cons, not_or]
      constructor
      · rintro (rfl | ⟨hi, -, hs⟩)
        · exact ⟨.inl rfl, hd⟩
        · exact ⟨.inr hi, hs⟩
      · rintro ⟨rfl | hi, hs⟩
        · exact .inl rfl
        · exact or_iff_not_imp_left.2 fun hne => ⟨hi, hne, hs⟩

theorem mem_of_mem_firstOfEach {d : Diagnostic} (h : d ∈ firstOfEach seen ds) : d ∈ ds := by
  induction ds generalizing seen with
  | nil => cases h
  | cons x ds ih =>
    rw [firstOfEach] at h
    split at h
    · exact List.mem_cons_of_mem _ (ih h)
    · rcases List.mem_cons.1 h with rfl | h
      · exact List.mem_cons_self
      · exact List.mem_cons_of_mem _ (ih h)

theorem firstOfEach_distinct : ((firstOfEach seen ds).map identity).Nodup := by
  induction ds generalizing seen with
  | nil => exact List.nodup_nil
  | cons d ds ih =>
    rw [firstOfEach]
    split
    · exact ih
    · rw [List.map_cons, List.nodup_cons, mem_firstOfEach]
      exact ⟨fun h => h.2 List.mem_cons_self, ih⟩

/-- Where some diagnostics are left out by what they say, those that are left keep the order in
    which they are said first.  `before` is what was passed over already: all of it was said
    or is left out. -/
theorem firstOfEach_ordered (keep : Identity → Bool) (ds : List Diagnostic)
    {before : List Identity}
    (hbefore : ∀ i ∈ before, keep i = true → i ∈ seen) :
    ((firstOfEach seen (ds.filter fun d => keep d.identity)).map identity).Pairwise
      fun i j => (before ++ ds.map identity).idxOf i < (before ++ ds.map identity).idxOf j := by
  induction ds generalizing seen before with
  | nil => exact List.Pairwise.nil
  | cons d ds ih =>
    have happend : before ++ (d :: ds).map identity =
        (before ++ [d.identity]) ++ ds.map identity := by simp
    rw [happend, List.filter_cons]
    split
    · next hk =>
      rw [firstOfEach]
      split
      -- the same was said before
      · next hd =>
        refine ih fun i hi hki => ?_
        rcases List.mem_append.1 hi with hi | hi
        · exact hbefore i hi hki
        · exact List.mem_singleton.1 hi ▸ hd
      -- this is the first that says it, so nothing that follows was said before
      · next hd =>
        have hnew : d.identity ∉ before := fun h => hd (hbefore _ h hk)
        rw [List.map_cons, List.pairwise_cons]
        refine ⟨fun j hj => ?_, ih fun i hi hki => ?_⟩
        · obtain ⟨hj, hseen⟩ := mem_firstOfEach.1 hj
          obtain ⟨hne, hseen⟩ := not_or.1 (fun h => hseen (List.mem_cons.2 h))
          obtain ⟨x, hx, rfl⟩ := List.mem_map.1 hj
          have hkx : keep x.identity = true := by simpa using (List.mem_filter.1 hx).2
          have hx' : x.identity ∉ before ++ [d.identity] := by
            rw [List.mem_append, List.mem_singleton]
            exact not_or.2 ⟨fun h => hseen (hbefore _ h hkx), hne⟩
          rw [List.idxOf_append_of_mem (by simp), List.idxOf_append_of_notMem hx',
            List.idxOf_append_of_notMem hnew, List.idxOf_cons_self, List.length_append]
          simp only [List.length_cons, List.length_nil]
          omega
        · rcases List.mem_append.1 hi with hi | hi
          · exact List.mem_cons_of_mem _ (hbefore i hi hki)
          · exact List.mem_singleton.1 hi ▸ List.mem_cons_self
    · next hk =>
      refine ih fun i hi hki => ?_
      rcases List.mem_append.1 hi with hi | hi
      · exact hbefore i hi hki
      · rw [List.mem_singleton.1 hi] at hki
        exact absurd hki hk

/-! ## Masks -/

/-- Whether a diagnostic stays, by what it says, where a warning was promoted or was not. -/
def stays (masking : Bool) (i : Identity) : Bool := !masking || decide (i.severity ≠ .warning)

theorem withoutMasked_eq (parsed : List (Diagnostic × Bool)) :
    withoutMasked parsed =
      (parsed.map (·.1)).filter fun d => stays (parsed.any (·.2)) d.identity := by
  unfold withoutMasked
  cases parsed.any (·.2) with
  | true => rfl
  | false => exact (List.filter_eq_self.2 fun d _ => rfl).symm

/-! ## Suggestions -/

/-- The suggestions are those of the first of some rules that makes any, or none of them makes
    any. -/
def FirstOffer (supported : List String) (d : Diagnostic) (rules : List Fix.Kind)
    (ss : List Suggestion) : Prop :=
  (∃ before k after, rules = before ++ k :: after ∧
    (∀ j ∈ before, Suggestion.apply supported d j = .ok []) ∧
      Suggestion.apply supported d k = .ok ss ∧ ss ≠ []) ∨
  (∀ k ∈ rules, Suggestion.apply supported d k = .ok []) ∧ ss = []

theorem firstOf_spec {supported : List String} {d : Diagnostic} {ks : List Fix.Kind}
    {ss : List Suggestion} (h : Suggestion.firstOf supported d ks = .ok ss) :
    FirstOffer supported d ks ss := by
  induction ks with
  | nil =>
    cases h
    exact .inr ⟨fun _ hk => absurd hk List.not_mem_nil, rfl⟩
  | cons k ks ih =>
    rw [Suggestion.firstOf] at h
    split at h
    · cases h
    · next hk =>
      rcases ih h with ⟨before, k', after, rfl, hbefore, hk', hss⟩ | ⟨hnone, hss⟩
      · exact .inl ⟨k :: before, k', after, rfl, List.forall_mem_cons.2 ⟨hk, hbefore⟩, hk', hss⟩
      · exact .inr ⟨List.forall_mem_cons.2 ⟨hk, hnone⟩, hss⟩
    · next ss' hne hk =>
      cases h
      exact .inl ⟨[], k, ks, rfl, fun _ hj => absurd hj List.not_mem_nil, hk, hne⟩

/-- No rule looks at the suggestions that a diagnostic has already. -/
theorem apply_withSuggestions (supported : List String) (d : Diagnostic) (ss : List Suggestion)
    (k : Fix.Kind) :
    Suggestion.apply supported { d with suggestions := ss } k = Suggestion.apply supported d k := by
  cases k <;> rfl

/-- A diagnostic keeps all that it says, and a splice is left as it is. -/
theorem withSuggestions_eq {supported : List String} {d d' : Diagnostic}
    (h : withSuggestions supported d = .ok d') :
    ∃ ss, d' = { d with suggestions := ss } ∧
      if d.severity = .splice then ss = d.suggestions
      else Suggestion.suggestionsOf supported d = .ok ss := by
  unfold withSuggestions at h
  split at h
  · next hs =>
    cases h
    exact ⟨d.suggestions, rfl, by rw [if_pos hs]⟩
  · next hs =>
    cases hss : Suggestion.suggestionsOf supported d with
    | error e =>
      rw [hss] at h
      cases h
    | ok ss =>
      rw [hss] at h
      cases h
      exact ⟨ss, rfl, by rw [if_neg hs]⟩

theorem identity_withSuggestions {supported : List String} {d d' : Diagnostic}
    (h : withSuggestions supported d = .ok d') : d'.identity = d.identity := by
  obtain ⟨ss, rfl, -⟩ := withSuggestions_eq h
  rfl

/-- A diagnostic that is no splice is offered what the first rule has to offer. -/
theorem withSuggestions_offer {supported : List String} {d d' : Diagnostic}
    (h : withSuggestions supported d = .ok d') (hs : d'.severity ≠ .splice) :
    FirstOffer supported d' Suggestion.rules d'.suggestions := by
  obtain ⟨ss, rfl, hss⟩ := withSuggestions_eq h
  rw [if_neg hs] at hss
  simp only [FirstOffer, apply_withSuggestions]
  exact firstOf_spec hss

/-! ## Reports -/

/-- The block is a warning that exists only because an error was deferred. -/
def Block.Promoted (b : Block) : Prop :=
  startsWithAnyCase "warning:".toList (messageOf b) = true ∧
    isPromoted (Text.trimLeft ((messageOf b).drop "warning:".length)) = true

theorem classify_promoted (b : Block) : (classify (messageOf b)).2.2 = true ↔ b.Promoted := by
  unfold classify Block.Promoted
  by_cases hw : startsWithAnyCase "warning:".toList (messageOf b) = true
  · rw [if_pos hw]
    dsimp only
    split
    · next hp => exact ⟨fun _ => ⟨hw, hp⟩, fun _ => rfl⟩
    · next hp => exact ⟨fun h => absurd h Bool.false_ne_true, fun h => absurd h.2 hp⟩
  · rw [if_neg hw]
    have hno (h : (false : Bool) = true) : False := Bool.false_ne_true h
    split
    · exact ⟨fun h => (hno h).elim, fun h => absurd h.1 hw⟩
    · split <;> exact ⟨fun h => (hno h).elim, fun h => absurd h.1 hw⟩

/-- What is known of the diagnostic of a block besides its place and its text. -/
theorem ofBlock_spec {staging : Staging} {b : Block} {p : Diagnostic × Bool}
    (h : ofBlock staging b = .ok p) : p.1.suggestions = [] ∧ (p.2 = true ↔ b.Promoted) := by
  unfold ofBlock at h
  cases hplace : b.header.place.read with
  | error e =>
    rw [hplace] at h
    cases h
  | ok place =>
    rw [hplace] at h
    obtain rfl := Except.ok.inj h
    exact ⟨rfl, classify_promoted b⟩

/-- What the report keeps of the diagnostics of its blocks, in order, where it is known whether
    one of the blocks is a promoted warning. -/
structure Keeps (supported : List String) (promoted : Prop) (parsed kept : List Diagnostic) :
    Prop where
  /-- No two say the same. -/
  distinct : (kept.map identity).Nodup
  /-- Each says what some block says. -/
  occurs : ∀ i ∈ kept.map identity, i ∈ parsed.map identity
  /-- They stand in the order in which the blocks say them first. -/
  ordered : (kept.map identity).Pairwise fun i j =>
    (parsed.map identity).idxOf i < (parsed.map identity).idxOf j
  /-- What is no warning stays. -/
  severe : ∀ i ∈ parsed.map identity, i.severity ≠ .warning → i ∈ kept.map identity
  /-- Warnings stay where none was promoted. -/
  plain : ¬ promoted →
    ∀ i ∈ parsed.map identity, i.severity = .warning → i ∈ kept.map identity
  /-- Where one was promoted no warning stays. -/
  masked : promoted → ∀ d ∈ kept, d.severity ≠ .warning
  /-- Nothing is offered for a splice. -/
  splice : ∀ d ∈ kept, d.severity = .splice → d.suggestions = []
  /-- For all else the first rule that has something to offer does. -/
  offered : ∀ d ∈ kept, d.severity ≠ .splice → FirstOffer supported d Suggestion.rules d.suggestions

section

variable {staging : Staging} {supported : List String} {text : String} {kept : List Diagnostic}
  {parsed : List (Diagnostic × Bool)} {bs : List Block}

/-- The diagnostics of a report are those that stay, the first of each, with suggestions. -/
theorem ofOutput_eq_ok (h : ofOutput staging supported text = .ok kept) :
    ∃ parsed, List.Forall₂ (fun b p => ofBlock staging b = .ok p) (blocks text.toList) parsed ∧
      List.Forall₂ (fun d d' => withSuggestions supported d = .ok d')
        (firstOfEach [] (withoutMasked parsed)) kept := by
  unfold ofOutput at h
  cases hp : (blocks text.toList).mapM (ofBlock staging) with
  | error e =>
    rw [hp] at h
    cases h
  | ok parsed =>
    rw [hp] at h
    have hkept : (firstOfEach [] (withoutMasked parsed)).mapM (withSuggestions supported) =
      .ok kept := h
    exact ⟨parsed, forall₂_of_mapM hp, forall₂_of_mapM hkept⟩

theorem identities_of_forall₂ {ds : List Diagnostic}
    (h : List.Forall₂ (fun d d' => withSuggestions supported d = .ok d') ds kept) :
    kept.map identity = ds.map identity := by
  induction h with
  | nil => rfl
  | cons hd _ ih => rw [List.map_cons, List.map_cons, identity_withSuggestions hd, ih]

/-- A warning was promoted if a block is one. -/
theorem any_promoted (h : List.Forall₂ (fun b p => ofBlock staging b = .ok p) bs parsed) :
    parsed.any (·.2) = true ↔ ∃ b ∈ bs, b.Promoted := by
  induction h with
  | nil => simp
  | cons hb _ ih =>
    rw [List.any_cons, Bool.or_eq_true, (ofBlock_spec hb).2, ih, List.exists_mem_cons_iff]

/-- What is said in a report is said by a block, and is not masked. -/
theorem mem_identities {i : Identity} :
    i ∈ (firstOfEach [] (withoutMasked parsed)).map identity ↔
      i ∈ (parsed.map (·.1)).map identity ∧ stays (parsed.any (·.2)) i = true := by
  rw [mem_firstOfEach, withoutMasked_eq]
  simp only [List.mem_map (f := identity), List.mem_filter, List.not_mem_nil, not_false_eq_true,
    and_true]
  constructor
  · rintro ⟨d, ⟨hd, hs⟩, rfl⟩
    exact ⟨⟨d, hd, rfl⟩, hs⟩
  · rintro ⟨⟨d, hd, rfl⟩, hs⟩
    exact ⟨d, ⟨hd, hs⟩, rfl⟩

theorem identities_ordered :
    ((firstOfEach [] (withoutMasked parsed)).map identity).Pairwise fun i j =>
      ((parsed.map (·.1)).map identity).idxOf i < ((parsed.map (·.1)).map identity).idxOf j := by
  have h := firstOfEach_ordered (stays (parsed.any (·.2))) (parsed.map (·.1))
    (List.forall_mem_nil fun i => _ → i ∈ [])
  rwa [List.nil_append, ← withoutMasked_eq] at h

/-- A diagnostic of a report is that of a block, but for its suggestions. -/
theorem withSuggestions_of_mem
    (hparsed : List.Forall₂ (fun b p => ofBlock staging b = .ok p) bs parsed)
    (hkept : List.Forall₂ (fun d d' => withSuggestions supported d = .ok d')
      (firstOfEach [] (withoutMasked parsed)) kept) {d : Diagnostic} (hd : d ∈ kept) :
    withSuggestions supported { d with suggestions := [] } = .ok d := by
  obtain ⟨d₀, hd₀, e⟩ := exists_of_forall₂ hkept hd
  have hmem := mem_of_mem_firstOfEach hd₀
  rw [withoutMasked_eq] at hmem
  obtain ⟨p, hp, rfl⟩ := List.mem_map.1 (List.mem_filter.1 hmem).1
  obtain ⟨b, -, hb⟩ := exists_of_forall₂ hparsed hp
  have hbare : { p.1 with suggestions := [] } = p.1 := by rw [← (ofBlock_spec hb).1]
  obtain ⟨ss, rfl, -⟩ := withSuggestions_eq e
  exact (congrArg _ hbare).trans e

/-- A report that could be read keeps of the diagnostics of its blocks just what it should. -/
theorem ofOutput_keeps (h : ofOutput staging supported text = .ok kept) :
    ∃ parsed, List.Forall₂ (fun b d => ∃ promoted, ofBlock staging b = .ok (d, promoted))
        (blocks text.toList) parsed ∧
      Keeps supported (∃ b ∈ blocks text.toList, b.Promoted) parsed kept := by
  obtain ⟨parsed, hparsed, hkept⟩ := ofOutput_eq_ok h
  have hids := identities_of_forall₂ hkept
  have hmem (i : Identity) : i ∈ kept.map identity ↔
      i ∈ (parsed.map (·.1)).map identity ∧ stays (parsed.any (·.2)) i = true := by
    rw [hids]
    exact mem_identities
  refine ⟨parsed.map (·.1), ?_, ?_⟩
  · rw [List.forall₂_map_right_iff]
    exact hparsed.imp fun _ p hp => ⟨p.2, hp⟩
  rw [← any_promoted hparsed]
  exact {
    distinct := hids ▸ firstOfEach_distinct
    occurs := fun i hi => ((hmem i).1 hi).1
    ordered := hids ▸ identities_ordered
    severe := fun i hi hs => (hmem i).2 ⟨hi, by simp [stays, hs]⟩
    plain := fun hno i hi _ => (hmem i).2 ⟨hi, by simp [stays, hno]⟩
    masked := fun hyes d hd hs => by
      have hstays := ((hmem d.identity).1 (List.mem_map_of_mem hd)).2
      rw [hyes] at hstays
      simp [stays, identity, hs] at hstays
    splice := fun d hd hs => by
      obtain ⟨ss, e, hss⟩ := withSuggestions_eq (withSuggestions_of_mem hparsed hkept hd)
      rw [if_pos hs] at hss
      rw [e, hss]
    offered := fun d hd hs =>
      withSuggestions_offer (withSuggestions_of_mem hparsed hkept hd) hs }

/-- Of a warning, a splice told of a scratch file and of the source file that it stands for, and a
    promoted warning at the end, the report keeps one splice and the promoted warning, for which
    the second rule has an offer. -/
theorem ofOutput_keeps_masked :
    let text := "a:1:2: warning: w\ns:1:2-3: Splicing t\na:1:2-3: Splicing t\n" ++
      "b:1:2: warning: [-Wtyped-holes]\n  The import of ‘M’ is redundant"
    let report : List Diagnostic :=
      [⟨.splice, "a", 1, 2, 1, 3, "Splicing t", []⟩,
        ⟨.error, "b", 1, 2, 1, 2, "[-Wtyped-holes]\nThe import of ‘M’ is redundant",
          [⟨⟨⟨1, 2, 1, 2⟩, "b"⟩, .removeImportItem "M" [] false⟩]⟩]
    ofOutput [("s", "a")] [] text = .ok report ∧
      ∃ parsed, List.Forall₂ (fun b d => ∃ promoted, ofBlock [("s", "a")] b = .ok (d, promoted))
          (blocks text.toList) parsed ∧
        Keeps [] (∃ b ∈ blocks text.toList, b.Promoted) parsed report := by
  intro text report
  have h : ofOutput [("s", "a")] [] text = .ok report := by decide +kernel
  exact ⟨h, ofOutput_keeps h⟩

end

end Diagnostic

end GhciHost
