import Mathlib.Data.List.Induction
import Mathlib.Data.List.Infix
import GhciHost.Proofs.Text.Squeezed
import GhciHost.Suggestion.Section

/-!
# Brackets and commas

A text is cut at the commas outside all brackets.  Nothing but these commas and blanks is lost, so the
items are balanced exactly if the text is, and items that are joined by commas are found again.  Blanks
neither open nor close anything, so a text can be squeezed before it is cut or after.

* `depth`, `Balanced`, `Whole`   brackets, and commas outside them;
* `cut_induction`   a text is cut at its first comma outside brackets, and so on;
* `of_mem_topLevelItems`, `forall_balanced_topLevelItems`   the items of a balanced text, and of any;
* `topLevelItems_intercalate`   items that are joined by commas;
* `topLevelItems_squeeze`   the items of a squeezed text;
* `topLevelItems_listed`   cutting undoes listing, and what is cut can be listed.
-/

namespace GhciHost.Suggestion

open Text Diagnostic

variable {c : Char} {n : Int} {s t x p : List Char}

/-! ## Depth -/

/-- `1` for a bracket that opens, `-1` for one that closes, `0` for what is no bracket. -/
def bracket (c : Char) : Int :=
  if c = '(' ∨ c = '[' then 1 else if c = ')' ∨ c = ']' then -1 else 0

/-- Brackets that open minus brackets that close. -/
def depth : List Char → Int
  | [] => 0
  | c :: s => bracket c + depth s

@[simp] theorem depth_nil : depth [] = 0 := rfl

@[simp] theorem depth_cons (c : Char) (s : List Char) : depth (c :: s) = bracket c + depth s := rfl

@[simp] theorem depth_append (s t : List Char) : depth (s ++ t) = depth s + depth t := by
  induction s with
  | nil => rw [List.nil_append, depth_nil, Int.zero_add]
  | cons c s ih => rw [List.cons_append, depth_cons, ih, depth_cons, Int.add_assoc]

@[simp] theorem bracket_comma : bracket ',' = 0 := rfl

/-- Brackets of both kinds together: nowhere are more closed than were opened, and none stays open. -/
structure Balanced (s : List Char) : Prop where
  nonneg : ∀ p, p <+: s → 0 ≤ depth p
  closed : depth s = 0

/-- No comma stands outside all brackets. -/
def Whole (s : List Char) : Prop := ∀ p, p ++ [','] <+: s → depth p ≠ 0

instance (s : List Char) : Decidable (Balanced s) :=
  decidable_of_iff ((∀ p ∈ s.inits, 0 ≤ depth p) ∧ depth s = 0)
    ⟨fun h => ⟨fun p hp => h.1 p ((List.mem_inits p s).2 hp), h.2⟩,
      fun h => ⟨fun p hp => h.nonneg p ((List.mem_inits p s).1 hp), h.closed⟩⟩

instance (s : List Char) : Decidable (Whole s) :=
  decidable_of_iff (∀ p ∈ s.inits, p ++ [','] ∈ s.inits → depth p ≠ 0)
    ⟨fun h p hp => h p ((List.mem_inits p s).2 ((List.prefix_append p [',']).trans hp))
      ((List.mem_inits _ s).2 hp), fun h p _ hp => h p ((List.mem_inits _ s).1 hp)⟩

theorem depth_of_no_brackets (h : ∀ c ∈ s, bracket c = 0) : depth s = 0 := by
  induction s with
  | nil => rfl
  | cons c s ih =>
    obtain ⟨hc, hs⟩ := List.forall_mem_cons.1 h
    rw [depth_cons, hc, ih hs, Int.zero_add]

theorem balanced_of_no_brackets (h : ∀ c ∈ s, bracket c = 0) : Balanced s where
  nonneg _ hp := Int.le_of_eq (depth_of_no_brackets fun c hc => h c (hp.subset hc)).symm
  closed := depth_of_no_brackets h

theorem whole_of_not_mem (h : ',' ∉ s) : Whole s := fun p hp =>
  absurd (hp.subset (List.mem_append_right p List.mem_cons_self)) h

/-- Two balanced texts are balanced with a comma between them, and only they are. -/
theorem balanced_append_comma (hs : depth s = 0) :
    Balanced (s ++ ',' :: t) ↔ Balanced s ∧ Balanced t := by
  have hbehind (p : List Char) : depth (s ++ ',' :: p) = depth p := by
    rw [depth_append, hs, depth_cons, bracket_comma, Int.zero_add, Int.zero_add]
  constructor
  · intro h
    refine ⟨⟨fun p hp => h.nonneg p (hp.trans (List.prefix_append _ _)), hs⟩, fun p hp => ?_, ?_⟩
    · rw [← hbehind]
      exact h.nonneg _ ((List.prefix_append_right_inj s).2 ((List.prefix_cons_inj ',').2 hp))
    · rw [← hbehind, h.closed]
  · rintro ⟨h, ht⟩
    refine ⟨fun p hp => ?_, by rw [hbehind, ht.closed]⟩
    rcases List.prefix_or_prefix_of_prefix hp (List.prefix_append s (',' :: t)) with
      hp | ⟨q, rfl⟩
    · exact h.nonneg p hp
    · cases q with
      | nil => simp [hs]
      | cons c q =>
        obtain ⟨rfl, hq⟩ := List.cons_prefix_cons.1 ((List.prefix_append_right_inj s).1 hp)
        rw [hbehind]
        exact ht.nonneg q hq

/-! ## Blanks -/

/-- The characters of a text that are not blank. -/
def inked (s : List Char) : List Char := s.filter (!isBlank ·)

theorem bracket_of_isBlank (h : isBlank c = true) : bracket c = 0 := by
  have hne {d : Char} (hd : isBlank d = false) : c ≠ d := fun e => by
    rw [e, hd] at h
    cases h
  simp [bracket, hne (d := '(') (by decide), hne (d := '[') (by decide), hne (d := ')') (by decide),
    hne (d := ']') (by decide)]

theorem depth_inked (s : List Char) : depth (inked s) = depth s := by
  induction s with
  | nil => rfl
  | cons c s ih =>
    rw [inked, List.filter_cons, ← inked]
    split
    · rw [depth_cons, depth_cons, ih]
    · next h => rw [depth_cons, ih, bracket_of_isBlank (by simpa using h), Int.zero_add]

theorem balanced_inked : Balanced (inked s) ↔ Balanced s := by
  constructor
  · intro h
    refine ⟨fun p hp => ?_, by rw [← depth_inked, h.closed]⟩
    rw [← depth_inked]
    exact h.nonneg _ (hp.filter _)
  · intro h
    refine ⟨fun p hp => ?_, by rw [depth_inked, h.closed]⟩
    obtain ⟨q, hq, rfl⟩ := List.prefix_filter_iff.1 hp
    exact (depth_inked q).symm ▸ h.nonneg q hq

theorem whole_inked : Whole (inked s) ↔ Whole s := by
  constructor
  · intro h p hp
    rw [← depth_inked]
    refine h (inked p) ?_
    have hfilter := hp.filter (!isBlank ·)
    rwa [List.filter_append] at hfilter
  · intro h p hp
    obtain ⟨q, hq, heq⟩ := List.prefix_filter_iff.1 hp
    -- the comma comes from one in the text, with blanks in front
    obtain ⟨q₁, q₂, rfl, rfl, hcomma⟩ := List.filter_eq_append_iff.1 heq.symm
    obtain ⟨g, g', rfl, hg, -⟩ := List.filter_eq_cons_iff.1 hcomma
    have hg : inked g = [] := List.filter_eq_nil_iff.2 hg
    have hprefix : (q₁ ++ g) ++ [','] <+: s := by
      refine List.IsPrefix.trans ⟨g', ?_⟩ hq
      simp
    have hdepth := h _ hprefix
    rw [depth_append, ← depth_inked g, hg, depth_nil, Int.add_zero] at hdepth
    exact (depth_inked q₁).symm ▸ hdepth

theorem inked_append (s t : List Char) : inked (s ++ t) = inked s ++ inked t := List.filter_append ..

theorem inked_padded (h : Padded x s) : inked s = inked x := by
  obtain ⟨g, g', hg, hg', rfl⟩ := h
  have hblank {g : List Char} (hg : ∀ c ∈ g, isBlank c = true) : inked g = [] :=
    List.filter_eq_nil_iff.2 fun c hc => by simp [hg c hc]
  rw [inked_append, inked_append, hblank hg, hblank hg', List.nil_append, List.append_nil]

theorem inked_squeeze (s : List Char) : inked (squeeze s) = inked s := by
  have hjoin (ws : List (List Char)) : inked (List.intercalate [' '] ws) = inked ws.flatten := by
    induction ws with
    | nil => rfl
    | cons w ws ih =>
      cases ws with
      | nil => rw [List.intercalate_singleton, List.flatten_singleton]
      | cons v ws =>
        rw [List.intercalate_cons_cons, inked_append, inked_append, ih, ← inked_append,
          ← inked_append, List.append_assoc]
        rw [List.flatten_cons (l := w), inked_append, inked_append, inked_append]
        rfl
  rw [squeeze, hjoin, flatten_words, inked, inked, List.filter_filter]
  simp

theorem depth_padded (h : Padded x s) : depth s = depth x := by
  rw [← depth_inked, inked_padded h, depth_inked]

theorem depth_squeeze (s : List Char) : depth (squeeze s) = depth s := by
  rw [← depth_inked, inked_squeeze, depth_inked]

theorem balanced_padded (h : Padded x s) : Balanced s ↔ Balanced x := by
  rw [← balanced_inked, inked_padded h, balanced_inked]

theorem balanced_squeeze : Balanced (squeeze s) ↔ Balanced s := by
  rw [← balanced_inked, inked_squeeze, balanced_inked]

theorem whole_padded (h : Padded x s) : Whole s ↔ Whole x := by
  rw [← whole_inked, inked_padded h, whole_inked]

theorem whole_squeeze : Whole (squeeze s) ↔ Whole s := by
  rw [← whole_inked, inked_squeeze, whole_inked]

/-! ## Cuts -/

/-- A text is cut at its first comma outside brackets, and what stands behind it is cut in turn. -/
@[elab_as_elim]
theorem cut_induction {motive : List Char → Prop} (whole : ∀ s, Whole s → motive s)
    (comma : ∀ p t, Whole p → depth p = 0 → motive t → motive (p ++ ',' :: t)) (s : List Char) :
    motive s := by
  have hcut : Whole s ∨ ∃ p t, s = p ++ ',' :: t ∧ Whole p ∧ depth p = 0 := by
    induction s using List.reverseRecOn with
    | nil => exact .inl (whole_of_not_mem List.not_mem_nil)
    | append_singleton s c ih =>
      rcases ih with hs | ⟨p, t, rfl, hp, hdepth⟩
      · by_cases hc : c = ',' ∧ depth s = 0
        · exact .inr ⟨s, [], by rw [hc.1], hs, hc.2⟩
        · refine .inl fun p hp => ?_
          rcases List.prefix_concat_iff.1 hp with heq | hp
          · obtain ⟨rfl, hcomma⟩ := List.append_inj' heq rfl
            exact fun h => hc ⟨(List.singleton_inj.1 hcomma).symm, h⟩
          · exact hs p hp
      · exact .inr ⟨p, t ++ [c], by simp, hp, hdepth⟩
  rcases hcut with hs | ⟨p, t, rfl, hp, hdepth⟩
  · exact whole s hs
  · have hlength : t.length < (p ++ ',' :: t).length := by
      rw [List.length_append, List.length_cons]
      omega
    exact comma p t hp hdepth (cut_induction whole comma t)
termination_by s.length

theorem topLevelPieces_cons (h : c = ',' → n ≠ 0) (item s : List Char) :
    topLevelPieces n item (c :: s) = topLevelPieces (n + bracket c) (c :: item) s := by
  have hdepth : (if c = '(' ∨ c = '[' then n + 1 else if c = ')' ∨ c = ']' then n - 1 else n) =
      n + bracket c := by
    unfold bracket
    split_ifs <;> omega
  have hcut : ¬ (c = ',' ∧ n + bracket c = 0) := by
    rintro ⟨rfl, hn⟩
    exact h rfl (by simpa using hn)
  rw [topLevelPieces]
  simp only [hdepth]
  rw [if_neg hcut]

/-- What holds no comma to cut at goes on with the piece that is open. -/
theorem topLevelPieces_append (hx : ∀ p, p ++ [','] <+: x → n + depth p ≠ 0) (item t : List Char) :
    topLevelPieces n item (x ++ t) = topLevelPieces (n + depth x) (x.reverse ++ item) t := by
  induction x generalizing n item with
  | nil => rw [depth_nil, Int.add_zero]; rfl
  | cons c x ih =>
    have hc : c = ',' → n ≠ 0 := by
      rintro rfl
      simpa using hx [] ⟨x, rfl⟩
    have hrest : ∀ p, p ++ [','] <+: x → n + bracket c + depth p ≠ 0 := fun p hp => by
      simpa [Int.add_assoc] using hx (c :: p) ((List.prefix_cons_inj c).2 hp)
    rw [List.cons_append, topLevelPieces_cons hc, ih hrest, depth_cons, Int.add_assoc,
      List.reverse_cons, List.append_assoc]
    rfl

theorem topLevelPieces_whole (hs : Whole s) (t : List Char) :
    topLevelPieces 0 [] (s ++ t) = topLevelPieces (depth s) s.reverse t := by
  have h := topLevelPieces_append (n := 0) (fun p hp => by simpa using hs p hp) [] t
  rwa [Int.zero_add, List.append_nil] at h

/-! ## Items -/

/-- A text without commas to cut at is one item, if it is not blank. -/
theorem topLevelItems_whole (hs : Whole s) : topLevelItems s = [trim s].filter (!·.isEmpty) := by
  have h := topLevelPieces_whole hs []
  rw [List.append_nil, topLevelPieces, List.reverse_reverse] at h
  rw [topLevelItems, h]
  rfl

/-- What stands before a comma outside brackets is cut on its own. -/
theorem topLevelItems_comma (hp : Whole p) (hdepth : depth p = 0) (t : List Char) :
    topLevelItems (p ++ ',' :: t) = topLevelItems p ++ topLevelItems t := by
  have h : topLevelPieces 0 [] (p ++ ',' :: t) = p :: topLevelPieces 0 [] t := by
    rw [topLevelPieces_whole hp, hdepth, topLevelPieces, List.reverse_reverse]
    rfl
  rw [topLevelItems_whole hp, topLevelItems, h, List.map_cons, ← List.singleton_append,
    List.filter_append, topLevelItems]

theorem mem_topLevelItems_whole (hs : Whole s) : x ∈ topLevelItems s ↔ x = trim s ∧ x ≠ [] := by
  rw [topLevelItems_whole hs, List.mem_filter, List.mem_singleton, Bool.not_eq_true',
    List.isEmpty_eq_false_iff]

/-- No blanks stand around an item. -/
theorem trim_of_mem_topLevelItems (hx : x ∈ topLevelItems s) : trim x = x := by
  obtain ⟨p, -, rfl⟩ := List.mem_map.1 (List.mem_of_mem_filter hx)
  exact (padded_trim p).trim_eq.symm

/-- The items of a balanced text are not empty, balanced, and hold no comma outside brackets. -/
theorem of_mem_topLevelItems (hs : Balanced s) (hx : x ∈ topLevelItems s) :
    x ≠ [] ∧ Balanced x ∧ Whole x := by
  have hwhole {s : List Char} (hwhole : Whole s) (hs : Balanced s) (hx : x ∈ topLevelItems s) :
      x ≠ [] ∧ Balanced x ∧ Whole x := by
    obtain ⟨rfl, hne⟩ := (mem_topLevelItems_whole hwhole).1 hx
    exact ⟨hne, (balanced_padded (padded_trim s)).1 hs, (whole_padded (padded_trim s)).1 hwhole⟩
  induction s using cut_induction with
  | whole s h => exact hwhole h hs hx
  | comma p t hp hdepth ih =>
    obtain ⟨hbalanced, ht⟩ := (balanced_append_comma hdepth).1 hs
    rw [topLevelItems_comma hp hdepth] at hx
    rcases List.mem_append.1 hx with hx | hx
    · exact hwhole hp hbalanced hx
    · exact ih ht hx

/-- The items of a text are balanced exactly if the text is. -/
theorem forall_balanced_topLevelItems : (∀ x ∈ topLevelItems s, Balanced x) ↔ Balanced s := by
  refine ⟨fun h => ?_, fun hs x hx => (of_mem_topLevelItems hs hx).2.1⟩
  have hwhole {s : List Char} (hwhole : Whole s) (h : ∀ x ∈ topLevelItems s, Balanced x) :
      Balanced s := by
    rw [balanced_padded (padded_trim s)]
    by_cases hne : trim s = []
    · rw [hne]
      exact balanced_of_no_brackets (List.forall_mem_nil _)
    · exact h _ ((mem_topLevelItems_whole hwhole).2 ⟨rfl, hne⟩)
  induction s using cut_induction with
  | whole s hs => exact hwhole hs h
  | comma p t hp hdepth ih =>
    rw [topLevelItems_comma hp hdepth, List.forall_mem_append] at h
    exact (balanced_append_comma hdepth).2 ⟨hwhole hp h.1, ih h.2⟩

/-- A text that can stand between commas as an item. -/
structure IsItem (x : List Char) : Prop where
  starts : Starts x
  ends : Ends x
  closed : depth x = 0
  whole : Whole x

instance (x : List Char) : Decidable (IsItem x) :=
  decidable_of_iff (Starts x ∧ Ends x ∧ depth x = 0 ∧ Whole x)
    ⟨fun ⟨hs, he, hc, hw⟩ => ⟨hs, he, hc, hw⟩, fun h => ⟨h.starts, h.ends, h.closed, h.whole⟩⟩

theorem IsItem.ne_nil (hx : IsItem x) : x ≠ [] := by
  rintro rfl
  obtain ⟨c, hc, -⟩ := hx.starts
  cases hc

theorem IsItem.topLevelItems_eq (hx : IsItem x) (hp : Padded x p) : topLevelItems p = [x] := by
  rw [topLevelItems_whole ((whole_padded hp).2 hx.whole), hp.trim_eq,
    trim_of_starts_ends hx.starts hx.ends]
  simp [hx.ne_nil]

/-- Items that are joined by commas, with any blanks around them, are found again. -/
theorem topLevelItems_intercalate {items ps : List (List Char)} (h : List.Forall₂ Padded items ps)
    (hitems : ∀ x ∈ items, IsItem x) : topLevelItems (List.intercalate [','] ps) = items := by
  induction h with
  | nil => rfl
  | @cons x p items ps hp hps ih =>
    obtain ⟨hx, hitems⟩ := List.forall_mem_cons.1 hitems
    cases hps with
    | nil => rw [List.intercalate_singleton, hx.topLevelItems_eq hp]
    | cons _ _ =>
      have hdepth : depth p = 0 := by rw [depth_padded hp, hx.closed]
      rw [List.intercalate_cons_cons, List.append_assoc, List.singleton_append,
        topLevelItems_comma ((whole_padded hp).2 hx.whole) hdepth, hx.topLevelItems_eq hp,
        ih hitems, List.singleton_append]

/-- Blanks around a text are no part of its items. -/
theorem topLevelItems_padded (h : Padded s t) : topLevelItems t = topLevelItems s := by
  have hwhole {s t : List Char} (hs : Whole s) (h : Padded s t) :
      topLevelItems t = topLevelItems s := by
    rw [topLevelItems_whole ((whole_padded h).2 hs), topLevelItems_whole hs, h.trim_eq]
  induction s using cut_induction generalizing t with
  | whole s hs => exact hwhole hs h
  | comma p r hp hdepth ih =>
    obtain ⟨g, g', hg, hg', rfl⟩ := h
    have hfront : Padded p (g ++ p) := ⟨g, [], hg, List.forall_mem_nil _, by rw [List.append_nil]⟩
    have hbehind : Padded r (r ++ g') := ⟨[], g', List.forall_mem_nil _, hg', rfl⟩
    have hdepth' : depth (g ++ p) = 0 := by rw [depth_padded hfront, hdepth]
    have heq : g ++ (p ++ ',' :: r ++ g') = (g ++ p) ++ ',' :: (r ++ g') := by simp
    rw [heq, topLevelItems_comma ((whole_padded hfront).2 hp) hdepth', hwhole hp hfront, ih hbehind,
      topLevelItems_comma hp hdepth]

/-- A text can be squeezed before it is cut, or each of its items after. -/
theorem topLevelItems_squeeze (s : List Char) :
    topLevelItems (squeeze s) = (topLevelItems s).map squeeze := by
  have hwhole {s p : List Char} (hs : Whole s) (hp : Padded (squeeze s) p) :
      topLevelItems p = (topLevelItems s).map squeeze := by
    rw [topLevelItems_whole ((whole_padded hp).2 (whole_squeeze.2 hs)), topLevelItems_whole hs,
      hp.trim_eq, trim_squeeze]
    by_cases hne : words s = []
    · simp [squeeze_eq_nil.2 hne, trim_eq_nil.2 hne]
    · have hsqueeze : squeeze s ≠ [] := fun h => hne (squeeze_eq_nil.1 h)
      have htrim : trim s ≠ [] := fun h => hne (trim_eq_nil.1 h)
      simp [hsqueeze, htrim, ← squeeze_padded (padded_trim s)]
  induction s using cut_induction with
  | whole s hs => exact hwhole hs (.refl _)
  | comma p t hp hdepth ih =>
    obtain ⟨lead, hpadded, hlead⟩ := squeeze_append (t := ',' :: t) (starts_cons.2 (by decide)) p
    have hleadWhole : Whole lead := (whole_padded hpadded).2 (whole_squeeze.2 hp)
    have hleadDepth : depth lead = 0 := by rw [depth_padded hpadded, depth_squeeze, hdepth]
    have htail : ∃ u, squeeze (',' :: t) = ',' :: u ∧ topLevelItems u = topLevelItems (squeeze t) := by
      rcases squeeze_cons_gap (c := ',') (by decide) t with h | h
      · exact ⟨_, h, rfl⟩
      · exact ⟨_, h, topLevelItems_padded ((Padded.refl _).cons (by decide))⟩
    obtain ⟨u, hu, hitems⟩ := htail
    rw [hlead, hu, topLevelItems_comma hleadWhole hleadDepth, hitems, ih, topLevelItems_comma hp hdepth,
      List.map_append, hwhole hp hpadded]

/-! ## Lists of items -/

/-- An item as it is listed: not empty, without blanks around it, its brackets balanced and no comma
    outside them. -/
structure IsListed (x : List Char) : Prop where
  ne_nil : x ≠ []
  trimmed : trim x = x
  balanced : Balanced x
  whole : Whole x

instance (x : List Char) : Decidable (IsListed x) :=
  decidable_of_iff (x ≠ [] ∧ trim x = x ∧ Balanced x ∧ Whole x)
    ⟨fun ⟨hne, ht, hb, hw⟩ => ⟨hne, ht, hb, hw⟩,
      fun h => ⟨h.ne_nil, h.trimmed, h.balanced, h.whole⟩⟩

theorem IsListed.isItem (hx : IsListed x) : IsItem x := by
  have hne : trim x ≠ [] := by
    rw [hx.trimmed]
    exact hx.ne_nil
  have hstarts := starts_trim hne
  have hends := ends_trim hne
  rw [hx.trimmed] at hstarts hends
  exact ⟨hstarts, hends, hx.balanced.closed, hx.whole⟩

/-- Items that are listed with commas between them, and any blanks around them, are cut apart again;
    and what is cut from a balanced text can be listed. -/
theorem topLevelItems_listed :
    (∀ items ps, (∀ x ∈ items, IsListed x) → List.Forall₂ Padded items ps →
      topLevelItems (List.intercalate [','] ps) = items) ∧
    ∀ s, Balanced s → ∀ x ∈ topLevelItems s, IsListed x := by
  refine ⟨fun items ps hitems hps => ?_, fun s hs x hx => ?_⟩
  · exact topLevelItems_intercalate hps fun x hx => (hitems x hx).isItem
  · obtain ⟨hne, hbalanced, hwhole⟩ := of_mem_topLevelItems hs hx
    exact ⟨hne, trim_of_mem_topLevelItems hx, hbalanced, hwhole⟩

/-- An operator, and a constraint with brackets in brackets. -/
theorem topLevelItems_listed_nested :
    topLevelItems " (:|) ,\n f ([a], b)\t".toList = ["(:|)".toList, "f ([a], b)".toList] ∧
      IsListed "f ([a], b)".toList := by
  have hpadded : List.Forall₂ Padded ["(:|)".toList, "f ([a], b)".toList]
      [" (:|) ".toList, "\n f ([a], b)\t".toList] :=
    .cons ⟨[' '], [' '], List.all_eq_true.1 (by decide), List.all_eq_true.1 (by decide), rfl⟩
      (.cons ⟨['\n', ' '], ['\t'], List.all_eq_true.1 (by decide),
        List.all_eq_true.1 (by decide), rfl⟩ .nil)
  have hitems : topLevelItems " (:|) ,\n f ([a], b)\t".toList =
      ["(:|)".toList, "f ([a], b)".toList] :=
    topLevelItems_listed.1 _ _ (by decide) hpadded
  refine ⟨hitems, topLevelItems_listed.2 " (:|) ,\n f ([a], b)\t".toList (by decide) _ ?_⟩
  rw [hitems]
  exact List.mem_cons_of_mem _ List.mem_cons_self

end GhciHost.Suggestion
