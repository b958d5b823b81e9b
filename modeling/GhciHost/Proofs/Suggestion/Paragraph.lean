import GhciHost.Proofs.Suggestion.Offered
import GhciHost.Proofs.Text.Squeezed

/-!
# The text after a label

A label is found where it first stands in a message.  The paragraph behind it reaches up to a line that
ends it; joined and squeezed it is the text as it would be on one line.

* `search?_labels`, `search?_label`   the first label is found;
* `GoesOn`, `Stops`, `paragraph_append`   the lines of a paragraph;
* `Continues`   a text none of whose lines ends a paragraph;
* `squeeze_joined_paragraph`   the paragraph on one line.
-/

namespace GhciHost.Suggestion

open Text

variable {c : Char} {s t : List Char}

/-! ## Labels -/

/-- Where no label stands before some place, the search goes on from there, if the character at that
    place comes in no label but in front. -/
theorem search?_labels {α : Type} {m : List Char → Option α} {labels : List (List Char)} {a : Char}
    {before : List Char} (ha : ∀ p ∈ labels, a ∉ p.tail)
    (hm : ∀ {s x}, m s = some x → ∃ p ∈ labels, p <+: s)
    (hbefore : ∀ p ∈ labels, ¬ p <:+: before) (rest : List Char) :
    search? m (before ++ a :: rest) = search? m (a :: rest) := by
  refine search?_append fun u c v huv => Option.eq_none_iff_forall_ne_some.2 fun x hx => ?_
  obtain ⟨p, hp, hprefix⟩ := hm hx
  have hpart : c :: v <:+: before := ⟨u, [], by rw [huv, List.append_nil]⟩
  rcases List.prefix_or_prefix_of_prefix hprefix (List.prefix_append (c :: v) (a :: rest)) with
    h | ⟨q, rfl⟩
  · exact hbefore p hp (h.isInfix.trans hpart)
  -- the label would reach past the place
  · cases q with
    | nil =>
      rw [List.append_nil] at hp
      exact hbefore _ hp hpart
    | cons b q =>
      obtain ⟨_, hr⟩ := hprefix
      rw [List.append_assoc, ← List.cons_append] at hr
      obtain rfl := (List.cons.inj (List.append_cancel_left hr)).1
      refine ha _ hp ?_
      rw [List.cons_append, List.tail_cons]
      exact List.mem_append_right v List.mem_cons_self

/-- The first label is found if the character that it begins with does not come again in it. -/
theorem search?_label {α : Type} {m : List Char → Option α} {p before : List Char} (hp : p ≠ [])
    (ha : p.head hp ∉ p.tail) (hm : ∀ {s x}, m s = some x → p <+: s)
    (hbefore : ¬ p <:+: before) (rest : List Char) :
    search? m (before ++ (p ++ rest)) = search? m (p ++ rest) := by
  obtain ⟨a, r, rfl⟩ := List.exists_cons_of_ne_nil hp
  exact search?_labels (List.forall_mem_singleton.2 ha) (fun h => ⟨_, List.mem_cons_self, hm h⟩)
    (List.forall_mem_singleton.2 hbefore) (r ++ rest)

/-! ## Paragraphs -/

/-- No line of a text but the first ends a paragraph. -/
def GoesOn (t : List Char) : Prop := ∀ l ∈ (segments '\n' t).tail, endsParagraph l = false

/-- Nothing follows on the line, and the next line, if there is one, ends the paragraph. -/
def Stops (s : List Char) : Prop :=
  (segments '\n' s).head? = some [] ∧ ∀ l ∈ (segments '\n' s).tail.head?, endsParagraph l = true

instance (t : List Char) : Decidable (GoesOn t) := List.decidableBAll _ _

instance (s : List Char) : Decidable (Stops s) :=
  inferInstanceAs (Decidable ((segments '\n' s).head? = some [] ∧ _))

/-- A paragraph is made of the trimmed lines up to its end that are not blank. -/
theorem paragraph_append (ht : GoesOn t) (hs : Stops s) :
    paragraph (t ++ s) = ((segments '\n' t).map trim).filter (!·.isEmpty) := by
  obtain ⟨hfirst, hend⟩ := hs
  obtain ⟨ls, hls⟩ := List.head?_eq_some_iff.1 hfirst
  rw [hls, List.tail_cons] at hend
  obtain ⟨l, ms, hms⟩ := List.exists_cons_of_ne_nil (segments_ne_nil '\n' t)
  have hlines : segments '\n' (t ++ s) = l :: (ms ++ ls) := by
    cases s with
    | nil =>
      obtain rfl : ls = [] := (List.cons.inj hls).2.symm
      rw [List.append_nil, List.append_nil, hms]
    | cons c s =>
      rw [segments] at hls
      split at hls
      · next hc =>
        rw [hc, segments_append_cons, hms, (List.cons.inj hls).2, List.cons_append]
      · next hc =>
        split at hls <;> exact absurd (List.cons.inj hls).1 (List.cons_ne_nil _ _)
  have htake : (ms ++ ls).takeWhile (!endsParagraph ·) = ms := by
    have hgoes : ∀ m ∈ ms, (!endsParagraph m) = true := fun m hm => by
      rw [ht m (by rwa [hms, List.tail_cons])]
      rfl
    rw [List.takeWhile_append_of_pos hgoes]
    cases ls with
    | nil => rw [List.takeWhile_nil, List.append_nil]
    | cons m ls =>
      rw [List.takeWhile_cons_of_neg (by simp [hend m rfl]), List.append_nil]
  rw [paragraph, hlines]
  simp only [htake]
  rw [hms]

/-- A paragraph has no characters but those of its text. -/
theorem mem_of_mem_paragraph {l : List Char} (ht : GoesOn t) (hs : Stops s)
    (hl : l ∈ paragraph (t ++ s)) (hc : c ∈ l) : c ∈ t := by
  rw [paragraph_append ht hs] at hl
  obtain ⟨m, hm, rfl⟩ := List.mem_map.1 (List.mem_of_mem_filter hl)
  obtain ⟨g, g', -, -, hpadded⟩ := padded_trim m
  refine mem_of_mem_segments hm ?_
  rw [hpadded]
  exact List.mem_append_right g (List.mem_append_left g' hc)

/-! ## Lines that go on with a paragraph -/

/-- A line does not end a paragraph if it begins with none of the marks that do. -/
theorem endsParagraph_cons (hblank : isBlank c = false) (hmark : c ∉ ['•', 'I', '|'])
    (hdecimal : isDecimal c = false) (l : List Char) : endsParagraph (c :: l) = false := by
  have htrim : trimLeft (c :: l) = c :: l :=
    List.dropWhile_cons_of_neg (by rw [hblank]; exact Bool.false_ne_true)
  have hdigits : (c :: l).dropWhile isDecimal = c :: l :=
    List.dropWhile_cons_of_neg (by rw [hdecimal]; exact Bool.false_ne_true)
  have hafter {a : Char} {p : List Char} (ha : a ∈ ['•', 'I', '|']) :
      stripPrefix? (a :: p) (c :: l) = none := by
    rw [stripPrefix?, if_neg fun e : a = c => hmark (e ▸ ha)]
  have hbullet : after? "•" (c :: l) = none := hafter (by decide)
  have hin : after? "In " (c :: l) = none := hafter (by decide)
  have hbar : after? "|" (c :: l) = none := hafter (by decide)
  simp [endsParagraph, htrim, hdigits, hbullet, hin, hbar]

theorem endsParagraph_cons_blank (hc : isBlank c = true) (l : List Char) :
    endsParagraph (c :: l) = endsParagraph l := by
  have htrim : trimLeft (c :: l) = trimLeft l := List.dropWhile_cons_of_pos hc
  rw [endsParagraph, htrim, endsParagraph]

theorem endsParagraph_blank_append {g : List Char} (hg : ∀ c ∈ g, isBlank c = true) (l : List Char) :
    endsParagraph (g ++ l) = endsParagraph l := by
  induction g with
  | nil => rfl
  | cons c g ih =>
    obtain ⟨hc, hg⟩ := List.forall_mem_cons.1 hg
    rw [List.cons_append, endsParagraph_cons_blank hc, ih hg]

/-- No line of a text ends a paragraph. -/
def Continues (t : List Char) : Prop := ∀ l ∈ segments '\n' t, endsParagraph l = false

theorem Continues.goesOn (ht : Continues t) : GoesOn t := fun l hl => ht l (List.mem_of_mem_tail hl)

theorem continues_nil : Continues [] := List.forall_mem_singleton.2 rfl

/-- Blanks in front of a text, line feeds too, end no paragraph. -/
theorem Continues.blank_append {g : List Char} (hg : ∀ c ∈ g, isBlank c = true) (ht : Continues t) :
    Continues (g ++ t) := by
  induction g with
  | nil => exact ht
  | cons c g ih =>
    obtain ⟨hc, hg⟩ := List.forall_mem_cons.1 hg
    have hrest := ih hg
    rw [Continues] at hrest ⊢
    rw [List.cons_append, segments]
    split
    · exact List.forall_mem_cons.2 ⟨rfl, hrest⟩
    · split
      · next h => exact absurd h (segments_ne_nil _ _)
      · next l ls h =>
        rw [h] at hrest
        obtain ⟨hl, hls⟩ := List.forall_mem_cons.1 hrest
        exact List.forall_mem_cons.2 ⟨(endsParagraph_cons_blank hc l).trans hl, hls⟩

/-- A text without separators stands in front of the first piece of the rest. -/
theorem segments_append_of_not_mem {sep : Char} (hs : sep ∉ s) (t : List Char) :
    ∃ l ls, segments sep t = l :: ls ∧ segments sep (s ++ t) = (s ++ l) :: ls := by
  obtain ⟨l, ls, hl⟩ := List.exists_cons_of_ne_nil (segments_ne_nil sep t)
  refine ⟨l, ls, hl, ?_⟩
  induction s with
  | nil => exact hl
  | cons c s ih =>
    simp only [List.mem_cons, not_or] at hs
    rw [List.cons_append, segments, if_neg (Ne.symm hs.1), ih hs.2]
    rfl

/-- A text without line feeds stands in front of the first line of the rest. -/
theorem Continues.append (hs : '\n' ∉ s) (hends : ∀ l, endsParagraph (s ++ l) = false)
    (ht : Continues t) : Continues (s ++ t) := by
  obtain ⟨l, ls, hl, hfirst⟩ := segments_append_of_not_mem hs t
  rw [Continues, hl] at ht
  rw [Continues, hfirst]
  exact List.forall_mem_cons.2 ⟨hends l, (List.forall_mem_cons.1 ht).2⟩

/-! ## The words of a paragraph -/

/-- Blank lines and the blanks around the others have no words. -/
theorem flatMap_words_trim (ls : List (List Char)) :
    ((ls.map trim).filter (!·.isEmpty)).flatMap words = ls.flatMap words := by
  induction ls with
  | nil => rfl
  | cons l ls ih =>
    rw [List.map_cons, List.filter_cons, List.flatMap_cons, words_padded (padded_trim l), ← ih]
    split
    · rw [List.flatMap_cons]
    · next h =>
      have hnil : trim l = [] := by simpa using h
      rw [hnil]
      rfl

/-- The words of a paragraph are those of its text. -/
theorem words_joined_paragraph (ht : GoesOn t) (hs : Stops s) :
    words (joined (paragraph (t ++ s))) = words t := by
  rw [joined, words_intercalate_blank (by decide), paragraph_append ht hs, flatMap_words_trim,
    ← words_intercalate_blank (b := '\n') (by decide), intercalate_segments]

theorem squeeze_joined_paragraph (ht : GoesOn t) (hs : Stops s) :
    squeeze (joined (paragraph (t ++ s))) = squeeze t := by
  rw [squeeze, words_joined_paragraph ht hs, squeeze]

end GhciHost.Suggestion
