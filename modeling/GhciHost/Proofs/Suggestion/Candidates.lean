import GhciHost.Proofs.Suggestion.Paragraph

/-!
# Names that are proposed for a misspelled one

A compiler lists the names that it knows in place of one that is not in scope, with commas, words and
line breaks between them, and a note in parentheses behind each.  A note may quote names too, and it
may be wrapped.  The lines of the list are joined and its notes left out before the names are read, and
neither changes which names it lists.

* `Lists`   a text that lists names;
* `Lists.unwrapped`   it lists them still when its lines are joined;
* `Lists.quotedNames_eq`   they are what is read of it without its notes;
* `Misspelling`, `fixTypo_misspelling`   what is suggested;
* `fixTypo_astray`   a name with an apostrophe in ASCII quotes.
-/

namespace GhciHost.Suggestion

open Text
open Diagnostic (Starts Ends starts_cons)

/-! ## Lists of names -/

/-- A character that belongs neither to a name in quotes nor to a note. -/
def IsBetween (c : Char) : Prop := c ≠ '‘' ∧ isInner c = true

/-- A name that can be listed. -/
def IsCandidate (name : List Char) : Prop :=
  name ≠ [] ∧ ∀ c ∈ name, c ≠ '’' ∧ c ≠ '\n' ∧ isInner c = true

/-- A text lists names: they stand in quotes, with anything between them, and with notes in
    parentheses, which may quote other names. -/
inductive Lists : List Char → List (List Char) → Prop
  | nil : Lists [] []
  | between {c : Char} {s : List Char} {names : List (List Char)} :
      IsBetween c → Lists s names → Lists (c :: s) names
  | name {name s : List Char} {names : List (List Char)} :
      IsCandidate name → Lists s names → Lists (Quotes.curly.around name ++ s) (name :: names)
  | note {note s : List Char} {names : List (List Char)} :
      (∀ c ∈ note, isInner c = true) → Lists s names →
      Lists ('(' :: (note ++ ')' :: s)) names

variable {c : Char} {s t after name : List Char} {names : List (List Char)}

theorem isBetween_of_isBlank (hc : isBlank c = true) : IsBetween c := by
  have hne {d : Char} (hd : isBlank d = false) : c ≠ d := by
    rintro rfl
    rw [hc] at hd
    cases hd
  simp [IsBetween, isInner, hne (d := '‘') (by decide), hne (d := '(') (by decide),
    hne (d := ')') (by decide)]

theorem Lists.append_between {g : List Char} (hg : ∀ c ∈ g, IsBetween c) (h : Lists s names) :
    Lists (g ++ s) names := by
  induction g with
  | nil => exact h
  | cons c g ih =>
    obtain ⟨hc, hg⟩ := List.forall_mem_cons.1 hg
    exact .between hc (ih hg)

/-! ## Lines that are joined -/

/-- The lines of a text, trimmed and joined, blank ones left out. -/
def unwrapped (t : List Char) : List Char :=
  joined (((segments '\n' t).map trim).filter (!·.isEmpty))

theorem joined_paragraph (ht : GoesOn t) (hs : Stops s) :
    joined (paragraph (t ++ s)) = unwrapped t := by
  rw [paragraph_append ht hs, unwrapped]

/-- Blanks in front make no difference, line feeds neither. -/
theorem unwrapped_blank (hc : isBlank c = true) (s : List Char) :
    unwrapped (c :: s) = unwrapped s := by
  obtain ⟨l, ls, hl⟩ := List.exists_cons_of_ne_nil (segments_ne_nil '\n' s)
  unfold unwrapped
  rw [segments, hl]
  split
  · rfl
  · have htrim : trim (c :: l) = trim l := ((Padded.refl l).cons hc).trim_eq
    rw [List.map_cons, htrim, List.map_cons]

/-- A text within a line stays, and so do the blanks behind it, but for the end of the line. -/
theorem unwrapped_append (hstarts : Starts s) (hends : Ends s) (hs : '\n' ∉ s) (t : List Char) :
    ∃ g, (∀ c ∈ g, isBlank c = true) ∧ unwrapped (s ++ t) = s ++ (g ++ unwrapped t) := by
  obtain ⟨l, ls, hl, hfirst⟩ := segments_append_of_not_mem hs t
  obtain ⟨g, g', hg, hg', hpadded⟩ := padded_trim l
  have hne : s ≠ [] := by
    rintro rfl
    obtain ⟨c, hc, -⟩ := hstarts
    cases hc
  unfold unwrapped
  rw [hl, hfirst, List.map_cons, List.map_cons]
  by_cases hblank : trim l = []
  · -- the line ends with the text
    rw [hblank, List.nil_append] at hpadded
    have hline : Padded s (s ++ l) := by
      refine ⟨[], l, nofun, ?_, rfl⟩
      rw [hpadded]
      exact List.forall_mem_append.2 ⟨hg, hg'⟩
    rw [hline.trim_eq, Diagnostic.trim_of_starts_ends hstarts hends, hblank,
      List.filter_cons_of_pos (by simpa using hne), List.filter_cons_of_neg (by simp)]
    cases (ls.map trim).filter (!·.isEmpty) with
    | nil => exact ⟨[], nofun, by simp [joined]⟩
    | cons m ms =>
      refine ⟨[' '], List.forall_mem_singleton.2 (by decide), ?_⟩
      simp [joined, List.intercalate_cons_cons]
  · -- the line goes on
    have hends' : Ends (s ++ (g ++ trim l)) := ((ends_trim hblank).append g).append s
    have hline : Padded (s ++ (g ++ trim l)) (s ++ l) := by
      refine ⟨[], g', nofun, hg', ?_⟩
      rw [List.nil_append, List.append_assoc, List.append_assoc, ← hpadded]
    refine ⟨g, hg, ?_⟩
    rw [hline.trim_eq, Diagnostic.trim_of_starts_ends (hstarts.append _) hends',
      List.filter_cons_of_pos (by simp [hne]), List.filter_cons_of_pos (by simpa using hblank)]
    cases (ls.map trim).filter (!·.isEmpty) with
    | nil => simp [joined]
    | cons m ms => simp [joined, List.intercalate_cons_cons]

theorem unwrapped_cons (hc : isBlank c = false) (s : List Char) :
    ∃ g, (∀ d ∈ g, isBlank d = true) ∧ unwrapped (c :: s) = c :: (g ++ unwrapped s) := by
  have hbreak : '\n' ∉ [c] := by
    intro hm
    rw [← List.mem_singleton.1 hm] at hc
    cases hc
  exact unwrapped_append (starts_cons.2 hc) ⟨c, rfl, hc⟩ hbreak s

/-- What stands in front of a text stays in front of it, and no characters come to it but blanks. -/
theorem unwrapped_in_front (s t : List Char) :
    ∃ r, (∀ c ∈ r, c ∈ s ∨ isBlank c = true) ∧ unwrapped (s ++ t) = r ++ unwrapped t := by
  induction s with
  | nil => exact ⟨[], nofun, rfl⟩
  | cons d s ih =>
    obtain ⟨r, hr, heq⟩ := ih
    have hmem : ∀ c ∈ r, c ∈ d :: s ∨ isBlank c = true := fun c hc =>
      (hr c hc).imp_left (List.mem_cons_of_mem d)
    cases hd : isBlank d with
    | true => exact ⟨r, hmem, by rw [List.cons_append, unwrapped_blank hd, heq]⟩
    | false =>
      obtain ⟨g, hg, hfirst⟩ := unwrapped_cons hd (s ++ t)
      refine ⟨d :: (g ++ r), ?_, ?_⟩
      · intro c hc
        rcases List.mem_cons.1 hc with rfl | hc
        · exact .inl List.mem_cons_self
        · rcases List.mem_append.1 hc with hc | hc
          · exact .inr (hg c hc)
          · exact hmem c hc
      · rw [List.cons_append, hfirst, heq, List.cons_append, List.append_assoc]

theorem starts_ends_around (q : Quotes) (name : List Char) :
    Starts (q.around name) ∧ Ends (q.around name) := by
  cases q with
  | curly => exact ⟨starts_cons.2 (by decide), Ends.append (by decide) ('‘' :: name)⟩
  | ascii => exact ⟨starts_cons.2 (by decide), Ends.append (by decide) (grave :: name)⟩

/-- A text lists the same names when its lines are joined. -/
theorem Lists.unwrapped (h : Lists s names) : Lists (unwrapped s) names := by
  have hblanks {g : List Char} (hg : ∀ c ∈ g, isBlank c = true) : ∀ c ∈ g, IsBetween c :=
    fun c hc => isBetween_of_isBlank (hg c hc)
  induction h with
  | nil => exact .nil
  | @between c s names hc _ ih =>
    cases hblank : isBlank c with
    | true =>
      rw [unwrapped_blank hblank]
      exact ih
    | false =>
      obtain ⟨g, hg, heq⟩ := unwrapped_cons hblank s
      rw [heq]
      exact .between hc (ih.append_between (hblanks hg))
  | @name name s names hname _ ih =>
    obtain ⟨hstarts, hends⟩ := starts_ends_around .curly name
    have hbreak : '\n' ∉ Quotes.curly.around name := by
      simpa [Quotes.around] using fun hm => (hname.2 _ hm).2.1 rfl
    obtain ⟨g, hg, heq⟩ := unwrapped_append hstarts hends hbreak s
    rw [heq]
    exact .name hname (ih.append_between (hblanks hg))
  | @note note s names hnote _ ih =>
    -- the parentheses stay, and the note between them may lose and gain blanks
    obtain ⟨g, hg, hopen⟩ := unwrapped_cons (c := '(') (by decide) (note ++ ')' :: s)
    obtain ⟨r, hr, hinner⟩ := unwrapped_in_front note (')' :: s)
    obtain ⟨g', hg', hclose⟩ := unwrapped_cons (c := ')') (by decide) s
    have htext : Suggestion.unwrapped ('(' :: (note ++ ')' :: s)) =
        '(' :: ((g ++ r) ++ ')' :: (g' ++ Suggestion.unwrapped s)) := by
      rw [hopen, hinner, hclose, List.append_assoc]
    rw [htext]
    refine .note ?_ (ih.append_between (hblanks hg'))
    intro c hc
    rcases List.mem_append.1 hc with hc | hc
    · exact (hblanks hg c hc).2
    · exact (hr c hc).elim (hnote c) fun hblank => (isBetween_of_isBlank hblank).2

/-! ## Names that are read -/

theorem withoutNotes_cons (hc : c ≠ '(') (s : List Char) :
    withoutNotes (c :: s) = c :: withoutNotes s := by
  apply replaceAll_of_none
  split
  · next h => exact absurd (List.cons.inj h).1 hc
  · rfl

theorem withoutNotes_append (hs : '(' ∉ s) (t : List Char) :
    withoutNotes (s ++ t) = s ++ withoutNotes t := by
  induction s with
  | nil => rfl
  | cons c s ih =>
    simp only [List.mem_cons, not_or] at hs
    rw [List.cons_append, withoutNotes_cons (Ne.symm hs.1), ih hs.2, List.cons_append]

theorem withoutNotes_note (ht : ∀ c ∈ t, isInner c = true) (s : List Char) :
    withoutNotes ('(' :: (t ++ ')' :: s)) = withoutNotes s := by
  have htake : (t ++ ')' :: s).takeWhile isInner = t := by
    rw [List.takeWhile_append_of_pos ht, List.takeWhile_cons_of_neg (by decide), List.append_nil]
  have hdrop : (t ++ ')' :: s).dropWhile isInner = ')' :: s := by
    rw [List.dropWhile_append_of_pos ht, List.dropWhile_cons_of_neg (by decide)]
  have hbehind : ('(' :: (t ++ ')' :: s)).drop (t.length + 2) = s := by
    rw [List.drop_succ_cons, List.drop_length_add_append, List.drop_succ_cons, List.drop_zero]
  have hmatch (m : List Char → Option (List Char × Nat))
      (hm : m ('(' :: (t ++ ')' :: s)) = some ([], t.length + 2)) :
      replaceAll m ('(' :: (t ++ ')' :: s)) = replaceAll m s := by
    rw [replaceAll_of_some (List.cons_ne_nil _ _) hm (Nat.succ_pos _), hbehind, List.nil_append]
  apply hmatch
  simp only [htake, hdrop]

/-- The names of a list are what is quoted outside its notes. -/
theorem Lists.quotedNames_eq (h : Lists s names) : quotedNames (withoutNotes s) = names := by
  induction h with
  | nil => rfl
  | @between c s names hc _ ih =>
    have hparen : c ≠ '(' := by
      rintro rfl
      exact absurd hc.2 (by decide)
    have hquoted : quoted? (c :: withoutNotes s) = none := by
      unfold quoted?
      split
      · next h => exact absurd (List.cons.inj h).1 hc.1
      · rfl
    rw [withoutNotes_cons hparen, quotedNames_cons hquoted, ih]
  | @name name s names hname _ ih =>
    have hparen : '(' ∉ Quotes.curly.around name := by
      simpa [Quotes.around] using fun hm => absurd (hname.2 _ hm).2.2 (by decide)
    have hclosed : Closed name := ⟨hname.1, fun hm => (hname.2 _ hm).1 rfl⟩
    rw [withoutNotes_append hparen, quotedNames_quotation hclosed, ih]
  | note hnote _ ih => rw [withoutNotes_note hnote, ih]

/-! ## Proposals in a message -/

/-- The label of a name that is not in scope. -/
def scopeLabel : String := "Variable not in scope: "

/-- The words in front of names that are proposed. -/
def proposalWords : List (List Char) := ["Perhaps you meant", "Perhaps use"].map String.toList

theorem Lists.mem_of_ne_nil (h : Lists s names) (hne : names ≠ []) : '‘' ∈ s := by
  induction h with
  | nil => exact absurd rfl hne
  | between _ _ ih => exact List.mem_cons_of_mem _ (ih hne)
  | name _ _ _ => exact List.mem_append_left _ List.mem_cons_self
  | note _ _ ih =>
    exact List.mem_cons_of_mem _ (List.mem_append_right _ (List.mem_cons_of_mem _ (ih hne)))

/-- What stands in front of the names can be left out. -/
theorem Lists.of_append_between {g : List Char} (hg : ∀ c ∈ g, IsBetween c)
    (h : Lists (g ++ s) names) : Lists s names := by
  induction g with
  | nil => exact h
  | cons c g ih =>
    obtain ⟨hc, hg⟩ := List.forall_mem_cons.1 hg
    refine ih hg ?_
    generalize htext : c :: g ++ s = text at h
    cases h with
    | nil => cases htext
    | between _ h =>
      cases htext
      exact h
    | name _ _ => exact absurd (List.cons.inj htext).1 hc.1
    | note _ _ =>
      obtain rfl := (List.cons.inj htext).1
      exact absurd hc.2 (by decide)

theorem GoesOn.of_append (hs : '\n' ∉ s) (h : GoesOn (s ++ t)) : GoesOn t := by
  obtain ⟨l, ls, hl, hfirst⟩ := segments_append_of_not_mem hs t
  rw [GoesOn, hfirst] at h
  rw [GoesOn, hl]
  exact h

/-- Words that may stand in front of a list are passed, and nothing behind the list is. -/
theorem Lists.after?_getD (h : Lists t names) (hne : names ≠ []) (ht : GoesOn t) {words : String}
    (hwords : ∀ c ∈ words.toList, IsBetween c ∧ c ≠ '\n') (after : List Char) :
    ∃ t', (after? words (t ++ after)).getD (t ++ after) = t' ++ after ∧ Lists t' names ∧
      GoesOn t' := by
  cases hafter : after? words (t ++ after) with
  | none => exact ⟨t, rfl, h, ht⟩
  | some r =>
    rcases List.append_eq_append_iff.1 (stripPrefix?_eq_some.1 hafter) with
      ⟨x, hx, -⟩ | ⟨t', rfl, rfl⟩
    · -- the words hold no quote
      have hmem : '‘' ∈ words.toList := by
        rw [hx]
        exact List.mem_append_left x (h.mem_of_ne_nil hne)
      exact absurd rfl (hwords _ hmem).1.1
    · refine ⟨t', rfl, h.of_append_between fun c hc => (hwords c hc).1, ht.of_append ?_⟩
      exact fun hm => (hwords _ hm).2 rfl

theorem proposals?_listed {phrase : List Char} (hphrase : phrase ∈ proposalWords)
    (h : Lists t names) (hne : names ≠ []) (ht : GoesOn t) (after : List Char) :
    ∃ t', proposals? (phrase ++ (t ++ after)) = some (t' ++ after) ∧ Lists t' names ∧
      GoesOn t' := by
  have hthese : ∀ c ∈ " one of these".toList, IsBetween c ∧ c ≠ '\n' := by
    have hall : " one of these".toList.all (fun c => c != '‘' && isInner c && c != '\n') = true := by
      decide
    intro c hc
    simpa [IsBetween] using List.all_eq_true.1 hall c hc
  have hcolon : ∀ c ∈ ":".toList, IsBetween c ∧ c ≠ '\n' := by
    unfold IsBetween
    exact List.forall_mem_singleton.2 (by decide)
  obtain ⟨t₁, h₁, hlists₁, hgoes₁⟩ := h.after?_getD hne ht hthese after
  obtain ⟨t₂, h₂, hlists₂, hgoes₂⟩ := hlists₁.after?_getD hne hgoes₁ hcolon after
  refine ⟨t₂, ?_, hlists₂, hgoes₂⟩
  have hbehind (r : List Char) (hr : r = t ++ after) :
      some ((after? ":" ((after? " one of these" r).getD r)).getD
        ((after? " one of these" r).getD r)) = some (t₂ ++ after) := by
    rw [hr, h₁, h₂]
  simp only [proposalWords, List.map_cons, List.map_nil, List.mem_cons, List.not_mem_nil,
    or_false] at hphrase
  obtain rfl | rfl := hphrase
  · exact hbehind _ rfl
  · exact hbehind _ rfl

theorem prefix_of_proposals? {r : List Char} (h : proposals? s = some r) :
    ∃ p ∈ proposalWords, p <+: s := by
  simp only [proposals?, Option.bind_eq_bind, Option.bind_eq_some_iff] at h
  obtain ⟨s₁, h₁, s₂, h₂, -⟩ := h
  rw [stripPrefix?_eq_some.1 h₁]
  cases hmeant : after? "you meant" s₁ with
  | some r =>
    rw [stripPrefix?_eq_some.1 hmeant]
    exact ⟨_, List.mem_cons_self, r, rfl⟩
  | none =>
    rw [hmeant] at h₂
    rw [stripPrefix?_eq_some.1 h₂]
    exact ⟨_, List.mem_cons_of_mem _ List.mem_cons_self, s₂, rfl⟩

/-- A name as it is read behind the label. -/
def IsBare (name : List Char) : Prop := name ≠ [] ∧ ∀ c ∈ name, isBlank c = false ∧ c ≠ ':'

instance (name : List Char) : Decidable (IsBare name) :=
  have : Decidable (∀ c ∈ name, isBlank c = false ∧ c ≠ ':') := List.decidableBAll _ name
  inferInstanceAs (Decidable (name ≠ [] ∧ _))

theorem bareName?_append (hname : IsBare name)
    (ht : ∀ c ∈ t.head?, isBlank c = true ∨ c = ':') : bareName? (name ++ t) = some name := by
  have htake : (name ++ t).takeWhile (fun c => !(isBlank c || c == ':')) = name := by
    rw [List.takeWhile_append_of_pos fun c hc => by simp [hname.2 c hc]]
    cases t with
    | nil => simp
    | cons c t =>
      rw [List.takeWhile_cons_of_neg, List.append_nil]
      rcases ht c rfl with hc | hc <;> simp [hc]
  unfold bareName?
  simp only [htake]
  rw [if_neg (by simpa using hname.1)]

/-- The first name that is said not to be in scope is the one that was written. -/
theorem outOfScope?_label {before : List Char} (hbefore : ¬ scopeLabel.toList <:+: before)
    (hname : IsBare name) (ht : ∀ c ∈ t.head?, isBlank c = true ∨ c = ':') :
    outOfScope? (before ++ (scopeLabel.toList ++ (name ++ t))) = some name := by
  have hbare : (after? scopeLabel (scopeLabel.toList ++ (name ++ t))).bind bareName? = some name := by
    rw [after?_append, Option.bind_some, bareName?_append hname ht]
  have hprefix {s r : List Char} (h : (after? scopeLabel s).bind bareName? = some r) :
      scopeLabel.toList <+: s := by
    obtain ⟨r, hr, -⟩ := Option.bind_eq_some_iff.1 h
    exact ⟨r, (stripPrefix?_eq_some.1 hr).symm⟩
  have hsearch : search? (fun s => (after? scopeLabel s).bind bareName?)
      (before ++ (scopeLabel.toList ++ (name ++ t))) = some name := by
    rw [search?_label (by decide) (by decide) hprefix hbefore]
    exact search?_of_some hbare
  show (search? (fun s => (after? scopeLabel s).bind bareName?) _ <|> _) = _
  rw [hsearch]
  rfl

/-! ## What is suggested -/

/-- A message about a name that is not in scope, with a list of names that are proposed for it. -/
structure Misspelling where
  before : List Char
  name : List Char
  /-- What stands between the name and the proposals, such as its type. -/
  between : List Char
  phrase : List Char
  list : List Char
  after : List Char
  /-- The names that are proposed. -/
  names : List (List Char)
  label_first : ¬ scopeLabel.toList <:+: before
  isBare : IsBare name
  between_ne : between ≠ []
  between_head : ∀ c ∈ between.head?, isBlank c = true ∨ c = ':'
  phrase_mem : phrase ∈ proposalWords
  phrase_first : ∀ p ∈ proposalWords,
    ¬ p <:+: before ++ (scopeLabel.toList ++ (name ++ between))
  lists : Lists list names
  names_ne : names ≠ []
  goesOn : GoesOn list
  stops : Stops after

/-- The message in characters. -/
def Misspelling.text (m : Misspelling) : List Char :=
  m.before ++ (scopeLabel.toList ++ (m.name ++ (m.between ++
    (m.phrase ++ (m.list ++ m.after)))))

namespace Misspelling

variable (m : Misspelling)

theorem outOfScope?_text : outOfScope? m.text = some m.name := by
  obtain ⟨c, r, hbetween⟩ := List.exists_cons_of_ne_nil m.between_ne
  apply outOfScope?_label m.label_first m.isBare
  have hhead := m.between_head
  rw [hbetween] at hhead ⊢
  exact hhead

/-- The first words of a proposal are those in front of the list. -/
theorem search?_proposals :
    search? proposals? m.text = proposals? (m.phrase ++ (m.list ++ m.after)) := by
  have hfirst : ∀ p ∈ proposalWords, p.head? = some 'P' := by decide
  obtain ⟨r, hphrase⟩ := List.head?_eq_some_iff.1 (hfirst _ m.phrase_mem)
  have htext : m.text = m.before ++ (scopeLabel.toList ++ (m.name ++ m.between)) ++
      (m.phrase ++ (m.list ++ m.after)) := by
    simp only [text, List.append_assoc]
  obtain ⟨t, ht, -⟩ := proposals?_listed m.phrase_mem m.lists m.names_ne m.goesOn m.after
  have hhead : ∀ p ∈ proposalWords, 'P' ∉ p.tail := by decide
  rw [htext, ht]
  rw [hphrase] at ht ⊢
  rw [List.cons_append, search?_labels hhead prefix_of_proposals? m.phrase_first]
  exact search?_of_some ht

end Misspelling

/-- Each name that is listed is suggested once, in the order in which the names come, but for the
    misspelled name itself; and no name of a note is. -/
theorem fixTypo_misspelling (m : Misspelling) {d : Diagnostic} {place : Span}
    (hplace : placeOf d = .ok place) (hmessage : curledMessage d = m.text) :
    fixTypo d = .ok ((m.names.eraseDups.filter (· ≠ m.name)).map fun name =>
      ⟨place, .fixTypo (String.ofList m.name) (String.ofList name)⟩) := by
  obtain ⟨t, ht, hlists, hgoes⟩ := proposals?_listed m.phrase_mem m.lists m.names_ne m.goesOn m.after
  have hnames : quotedNames (withoutNotes (joined (paragraph (t ++ m.after)))) = m.names := by
    rw [joined_paragraph hgoes m.stops, hlists.unwrapped.quotedNames_eq]
  unfold fixTypo
  simp only [hmessage, m.outOfScope?_text, m.search?_proposals, ht, hnames, hplace]
  cases m.names.eraseDups.filter (· ≠ m.name) <;> rfl

/-- A list over three lines that holds one name twice, and a note that quotes a module. -/
def Misspelling.wrapped : Misspelling where
  before := "• ".toList
  name := "foo".toList
  between := " :: Int\n• ".toList
  phrase := "Perhaps you meant".toList
  list := " one of these:\n    ".toList ++ (Quotes.curly.around "foo1".toList ++
    (' ' :: '(' :: ("imported from\n      ‘Data.Foo’".toList ++ ')' :: (",\n    ".toList ++
      (Quotes.curly.around "foo".toList ++ (", ".toList ++
        (Quotes.curly.around "foo1".toList ++ [])))))))
  after := "\n• In the expression: foo".toList
  names := ["foo1", "foo", "foo1"].map String.toList
  label_first := by decide
  isBare := by decide
  between_ne := by decide
  between_head c hc := by
    cases hc
    exact .inl (by decide)
  phrase_mem := by decide
  phrase_first := by decide +kernel
  lists := by
    have hbetween {g : List Char} (hg : g.all (fun c => c != '‘' && isInner c) = true) :
        ∀ c ∈ g, IsBetween c := fun c hc => by
      simpa [IsBetween] using List.all_eq_true.1 hg c hc
    have hname {name : List Char} (hne : name ≠ [])
        (h : name.all (fun c => c != '’' && c != '\n' && isInner c) = true) :
        IsCandidate name := ⟨hne, fun c hc => by
      simpa [and_assoc] using List.all_eq_true.1 h c hc⟩
    exact .append_between (hbetween (by decide)) (.name (hname (by decide) (by decide))
      (.between (isBetween_of_isBlank (by decide)) (.note (List.all_eq_true.1 (by decide))
        (.append_between (hbetween (by decide)) (.name (hname (by decide) (by decide))
          (.append_between (hbetween (by decide)) (.name (hname (by decide) (by decide)) .nil)))))))
  names_ne := by decide
  goesOn := by decide +kernel
  stops := by decide

/-- One name is left: the other is the one that is misspelled, and the module is in a note. -/
theorem fixTypo_misspelling_wrapped :
    let d : Diagnostic :=
      { severity := .error, file := "src/Foo.hs", line := 10, column := 3, endLine := 10,
        endColumn := 9, message := String.ofList Misspelling.wrapped.text }
    fixTypo d = .ok [⟨⟨⟨10, 3, 10, 9⟩, "src/Foo.hs"⟩, .fixTypo "foo" "foo1"⟩] := by
  intro d
  have hmessage : curledMessage d = Misspelling.wrapped.text := by
    rw [curledMessage, String.toList_ofList]
    exact curled_of_not_mem (by decide +kernel)
  rw [fixTypo_misspelling .wrapped rfl hmessage]
  decide +kernel

/-- In ASCII quotes a name with an apostrophe in it is cut there. -/
theorem fixTypo_astray :
    let message (text : List Char) : Diagnostic :=
      { severity := .error, file := "src/Foo.hs", line := 10, column := 3, endLine := 10,
        endColumn := 9, message := String.ofList text }
    let place : Span := ⟨⟨10, 3, 10, 9⟩, "src/Foo.hs"⟩
    let primed := ("Variable not in scope: x2 :: Int\n" ++
      "Perhaps you meant one of these: ‘x'2’ (line 3), ‘x1’ (line 4)").toList
    fixTypo (message primed) = .ok [⟨place, .fixTypo "x2" "x'2"⟩, ⟨place, .fixTypo "x2" "x1"⟩] ∧
      fixTypo (message (uncurled primed)) =
        .ok [⟨place, .fixTypo "x2" "x"⟩, ⟨place, .fixTypo "x2" "x1"⟩] := by
  decide +kernel

end GhciHost.Suggestion
