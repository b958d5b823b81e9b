import GhciHost.Proofs.Suggestion.Bracketed
import GhciHost.Proofs.Suggestion.Paragraph
import GhciHost.Proofs.Text.Runs

/-!
# Missing fields

The fields that a construction leaves out are listed behind a label, or stand on lines of their own with
their types.  Both forms yield the same fields, wherever the list is wrapped, and whatever types there
are, as long as no further line of a type holds a double colon: such a line is taken for a field.

* `IsField`   the name of a field;
* `missingFieldNames_listed`, `missingFieldNames_typed`   the two forms;
* `addMissingRecordFields_listed`, `addMissingRecordFields_typed`   what is suggested;
* `addMissingRecordFields_astray`   a type with an annotation on a further line.
-/

namespace GhciHost

open Text

variable {c : Char} {f s t x rest : List Char} {d : Diagnostic}

namespace Suggestion

/-! ## Names of fields -/

/-- The name of a field: letters, digits and primes, and neither a capital nor a digit in front. -/
structure IsField (f : List Char) : Prop where
  begins : ∃ c ∈ f.head?, isWord c = true ∧ c.isUpper = false ∧ isDecimal c = false
  letters : ∀ c ∈ f, isWord c = true ∨ c = '\''

instance (f : List Char) : Decidable (IsField f) :=
  decidable_of_iff ((f.head?.any fun c => isWord c && !c.isUpper && !isDecimal c) = true ∧
      f.all (fun c => isWord c || c == '\'') = true) <| by
    constructor
    · rintro ⟨hbegins, hletters⟩
      refine ⟨?_, fun c hc => by simpa using List.all_eq_true.1 hletters c hc⟩
      obtain ⟨c, hc, h⟩ := Option.any_eq_true _ _ |>.1 hbegins
      exact ⟨c, hc, by simpa [and_assoc] using h⟩
    · rintro ⟨⟨c, hc, h⟩, hletters⟩
      exact ⟨Option.any_eq_true _ _ |>.2 ⟨c, hc, by simpa [and_assoc] using h⟩,
        List.all_eq_true.2 fun c hc => by simpa using hletters c hc⟩

namespace IsField

theorem not_mem (hf : IsField f) (hc : isWord c = false) (hprime : c ≠ '\'') : c ∉ f := fun hm => by
  rcases hf.letters c hm with h | h
  · rw [hc] at h
    cases h
  · exact hprime h

theorem word (hf : IsField f) : IsWord f := by
  refine ⟨fun h => ?_, fun c hc => ?_⟩
  · obtain ⟨c, hc, -⟩ := hf.begins
    rw [h] at hc
    cases hc
  · rcases hf.letters c hc with h | rfl
    · exact isBlank_of_isWord h
    · decide

theorem starts (hf : IsField f) : Diagnostic.Starts f := hf.word.starts

theorem ends (hf : IsField f) : Diagnostic.Ends f :=
  ⟨f.getLast hf.word.1, List.getLast?_eq_getLast_of_ne_nil _, hf.word.2 _ (List.getLast_mem _)⟩

/-- A name is an item of a list. -/
theorem isItem (hf : IsField f) : IsItem f where
  starts := hf.starts
  ends := hf.ends
  closed := depth_of_no_brackets fun c hc => by
    have hne {b : Char} (hb : Text.isWord b = false) (hprime : b ≠ '\'') : c ≠ b := fun e =>
      hf.not_mem hb hprime (e ▸ hc)
    simp [bracket, hne (b := '(') (by decide) (by decide), hne (b := '[') (by decide) (by decide),
      hne (b := ')') (by decide) (by decide), hne (b := ']') (by decide) (by decide)]
  whole := whole_of_not_mem (hf.not_mem (by decide) (by decide))

/-- A line that begins with a name does not end a paragraph. -/
theorem endsParagraph_append (hf : IsField f) (l : List Char) : endsParagraph (f ++ l) = false := by
  obtain ⟨c, hc, hword, hupper, hdecimal⟩ := hf.begins
  obtain ⟨r, rfl⟩ := List.head?_eq_some_iff.1 hc
  refine endsParagraph_cons (isBlank_of_isWord hword) (fun hm => ?_) hdecimal _
  simp only [List.mem_cons, List.not_mem_nil, or_false] at hm
  rcases hm with rfl | rfl | rfl
  · rw [isWord_eq] at hword
    exact absurd hword (by decide +kernel)
  · exact absurd hupper (by decide)
  · exact absurd hword (by decide)

end IsField

/-- A text without full stops loses none. -/
theorem withoutStops_of_not_mem (hs : '.' ∉ s) : withoutStops s = s := by
  have hstop : ∀ c ∈ s.reverse.head?, (c == '.') = false := fun c hc => by
    have hmem : c ∈ s := List.mem_reverse.1 (List.mem_of_mem_head? hc)
    simpa using ne_of_mem_of_not_mem hmem hs
  rw [withoutStops]
  cases h : s.reverse with
  | nil => rw [← List.reverse_reverse s, h]; rfl
  | cons c r =>
    rw [List.dropWhile_cons_of_neg (by simp [hstop c (by rw [h]; rfl)]), ← h, List.reverse_reverse]

/-- Names lose nothing when empty ones and full stops are left out. -/
theorem filter_withoutStops {names : List (List Char)} (hnames : ∀ f ∈ names, IsField f) :
    (names.filter (!·.isEmpty)).map withoutStops = names := by
  have hnonempty : ∀ f ∈ names, (!f.isEmpty) = true := fun f hf => by
    simpa using (hnames f hf).word.1
  have hstops : ∀ f ∈ names, withoutStops f = f := fun f hf =>
    withoutStops_of_not_mem ((hnames f hf).not_mem (by decide) (by decide))
  rw [List.filter_eq_self.2 hnonempty]
  exact (List.map_congr_left hstops).trans (List.map_id names)

/-- What stands before a phrase, if the character that the phrase begins with does not. -/
theorem before_append {a : Char} {p u : List Char} (ha : a ∉ u) (r : List Char) :
    before (a :: p) (u ++ (a :: p ++ r)) = u := by
  induction u with
  | nil =>
    have hstrip : stripPrefix? (a :: p) (a :: p ++ r) = some r := stripPrefix?_eq_some.2 rfl
    rw [List.nil_append, List.cons_append, before, ← List.cons_append, hstrip]
    rfl
  | cons c u ih =>
    simp only [List.mem_cons, not_or] at ha
    rw [List.cons_append, before, stripPrefix?, if_neg ha.1, ih ha.2]
    rfl

/-! ## Fields in a list -/

/-- A list of names goes on with a paragraph, wherever it is wrapped. -/
theorem continues_intercalate {names ps : List (List Char)} (h : List.Forall₂ Padded names ps)
    (hnames : ∀ f ∈ names, IsField f) : Continues (List.intercalate [','] ps) := by
  have hfield {f p t : List Char} (hf : IsField f) (hp : Padded f p) (ht : Continues t) :
      Continues (p ++ t) := by
    obtain ⟨g, g', hg, hg', rfl⟩ := hp
    rw [List.append_assoc, List.append_assoc]
    exact ((ht.blank_append hg').append (hf.not_mem (by decide) (by decide))
      hf.endsParagraph_append).blank_append hg
  induction h with
  | nil => exact continues_nil
  | @cons f p names ps hp hps ih =>
    obtain ⟨hf, hnames⟩ := List.forall_mem_cons.1 hnames
    cases hps with
    | nil =>
      rw [List.intercalate_singleton, ← List.append_nil p]
      exact hfield hf hp continues_nil
    | cons _ _ =>
      rw [List.intercalate_cons_cons, List.append_assoc]
      have hcomma (l : List Char) : endsParagraph ([','] ++ l) = false :=
        endsParagraph_cons (by decide) (by decide) (by decide) l
      exact hfield hf hp ((ih hnames).append (by decide) hcomma)

/-- A character of a list is one of a name, a comma or a blank. -/
theorem not_mem_intercalate {names ps : List (List Char)} (h : List.Forall₂ Padded names ps)
    (hblank : isBlank c = false) (hcomma : c ≠ ',') (hnames : ∀ f ∈ names, c ∉ f) :
    c ∉ List.intercalate [','] ps := by
  have hpadded {f p : List Char} (hp : Padded f p) (hf : c ∉ f) : c ∉ p := by
    obtain ⟨g, g', hg, hg', rfl⟩ := hp
    have hgap {g : List Char} (hg : ∀ c ∈ g, isBlank c = true) : c ∉ g := fun hm => by
      rw [hg c hm] at hblank
      cases hblank
    simp [hgap hg, hgap hg', hf]
  induction h with
  | nil => exact List.not_mem_nil
  | @cons f p names ps hp hps ih =>
    obtain ⟨hf, hnames⟩ := List.forall_mem_cons.1 hnames
    cases hps with
    | nil =>
      rw [List.intercalate_singleton]
      exact hpadded hp hf
    | cons _ _ =>
      rw [List.intercalate_cons_cons]
      simp only [List.mem_append, List.mem_singleton, not_or]
      exact ⟨⟨hpadded hp hf, hcomma⟩, ih hnames⟩

/-- The fields of a list are its names, wherever it is wrapped. -/
theorem missingFieldNames_listed {names ps : List (List Char)} (h : List.Forall₂ Padded names ps)
    (hnames : ∀ f ∈ names, IsField f) (hs : Stops s) :
    missingFieldNames (List.intercalate [','] ps ++ s) = names := by
  have hgoes := (continues_intercalate h hnames).goesOn
  have hitems : topLevelItems (joined (paragraph (List.intercalate [','] ps ++ s))) = names := by
    have hsqueeze : (topLevelItems (joined (paragraph (List.intercalate [','] ps ++ s)))).map squeeze =
        names := by
      rw [← topLevelItems_squeeze, squeeze_joined_paragraph hgoes hs, topLevelItems_squeeze,
        topLevelItems_intercalate h fun f hf => (hnames f hf).isItem]
      exact (List.map_congr_left fun f hf => (hnames f hf).word.squeeze_eq).trans (List.map_id names)
    rw [← hsqueeze]
    refine ((List.map_congr_left fun x hx => ?_).trans (List.map_id _)).symm
    have hx' : squeeze x ∈ names := hsqueeze ▸ List.mem_map_of_mem hx
    exact squeeze_eq_self (trim_of_mem_topLevelItems hx) (hnames _ hx').word
  have hcolon : ':' ∉ List.intercalate [','] ps := not_mem_intercalate h (by decide) (by decide)
    fun f hf => (hnames f hf).not_mem (by decide) (by decide)
  have htyped : (paragraph (List.intercalate [','] ps ++ s)).filter (contains "::".toList) = [] :=
    List.filter_eq_nil_iff.2 fun l hl hcontains => hcolon (mem_of_mem_paragraph hgoes hs hl
      ((contains_iff.1 hcontains).subset List.mem_cons_self))
  rw [missingFieldNames, htyped, hitems]
  exact filter_withoutStops hnames

/-! ## Fields with types -/

/-- A field as it is declared: a line that begins with its name and a double colon, and the further
    lines of its type. -/
structure Declared where
  name : List Char
  /-- The blanks in front of the name. -/
  indent : List Char
  /-- The blanks in front of the double colon. -/
  gap : List Char
  /-- What stands behind the double colon. -/
  type : List Char
  /-- The further lines of the type. -/
  more : List (List Char)
  isField : IsField name
  indent_blank : ∀ c ∈ indent, isBlank c = true ∧ c ≠ '\n'
  gap_blank : ∀ c ∈ gap, isBlank c = true ∧ c ≠ '\n'
  type_unbroken : '\n' ∉ type
  more_unbroken : ∀ l ∈ more, '\n' ∉ l
  more_goes : ∀ l ∈ more, endsParagraph l = false
  /-- No further line holds a double colon. -/
  more_plain : ∀ l ∈ more, ¬ "::".toList <:+: l

namespace Declared

variable (e : Declared)

/-- The line that begins with the name. -/
def head : List Char := e.indent ++ (e.name ++ (e.gap ++ ("::".toList ++ e.type)))

/-- The lines of a field and its type. -/
def lines : List (List Char) := e.head :: e.more

theorem lines_unbroken : ∀ l ∈ e.lines, '\n' ∉ l := by
  refine List.forall_mem_cons.2 ⟨?_, e.more_unbroken⟩
  have hname : '\n' ∉ e.name := e.isField.not_mem (by decide) (by decide)
  have hindent : '\n' ∉ e.indent := fun h => (e.indent_blank _ h).2 rfl
  have hgap : '\n' ∉ e.gap := fun h => (e.gap_blank _ h).2 rfl
  simp [head, hname, hindent, hgap, e.type_unbroken]

theorem lines_go : ∀ l ∈ e.lines, endsParagraph l = false := by
  refine List.forall_mem_cons.2 ⟨?_, e.more_goes⟩
  rw [head, endsParagraph_blank_append fun c hc => (e.indent_blank c hc).1]
  exact e.isField.endsParagraph_append _

/-- The trimmed line begins with the name and the double colon. -/
theorem trim_head : ∃ r, trim e.head = e.name ++ e.gap ++ ("::".toList ++ r) := by
  have hleft : trimLeft e.head = e.name ++ e.gap ++ "::".toList ++ e.type := by
    rw [head, trimLeft, List.dropWhile_append_of_pos fun c hc => (e.indent_blank c hc).1]
    exact (e.isField.starts.trimLeft _).trans (by simp only [List.append_assoc])
  have hends : Diagnostic.Ends (e.name ++ e.gap ++ "::".toList) :=
    Diagnostic.Ends.append (by decide) _
  obtain ⟨r, hr⟩ := hends.trimRight_append e.type
  exact ⟨r, by rw [trim, hleft, hr, List.append_assoc]⟩

/-- The name is found again. -/
theorem before_head : trim (before "::".toList (trim e.head)) = e.name := by
  have hblank : ∀ c ∈ e.gap, isBlank c = true := fun c hc => (e.gap_blank c hc).1
  have hcolon : ':' ∉ e.name ++ e.gap := by
    have hgap : ':' ∉ e.gap := fun hm => absurd (hblank _ hm) (by decide)
    simpa [hgap] using e.isField.not_mem (c := ':') (by decide) (by decide)
  have hpadded : Padded e.name (e.name ++ e.gap) :=
    ⟨[], e.gap, List.forall_mem_nil _, hblank, rfl⟩
  obtain ⟨r, hr⟩ := e.trim_head
  have hbefore : before "::".toList (e.name ++ e.gap ++ ("::".toList ++ r)) = e.name ++ e.gap :=
    before_append (p := [':']) hcolon r
  rw [hr, hbefore, hpadded.trim_eq,
    Diagnostic.trim_of_starts_ends e.isField.starts e.isField.ends]

/-- Of the lines of a field only the first holds a double colon. -/
theorem filter_lines : (e.lines.map trim).filter (contains "::".toList) = [trim e.head] := by
  have hhead : contains "::".toList (trim e.head) = true := by
    obtain ⟨r, hr⟩ := e.trim_head
    exact contains_iff.2 ⟨e.name ++ e.gap, r, by rw [hr, List.append_assoc]⟩
  have hmore : (e.more.map trim).filter (contains "::".toList) = [] := by
    refine List.filter_eq_nil_iff.2 fun l hl hcontains => ?_
    obtain ⟨m, hm, rfl⟩ := List.mem_map.1 hl
    exact e.more_plain m hm ((contains_iff.1 hcontains).trans (infix_trim m))
  rw [lines, List.map_cons, List.filter_cons_of_pos hhead, hmore]

end Declared

/-- Fields with their types, each on lines of its own, behind the rest of the line of the label. -/
def declarations (lead : List Char) (es : List Declared) : List Char :=
  List.intercalate ['\n'] (lead :: es.flatMap Declared.lines)

/-- Only the lines with a double colon name fields. -/
theorem missingFieldNames_typed {lead : List Char} (hlead : ∀ c ∈ lead, isBlank c = true ∧ c ≠ '\n')
    {es : List Declared} (hne : es ≠ []) (hs : Stops s) :
    missingFieldNames (declarations lead es ++ s) = es.map Declared.name := by
  have hlines : segments '\n' (declarations lead es) = lead :: es.flatMap Declared.lines := by
    refine segments_intercalate (List.cons_ne_nil _ _) (List.forall_mem_cons.2 ⟨?_, fun l hl => ?_⟩)
    · exact fun hm => (hlead _ hm).2 rfl
    · obtain ⟨e, -, hl⟩ := List.mem_flatMap.1 hl
      exact e.lines_unbroken l hl
  have hgoes : GoesOn (declarations lead es) := by
    rw [GoesOn, hlines]
    intro l hl
    obtain ⟨e, -, hl⟩ := List.mem_flatMap.1 hl
    exact e.lines_go l hl
  have htyped : (paragraph (declarations lead es ++ s)).filter (contains "::".toList) =
      es.map fun e => trim e.head := by
    have hblank : trim lead = [] := trim_eq_nil.2 (words_eq_nil.2 fun c hc => (hlead c hc).1)
    have hfilled : ∀ l ∈ (lead :: es.flatMap Declared.lines).map trim,
        (contains "::".toList l && !l.isEmpty) = contains "::".toList l := fun l _ => by
      cases l with
      | nil => rfl
      | cons c l => simp
    rw [paragraph_append hgoes hs, hlines, List.filter_filter, List.filter_congr hfilled,
      List.map_cons, hblank, List.filter_cons_of_neg (by decide), List.map_flatMap,
      List.filter_flatMap]
    simp only [Declared.filter_lines]
    exact List.map_eq_flatMap.symm
  have hnames : (es.map fun e => trim e.head).map (fun line => trim (before "::".toList line)) =
      es.map Declared.name := by
    rw [List.map_map]
    exact List.map_congr_left fun e _ => e.before_head
  have htypedNonempty : (es.map fun e => trim e.head).isEmpty = false := by
    simpa using hne
  have hfields : ∀ f ∈ es.map Declared.name, IsField f := fun f hf => by
    obtain ⟨e, -, rfl⟩ := List.mem_map.1 hf
    exact e.isField
  rw [missingFieldNames]
  simp only [htyped, htypedNonempty, hnames]
  exact filter_withoutStops hfields

/-! ## What is suggested -/

/-- The label of missing fields, in either spelling. -/
def fieldsLabel (constructor : List Char) (british : Bool) : List Char :=
  "Fields of ".toList ++ (['‘'] ++ constructor ++ ['’'] ++
    (" not initiali".toList ++ if british then "sed:".toList else "zed:".toList))

theorem missingFields?_label {constructor : List Char} (hc : Closed constructor) (british : Bool)
    (rest : List Char) :
    missingFields? (fieldsLabel constructor british ++ rest) = some (constructor, rest) := by
  have hquoted (t : List Char) :
      quoted? (['‘'] ++ constructor ++ ['’'] ++ t) = some (constructor, t) :=
    quoted?_eq_some.2 ⟨rfl, hc⟩
  unfold missingFields? fieldsLabel
  rw [List.append_assoc, Option.bind_eq_bind, after?_append, Option.bind_some, List.append_assoc,
    Option.bind_eq_bind, hquoted, Option.bind_some]
  dsimp only
  rw [List.append_assoc, after?_append, Option.bind_some]
  cases british <;> rfl

theorem prefix_of_missingFields? {found : List Char × List Char}
    (h : missingFields? s = some found) : "Fields of ".toList <+: s := by
  unfold missingFields? at h
  rw [Option.bind_eq_bind, Option.bind_eq_some_iff] at h
  obtain ⟨r, hr, -⟩ := h
  exact ⟨r, (stripPrefix?_eq_some.1 hr).symm⟩

/-- The fields behind the first label of a message are suggested for its constructor. -/
theorem addMissingRecordFields_eq (hd : d.negatives = []) {constructor before : List Char}
    (hc : Closed constructor) (hbefore : ¬ "Fields of ".toList <:+: before) {british : Bool}
    (hmessage : curledMessage d = before ++ (fieldsLabel constructor british ++ rest))
    (hne : missingFieldNames rest ≠ []) :
    ∃ own, placeOf d = .ok own ∧ addMissingRecordFields d =
      .ok [⟨own, .addMissingRecordFields (String.ofList constructor)
        ((missingFieldNames rest).map String.ofList)⟩] := by
  obtain ⟨own, hown⟩ := placeOf_ok hd
  have hfound : search? missingFields? (curledMessage d) = some (constructor, rest) := by
    obtain ⟨r, hr⟩ : ∃ r, fieldsLabel constructor british ++ rest = "Fields of ".toList ++ r :=
      ⟨_, List.append_assoc ..⟩
    have hfirst := search?_of_some (missingFields?_label hc british rest)
    rw [hr] at hfirst
    rw [hmessage, hr]
    exact (search?_label (by decide) (by decide) prefix_of_missingFields? hbefore _).trans hfirst
  obtain ⟨f, fs, hfs⟩ := List.exists_cons_of_ne_nil hne
  refine ⟨own, hown, ?_⟩
  simp only [addMissingRecordFields, hfound, hfs, hown]
  rfl

/-- The fields of a list are suggested in order, wherever the list is wrapped. -/
theorem addMissingRecordFields_listed (hd : d.negatives = []) {constructor before : List Char}
    (hc : Closed constructor) (hbefore : ¬ "Fields of ".toList <:+: before) {british : Bool}
    {names ps : List (List Char)} (h : List.Forall₂ Padded names ps)
    (hnames : ∀ f ∈ names, IsField f) (hne : names ≠ []) (hs : Stops s)
    (hmessage : curledMessage d =
      before ++ (fieldsLabel constructor british ++ (List.intercalate [','] ps ++ s))) :
    ∃ own, placeOf d = .ok own ∧ addMissingRecordFields d =
      .ok [⟨own, .addMissingRecordFields (String.ofList constructor) (names.map String.ofList)⟩] := by
  have hlisted := missingFieldNames_listed h hnames hs
  have heq := addMissingRecordFields_eq hd hc hbefore hmessage (hlisted ▸ hne)
  rwa [hlisted] at heq

/-- The fields that stand with their types are suggested in order, if a double colon stands on the first
    line of each type only. -/
theorem addMissingRecordFields_typed (hd : d.negatives = []) {constructor before : List Char}
    (hc : Closed constructor) (hbefore : ¬ "Fields of ".toList <:+: before) {british : Bool}
    {lead : List Char} (hlead : ∀ c ∈ lead, isBlank c = true ∧ c ≠ '\n') {es : List Declared}
    (hne : es ≠ []) (hs : Stops s)
    (hmessage : curledMessage d =
      before ++ (fieldsLabel constructor british ++ (declarations lead es ++ s))) :
    ∃ own, placeOf d = .ok own ∧ addMissingRecordFields d =
      .ok [⟨own, .addMissingRecordFields (String.ofList constructor)
        ((es.map Declared.name).map String.ofList)⟩] := by
  have htyped := missingFieldNames_typed hlead hne hs
  have hnames : missingFieldNames (declarations lead es ++ s) ≠ [] := by
    rw [htyped]
    simpa using hne
  have heq := addMissingRecordFields_eq hd hc hbefore hmessage hnames
  rwa [htyped] at heq

theorem spaces_blank (n : Nat) : ∀ c ∈ List.replicate n ' ', isBlank c = true ∧ c ≠ '\n' := by
  intro c hc
  rw [List.eq_of_mem_replicate hc]
  decide

/-- Two fields, the type of the first over two lines. -/
theorem addMissingRecordFields_typed_two :
    let d : Diagnostic :=
      { severity := .error, file := "src/Foo.hs", line := 10, column := 3, endLine := 10,
        endColumn := 9, message := "• Fields of ‘Config’ not initialised:\n    port :: Proxy\n" ++
          "              Int\n    host :: (a :: Type)\n• In the expression: Config \x7b\x7d" }
    ∃ own, placeOf d = .ok own ∧ addMissingRecordFields d =
      .ok [⟨own, .addMissingRecordFields "Config" ["port", "host"]⟩] := by
  intro d
  let port : Declared :=
    { name := "port".toList, indent := List.replicate 4 ' ', gap := List.replicate 1 ' ',
      type := " Proxy".toList, more := ["              Int".toList], isField := by decide,
      indent_blank := spaces_blank 4, gap_blank := spaces_blank 1, type_unbroken := by decide,
      more_unbroken := by decide, more_goes := by decide, more_plain := by decide }
  let host : Declared :=
    { name := "host".toList, indent := List.replicate 4 ' ', gap := List.replicate 1 ' ',
      type := " (a :: Type)".toList, more := [], isField := by decide, indent_blank := spaces_blank 4,
      gap_blank := spaces_blank 1, type_unbroken := by decide, more_unbroken := by decide,
      more_goes := by decide, more_plain := by decide }
  have hmessage : curledMessage d = "• ".toList ++ (fieldsLabel "Config".toList true ++
      (declarations [] [port, host] ++ "\n• In the expression: Config \x7b\x7d".toList)) := by
    decide +kernel
  exact addMissingRecordFields_typed rfl (by decide) (by decide) (List.forall_mem_nil _) (by decide)
    (by decide) hmessage

/-- A further line of a type with a double colon is taken for a field, where the list of the same fields
    is read as it is. -/
theorem addMissingRecordFields_astray :
    let message (text : String) : Diagnostic :=
      { severity := .error, file := "src/Foo.hs", line := 10, column := 3, endLine := 10,
        endColumn := 9, message := text }
    let place : Span := ⟨⟨10, 3, 10, 9⟩, "src/Foo.hs"⟩
    addMissingRecordFields (message ("• Fields of ‘Config’ not initialised:\n    port :: Proxy\n" ++
        "              (a :: Type)\n    host :: String\n• In the expression: Config \x7b\x7d")) =
      .ok [⟨place, .addMissingRecordFields "Config" ["port", "(a", "host"]⟩] ∧
    addMissingRecordFields (message ("• Fields of ‘Config’ not initialised: port, host\n" ++
        "• In the expression: Config \x7b\x7d")) =
      .ok [⟨place, .addMissingRecordFields "Config" ["port", "host"]⟩] := by
  decide +kernel

end Suggestion

end GhciHost
