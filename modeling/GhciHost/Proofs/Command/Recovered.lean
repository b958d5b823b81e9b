import GhciHost.Proofs.Text.Replaced
import GhciHost.Proofs.Text.Written
import GhciHost.Worker.Command

/-!
# Queries are read back

A query about a place is one line: its name, the file in quotes, four numbers, and a text in quotes.
Whoever reads it undoes the quotes by three escapes.  The reader here takes nothing else for a
quoted text, so what it accepts is what quoting writes, and where a quoted text ends is never in
doubt.

* `quote_eq_passes`   one escape for each character is what three passes over the text come to;
* `readQuoted?_eq_some_iff`   what is read as a quoted text;
* `SpanQuery.read?_command`   a query is read back whole;
* `spanQueries_recovered`   so it is one line, and no two queries are written alike.
-/

namespace GhciHost.Command

open Text

/-! ## Quoting in passes -/

/-- The text with its backslashes escaped, then its quotes, then its line feeds. -/
def escapedInPasses (text : List Char) : List Char :=
  replacePhrase ['\n'] ['\\', 'n'] <| replacePhrase ['"'] ['\\', '"'] <|
    replacePhrase ['\\'] ['\\', '\\'] text

/-- No pass escapes what an earlier one wrote: backslashes come first, and neither escaped quotes
    nor backslashes hold a line feed. -/
theorem escapedInPasses_eq (text : List Char) : escapedInPasses text = text.flatMap quotedChar := by
  simp only [escapedInPasses, replacePhrase_singleton, List.flatMap_assoc]
  refine congrArg (text.flatMap ·) (funext fun c => ?_)
  unfold quotedChar
  by_cases hbackslash : c = '\\'
  · subst hbackslash
    rfl
  by_cases hquote : c = '"'
  · subst hquote
    rfl
  by_cases hfeed : c = '\n'
  · subst hfeed
    rfl
  simp [hbackslash, hquote, hfeed]

/-- With line feeds first, the backslash that is written for one would be escaped once more. -/
example : replacePhrase ['\\'] ['\\', '\\'] (replacePhrase ['\n'] ['\\', 'n'] ['\n']) =
    ['\\', '\\', 'n'] ∧ escapedInPasses ['\n'] = ['\\', 'n'] := by decide

theorem quote_eq_passes (text : List Char) :
    quote text = ['"'] ++ escapedInPasses text ++ ['"'] := by
  rw [quote, escapedInPasses_eq]

/-! ## Reading quoted texts -/

/-- Read a text up to its closing quote; the answer is the text and what stands behind the quote.
    A line feed is never written as it is. -/
def readUpToQuote? : List Char → Option (List Char × List Char)
  | [] => none
  | '"' :: s => some ([], s)
  | '\n' :: _ => none
  | '\\' :: '\\' :: s => (readUpToQuote? s).map fun (text, rest) => ('\\' :: text, rest)
  | '\\' :: '"' :: s => (readUpToQuote? s).map fun (text, rest) => ('"' :: text, rest)
  | '\\' :: 'n' :: s => (readUpToQuote? s).map fun (text, rest) => ('\n' :: text, rest)
  | '\\' :: _ => none
  | c :: s => (readUpToQuote? s).map fun (text, rest) => (c :: text, rest)

/-- Read a text in quotes. -/
def readQuoted? : List Char → Option (List Char × List Char)
  | '"' :: s => readUpToQuote? s
  | _ => none

/-- A character is read from what is written for it. -/
theorem readUpToQuote?_quotedChar (c : Char) (s : List Char) :
    readUpToQuote? (quotedChar c ++ s) =
      (readUpToQuote? s).map fun (text, rest) => (c :: text, rest) := by
  unfold quotedChar
  split
  · next h => rw [h]; rfl
  split
  · next h => rw [h]; rfl
  split
  · next h => rw [h]; rfl
  next hbackslash hquote hfeed =>
  rw [List.singleton_append, readUpToQuote?]
  all_goals simp_all

/-- What is written for a text is read up to the quote behind it, whatever follows. -/
theorem readUpToQuote?_flatMap (text rest : List Char) :
    readUpToQuote? (text.flatMap quotedChar ++ '"' :: rest) = some (text, rest) := by
  induction text with
  | nil => rfl
  | cons c text ih =>
    rw [List.flatMap_cons, List.append_assoc, readUpToQuote?_quotedChar, ih]
    rfl

theorem readQuoted?_quote (text rest : List Char) :
    readQuoted? (quote text ++ rest) = some (text, rest) := by
  have hsplit : quote text ++ rest = '"' :: (text.flatMap quotedChar ++ '"' :: rest) := by
    simp [quote]
  rw [hsplit, readQuoted?, readUpToQuote?_flatMap]

/-- Nothing else is read up to a quote. -/
theorem eq_of_readUpToQuote? {s text rest : List Char} (h : readUpToQuote? s = some (text, rest)) :
    s = text.flatMap quotedChar ++ '"' :: rest := by
  fun_induction readUpToQuote? s generalizing text with
  | case1 => cases h
  | case2 s =>
    cases h
    rfl
  | case3 => cases h
  | case4 s ih | case5 s ih | case6 s ih =>
    obtain ⟨⟨t, r⟩, hread, heq⟩ := Option.map_eq_some_iff.1 h
    cases heq
    rw [ih hread]
    rfl
  | case7 => cases h
  | case8 c s hquote hfeed hbackslash hquoted hn hno ih =>
    obtain ⟨⟨t, r⟩, hread, heq⟩ := Option.map_eq_some_iff.1 h
    cases heq
    rw [ih hread, List.flatMap_cons]
    simp_all [quotedChar]

theorem readQuoted?_eq_some_iff {s text rest : List Char} :
    readQuoted? s = some (text, rest) ↔ s = quote text ++ rest := by
  constructor
  · intro h
    unfold readQuoted? at h
    split at h
    · rw [eq_of_readUpToQuote? h]
      simp [quote]
    · cases h
  · rintro rfl
    exact readQuoted?_quote text rest

/-! ## Reading queries -/

/-- The queries about a text at a place. -/
inductive SpanQuery
  | typeAt
  | uses
  | locAt
  | completeAt
deriving DecidableEq, Repr

namespace SpanQuery

/-- The name of a query. -/
def name : SpanQuery → String
  | typeAt => "type-at"
  | uses => "uses"
  | locAt => "loc-at"
  | completeAt => "complete-at"

/-- The query of a name. -/
def ofName? (name : String) : Option SpanQuery :=
  [typeAt, uses, locAt, completeAt].find? (·.name == name)

/-- The command that asks a query. -/
def command : SpanQuery → Span → String → String
  | typeAt => Command.typeAt
  | uses => Command.uses
  | locAt => Command.locAt
  | completeAt => Command.completeAt

variable (q : SpanQuery)

theorem ofName?_name : ofName? q.name = some q := by cases q <;> decide

theorem command_eq : q.command = spanQuery q.name := by cases q <;> rfl

theorem space_not_mem_name : ' ' ∉ q.name.toList := by cases q <;> decide

theorem lineFeed_not_mem_name : '\n' ∉ q.name.toList := by cases q <;> decide

end SpanQuery

/-- Read a space and the number behind it. -/
def readField? (s : List Char) : Option (Nat × List Char) := do
  let s ← stripPrefix? [' '] s
  let digits := s.takeWhile Char.isDigit
  if digits.isEmpty then none else some (readNat digits, s.dropWhile Char.isDigit)

/-- A number is read up to the space behind it. -/
theorem readField?_showNat (n : Nat) (s : List Char) :
    readField? (' ' :: (showNat n ++ ' ' :: s)) = some (n, ' ' :: s) := by
  have hspace : ∀ c ∈ (' ' :: s).head?, c.isDigit = false := fun _ hc =>
    Option.mem_some_iff.1 hc ▸ rfl
  obtain ⟨htake, hdrop⟩ :=
    takeWhile_dropWhile_append (s := showNat n) (fun _ => isDigit_of_mem_showNat) hspace
  have hsome : (showNat n).isEmpty = false := List.isEmpty_eq_false_iff.2 (showNat_ne_nil n)
  have hread : readNat (showNat n) = n := readNat_showNat n
  rw [readField?, stripPrefix?_eq_some.2 (List.singleton_append (l := showNat n ++ ' ' :: s)).symm]
  simp only [Option.bind_eq_bind, Option.bind_some, htake, hdrop, hsome, hread, Bool.false_eq_true,
    if_false]

/-- Read a query back: what is asked, at which place, about which text. -/
def SpanQuery.read? (command : String) : Option (SpanQuery × Span × String) := do
  let s ← stripPrefix? [':'] command.toList
  let query ← ofName? (String.ofList (s.takeWhile (· != ' ')))
  let s ← stripPrefix? [' '] (s.dropWhile (· != ' '))
  let (file, s) ← readQuoted? s
  let (line, s) ← readField? s
  let (column, s) ← readField? s
  let (endLine, s) ← readField? s
  let (endColumn, s) ← readField? s
  let s ← stripPrefix? [' '] s
  let (text, s) ← readQuoted? s
  if s.isEmpty then
    some (query, { line, column, endLine, endColumn, file := String.ofList file },
      String.ofList text)
  else none

/-- A query as it is written, with a space in front of each of its parts. -/
theorem toList_spanQuery (name : String) (span : Span) (text : String) :
    (spanQuery name span text).toList = ':' :: (name.toList ++ ' ' :: (quote span.file.toList ++
      ' ' :: (showNat span.line ++ ' ' :: (showNat span.column ++ ' ' :: (showNat span.endLine ++
        ' ' :: (showNat span.endColumn ++ ' ' :: quote text.toList)))))) := by
  delta spanQuery
  simp only [String.toList_ofList, List.append_assoc, List.cons_append, List.nil_append]

/-- The name of a query ends where the first space stands. -/
theorem SpanQuery.takeWhile_dropWhile_name (q : SpanQuery) (s : List Char) :
    (q.name.toList ++ ' ' :: s).takeWhile (· != ' ') = q.name.toList ∧
      (q.name.toList ++ ' ' :: s).dropWhile (· != ' ') = ' ' :: s := by
  have hname : ∀ c ∈ q.name.toList, (c != ' ') = true := fun c hc =>
    bne_iff_ne.2 fun h => q.space_not_mem_name (h ▸ hc)
  exact takeWhile_dropWhile_append hname fun _ hc => Option.mem_some_iff.1 hc ▸ rfl

/-- A query is read back whole. -/
theorem SpanQuery.read?_command (q : SpanQuery) (span : Span) (text : String) :
    read? (q.command span text) = some (q, span, text) := by
  have hlast : readQuoted? (quote text.toList) = some (text.toList, []) := by
    simpa using readQuoted?_quote text.toList []
  have hprefix (c : Char) (s : List Char) : stripPrefix? [c] (c :: s) = some s :=
    stripPrefix?_eq_some.2 rfl
  rw [q.command_eq, read?, toList_spanQuery]
  simp only [Option.bind_eq_bind, hprefix, Option.bind_some, q.takeWhile_dropWhile_name,
    String.ofList_toList, q.ofName?_name, readQuoted?_quote, readField?_showNat, hlast,
    List.isEmpty_nil, if_true]

/-! ## One line for each query -/

theorem lineFeed_not_mem_quote (text : List Char) : '\n' ∉ quote text := by
  simp only [quote, List.mem_append, List.mem_flatMap, not_or, not_exists, not_and]
  exact ⟨⟨by decide, fun c _ h => quotedChar_ne_lineFeed h rfl⟩, by decide⟩

theorem lineFeed_not_mem_showNat (n : Nat) : '\n' ∉ showNat n := fun h =>
  absurd (isDigit_of_mem_showNat h) (by decide)

theorem SpanQuery.lineFeed_not_mem_command (q : SpanQuery) (span : Span) (text : String) :
    '\n' ∉ (q.command span text).toList := by
  rw [q.command_eq, toList_spanQuery]
  simp [q.lineFeed_not_mem_name, lineFeed_not_mem_quote, lineFeed_not_mem_showNat]

/-- Two queries that are written alike are one. -/
theorem SpanQuery.command_inj {q q' : SpanQuery} {span span' : Span} {text text' : String} :
    q.command span text = q'.command span' text' ↔ q = q' ∧ span = span' ∧ text = text' := by
  constructor
  · intro h
    have hread := q.read?_command span text
    rw [h, q'.read?_command span' text'] at hread
    simp only [Option.some.injEq, Prod.mk.injEq] at hread
    exact ⟨hread.1.symm, hread.2.1.symm, hread.2.2.symm⟩
  · rintro ⟨rfl, rfl, rfl⟩
    rfl

/-- What three passes write for a text in quotes is read back, whatever stands behind it, up to its
    own closing quote, and nothing else is read as that text.  A query is one line; what it asks,
    its file, its four numbers and its text are read back from it; and no two queries are written
    alike. -/
theorem spanQueries_recovered :
    (∀ text, quote text = ['"'] ++ escapedInPasses text ++ ['"']) ∧
      (∀ s text rest, readQuoted? s = some (text, rest) ↔ s = quote text ++ rest) ∧
      (∀ (q : SpanQuery) span text, '\n' ∉ (q.command span text).toList ∧
        SpanQuery.read? (q.command span text) = some (q, span, text)) ∧
      ∀ (q q' : SpanQuery) span span' text text',
        q.command span text = q'.command span' text' ↔ q = q' ∧ span = span' ∧ text = text' :=
  ⟨quote_eq_passes, fun _ _ _ => readQuoted?_eq_some_iff,
    fun q span text => ⟨q.lineFeed_not_mem_command span text, q.read?_command span text⟩,
    fun _ _ _ _ _ _ => SpanQuery.command_inj⟩

end GhciHost.Command
