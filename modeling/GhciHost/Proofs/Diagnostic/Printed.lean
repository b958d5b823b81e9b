import GhciHost.Diagnostic.Report
import GhciHost.Proofs.Diagnostic.Placed

/-!
# Printed diagnostics

A compiler prints a diagnostic as its file, its place and its severity in front of the first line of
the message, and the other lines of the message behind some spaces.  Empty lines may stand between
diagnostics.

* `Printed`, `Entry.lines`, `output`   what is printed;
* `Entry.ofBlock_block`   the block of a diagnostic is read as the diagnostic;
* `blocks_output`   each diagnostic that is printed is a block of its own.
-/

namespace GhciHost.Diagnostic

open Text

/-! ## What is printed -/

/-- A text starts with a character that is not blank. -/
def Starts (s : List Char) : Prop := ∃ c ∈ s.head?, isBlank c = false

/-- A text ends with a character that is not blank. -/
def Ends (s : List Char) : Prop := ∃ c ∈ s.getLast?, isBlank c = false

instance (s : List Char) : Decidable (Starts s) := s.head?.decidableExistsMem

instance (s : List Char) : Decidable (Ends s) := s.getLast?.decidableExistsMem

/-- A diagnostic that a compiler prints. -/
structure Printed where
  severity : Severity
  file : List Char
  place : Location.Place
  /-- The first line of the message. -/
  first : List Char
  /-- The other lines, as they stand in relation to each other. -/
  more : List (List Char) := []
  /-- A splice is told of in other words. -/
  not_splice : severity ≠ .splice := by decide
  file_start : Starts file := by decide
  file_colon : ':' ∉ file := by decide
  file_unbroken : Unbroken file := by decide
  place_readable : place.Readable := by decide
  first_start : Starts first := by decide
  first_end : Ends first := by decide
  first_unbroken : Unbroken first := by decide
  more_unbroken : ∀ l ∈ more, Unbroken l := by decide
  more_filled : ∀ l ∈ more, allBlank l = false := by decide
  more_message : ∀ l ∈ more, isExcerpt l = false := by decide
  /-- Some line stands at the margin. -/
  more_margin : more ≠ [] → ∃ l ∈ more, isIndented l = false := by decide
  more_end : ∀ l ∈ more.getLast?, Ends l := by decide
  /-- A warning is no deferred error. -/
  plain : severity = .warning → isPromoted (List.intercalate ['\n'] (first :: more)) = false := by
    decide

namespace Printed

variable (d : Printed)

/-- The message. -/
def message : List Char := List.intercalate ['\n'] (d.first :: d.more)

/-- What is printed, as a diagnostic. -/
def diagnostic : Diagnostic where
  severity := d.severity
  file := String.ofList d.file
  line := d.place.location.line
  column := d.place.location.column
  endLine := d.place.location.endLine
  endColumn := d.place.location.endColumn
  message := String.ofList d.message

/-- The word for the severity, and the first line of the message. -/
def title : List Char := d.severity.name.toList ++ ":".toList ++ ' ' :: d.first

/-- The first line that is printed. -/
def head : List Char := d.file ++ ':' :: (d.place.written.text ++ (":".toList ++ ' ' :: d.title))

end Printed

/-- A diagnostic, and how it is laid out. -/
structure Entry where
  diagnostic : Printed
  /-- How many spaces stand in front of the lines of the message after the first. -/
  indent : Nat
  /-- How many empty lines come behind it. -/
  gap : Nat
  indent_pos : 0 < indent := by decide

namespace Entry

variable (e : Entry)

/-- The lines of the message after the first. -/
def body : List (List Char) := e.diagnostic.more.map (List.replicate e.indent ' ' ++ ·)

/-- The lines that are printed. -/
def lines : List (List Char) := e.diagnostic.head :: (e.body ++ List.replicate e.gap [])

/-- The block that is printed. -/
def block : Block := ⟨⟨e.diagnostic.file, e.diagnostic.place.written, e.diagnostic.title⟩, e.body⟩

end Entry

/-- Diagnostics as they are printed one after the other. -/
def output (es : List Entry) : String :=
  String.ofList (List.intercalate ['\n'] (es.flatMap Entry.lines))

/-! ## Blanks -/

theorem Starts.trimLeft {s : List Char} (h : Starts s) (t : List Char) :
    Text.trimLeft (s ++ t) = s ++ t := by
  obtain ⟨c, hc, hb⟩ := h
  obtain ⟨r, rfl⟩ := List.head?_eq_some_iff.1 hc
  rw [Text.trimLeft, List.cons_append, List.dropWhile_cons, hb]
  rfl

theorem Ends.trimRight {s : List Char} (h : Ends s) : Text.trimRight s = s := by
  obtain ⟨c, hc, hb⟩ := h
  obtain ⟨r, rfl⟩ := List.getLast?_eq_some_iff.1 hc
  rw [Text.trimRight, List.reverse_append, List.reverse_singleton, List.singleton_append,
    List.dropWhile_cons, hb]
  simp

theorem trim_of_starts_ends {s : List Char} (hs : Starts s) (he : Ends s) : trim s = s := by
  have := hs.trimLeft []
  rw [List.append_nil] at this
  rw [trim, this, he.trimRight]

theorem Ends.append {s : List Char} (h : Ends s) (t : List Char) : Ends (t ++ s) := by
  obtain ⟨c, hc, hb⟩ := h
  obtain ⟨r, rfl⟩ := List.getLast?_eq_some_iff.1 hc
  exact ⟨c, by simp, hb⟩

/-- Spaces in front of a text are trimmed. -/
theorem trimLeft_spaces (n : Nat) (s : List Char) :
    Text.trimLeft (List.replicate n ' ' ++ s) = Text.trimLeft s :=
  List.dropWhile_append_of_pos fun c hc => by
    rw [List.eq_of_mem_replicate hc]
    decide

/-! ## Lines and blocks -/

section

variable {h : Header} {acc ls : List (List Char)}

/-- Text cannot go on with a block: there is none, or its first line is not indented. -/
def Flush (ls : List (List Char)) : Prop := ∀ l ∈ ls.head?, isIndented l = false

/-- A block ends where text begins that cannot go on with it. -/
theorem blocksFrom_flush (hls : Flush ls) :
    blocksFrom (some (h, acc)) ls = ⟨h, acc.reverse⟩ :: blocksFrom none ls := by
  cases ls with
  | nil => rfl
  | cons l ls =>
    have hl : isIndented l = false := hls l rfl
    rw [blocksFrom, blocksFrom, hl]
    rfl

/-- Lines of a message go on with a block. -/
theorem blocksFrom_body {body : List (List Char)}
    (hbody : ∀ l ∈ body, isIndented l = true ∧ allBlank l = false ∧ isExcerpt l = false) :
    blocksFrom (some (h, acc)) (body ++ ls) = blocksFrom (some (h, body.reverse ++ acc)) ls := by
  induction body generalizing acc with
  | nil => rfl
  | cons l body ih =>
    obtain ⟨⟨hi, hb, hx⟩, hbody⟩ := List.forall_mem_cons.1 hbody
    rw [List.cons_append, blocksFrom, hi, hb, hx]
    simp only [Bool.not_false, Bool.and_true, if_true]
    exact (ih hbody).trans (by rw [List.reverse_cons, List.append_assoc]; rfl)

/-- Empty lines open no block. -/
theorem blocksFrom_gap (n : Nat) (ls : List (List Char)) :
    blocksFrom none (List.replicate n [] ++ ls) = blocksFrom none ls := by
  induction n with
  | zero => rfl
  | succ n ih => rw [List.replicate_succ, List.cons_append, blocksFrom]; exact ih

theorem flush_gap (n : Nat) (hls : Flush ls) : Flush (List.replicate n [] ++ ls) := by
  cases n with
  | zero => exact hls
  | succ n =>
    intro l hl
    cases hl
    rfl

/-- An empty line at the end makes no difference. -/
theorem blocksFrom_concat_nil (o : Option (Header × List (List Char))) (ls : List (List Char)) :
    blocksFrom o (ls ++ [[]]) = blocksFrom o ls := by
  induction ls generalizing o with
  | nil =>
    cases o with
    | none => rfl
    | some x => rfl
  | cons l ls ih =>
    cases o with
    | none => exact ih _
    | some x =>
      obtain ⟨h, acc⟩ := x
      simp only [List.cons_append, blocksFrom, ih]

end

namespace Printed

variable (d : Printed)

theorem starts_title : Starts d.title := by
  have hs := d.not_splice
  unfold title
  generalize d.severity = v at hs ⊢
  cases v with
  | error => exact ⟨'e', rfl, by decide⟩
  | warning => exact ⟨'w', rfl, by decide⟩
  | splice => exact absurd rfl hs

theorem ends_title : Ends d.title :=
  (d.first_end.append [' ']).append _

theorem isIndented_head : isIndented d.head = false := by
  obtain ⟨c, hc, hb⟩ := d.file_start
  obtain ⟨s, hs⟩ := List.head?_eq_some_iff.1 hc
  rw [head, hs, List.cons_append, isIndented]
  have hspace : c ≠ ' ' := by
    rintro rfl
    exact absurd hb (by decide)
  have htab : c ≠ '\t' := by
    rintro rfl
    exact absurd hb (by decide)
  simp [hspace, htab]

/-- The first line that is printed opens a block. -/
theorem header?_head : header? d.head = some ⟨d.file, d.place.written, d.title⟩ := by
  obtain ⟨c, hc, hb⟩ := d.file_start
  obtain ⟨s, hs⟩ := List.head?_eq_some_iff.1 hc
  have hcolon := d.file_colon
  have hunbroken := d.file_unbroken
  rw [hs] at hcolon hunbroken
  have hline : '\n' ∉ s := fun hn =>
    absurd (hunbroken '\n' (List.mem_cons_of_mem _ hn)) (by decide)
  have hbehind : Location.Behind (":".toList ++ ' ' :: d.title) := by
    intro x hx
    cases hx
    decide
  rw [header?, head, hs, Location.fileThen?_text d.place.isNumeral_written hbehind
    (after?_append ":" _) hb (fun hm => hcolon (List.mem_cons_of_mem _ hm)) hline]
  obtain ⟨x, hx, hbx⟩ := d.starts_title
  obtain ⟨t, ht⟩ := List.head?_eq_some_iff.1 hx
  have hspace : x ≠ ' ' := by
    rintro rfl
    exact absurd hbx (by decide)
  have htab : x ≠ '\t' := by
    rintro rfl
    exact absurd hbx (by decide)
  simp [ht, hspace, htab]

end Printed

namespace Entry

variable (e : Entry)

/-- The other lines of the message go on with the block. -/
theorem mem_body {l : List Char} (hl : l ∈ e.body) :
    isIndented l = true ∧ allBlank l = false ∧ isExcerpt l = false := by
  obtain ⟨m, hm, rfl⟩ := List.mem_map.1 hl
  refine ⟨?_, ?_, ?_⟩
  · obtain ⟨n, hn⟩ := Nat.exists_eq_succ_of_ne_zero (Nat.ne_of_gt e.indent_pos)
    rw [hn]
    rfl
  · rw [allBlank_append, e.diagnostic.more_filled m hm, Bool.and_false]
  · have := e.diagnostic.more_message m hm
    rw [isExcerpt] at this ⊢
    rwa [trimLeft_spaces]

theorem flush_lines (ls : List (List Char)) : Flush (e.lines ++ ls) := by
  intro l hl
  cases hl
  exact e.diagnostic.isIndented_head

/-- What is printed is a block, whatever follows that cannot go on with it. -/
theorem blocksFrom_lines {ls : List (List Char)} (hls : Flush ls) :
    blocksFrom none (e.lines ++ ls) = e.block :: blocksFrom none ls := by
  rw [lines, List.cons_append, List.append_assoc, blocksFrom, e.diagnostic.isIndented_head]
  simp only [Bool.false_eq_true, if_false, e.diagnostic.header?_head, Option.map_some]
  rw [blocksFrom_body fun l => e.mem_body, blocksFrom_flush (flush_gap e.gap hls),
    blocksFrom_gap, List.append_nil, List.reverse_reverse]
  rfl

end Entry

theorem flush_flatMap (es : List Entry) : Flush (es.flatMap Entry.lines) := by
  cases es with
  | nil => exact fun l hl => absurd hl (by simp)
  | cons e es =>
    rw [List.flatMap_cons]
    exact e.flush_lines _

theorem blocksFrom_flatMap (es : List Entry) :
    blocksFrom none (es.flatMap Entry.lines) = es.map Entry.block := by
  induction es with
  | nil => rfl
  | cons e es ih =>
    rw [List.flatMap_cons, e.blocksFrom_lines (flush_flatMap es), ih, List.map_cons]

/-! ## Indentation -/

section

variable {pad : List Char}

theorem commonPrefix_append (s t : List Char) :
    commonPrefix (pad ++ s) (pad ++ t) = pad ++ commonPrefix s t := by
  induction pad with
  | nil => rfl
  | cons c pad ih => rw [List.cons_append, List.cons_append, commonPrefix, if_pos rfl, ih]; rfl

/-- What lines share grows by what is put in front of all of them. -/
theorem foldl_commonPrefix_append (ls : List (List Char)) (m : List Char) :
    (ls.map (pad ++ ·)).foldl commonPrefix (pad ++ m) = pad ++ ls.foldl commonPrefix m := by
  induction ls generalizing m with
  | nil => rfl
  | cons l ls ih => rw [List.map_cons, List.foldl_cons, commonPrefix_append, ih, List.foldl_cons]

theorem foldl_commonPrefix_nil (ls : List (List Char)) : ls.foldl commonPrefix [] = [] := by
  induction ls with
  | nil => rfl
  | cons l ls ih => rw [List.foldl_cons, commonPrefix, ih]; exact fun _ _ _ _ h => nomatch h

/-- Lines share nothing with an empty one. -/
theorem foldl_commonPrefix_of_mem {ls : List (List Char)} {m : List Char} (h : [] ∈ m :: ls) :
    ls.foldl commonPrefix m = [] := by
  induction ls generalizing m with
  | nil =>
    rw [List.mem_singleton] at h
    rw [← h]
    rfl
  | cons l ls ih =>
    rw [List.foldl_cons]
    rcases List.mem_cons.1 h with rfl | h
    · exact foldl_commonPrefix_nil _
    · rcases List.mem_cons.1 h with rfl | h
      · have e : commonPrefix m [] = [] := by cases m <;> rfl
        rw [e]
        exact foldl_commonPrefix_nil _
      · exact ih (List.mem_cons_of_mem _ h)

end

theorem indentation_spaces (n : Nat) (l : List Char) :
    indentation (List.replicate n ' ' ++ l) = List.replicate n ' ' ++ indentation l :=
  List.takeWhile_append_of_pos fun c hc => by
    rw [List.eq_of_mem_replicate hc]
    decide

theorem indentation_of_flush {l : List Char} (h : isIndented l = false) : indentation l = [] := by
  cases l with
  | nil => rfl
  | cons c l =>
    have h : (c == ' ' || c == '\t') = false := h
    rw [indentation, List.takeWhile_cons, h]
    rfl

/-- Spaces in front of all lines are dropped, if one of the lines stands at the margin. -/
theorem dedent_spaces (n : Nat) {ls : List (List Char)}
    (h : ls ≠ [] → ∃ l ∈ ls, isIndented l = false) :
    dedent (ls.map (List.replicate n ' ' ++ ·)) = ls := by
  cases ls with
  | nil => rfl
  | cons l ls =>
    obtain ⟨l₀, hmem, hl₀⟩ := h (List.cons_ne_nil _ _)
    have hmargin : ls.foldl (fun m l => commonPrefix m (indentation l)) (indentation l) = [] := by
      rw [← List.foldl_map]
      refine foldl_commonPrefix_of_mem ?_
      rw [← indentation_of_flush hl₀, ← List.map_cons (f := indentation)]
      exact List.mem_map_of_mem hmem
    have hshared : (ls.map (List.replicate n ' ' ++ ·)).foldl
        (fun m l => commonPrefix m (indentation l)) (indentation (List.replicate n ' ' ++ l)) =
        List.replicate n ' ' := by
      have e : (ls.map (List.replicate n ' ' ++ ·)).map indentation =
          (ls.map indentation).map (List.replicate n ' ' ++ ·) := by
        rw [List.map_map, List.map_map]
        exact List.map_congr_left fun l _ => indentation_spaces n l
      rw [← List.foldl_map, indentation_spaces, e, foldl_commonPrefix_append, List.foldl_map,
        hmargin, List.append_nil]
    rw [List.map_cons, dedent]
    simp only [hshared, List.length_replicate, List.map_cons, List.map_map]
    have hdrop (l : List Char) : (List.replicate n ' ' ++ l).drop n = l := by
      rw [List.drop_append_of_le_length (by simp), List.drop_of_length_le (by simp)]
      rfl
    rw [hdrop]
    congr 1
    exact List.map_id'' hdrop ls

/-! ## Messages -/

theorem intercalate_append (sep s t : List Char) (ls : List (List Char)) :
    List.intercalate sep ((s ++ t) :: ls) = s ++ List.intercalate sep (t :: ls) := by
  cases ls with
  | nil => simp
  | cons l ls => simp [List.intercalate]

/-- Joined texts end as the last of them ends. -/
theorem Ends.intercalate (sep : List Char) {l : List Char} {ls : List (List Char)}
    (h : ∀ m ∈ (l :: ls).getLast?, Ends m) : Ends (List.intercalate sep (l :: ls)) := by
  induction ls generalizing l with
  | nil =>
    rw [List.intercalate_singleton]
    exact h l rfl
  | cons l' ls ih =>
    have e : List.intercalate sep (l :: l' :: ls) =
        (l ++ sep) ++ List.intercalate sep (l' :: ls) := by simp [List.intercalate]
    rw [e]
    refine (ih fun m hm => h m ?_).append _
    rwa [List.getLast?_cons_cons]

namespace Printed

variable (d : Printed)

theorem starts_message : Starts d.message := by
  obtain ⟨c, hc, hb⟩ := d.first_start
  obtain ⟨s, hs⟩ := List.head?_eq_some_iff.1 hc
  refine ⟨c, ?_, hb⟩
  rw [message, hs, show c :: s = [c] ++ s from rfl, intercalate_append]
  rfl

theorem ends_message : Ends d.message := by
  refine Ends.intercalate _ fun m hm => ?_
  cases hmore : d.more with
  | nil =>
    rw [hmore, List.getLast?_singleton] at hm
    cases hm
    exact d.first_end
  | cons l ls =>
    rw [hmore, List.getLast?_cons_cons, ← hmore] at hm
    exact d.more_end m hm

/-- The severity is read off the message, and the rest of the message with it. -/
theorem classify_message :
    classify (d.severity.name.toList ++ ":".toList ++ ' ' :: d.message) =
      (d.severity, d.message, false) := by
  have htrim : Text.trimLeft (' ' :: d.message) = d.message := by
    have := d.starts_message.trimLeft []
    rw [List.append_nil] at this
    exact this
  have hplain := d.plain
  have hs := d.not_splice
  cases hsev : d.severity with
  | error =>
    rw [classify, if_neg (by exact Bool.false_ne_true), if_neg (by exact Bool.false_ne_true),
      if_pos (by rfl)]
    exact congrArg (fun m => (Severity.error, m, false)) htrim
  | warning =>
    rw [classify, if_pos (by rfl)]
    have e : Text.trimLeft ((Severity.warning.name.toList ++ ":".toList ++ ' ' :: d.message).drop
        "warning:".length) = d.message := htrim
    dsimp only
    rw [e, if_neg]
    rw [show isPromoted d.message = false from hplain hsev]
    exact Bool.false_ne_true
  | splice => exact absurd hsev hs

end Printed

namespace Entry

variable (e : Entry)

theorem messageOf_block :
    messageOf e.block =
      e.diagnostic.severity.name.toList ++ ":".toList ++ ' ' :: e.diagnostic.message := by
  have hfirst : trim e.diagnostic.title = e.diagnostic.title :=
    trim_of_starts_ends e.diagnostic.starts_title e.diagnostic.ends_title
  have hfilled : e.diagnostic.title.isEmpty = false := by
    obtain ⟨c, hc, -⟩ := e.diagnostic.starts_title
    obtain ⟨s, hs⟩ := List.head?_eq_some_iff.1 hc
    rw [hs]
    rfl
  have hmore : dedent e.body = e.diagnostic.more :=
    dedent_spaces e.indent e.diagnostic.more_margin
  rw [messageOf]
  simp only [block, hfirst, hfilled, hmore, Bool.false_eq_true, if_false, List.singleton_append]
  rw [Printed.title, intercalate_append]
  exact congrArg _ (intercalate_append ['\n'] [' '] _ _)

/-- A printed block is read as the diagnostic. -/
theorem ofBlock_block : ofBlock [] e.block = .ok (e.diagnostic.diagnostic, false) := by
  have hread : e.block.header.place.read = .ok e.diagnostic.place.location :=
    e.diagnostic.place.read_written e.diagnostic.place_readable
  have htrim : trim e.diagnostic.message = e.diagnostic.message :=
    trim_of_starts_ends e.diagnostic.starts_message e.diagnostic.ends_message
  rw [ofBlock, hread, messageOf_block, e.diagnostic.classify_message]
  simp only [htrim]
  rfl

end Entry

/-! ## Output -/

theorem unbroken_written (p : Location.Place) : Unbroken p.written.text := by
  cases p <;>
    simp only [Location.Place.written, Location.Written.text, unbroken_append, unbroken_showNat,
      true_and, and_true] <;>
    decide

theorem Printed.unbroken_head (d : Printed) : Unbroken d.head := by
  have hname : Unbroken d.severity.name.toList := by cases d.severity <;> decide
  simp only [Printed.head, Printed.title, unbroken_append, unbroken_cons]
  exact ⟨d.file_unbroken, by decide, unbroken_written d.place, by decide, by decide,
    ⟨hname, by decide⟩, by decide, d.first_unbroken⟩

theorem Entry.unbroken_lines (e : Entry) : ∀ l ∈ e.lines, Unbroken l := by
  intro l hl
  rcases List.mem_cons.1 hl with rfl | hl
  · exact e.diagnostic.unbroken_head
  rcases List.mem_append.1 hl with hl | hl
  · obtain ⟨m, hm, rfl⟩ := List.mem_map.1 hl
    refine unbroken_append.2 ⟨fun c hc => ?_, e.diagnostic.more_unbroken m hm⟩
    rw [List.eq_of_mem_replicate hc]
    decide
  · rw [List.eq_of_mem_replicate hl]
    exact List.forall_mem_nil _

/-- Each diagnostic that is printed is a block of its own. -/
theorem blocks_output (es : List Entry) : blocks (output es).toList = es.map Entry.block := by
  rw [blocks, output, String.toList_ofList, ← blocksFrom_flatMap]
  have h : ∀ l ∈ es.flatMap Entry.lines, Unbroken l := fun l hl => by
    obtain ⟨e, -, hl⟩ := List.mem_flatMap.1 hl
    exact e.unbroken_lines l hl
  rcases lines_intercalate h with e | e
  · rw [e]
  · rw [← blocksFrom_concat_nil, e]

end GhciHost.Diagnostic
