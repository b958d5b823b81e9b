import GhciHost.Diagnostic.Location
import GhciHost.Proofs.Text.Written

/-!
# Written places

A place is written as a point, as some columns of one line, or as a span of lines.  What is written
is recognised, and read as the same numbers.

* `written?_text`   a written location is found at the start of a text;
* `fileThen?_text`   and behind the first colon of a line, where a file name stands in front;
* `Place.read_written`   the numbers are those of the place.
-/

namespace GhciHost

theorem Text.after?_append (p : String) (r : List Char) : after? p (p.toList ++ r) = some r :=
  stripPrefix?_eq_some.2 rfl

namespace Location

/-! ## Digits -/

/-- A run of at least one digit. -/
def IsNumeral (ds : List Char) : Prop := ds ≠ [] ∧ ∀ c ∈ ds, Text.isDecimal c = true

theorem isNumeral_showNat (n : Nat) : IsNumeral (Text.showNat n) :=
  ⟨Text.showNat_ne_nil n, fun _ => Text.isDecimal_of_mem_showNat⟩

/-- Digits are taken up to a character that is none. -/
theorem digits?_append {ds r : List Char} (hds : IsNumeral ds)
    (hr : ∀ c ∈ r.head?, Text.isDecimal c = false) : digits? (ds ++ r) = some (ds, r) := by
  have hnone : r.takeWhile Text.isDecimal = [] ∧ r.dropWhile Text.isDecimal = r := by
    cases r with
    | nil => exact ⟨rfl, rfl⟩
    | cons c r =>
      have hc : Text.isDecimal c = false := hr c rfl
      exact ⟨by rw [List.takeWhile_cons, hc]; rfl, by rw [List.dropWhile_cons, hc]; rfl⟩
  rw [digits?, List.takeWhile_append_of_pos hds.2, List.dropWhile_append_of_pos hds.2, hnone.1,
    hnone.2, List.append_nil]
  exact if_neg fun h => hds.1 (List.isEmpty_iff.1 h)

/-- A mark stands between numbers: it does not begin with a digit. -/
def IsMark (p : String) : Prop := ∃ c q, p.toList = c :: q ∧ Text.isDecimal c = false

theorem digits?_mark {ds : List Char} (hds : IsNumeral ds) {p : String} (hp : IsMark p)
    (r : List Char) : digits? (ds ++ (p.toList ++ r)) = some (ds, p.toList ++ r) := by
  obtain ⟨c, q, hp, hc⟩ := hp
  refine digits?_append hds fun x hx => ?_
  rw [hp] at hx
  cases hx
  exact hc

/-- No number begins with a mark. -/
theorem after?_numeral {ds : List Char} (hds : IsNumeral ds) {p : String} (hp : IsMark p)
    (r : List Char) : Text.after? p (ds ++ r) = none := by
  obtain ⟨c, q, hp, hc⟩ := hp
  obtain ⟨d, ds', rfl⟩ := List.exists_cons_of_ne_nil hds.1
  have hd : Text.isDecimal d = true := hds.2 d List.mem_cons_self
  rw [Text.after?, hp, List.cons_append, Text.stripPrefix?, if_neg]
  rintro rfl
  rw [hc] at hd
  cases hd

theorem isMark_colon : IsMark ":" := ⟨':', [], rfl, by decide⟩

theorem isMark_comma : IsMark "," := ⟨',', [], rfl, by decide⟩

theorem isMark_hyphen : IsMark "-" := ⟨'-', [], rfl, by decide⟩

theorem isMark_open : IsMark "(" := ⟨'(', [], rfl, by decide⟩

theorem isMark_close : IsMark ")" := ⟨')', [], rfl, by decide⟩

theorem isMark_between : IsMark ")-(" := ⟨')', _, rfl, by decide⟩

/-! ## Locations -/

namespace Written

/-- The digits of a location. -/
def numerals : Written → List (List Char)
  | span l c l' c' => [l, c, l', c']
  | range l c c' => [l, c, c']
  | point l c => [l, c]

/-- A location in characters. -/
def text : Written → List Char
  | span l c l' c' =>
    "(".toList ++ (l ++ (",".toList ++ (c ++ (")-(".toList ++ (l' ++ (",".toList ++
      (c' ++ ")".toList)))))))
  | range l c c' => l ++ (":".toList ++ (c ++ ("-".toList ++ c')))
  | point l c => l ++ (":".toList ++ c)

end Written

/-- What may stand behind a location: neither a digit nor a hyphen, which would go on with it. -/
def Behind (r : List Char) : Prop := ∀ c ∈ r.head?, Text.isDecimal c = false ∧ c ≠ '-'

section

variable {l c l' c' : List Char}

theorem span?_text (hl : IsNumeral l) (hc : IsNumeral c) (hl' : IsNumeral l') (hc' : IsNumeral c')
    (r : List Char) :
    span? ((Written.span l c l' c').text ++ r) = some (.span l c l' c', r) := by
  simp only [span?, Written.text, List.append_assoc, Text.after?_append, Option.bind_eq_bind,
    Option.bind_some, digits?_mark hl isMark_comma, digits?_mark hc isMark_between,
    digits?_mark hl' isMark_comma, digits?_mark hc' isMark_close]
  rfl

theorem pair?_text (hl : IsNumeral l) (hc : IsNumeral c) {r : List Char}
    (hr : ∀ x ∈ r.head?, Text.isDecimal x = false) :
    pair? (l ++ (":".toList ++ (c ++ r))) = some (l, c, r) := by
  simp only [pair?, Text.after?_append, Option.bind_eq_bind, Option.bind_some,
    digits?_mark hl isMark_colon, digits?_append hc hr]
  rfl

/-- What begins with a number is no span. -/
theorem span?_numeral (hl : IsNumeral l) (r : List Char) : span? (l ++ r) = none := by
  rw [span?, after?_numeral hl isMark_open]
  rfl

theorem after?_hyphen {r : List Char} (hr : Behind r) : Text.after? "-" r = none := by
  cases r with
  | nil => rfl
  | cons c r =>
    have hc : c ≠ '-' := (hr c rfl).2
    exact if_neg fun e => hc e.symm

/-- A written location is found at the start of a text. -/
theorem written?_text {w : Written} (hw : ∀ ds ∈ w.numerals, IsNumeral ds) {r : List Char}
    (hr : Behind r) : written? (w.text ++ r) = some (w, r) := by
  have hdigit : ∀ x ∈ r.head?, Text.isDecimal x = false := fun x hx => (hr x hx).1
  cases w with
  | span l c l' c' =>
    rw [written?, span?_text (hw l (by simp [Written.numerals])) (hw c (by simp [Written.numerals]))
      (hw l' (by simp [Written.numerals])) (hw c' (by simp [Written.numerals]))]
  | range l c c' =>
    have hl : IsNumeral l := hw l (by simp [Written.numerals])
    have hc : IsNumeral c := hw c (by simp [Written.numerals])
    have hc' : IsNumeral c' := hw c' (by simp [Written.numerals])
    have hpair := pair?_text hl hc (r := "-".toList ++ (c' ++ r)) fun x hx => by
      cases hx
      decide
    simp only [written?, Written.text, List.append_assoc, span?_numeral hl, hpair,
      Text.after?_append, Option.bind_some, digits?_append hc' hdigit]
  | point l c =>
    have hl : IsNumeral l := hw l (by simp [Written.numerals])
    have hc : IsNumeral c := hw c (by simp [Written.numerals])
    simp only [written?, Written.text, List.append_assoc, span?_numeral hl,
      pair?_text hl hc hdigit, after?_hyphen hr, Option.bind_none]

/-! ## File names -/

/-- The file name ends before the first colon, if a location stands behind it. -/
theorem behindColon_text {α : Type} {follow : List Char → Option α} {w : Written}
    (hw : ∀ ds ∈ w.numerals, IsNumeral ds) {r : List Char} (hr : Behind r) {a : α}
    (ha : follow r = some a) {file : List Char} (hcolon : ':' ∉ file) (hfile : '\n' ∉ file)
    (acc : List Char) :
    behindColon follow acc (file ++ ':' :: (w.text ++ r)) =
      some (acc.reverse ++ file, w, a) := by
  induction file generalizing acc with
  | nil =>
    rw [List.nil_append, behindColon, if_pos rfl, written?_text hw hr, Option.bind_some,
      List.append_nil]
    dsimp only
    rw [ha]
    rfl
  | cons c file ih =>
    simp only [List.mem_cons, not_or] at hcolon hfile
    rw [List.cons_append, behindColon, if_neg (Ne.symm hcolon.1)]
    dsimp only
    rw [if_neg (Ne.symm hfile.1), ih hcolon.2 hfile.2, List.reverse_cons, List.append_assoc]
    rfl

/-- A file name is found that holds no colon, and the location behind it. -/
theorem fileThen?_text {α : Type} {follow : List Char → Option α} {w : Written}
    (hw : ∀ ds ∈ w.numerals, IsNumeral ds) {r : List Char} (hr : Behind r) {a : α}
    (ha : follow r = some a) {c : Char} {file : List Char} (hc : Text.isBlank c = false)
    (hcolon : ':' ∉ file) (hfile : '\n' ∉ file) :
    fileThen? follow (c :: file ++ ':' :: (w.text ++ r)) = some (c :: file, w, a) := by
  rw [List.cons_append, fileThen?, hc]
  exact behindColon_text hw hr ha hcolon hfile [c]

end

/-! ## Places -/

/-- A place as a compiler reports it. -/
inductive Place
  | point (line column : Nat)
  /-- Some columns of one line. -/
  | columns (line column endColumn : Nat)
  | span (line column endLine endColumn : Nat)
deriving DecidableEq, Repr

namespace Place

/-- The numbers of a place. -/
def numbers : Place → List Nat
  | point l c => [l, c]
  | columns l c c' => [l, c, c']
  | span l c l' c' => [l, c, l', c']

/-- A place as it is written. -/
def written : Place → Written
  | point l c => .point (Text.showNat l) (Text.showNat c)
  | columns l c c' => .range (Text.showNat l) (Text.showNat c) (Text.showNat c')
  | span l c l' c' =>
    .span (Text.showNat l) (Text.showNat c) (Text.showNat l') (Text.showNat c')

/-- The location that a place stands for; a point ends where it starts. -/
def location : Place → Location
  | point l c => ⟨l, c, l, c⟩
  | columns l c c' => ⟨l, c, l, c'⟩
  | span l c l' c' => ⟨l, c, l', c'⟩

/-- All numbers of a place are short enough to be read. -/
def Readable (p : Place) : Prop := ∀ n ∈ p.numbers, (Text.showNat n).length ≤ Text.maxDigits

instance (p : Place) : Decidable p.Readable :=
  inferInstanceAs (Decidable (∀ n ∈ p.numbers, (Text.showNat n).length ≤ Text.maxDigits))

theorem numerals_written (p : Place) : p.written.numerals = p.numbers.map Text.showNat := by
  cases p <;> rfl

theorem isNumeral_written (p : Place) : ∀ ds ∈ p.written.numerals, IsNumeral ds := by
  intro ds hds
  rw [numerals_written] at hds
  obtain ⟨n, -, rfl⟩ := List.mem_map.1 hds
  exact isNumeral_showNat n

/-- The numbers of a place are read again. -/
theorem read_written {p : Place} (h : p.Readable) : p.written.read = .ok p.location := by
  have hread (n : Nat) (hn : n ∈ p.numbers) : Text.readNat? (Text.showNat n) = .ok n :=
    Text.readNat?_showNat (h n hn)
  cases p with
  | point l c =>
    simp only [written, Written.read, hread l (by simp [numbers]), hread c (by simp [numbers])]
    rfl
  | columns l c c' =>
    simp only [written, Written.read, hread l (by simp [numbers]), hread c (by simp [numbers]),
      hread c' (by simp [numbers])]
    rfl
  | span l c l' c' =>
    simp only [written, Written.read, hread l (by simp [numbers]), hread c (by simp [numbers]),
      hread l' (by simp [numbers]), hread c' (by simp [numbers])]
    rfl

end Place

end Location

end GhciHost
