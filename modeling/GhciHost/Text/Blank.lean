/-! # Blank characters

Which characters count as blank between words, and the operations that only look at
blanks: trimming a text, cutting it into words, and squeezing every run of blanks to one
space.  Texts are lists of characters throughout.

* `trimLeft_eq_nil`   trimming leaves nothing of a text exactly when all of it is blank;
* `allBlank_append`   a text is blank when both its parts are. -/

namespace GhciHost.Text

/-- The Unicode white space characters, the information separators `U+001C`–`U+001F`
    included. -/
def isBlank (c : Char) : Bool :=
  let n := c.toNat
  (0x09 ≤ n && n ≤ 0x0D) || (0x1C ≤ n && n ≤ 0x20) || n == 0x85 || n == 0xA0 || n == 0x1680 ||
    (0x2000 ≤ n && n ≤ 0x200A) || n == 0x2028 || n == 0x2029 || n == 0x202F || n == 0x205F ||
    n == 0x3000

/-- Drop the leading blanks. -/
def trimLeft (s : List Char) : List Char := s.dropWhile isBlank

/-- Drop the trailing blanks. -/
def trimRight (s : List Char) : List Char := (s.reverse.dropWhile isBlank).reverse

/-- Drop the blanks at both ends. -/
def trim (s : List Char) : List Char := trimRight (trimLeft s)

/-- Whether nothing but blanks is there. -/
def allBlank (s : List Char) : Bool := s.all isBlank

/-- The maximal runs of characters that are not blank, in order. -/
def words (s : List Char) : List (List Char) :=
  let rec go : List Char → List Char → List (List Char)
    | [], [] => []
    | [], w => [w.reverse]
    | c :: s, w =>
      if isBlank c then
        match w with
        | [] => go s []
        | w => w.reverse :: go s []
      else go s (c :: w)
  go s []

/-- The words with one space between each two. -/
def squeeze (s : List Char) : List Char := List.intercalate [' '] (words s)

theorem isBlank_of_isWhitespace {c : Char} (h : c.isWhitespace = true) : isBlank c = true := by
  simp only [Char.isWhitespace, Bool.or_eq_true, decide_eq_true_eq] at h
  rcases h with ((h | h) | h) | h <;> subst h <;> decide

theorem trimLeft_eq_nil {s : List Char} : trimLeft s = [] ↔ allBlank s = true := by
  induction s with
  | nil => simp [trimLeft, allBlank]
  | cons c s ih =>
    simp only [trimLeft, allBlank, List.all_cons] at *
    by_cases h : isBlank c = true <;> simp [h, ih]

theorem allBlank_append (s t : List Char) : allBlank (s ++ t) = (allBlank s && allBlank t) := by
  simp [allBlank]

end GhciHost.Text
