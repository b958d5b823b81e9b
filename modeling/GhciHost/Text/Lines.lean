/-! # Lines

A text is cut at every line boundary.  A carriage return followed by a line feed is one
boundary; the form feed, the vertical tab, the separators `U+001C`–`U+001E` and the line
and paragraph separators of Unicode are boundaries too.  `segments` is the plainer cut at
one given character, which keeps empty pieces, and `rows` cuts at line feeds alone.

* `infix_of_mem_lines`   a line is a piece of the text;
* `intercalate_segments`, `segments_intercalate`   joining the pieces gives the text back;
* `segments_append_cons`   a text with the character behind it is cut on its own;
* `segments_append`   a text without the character, up to its first occurrence, is a piece;
* `segments_flatMap`   pieces that each end with the character are found again. -/

namespace GhciHost.Text

/-- Characters that end a line. -/
def isLineBreak (c : Char) : Bool :=
  let n := c.toNat
  (0x0A ≤ n && n ≤ 0x0D) || (0x1C ≤ n && n ≤ 0x1E) || n == 0x85 || n == 0x2028 || n == 0x2029

/-- The lines of a text without their ends.  A final boundary opens no further line. -/
def lines (s : List Char) : List (List Char) :=
  let rec go : List Char → List Char → List (List Char)
    | [], [] => []
    | [], l => [l.reverse]
    | '\r' :: '\n' :: s, l => l.reverse :: go s []
    | c :: s, l => if isLineBreak c then l.reverse :: go s [] else go s (c :: l)
  go s []

/-- The pieces between the occurrences of `sep`; there is one more than occurrences. -/
def segments [DecidableEq α] (sep : α) : List α → List (List α)
  | [] => [[]]
  | c :: s =>
    if c = sep then [] :: segments sep s
    else match segments sep s with
      | [] => [[c]]
      | p :: ps => (c :: p) :: ps

/-- Carriage returns, with the line feed behind if there is one, become line feeds. -/
def plainLineEnds : List Char → List Char
  | [] => []
  | '\r' :: '\n' :: s => '\n' :: plainLineEnds s
  | c :: s => (if c = '\r' then '\n' else c) :: plainLineEnds s

/-- What stands between line feeds.  A final line feed opens no further row. -/
def rows (s : List Char) : List (List Char) :=
  let pieces := segments '\n' s
  if pieces.getLast? = some [] then pieces.dropLast else pieces

/-- A line is a piece of the text.  `l` is the line that is open before it, newest character
    first. -/
theorem infix_of_mem_lines_go {s line l : List Char} (h : line ∈ lines.go s l) :
    line <:+: l.reverse ++ s := by
  fun_induction lines.go s l with
  | case1 => cases h
  | case2 l =>
    rw [List.mem_singleton.1 h]
    exact (List.prefix_append _ _).isInfix
  | case3 s l ih =>
    rcases List.mem_cons.1 h with rfl | h
    · exact (List.prefix_append _ _).isInfix
    · have hs := List.suffix_append (l.reverse ++ ['\r', '\n']) s
      rw [List.append_assoc] at hs
      exact (ih h).trans hs.isInfix
  | case4 c s l hc hbreak ih =>
    rcases List.mem_cons.1 h with rfl | h
    · exact (List.prefix_append _ _).isInfix
    · have hs := List.suffix_append (l.reverse ++ [c]) s
      rw [List.append_assoc] at hs
      exact (ih h).trans hs.isInfix
  | case5 c s l hc hbreak ih =>
    have hline := ih h
    rwa [List.reverse_cons, List.append_assoc] at hline

theorem infix_of_mem_lines {s line : List Char} (h : line ∈ lines s) : line <:+: s :=
  infix_of_mem_lines_go h

theorem segments_ne_nil [DecidableEq α] (sep : α) (s : List α) : segments sep s ≠ [] := by
  cases s with
  | nil => simp [segments]
  | cons c s => rw [segments]; split <;> (try split) <;> simp

theorem segments_of_not_mem [DecidableEq α] {sep : α} {s : List α} (h : sep ∉ s) :
    segments sep s = [s] := by
  induction s with
  | nil => rfl
  | cons c s ih =>
    simp only [List.mem_cons, not_or] at h
    rw [segments, if_neg (Ne.symm h.1), ih h.2]

/-- A text with the character behind it is cut on its own. -/
theorem segments_append_cons [DecidableEq α] (sep : α) (s t : List α) :
    segments sep (s ++ sep :: t) = segments sep s ++ segments sep t := by
  induction s with
  | nil => simp [segments]
  | cons c s ih =>
    rw [List.cons_append, segments, segments, ih]
    split
    · rfl
    · cases hs : segments sep s with
      | nil => exact absurd hs (segments_ne_nil sep s)
      | cons p ps => rfl

theorem segments_append [DecidableEq α] {sep : α} {s : List α} (h : sep ∉ s) (t : List α) :
    segments sep (s ++ sep :: t) = s :: segments sep t := by
  rw [segments_append_cons, segments_of_not_mem h, List.singleton_append]

/-- Pieces that each end with the character are found again, with nothing behind the last. -/
theorem segments_flatMap [DecidableEq α] {sep : α} {ps : List (List α)} (h : ∀ p ∈ ps, sep ∉ p) :
    segments sep (ps.flatMap (· ++ [sep])) = ps ++ [[]] := by
  induction ps with
  | nil => rfl
  | cons p ps ih =>
    rw [List.flatMap_cons, List.append_assoc, List.singleton_append,
      segments_append (h p List.mem_cons_self), ih fun q hq => h q (List.mem_cons_of_mem p hq),
      List.cons_append]

/-- No piece holds the character. -/
theorem not_mem_of_mem_segments [DecidableEq α] {sep : α} {s p : List α}
    (h : p ∈ segments sep s) : sep ∉ p := by
  induction s generalizing p with
  | nil => simp_all [segments]
  | cons c s ih =>
    rw [segments] at h
    split at h
    · rcases List.mem_cons.1 h with rfl | h
      · simp
      · exact ih h
    · next hc =>
      split at h
      · next hs => exact absurd hs (segments_ne_nil sep s)
      · next q qs hs =>
        -- The first piece grew by `c`, which is not the character; the others are as before.
        rcases List.mem_cons.1 h with rfl | h
        · have := ih (p := q) (by simp [hs])
          simp [this, Ne.symm hc]
        · exact ih (by simp [hs, h])

/-- A piece holds nothing but what the text holds. -/
theorem mem_of_mem_segments [DecidableEq α] {sep c : α} {s p : List α} (hp : p ∈ segments sep s)
    (hc : c ∈ p) : c ∈ s := by
  induction s generalizing p with
  | nil => rwa [List.mem_singleton.1 hp] at hc
  | cons d s ih =>
    rw [segments] at hp
    split at hp
    · rcases List.mem_cons.1 hp with rfl | hp
      · cases hc
      · exact List.mem_cons_of_mem d (ih hp hc)
    · split at hp
      · next h => exact absurd h (segments_ne_nil sep s)
      · next q qs h =>
        rcases List.mem_cons.1 hp with rfl | hp
        · refine List.mem_cons.2 ((List.mem_cons.1 hc).imp_right fun hc => ih (p := q) ?_ hc)
          rw [h]
          exact List.mem_cons_self
        · exact List.mem_cons_of_mem d (ih (by rw [h]; exact List.mem_cons_of_mem q hp) hc)

/-- A character other than the separator stands in one of the pieces. -/
theorem exists_mem_segments [DecidableEq α] {s : List α} {sep c : α} (hc : c ∈ s)
    (hne : c ≠ sep) : ∃ p ∈ segments sep s, c ∈ p := by
  obtain ⟨u, v, rfl⟩ := List.append_of_mem hc
  clear hc
  induction u with
  | nil =>
    rw [List.nil_append, segments, if_neg hne]
    split <;> exact ⟨_, List.mem_cons_self, List.mem_cons_self⟩
  | cons d u ih =>
    obtain ⟨p, hp, hcp⟩ := ih
    rw [List.cons_append, segments]
    split
    · exact ⟨p, List.mem_cons_of_mem _ hp, hcp⟩
    · split
      · next h =>
        rw [h] at hp
        cases hp
      · next q qs h =>
        rw [h] at hp
        rcases List.mem_cons.1 hp with rfl | hp
        · exact ⟨_, List.mem_cons_self, List.mem_cons_of_mem d hcp⟩
        · exact ⟨p, List.mem_cons_of_mem _ hp, hcp⟩

/-- Joining the pieces gives the text back. -/
theorem intercalate_segments [DecidableEq α] (sep : α) (s : List α) :
    List.intercalate [sep] (segments sep s) = s := by
  induction s with
  | nil => rfl
  | cons c s ih =>
    rw [segments]
    split
    -- The separator itself: an empty piece stands in front.
    · next h =>
      subst h
      cases hs : segments c s with
      | nil => exact absurd hs (segments_ne_nil c s)
      | cons p ps =>
        rw [hs] at ih
        simpa [List.intercalate, List.intersperse] using ih
    · split
      · next hs => exact absurd hs (segments_ne_nil sep s)
      -- The first piece grows, whether or not others follow it.
      · next p ps hs =>
        rw [hs] at ih
        cases ps with
        | nil => simpa [List.intercalate, List.intersperse] using ih
        | cons q qs => simpa [List.intercalate, List.intersperse] using ih

/-- Joined pieces without the character are found again. -/
theorem segments_intercalate [DecidableEq α] {sep : α} {ps : List (List α)} (hne : ps ≠ [])
    (h : ∀ p ∈ ps, sep ∉ p) : segments sep (List.intercalate [sep] ps) = ps := by
  induction ps with
  | nil => exact absurd rfl hne
  | cons p ps ih =>
    have hp := h p List.mem_cons_self
    cases ps with
    | nil =>
      have hsingle : List.intercalate [sep] [p] = p := by simp [List.intercalate]
      rw [hsingle, segments_of_not_mem hp]
    | cons q ps =>
      have hjoin : List.intercalate [sep] (p :: q :: ps) =
          p ++ sep :: List.intercalate [sep] (q :: ps) := by
        simp [List.intercalate, List.intersperse]
      rw [hjoin, segments_append hp, ih nofun fun x hx => h x (List.mem_cons_of_mem p hx)]

end GhciHost.Text
