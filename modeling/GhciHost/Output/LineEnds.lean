/-! # Line ends of a response

A delivered text ends its lines with line feeds.  `withLineFeeds` drops the carriage return
in front of every line feed, and all carriage returns at the end. -/

namespace GhciHost.Output

/-- Drop the carriage return in front of every line feed. -/
def joinLineEnds : List Char → List Char
  | [] => []
  | '\r' :: '\n' :: s => '\n' :: joinLineEnds s
  | c :: s => c :: joinLineEnds s

/-- Drop the carriage returns at the end. -/
def dropFinalReturns (s : List Char) : List Char := (s.reverse.dropWhile (· == '\r')).reverse

/-- The text with line feeds as line ends. -/
def withLineFeeds (s : List Char) : List Char := dropFinalReturns (joinLineEnds s)

theorem joinLineEnds_of_not_mem {s : List Char} (h : '\r' ∉ s) : joinLineEnds s = s := by
  induction s with
  | nil => rfl
  | cons c s ih =>
    rw [joinLineEnds]
    · simp_all
    · rintro t rfl
      simp at h

end GhciHost.Output
