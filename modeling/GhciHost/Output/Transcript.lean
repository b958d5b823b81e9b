import GhciHost.Text.Digit
import GhciHost.Text.Utf8

/-! # Transcripts

What a worker printed is kept to explain a failure.  The cause stands at the end, so a
transcript that is too long loses its beginning, and says how many bytes it lost. -/

namespace GhciHost.Output

open Text

/-- The line that stands for the bytes that were left out. -/
def omission (bytes : Nat) : List Char :=
  "[... ".toList ++ showNat bytes ++ " bytes omitted]\n".toList

/-- The whole characters among the last `limit` bytes of a text, after a line that says how
    many bytes are missing.  A limit that is not positive means no limit. -/
def truncate (limit : Int) (text : List Char) : List Char :=
  let bytes := Utf8.encode text
  if limit ≤ 0 ∨ (bytes.length : Int) ≤ limit then text
  else
    let omitted := bytes.length - limit.toNat
    omission omitted ++ Utf8.decodeKept (bytes.drop omitted)

theorem truncate_of_not_pos {limit : Int} (h : limit ≤ 0) (text : List Char) :
    truncate limit text = text := by
  simp [truncate, h]

theorem truncate_of_le {limit : Int} {text : List Char}
    (h : ((Utf8.encode text).length : Int) ≤ limit) : truncate limit text = text := by
  simp [truncate, h]

end GhciHost.Output
