import GhciHost.Session.Session
import GhciHost.Proofs.Text.Tail

/-!
# Texts that are added to a transcript

The end that a transcript keeps is that of all texts together, wherever they were cut before.  The
line that tells of an omission is part of the transcript when the next text is added, so it is
counted with what is left out then, and what was left out before is not.

* `Keeps`   what is shown of a text that may be too long;
* `keeps_truncate`   only the end of a transcript counts;
* `keeps_append`, `keeps_appends`   one more text, and any texts;
* `appends_eq_truncate`   the first time that something is left out, the number is right too.
-/

namespace GhciHost

open Text

/-- Of two ends of a text the one that has no more bytes ends the other. -/
theorem Text.Utf8.suffix_of_length_encode_le {a b s : List Char} (ha : a <:+ s) (hb : b <:+ s)
    (h : (encode a).length ≤ (encode b).length) : a <:+ b := by
  rcases List.suffix_or_suffix_of_suffix ha hb with hab | hba
  · exact hab
  · obtain ⟨r, rfl⟩ := hba
    cases r with
    | nil => exact List.suffix_refl _
    | cons c r =>
      have hpos := c.utf8Size_pos
      rw [List.cons_append, length_encode_cons] at h
      have := length_encode_le_of_suffix (List.suffix_append r b)
      omega

namespace Session

open Output

variable {limit : Int} {text shown : List Char}

/-- Add texts, one after the other. -/
def appends (s : Session) (limit : Int) (texts : List (List Char)) : Session :=
  texts.foldl (fun s text => s.append limit text) s

/-- What is shown of a text: all of it, or a line and the longest end that is within the limit. -/
inductive Keeps (limit : Int) (text : List Char) : List Char → Prop
  | whole : (Utf8.encode text).length ≤ limit → Keeps limit text text
  | part (n : Nat) {kept : List Char} : limit < (Utf8.encode text).length → kept <:+ text →
      (Utf8.encode kept).length ≤ limit → limit ≤ (Utf8.encode kept).length + 3 →
      (∀ other, other <:+ text → (Utf8.encode other).length ≤ limit → other <:+ kept) →
      Keeps limit text (omission n ++ kept)

/-- Two texts that are too long and end in the same way are shown in the same way. -/
theorem keeps_truncate (common : List Char) (hlimit : 0 < limit) (htext : common <:+ text)
    (hshown : common <:+ shown) (hlong : limit < (Utf8.encode shown).length)
    (hlong' : limit < (Utf8.encode text).length) (hcommon : limit ≤ (Utf8.encode common).length) :
    Keeps limit text (truncate limit shown) := by
  have hlength := Utf8.length_encode_fromByte ((Utf8.encode shown).length - limit.toNat) shown
  rw [truncate_of_lt hlimit hlong]
  refine .part _ hlong' ?_ (by omega) (by omega) fun other hother hle => ?_
  · have hkept := Utf8.fromByte_suffix ((Utf8.encode shown).length - limit.toNat) shown
    exact (Utf8.suffix_of_length_encode_le hkept hshown (by omega)).trans htext
  · have hother := Utf8.suffix_of_length_encode_le hother htext (by omega)
    exact Utf8.suffix_fromByte (hother.trans hshown) (by omega)

/-- One more text. -/
theorem keeps_append (hlimit : 0 < limit) (h : Keeps limit text shown) {more : List Char}
    (hmore : 3 ≤ (Utf8.encode more).length) :
    Keeps limit (text ++ more) (truncate limit (shown ++ more)) := by
  have hlength (a : List Char) : (Utf8.encode (a ++ more)).length =
      (Utf8.encode a).length + (Utf8.encode more).length := by
    simp [Utf8.encode]
  cases h with
  | whole hle =>
    by_cases hfit : ((Utf8.encode (text ++ more)).length : Int) ≤ limit
    · rw [truncate_of_le hfit]
      exact .whole hfit
    · refine keeps_truncate _ hlimit (List.suffix_refl _) (List.suffix_refl _) ?_ ?_ ?_ <;> omega
  | @part n kept hlong hkept hle hge hlongest =>
    -- the new text makes up for what is left of a character that was cut
    have hcommon : limit ≤ (Utf8.encode (kept ++ more)).length := by
      rw [hlength]
      omega
    refine keeps_truncate (kept ++ more) hlimit ?_ ?_ ?_ ?_ hcommon
    · obtain ⟨r, rfl⟩ := hkept
      exact ⟨r, by rw [List.append_assoc]⟩
    · exact ⟨omission n, by rw [List.append_assoc]⟩
    · have hline : 0 < (Utf8.encode (omission n)).length := by
        have hpos : 0 < (Utf8.encode ['\n']).length := by decide
        obtain ⟨line, -, e⟩ := omission_eq_line n
        exact Nat.lt_of_lt_of_le hpos (Utf8.length_encode_le_of_suffix ⟨line, e.symm⟩)
      have hshown : (Utf8.encode (omission n ++ kept ++ more)).length =
          (Utf8.encode (omission n)).length + (Utf8.encode (kept ++ more)).length := by
        simp [Utf8.encode]
      omega
    · rw [hlength]
      omega

/-- Any texts, none of them shorter than a character may be. -/
theorem keeps_appends (hlimit : 0 < limit) {s : Session} (h : Keeps limit text s.transcript)
    {texts : List (List Char)} (htexts : ∀ more ∈ texts, 3 ≤ (Utf8.encode more).length) :
    Keeps limit (text ++ texts.flatten) (s.appends limit texts).transcript := by
  induction texts generalizing s text with
  | nil => simpa [appends] using h
  | cons more texts ih =>
    have hfirst : Keeps limit (text ++ more) (s.append limit more).transcript :=
      keeps_append hlimit h (htexts more List.mem_cons_self)
    have hrest := ih hfirst fun m hm => htexts m (List.mem_cons_of_mem _ hm)
    simpa [appends] using hrest

/-- Nothing is left out as long as all texts are within the limit. -/
theorem transcript_appends_of_le {s : Session} {texts : List (List Char)}
    (h : ((Utf8.encode (s.transcript ++ texts.flatten)).length : Int) ≤ limit) :
    (s.appends limit texts).transcript = s.transcript ++ texts.flatten := by
  induction texts generalizing s with
  | nil => simp [appends]
  | cons more texts ih =>
    have hmore : ((Utf8.encode (s.transcript ++ more)).length : Int) ≤ limit := by
      simp only [Utf8.encode, List.flatten_cons, List.flatMap_append, List.length_append] at h ⊢
      omega
    have hfirst : (s.append limit more).transcript = s.transcript ++ more := truncate_of_le hmore
    have hrest := ih (s := s.append limit more) (by rw [hfirst]; simpa using h)
    rw [hfirst] at hrest
    simpa [appends] using hrest

/-- The first time that something is left out, the transcript is what is shown of all texts. -/
theorem appends_eq_truncate {s : Session} {texts : List (List Char)}
    (h : ((Utf8.encode (s.transcript ++ texts.flatten)).length : Int) ≤ limit) (last : List Char) :
    (s.appends limit (texts ++ [last])).transcript =
      truncate limit (s.transcript ++ texts.flatten ++ last) := by
  have hbefore := transcript_appends_of_le h
  simp only [appends, List.foldl_append, List.foldl_cons, List.foldl_nil] at hbefore ⊢
  rw [append, hbefore]

/-- The second time the line is counted that stood there before. -/
example : (appends { kind := "backend", root := "/app", key := "backend:/app", workDir := [] } 10
    ["0123456789ab".toList, "X".toList]).transcript =
      "[... 23 bytes omitted]\n3456789abX".toList := by
  decide +kernel

end Session

end GhciHost
