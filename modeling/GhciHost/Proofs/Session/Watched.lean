import GhciHost.Session.Session
import GhciHost.Proofs.Text.Stream

/-!
# Watching the output

What a session knows of its worker's output depends on what the worker printed, and not on the
pieces in which it was read.

* `infix_append_window`   phrases in a text that grows;
* `Watched`   what a session knows after some output;
* `watched_output`   one more piece of it;
* `outputs_eq_of_cut`   the transcript and the missing dependency, however the output was cut.
-/

namespace GhciHost

/-! ## Phrases in a text that grows -/

namespace Session

theorem lastChars_suffix (n : Nat) (s : List Char) : lastChars n s <:+ s := List.drop_suffix _ _

theorem length_lastChars (n : Nat) (s : List Char) : (lastChars n s).length = min n s.length := by
  simp only [lastChars, List.length_drop]
  omega

/-- Of what ends a text, the last characters hold all that is short enough. -/
theorem suffix_lastChars {n : Nat} {p s : List Char} (h : p <:+ s) (hn : p.length ≤ n) :
    p <:+ lastChars n s := by
  refine List.suffix_of_suffix_length_le h (lastChars_suffix n s) ?_
  have := h.length_le
  rw [length_lastChars]
  omega

/-- The last characters are found without those that were dropped before. -/
theorem lastChars_lastChars_append (n : Nat) (s t : List Char) :
    lastChars n (lastChars n s ++ t) = lastChars n (s ++ t) := by
  have hs : lastChars n s ++ t = (s ++ t).drop (s.length - n) := by
    rw [lastChars, List.drop_append_of_le_length (by omega)]
  rw [hs, lastChars, lastChars, List.drop_drop]
  congr 1
  simp only [List.length_drop, List.length_append]
  omega

/-- A phrase that is one longer than what is remembered, at most, is found where it arises: next to
    the remembered end, once there is something new. -/
theorem infix_append_window {n : Nat} {p s t : List Char} (hp : p.length ≤ n + 1) :
    p <:+: s ++ t ↔ p <:+: s ∨ p <:+: lastChars n s ++ t := by
  constructor
  · intro h
    obtain h | h | ⟨p₁, p₂, -, h₂, rfl, hs, ht⟩ := List.infix_append_iff_ne_nil.1 h
    · exact .inl h
    · exact .inr (h.trans (List.suffix_append _ _).isInfix)
    · -- at least one character is new, so the others are remembered
      have hlen : 0 < p₂.length := List.length_pos_iff.2 h₂
      have hwindow : p₁ <:+ lastChars n s := by
        refine suffix_lastChars hs ?_
        simp only [List.length_append] at hp
        omega
      exact .inr (List.infix_append_iff.2 (.inr (.inr ⟨p₁, p₂, rfl, hwindow, ht⟩)))
  · rintro (h | h)
    · exact h.trans (List.prefix_append _ _).isInfix
    · obtain ⟨r, hr⟩ := lastChars_suffix n s
      exact h.trans ⟨r, [], by rw [← List.append_assoc, hr, List.append_nil]⟩

/-- Leaving out a character. -/
theorem without_singleton (c : Char) (s : List Char) : without [c] s = s.filter (· ≠ c) := by
  have hfrom : ∀ s : List Char, Text.replaceFrom
      (fun s => (Text.stripPrefix? [c] s).map fun _ => ([], [c].length)) 0 s =
        s.filter (· ≠ c) := by
    intro s
    induction s with
    | nil => rfl
    | cons d s ih =>
      by_cases h : c = d
      · subst h
        simpa [Text.replaceFrom, Text.stripPrefix?] using ih
      · simpa [Text.replaceFrom, Text.stripPrefix?, h, Ne.symm h] using ih
  exact hfrom s

/-! ## Pieces of output -/

section

variable {s start : Session} {limit : Int} {marker : Char} {phrases : List (List Char)}
  {bytes chunk : List UInt8}

/-- The text that some output has told for good. -/
def told (bytes : List UInt8) : List Char := (({} : Text.Utf8.Decoder).feed bytes).1

/-- Follow a worker's output, piece by piece. -/
def outputs (s : Session) (limit : Int) (marker : List Char) (phrases : List (List Char))
    (chunks : List (List UInt8)) : Session :=
  chunks.foldl (fun s bytes => s.output limit marker phrases bytes) s

/-- A piece that tells nothing new only changes the decoder. -/
theorem output_of_nil (h : (s.decoder.feed chunk).1 = []) :
    s.output limit [marker] phrases chunk = { s with decoder := (s.decoder.feed chunk).2 } := by
  unfold output
  split
  · next d hd => rw [hd]
  · next text d hne hd => exact absurd (by rw [hd] at h; exact h) hne

theorem output_of_ne_nil {text : List Char} (h : (s.decoder.feed chunk).1 = text)
    (hne : text ≠ []) :
    s.output limit [marker] phrases chunk =
      { s with
        decoder := (s.decoder.feed chunk).2
        transcript := Output.truncate limit (s.transcript ++ text.filter (· ≠ marker))
        dependencyMissing :=
          s.dependencyMissing || phrases.any fun p => Text.contains p (s.tail ++ text)
        tail := lastChars tailLength (s.tail ++ text) } := by
  unfold output
  split
  · next d hd =>
    rw [hd] at h
    exact absurd h.symm hne
  · next text' d _ hd =>
    have htext : text' = text := by rw [hd] at h; exact h
    rw [hd, htext]
    simp [append, without_singleton]

/-- What a session knows when some output has come since it was as it is given. -/
structure Watched (start : Session) (marker : Char) (phrases : List (List Char))
    (bytes : List UInt8) (s : Session) : Prop where
  decoder : s.decoder = (({} : Text.Utf8.Decoder).feed bytes).2
  transcript : s.transcript = start.transcript ++ (told bytes).filter (· ≠ marker)
  tail : s.tail = lastChars tailLength (told bytes)
  found : s.dependencyMissing = true ↔ ∃ p ∈ phrases, p <:+: told bytes

/-- Nothing of what came before counts with a new worker. -/
theorem watched_beginAttempt (s : Session) (limit : Int) (argv : List String) (marker : Char)
    (hphrases : ∀ p ∈ phrases, 1 ≤ p.length) :
    Watched (s.beginAttempt limit argv) marker phrases [] (s.beginAttempt limit argv) where
  decoder := by simp [beginAttempt, append, Text.Utf8.feed_nil]
  transcript := by simp [told, Text.Utf8.feed_nil]
  tail := by simp [beginAttempt, append, told, Text.Utf8.feed_nil, lastChars]
  found := by
    simp only [told, Text.Utf8.feed_nil, List.infix_nil]
    constructor
    · intro h
      simp [beginAttempt, append] at h
    · rintro ⟨p, hp, rfl⟩
      exact absurd (hphrases [] hp) (by simp)

/-- One more piece of output. -/
theorem watched_output (hlimit : limit ≤ 0)
    (hphrases : ∀ p ∈ phrases, p.length ≤ tailLength + 1) (h : Watched start marker phrases bytes s)
    (chunk : List UInt8) :
    Watched start marker phrases (bytes ++ chunk) (s.output limit [marker] phrases chunk) := by
  have hfeed := Text.Utf8.feed_append {} bytes chunk
  rw [← h.decoder] at hfeed
  have htold : told (bytes ++ chunk) = told bytes ++ (s.decoder.feed chunk).1 := by
    rw [told, hfeed, told]
  generalize htext : (s.decoder.feed chunk).1 = text at htold
  by_cases hnil : text = []
  · -- nothing was told: the bytes belong to a character that is not finished
    subst hnil
    rw [List.append_nil] at htold
    rw [output_of_nil htext]
    exact ⟨by rw [hfeed], by rw [htold]; exact h.transcript, by rw [htold]; exact h.tail,
      by rw [htold]; exact h.found⟩
  · rw [output_of_ne_nil htext hnil]
    refine ⟨by rw [hfeed], ?_, ?_, ?_⟩
    · show Output.truncate limit _ = _
      rw [Output.truncate_of_not_pos hlimit, h.transcript, htold]
      simp
    · simp only [h.tail, lastChars_lastChars_append, htold]
    · show (s.dependencyMissing || phrases.any fun p => Text.contains p (s.tail ++ text)) = true ↔ _
      simp only [Bool.or_eq_true, h.found, List.any_eq_true, Text.contains_iff, htold, h.tail]
      constructor
      · rintro (⟨p, hp, hold⟩ | ⟨p, hp, hnew⟩)
        · exact ⟨p, hp, (infix_append_window (hphrases p hp)).2 (.inl hold)⟩
        · exact ⟨p, hp, (infix_append_window (hphrases p hp)).2 (.inr hnew)⟩
      · rintro ⟨p, hp, hall⟩
        obtain hold | hnew := (infix_append_window (hphrases p hp)).1 hall
        · exact .inl ⟨p, hp, hold⟩
        · exact .inr ⟨p, hp, hnew⟩

/-- Any pieces of output. -/
theorem watched_outputs (hlimit : limit ≤ 0) (hphrases : ∀ p ∈ phrases, p.length ≤ tailLength + 1)
    (h : Watched start marker phrases bytes s) (chunks : List (List UInt8)) :
    Watched start marker phrases (bytes ++ chunks.flatten)
      (s.outputs limit [marker] phrases chunks) := by
  induction chunks generalizing s bytes with
  | nil => simpa [outputs] using h
  | cons chunk chunks ih =>
    have := ih (watched_output hlimit hphrases h chunk)
    simpa [outputs] using this

end

/-- However the output of a new worker is cut, the same text is added to the transcript, and a
    dependency is missing if some phrase occurs in the whole of it.  That text is what the bytes
    spell, all but the beginning of a character at the end that is not decided yet. -/
theorem outputs_eq_of_cut (s : Session) {limit : Int} (hlimit : limit ≤ 0) (argv : List String)
    (marker : Char) {phrases : List (List Char)}
    (hphrases : ∀ p ∈ phrases, 1 ≤ p.length ∧ p.length ≤ 257) (chunks : List (List UInt8)) :
    let begun := s.beginAttempt limit argv
    let after := begun.outputs limit [marker] phrases chunks
    let text := told chunks.flatten
    after.transcript = begun.transcript ++ text.filter (· ≠ marker) ∧
    (after.dependencyMissing = true ↔ ∃ p ∈ phrases, p <:+: text) ∧
    Text.Utf8.decode chunks.flatten = text ++ Text.Utf8.decode after.decoder.withheld ∧
    after.decoder.withheld <:+ chunks.flatten ∧ after.decoder.withheld.length ≤ 3 := by
  intro begun after text
  have hbegun : Watched begun marker phrases [] begun :=
    watched_beginAttempt s limit argv marker fun p hp => (hphrases p hp).1
  have hafter : Watched begun marker phrases ([] ++ chunks.flatten) after :=
    watched_outputs hlimit (fun p hp => (hphrases p hp).2) hbegun chunks
  rw [List.nil_append] at hafter
  refine ⟨hafter.transcript, hafter.found, ?_, ?_, ?_⟩
  · rw [hafter.decoder]
    exact Text.Utf8.decode_eq_feed _
  · rw [hafter.decoder]
    exact Text.Utf8.withheld_feed_suffix _
  · rw [hafter.decoder]
    exact Text.Utf8.length_withheld_feed_le _

/-- A character and a phrase, both cut, after a worker that had told of a missing dependency. -/
theorem outputs_eq_of_cut_split :
    let s : Session := { kind := "backend", root := "/app", key := "backend:/app", workDir := []
                         tail := "cannot satis".toList, dependencyMissing := true }
    let phrases := ["cannot satisfy".toList]
    let chunks := [[0xC3], [0xBC, 4], [], Text.Utf8.encode "cannot sat".toList,
      Text.Utf8.encode "isfy".toList]
    let begun := s.beginAttempt 0 ["stack", "ghci"]
    let after := begun.outputs 0 ['\x04'] phrases chunks
    (0 : Int) ≤ 0 ∧ (∀ p ∈ phrases, 1 ≤ p.length ∧ p.length ≤ 257) ∧
    begun.dependencyMissing = false ∧
    after.transcript = begun.transcript ++ "ücannot satisfy".toList ∧
    after.dependencyMissing = true := by
  intro s phrases chunks begun after
  have hphrases : ∀ p ∈ phrases, 1 ≤ p.length ∧ p.length ≤ 257 := by decide
  obtain ⟨htranscript, hfound, -⟩ :=
    outputs_eq_of_cut s (Int.le_refl 0) ["stack", "ghci"] '\x04' hphrases chunks
  have htold : told chunks.flatten = "ü\x04cannot satisfy".toList := by decide +kernel
  rw [htold] at htranscript hfound
  exact ⟨Int.le_refl 0, hphrases, rfl, htranscript,
    hfound.2 ⟨"cannot satisfy".toList, by decide, ⟨['ü', '\x04'], [], rfl⟩⟩⟩

end Session

end GhciHost
