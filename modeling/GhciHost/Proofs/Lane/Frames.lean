import GhciHost.Channel.Lane

/-!
# Cutting output into responses

`frames` says what the responses in some output are, without a place from which to search.
Output that comes in two parts is cut as a whole: what the first part leaves is put before the
second.

* `not_mem_frames`   neither a response nor what is left holds the marker;
* `frames_append`   the responses of two parts;
* `length_frames`   there is one response for each marker.
-/

namespace GhciHost.Lane

/-- The complete responses in some output, and the output behind them. -/
def frames (marker : UInt8) (bytes : List UInt8) : List (List UInt8) × List UInt8 :=
  let pieces := Text.segments marker bytes
  (pieces.dropLast, pieces.getLast?.getD [])

variable {marker : UInt8}

/-- No response holds the marker, nor does what is left. -/
theorem not_mem_frames (bytes : List UInt8) :
    (∀ f ∈ (frames marker bytes).1, marker ∉ f) ∧ marker ∉ (frames marker bytes).2 := by
  constructor
  · intro f hf
    exact Text.not_mem_of_mem_segments (List.dropLast_subset _ hf)
  · have hne := Text.segments_ne_nil marker bytes
    rw [frames, List.getLast?_eq_some_getLast hne]
    exact Text.not_mem_of_mem_segments (List.getLast_mem hne)

theorem frames_of_not_mem {bytes : List UInt8} (h : marker ∉ bytes) :
    frames marker bytes = ([], bytes) := by
  simp [frames, Text.segments_of_not_mem h]

/-- The first response ends at the first marker. -/
theorem frames_cons {piece : List UInt8} (h : marker ∉ piece) (bytes : List UInt8) :
    frames marker (piece ++ marker :: bytes) =
      (piece :: (frames marker bytes).1, (frames marker bytes).2) := by
  have hne := Text.segments_ne_nil marker bytes
  simp only [frames, Text.segments_append h]
  rw [List.dropLast_cons_of_ne_nil hne, List.getLast?_cons, List.getLast?_eq_some_getLast hne]
  rfl

/-- Induction on the responses in some output. -/
theorem frames_induction (marker : UInt8) {P : List UInt8 → Prop} (rest : ∀ bytes, marker ∉ bytes → P bytes)
    (cons : ∀ piece bytes, marker ∉ piece → P bytes → P (piece ++ marker :: bytes))
    (bytes : List UInt8) : P bytes := by
  induction h : bytes.length using Nat.strongRecOn generalizing bytes with
  | _ n ih =>
    by_cases hm : marker ∈ bytes
    · obtain ⟨piece, after, rfl, hp⟩ := List.eq_append_cons_of_mem hm
      refine cons piece after hp (ih after.length ?_ after rfl)
      simp only [List.length_append, List.length_cons] at h
      omega
    · exact rest bytes hm

/-- Output that comes in two parts is cut as a whole. -/
theorem frames_append (a b : List UInt8) :
    frames marker (a ++ b) =
      ((frames marker a).1 ++ (frames marker ((frames marker a).2 ++ b)).1,
        (frames marker ((frames marker a).2 ++ b)).2) := by
  induction a using frames_induction marker with
  | rest a h => simp [frames_of_not_mem h]
  | cons piece a h ih =>
    rw [List.append_assoc, List.cons_append, frames_cons h, frames_cons h, ih]
    rfl

/-- There is one response for each marker. -/
theorem length_frames (bytes : List UInt8) :
    (frames marker bytes).1.length = bytes.count marker := by
  induction bytes using frames_induction marker with
  | rest bytes h => simp [frames_of_not_mem h, List.count_eq_zero_of_not_mem h]
  | cons piece bytes h ih =>
    simp [frames_cons h, List.count_append, List.count_eq_zero_of_not_mem h, ih]

/-! ## Searching on from where the last search ended -/

section Search

variable {bytes : List UInt8} {start scanned i : Nat}

theorem take_append_drop (hle : start ≤ scanned) :
    (bytes.drop start).take (scanned - start) ++ bytes.drop scanned = bytes.drop start := by
  have h := List.take_append_drop (scanned - start) (bytes.drop start)
  rwa [List.drop_drop, Nat.add_sub_cancel' hle] at h

/-- The marker that the search finds ends the first response, if none was passed over. -/
theorem frames_of_find? (hle : start ≤ scanned)
    (hc : marker ∉ (bytes.drop start).take (scanned - start))
    (h : find? marker bytes scanned = some i) :
    frames marker (bytes.drop start) =
      ((bytes.drop start).take (i - start) :: (frames marker (bytes.drop (i + 1))).1,
        (frames marker (bytes.drop (i + 1))).2) := by
  obtain ⟨before, after, e, hb, rfl⟩ := find?_eq_some h
  have hafter : bytes.drop (scanned + before.length + 1) = after := by
    rw [Nat.add_assoc, ← List.drop_drop, e]
    simp [List.drop_append]
  obtain ⟨passed, hpassed⟩ : ∃ passed, (bytes.drop start).take (scanned - start) = passed :=
    ⟨_, rfl⟩
  have hdrop : bytes.drop start = (passed ++ before) ++ marker :: after := by
    rw [← take_append_drop hle, e, hpassed, List.append_assoc]
  have hlen : scanned + before.length - start = (passed ++ before).length := by
    have := congrArg List.length e
    simp only [← hpassed, List.length_append, List.length_take, List.length_drop,
      List.length_cons] at this ⊢
    omega
  rw [hpassed] at hc
  rw [hafter, hdrop, hlen, List.take_left]
  exact frames_cons (by simp [hc, hb]) after

/-- Where the search finds nothing there is no response. -/
theorem frames_of_find?_none (hle : start ≤ scanned)
    (hc : marker ∉ (bytes.drop start).take (scanned - start))
    (h : find? marker bytes scanned = none) :
    frames marker (bytes.drop start) = ([], bytes.drop start) := by
  refine frames_of_not_mem ?_
  rw [← take_append_drop hle, List.mem_append, not_or]
  exact ⟨hc, find?_eq_none_iff.1 h⟩

end Search

end GhciHost.Lane
