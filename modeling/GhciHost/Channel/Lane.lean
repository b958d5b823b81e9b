import GhciHost.Json.Basic
import GhciHost.Session.Phase
import GhciHost.Text.Lines

/-! # Lanes

A lane is the ordered channel to a worker: the requests that were written and not yet
answered, oldest first, and the output that came after the last complete response.  A worker
ends every response with the marker.

* `find?_eq_some`, `find?_eq_none_iff`   where the next marker stands, if there is one. -/

namespace GhciHost

/-- What the asker of a request wants done with the response. -/
inductive Reaction
  /-- Take note of it. -/
  | note
  /-- Take note of it, and fail. -/
  | fail
  /-- Take note of it, and submit another command, whose response is noted. -/
  | submit (command : String) (state : Json)
  /-- Take note of it, and attach a process. -/
  | attach (process : Nat)
  /-- The first response of a session's worker: the session is ready. -/
  | ready (session process : Nat) (mode : StartMode)

/-- A command that was written, or whose response is expected for another reason. -/
structure Request where
  /-- A value of the asker, given back with the response. -/
  state : Json := .null
  reaction : Option Reaction := none
  command : String
  /-- The cell that the response goes to. -/
  waiter : Option Nat := none
  /-- Whether this is the request for the first response of a worker. -/
  internal : Bool := false

/-- The ordered channel to a worker. -/
structure Lane where
  /-- The session that errors and events are about. -/
  key : String
  marker : UInt8
  process : Option Nat := none
  queue : List Request := []
  buffer : List UInt8 := []
  /-- How much of the buffer was searched for the marker. -/
  scanned : Nat := 0
  /-- How often a process was attached; output of an earlier one is never continued. -/
  attachments : Nat := 0
  /-- Whether events are published. -/
  announces : Bool := true

namespace Lane

/-- The marker as a character of a command. -/
def markerText (l : Lane) : List Char := [Char.ofNat l.marker.toNat]

/-- The place of the first marker in some output, from a place on. -/
def find? (marker : UInt8) (bytes : List UInt8) (start : Nat) : Option Nat :=
  ((bytes.drop start).idxOf? marker).map (start + ·)

/-- Attach a process; output of an earlier one is dropped. -/
def attach (l : Lane) (p : Nat) : Lane :=
  { l with process := some p, buffer := [], scanned := 0, attachments := l.attachments + 1 }

/-- Detach the process. -/
def detach (l : Lane) : Lane := { l with process := none }

/-- Add a request behind the others. -/
def push (l : Lane) (r : Request) : Lane := { l with queue := l.queue ++ [r] }

theorem find?_eq_none_iff {marker : UInt8} {bytes : List UInt8} {start : Nat} :
    find? marker bytes start = none ↔ marker ∉ bytes.drop start := by
  simp [find?, List.idxOf?_eq_none_iff]

/-- The marker that is found is the first one from the place on. -/
theorem find?_eq_some {marker : UInt8} {bytes : List UInt8} {start i : Nat}
    (h : find? marker bytes start = some i) :
    ∃ before after, bytes.drop start = before ++ marker :: after ∧ marker ∉ before ∧
      i = start + before.length := by
  obtain ⟨n, hn, rfl⟩ := Option.map_eq_some_iff.1 h
  obtain ⟨hlt, heq, hbefore⟩ := List.idxOf?_eq_some_iff.1 hn
  refine ⟨(bytes.drop start).take n, (bytes.drop start).drop (n + 1), ?_, ?_, ?_⟩
  · rw [← heq, List.getElem_cons_drop, List.take_append_drop]
  · intro hmem
    obtain ⟨j, hj, e⟩ := List.mem_take_iff_getElem.1 hmem
    exact hbefore j (by omega) e
  · rw [List.length_take, Nat.min_eq_left (Nat.le_of_lt hlt)]

theorem find?_lt {marker : UInt8} {bytes : List UInt8} {start i : Nat}
    (h : find? marker bytes start = some i) : start ≤ i ∧ i < bytes.length := by
  obtain ⟨before, after, e, -, rfl⟩ := find?_eq_some h
  have := congrArg List.length e
  simp only [List.length_drop, List.length_append, List.length_cons] at this
  omega

end Lane

end GhciHost
