import GhciHost.Data.Keyed
import GhciHost.Number.Binary64

/-! # Counters of sessions

What is counted for a session from `start` to `finish`.  Nothing is counted for a session
that was not started.

* `find?_record_of_ne`   counting for one session leaves the others alone;
* `record_bytes_comm`   it does not matter when bytes are counted. -/

namespace GhciHost

/-- The numbers kept for one session. -/
structure Counters where
  requests : Int := 0
  frames : Int := 0
  bytesReceived : Int := 0
  protocolViolations : Int := 0
  secondaryQueries : Int := 0
  secondaryFallbacks : Int := 0
  restarts : Int := 0
  /-- How long the session lived; known when it is finished. -/
  durationMs : Int := 0
  startedAt : Binary64
deriving DecidableEq, Repr

/-- What can happen to a session that is counted. -/
inductive Counted
  | request
  | frame
  | bytes (size : Int)
  | protocolViolation
  | secondaryQuery
  | secondaryFallback
  | restart
deriving DecidableEq, Repr

namespace Counters

/-- Count what happened. -/
def record (c : Counters) : Counted → Counters
  | .request => { c with requests := c.requests + 1 }
  | .frame => { c with frames := c.frames + 1 }
  | .bytes size => { c with bytesReceived := c.bytesReceived + size }
  | .protocolViolation => { c with protocolViolations := c.protocolViolations + 1 }
  | .secondaryQuery => { c with secondaryQueries := c.secondaryQueries + 1 }
  | .secondaryFallback => { c with secondaryFallbacks := c.secondaryFallbacks + 1 }
  | .restart => { c with restarts := c.restarts + 1 }

/-- The counters with the life time in whole milliseconds. -/
def finish (c : Counters) (now : Binary64) : Counters :=
  { c with durationMs := ((now.sub c.startedAt).scale 1000).truncate?.getD 0 }

end Counters

/-- The counters of all tracked sessions. -/
structure Metrics where
  sessions : Keyed String Counters := {}

namespace Metrics

/-- The counters of a session. -/
def find? (m : Metrics) (key : String) : Option Counters := m.sessions.find? key

/-- Track a session, unless it is tracked. -/
def start (m : Metrics) (key : String) (now : Binary64) : Metrics :=
  match m.find? key with
  | some _ => m
  | none => ⟨m.sessions.put key { startedAt := now }⟩

/-- Count for a session. -/
def record (m : Metrics) (key : String) (what : Counted) : Metrics :=
  match m.find? key with
  | some c => ⟨m.sessions.put key (c.record what)⟩
  | none => m

/-- Stop tracking a session; its final counters. -/
def finish (m : Metrics) (key : String) (now : Binary64) : Option Counters × Metrics :=
  ((m.find? key).map (·.finish now), ⟨m.sessions.erase key⟩)

theorem find?_record_self (m : Metrics) (key : String) (what : Counted) :
    (m.record key what).find? key = (m.find? key).map (·.record what) := by
  unfold record
  split
  · next c h => simp [find?, show m.sessions.find? key = some c from h]
  · next h => simp [h]

theorem find?_record_of_ne {key key' : String} (h : key' ≠ key) (m : Metrics) (what : Counted) :
    (m.record key what).find? key' = m.find? key' := by
  unfold record
  split
  · exact Keyed.find?_put_of_ne h _ _
  · rfl

theorem record_of_some {m : Metrics} {key : String} {c : Counters} (h : m.find? key = some c)
    (what : Counted) : m.record key what = ⟨m.sessions.put key (c.record what)⟩ := by
  rw [record, h]

theorem record_of_none {m : Metrics} {key : String} (h : m.find? key = none) (what : Counted) :
    m.record key what = m := by
  rw [record, h]

/-- To count no bytes is to count nothing. -/
@[simp] theorem record_bytes_zero (m : Metrics) (key : String) : m.record key (.bytes 0) = m := by
  cases h : m.find? key with
  | none => exact record_of_none h _
  | some c =>
    have e : c.record (.bytes 0) = c := by simp [Counters.record]
    rw [record_of_some h, e, Keyed.put_of_find? h]

theorem record_bytes_bytes (m : Metrics) (key : String) (a b : Int) :
    (m.record key (.bytes a)).record key (.bytes b) = m.record key (.bytes (a + b)) := by
  cases h : m.find? key with
  | none => simp only [record_of_none h]
  | some c =>
    have h' : (m.record key (.bytes a)).find? key = some (c.record (.bytes a)) := by
      rw [find?_record_self, h, Option.map_some]
    rw [record_of_some h', record_of_some h, record_of_some h, Keyed.put_put_self]
    simp only [Counters.record, Int.add_assoc]

/-- It does not matter when bytes are counted. -/
theorem record_bytes_comm (m : Metrics) (key key' : String) (what : Counted) (n : Int) :
    (m.record key' what).record key (.bytes n) = (m.record key (.bytes n)).record key' what := by
  by_cases hk : key' = key
  · subst hk
    cases h : m.find? key' with
    | none => simp only [record_of_none h]
    | some c =>
      have h₁ : (m.record key' what).find? key' = some (c.record what) := by
        rw [find?_record_self, h, Option.map_some]
      have h₂ : (m.record key' (.bytes n)).find? key' = some (c.record (.bytes n)) := by
        rw [find?_record_self, h, Option.map_some]
      rw [record_of_some h₁, record_of_some h₂, record_of_some h, record_of_some h,
        Keyed.put_put_self, Keyed.put_put_self]
      cases what <;> simp only [Counters.record, Int.add_right_comm]
  · cases h' : m.find? key' with
    | none =>
      have h₂ : (m.record key (.bytes n)).find? key' = none := by
        rw [find?_record_of_ne hk, h']
      rw [record_of_none h', record_of_none h₂]
    | some c' =>
      cases h : m.find? key with
      | none =>
        have h₁ : (m.record key' what).find? key = none := by
          rw [find?_record_of_ne (Ne.symm hk), h]
        rw [record_of_none h, record_of_none h₁]
      | some c =>
        have h₁ : (m.record key' what).find? key = some c := by
          rw [find?_record_of_ne (Ne.symm hk), h]
        have h₂ : (m.record key (.bytes n)).find? key' = some c' := by
          rw [find?_record_of_ne hk, h']
        rw [record_of_some h₁, record_of_some h₂, record_of_some h, record_of_some h']
        exact congrArg _ (Keyed.put_comm (Ne.symm hk) (Option.isSome_of_mem h')
          (Option.isSome_of_mem h))

end Metrics

end GhciHost
