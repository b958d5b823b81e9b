import GhciHost.Channel.Lane
import GhciHost.Text.Utf8

/-!
# The ledger of a lane

An `Entry` says what became of requests on a lane, and a ledger is all that entries are about:
the process, the requests that are pending and what was written.  `Step` says when an entry can
be made and what it changes; nothing here is about output, callers or cells.

* `Run.queue_eq`   what was appended either left, in the order of appending, or is pending;
* `Run.writes_eq`   what was written is what the entries say, in their order;
* `Run.lines_since`   what was written since a process was attached went to that process.
-/

namespace GhciHost

/-- What became of requests. -/
inductive Entry
  | attached (process : Nat)
  | detached
  /-- A command was written that belongs to no request of its own. -/
  | wrote (process : Nat) (command : String)
  /-- The command of a request was written, and the request appended. -/
  | sent (process : Nat) (r : Request)
  | registered (r : Request)
  /-- A request got a response. -/
  | answered (r : Request) (body : String)
  | unasked (body : String)
  | taken (rs : List Request)
  | abandoned (rs : List Request)

namespace Entry

/-- A command as it is written. -/
def line (command : String) : List UInt8 := Text.Utf8.encode (command.toList ++ ['\n'])

/-- What an entry appended. -/
def appended : Entry → List Request
  | sent _ r | registered r => [r]
  | _ => []

/-- What got a response. -/
def completed : Entry → List Request
  | answered r _ => [r]
  | _ => []

/-- What was taken out. -/
def withdrawn : Entry → List Request
  | taken rs => rs
  | _ => []

/-- What was dropped. -/
def dropped : Entry → List Request
  | abandoned rs => rs
  | _ => []

/-- What left the lane, in whatever way. -/
def departed (e : Entry) : List Request := e.completed ++ e.withdrawn ++ e.dropped

/-- The requests whose commands were written. -/
def submitted : Entry → List Request
  | sent _ r => [r]
  | _ => []

/-- What was written for requests. -/
def submittedLines : Entry → List (Nat × List UInt8)
  | sent p r => [(p, line r.command)]
  | _ => []

/-- What was written. -/
def lines : Entry → List (Nat × List UInt8)
  | wrote p command => [(p, line command)]
  | e => e.submittedLines

end Entry

/-- What entries are about. -/
structure Ledger where
  process : Option Nat
  queue : List Request
  writes : List (Nat × List UInt8)

namespace Ledger

open Entry

/-- When an entry can be made, and what it changes. -/
inductive Step : Ledger → Entry → Ledger → Prop
  | attached (s p) : Step s (.attached p) { s with process := some p }
  | detached (s) : Step s .detached { s with process := none }
  | wrote {s p} (command) (hp : s.process = some p) :
      Step s (.wrote p command) { s with writes := s.writes ++ [(p, line command)] }
  | sent {s p} (r) (hp : s.process = some p) :
      Step s (.sent p r)
        { s with queue := s.queue ++ [r], writes := s.writes ++ [(p, line r.command)] }
  | registered (s r) : Step s (.registered r) { s with queue := s.queue ++ [r] }
  | answered {s r queue} (body) (hq : s.queue = r :: queue) : Step s (.answered r body) { s with queue }
  | unasked {s} (body) (hq : s.queue = []) : Step s (.unasked body) s
  | taken (s) : Step s (.taken s.queue) { s with queue := [] }
  | abandoned (s) : Step s (.abandoned s.queue) { s with queue := [] }

/-- Entries one after the other. -/
inductive Run : Ledger → List Entry → Ledger → Prop
  | nil (s) : Run s [] s
  | cons {s t u e es} (he : Step s e t) (hes : Run t es u) : Run s (e :: es) u

variable {s t u : Ledger} {e : Entry} {es fs : List Entry}

theorem Run.single (he : Step s e t) : Run s [e] t := .cons he (.nil t)

theorem Run.append (hes : Run s es t) (hfs : Run t fs u) : Run s (es ++ fs) u := by
  induction hes with
  | nil => exact hfs
  | cons he _ ih => exact .cons he (ih hfs)

theorem Run.split {hs : List Entry} (h : Run s hs u) (e : hs = es ++ fs) :
    ∃ t, Run s es t ∧ Run t fs u := by
  induction es generalizing s hs with
  | nil =>
    subst e
    exact ⟨s, .nil s, h⟩
  | cons x es ih =>
    subst e
    cases h with
    | cons he hes =>
      obtain ⟨t, h₁, h₂⟩ := ih hes rfl
      exact ⟨t, .cons he h₁, h₂⟩

/-! ## Requests -/

theorem Step.queue_eq (h : Step s e t) : s.queue ++ e.appended = e.departed ++ t.queue := by
  cases h with
  | answered body hq => simp [appended, departed, completed, withdrawn, dropped, hq]
  | unasked body hq => simp [appended, departed, completed, withdrawn, dropped]
  | _ => simp [appended, departed, completed, withdrawn, dropped]

/-- What was appended either left, in the order of appending, or is pending. -/
theorem Run.queue_eq (h : Run s es t) :
    s.queue ++ es.flatMap appended = es.flatMap departed ++ t.queue := by
  induction h with
  | nil => simp
  | cons he _ ih =>
    rw [List.flatMap_cons, List.flatMap_cons, ← List.append_assoc, he.queue_eq, List.append_assoc,
      ih, List.append_assoc]

theorem completed_sublist_departed (es : List Entry) :
    (es.flatMap completed).Sublist (es.flatMap departed) := by
  induction es with
  | nil => exact .refl _
  | cons e es ih =>
    rw [List.flatMap_cons, List.flatMap_cons]
    refine List.Sublist.append ?_ ih
    rw [departed, List.append_assoc]
    exact List.sublist_append_left _ _

theorem length_departed (es : List Entry) :
    (es.flatMap departed).length = (es.flatMap completed).length + (es.flatMap withdrawn).length +
      (es.flatMap dropped).length := by
  induction es with
  | nil => rfl
  | cons e es ih =>
    simp only [List.flatMap_cons, List.length_append, ih, departed]
    omega

/-! ## Writes -/

theorem Step.writes_eq (h : Step s e t) : t.writes = s.writes ++ e.lines := by
  cases h <;> simp [lines, submittedLines]

/-- What was written is what the entries say, in their order. -/
theorem Run.writes_eq (h : Run s es t) : t.writes = s.writes ++ es.flatMap lines := by
  induction h with
  | nil => simp
  | cons he _ ih => rw [ih, he.writes_eq, List.flatMap_cons, List.append_assoc]

/-- Whatever is written goes to the process that was attached last. -/
theorem Run.lines_of_attached {p : Nat} (h : Run s es t)
    (hp : ∀ q, s.process = some q → q = p) (hes : ∀ q, .attached q ∉ es) :
    es.flatMap submittedLines = (es.flatMap submitted).map fun r => (p, line r.command) := by
  induction h with
  | nil => rfl
  | cons he _ ih =>
    simp only [List.mem_cons, not_or] at hes
    rw [List.flatMap_cons, List.flatMap_cons, List.map_append]
    cases he with
    | attached q => exact absurd rfl (hes q).1
    | detached => rw [ih nofun fun q => (hes q).2]; rfl
    | sent r hq => rw [ih hp fun q => (hes q).2, hp _ hq]; rfl
    | _ => rw [ih hp fun q => (hes q).2]; rfl

theorem Run.lines_since {p : Nat} (h : Run s (es ++ .attached p :: fs) t)
    (hfs : ∀ q, .attached q ∉ fs) :
    fs.flatMap submittedLines = (fs.flatMap submitted).map fun r => (p, line r.command) := by
  obtain ⟨u, -, hu⟩ := h.split rfl
  cases hu with
  | cons he hes =>
    cases he with
    | attached =>
      exact hes.lines_of_attached (fun q e => (Option.some.inj e).symm) hfs

end Ledger

end GhciHost
