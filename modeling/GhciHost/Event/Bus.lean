import GhciHost.Data.Keyed
import GhciHost.Event.Basic

/-! # The event bus

Subscribers get the events of one session through a queue.  Events that find no subscriber
are kept for the first one to come; the latest events are kept as the session's history.
Queues are filled by the event loop only: an event that another thread publishes waits for
the next turn of the loop, once a loop is known.

* `queue_put_self`   what a queue holds after a put;
* `history_record`   what a record adds to the history;
* `length_newest_le`   nothing kept grows beyond its limit. -/

namespace GhciHost

/-- The newest `n` of a list. -/
def newest (n : Nat) (xs : List α) : List α := xs.drop (xs.length - n)

theorem length_newest_le (n : Nat) (xs : List α) : (newest n xs).length ≤ n := by
  simp [newest]; omega

theorem newest_of_length_le {n : Nat} {xs : List α} (h : xs.length ≤ n) : newest n xs = xs := by
  simp [newest, Nat.sub_eq_zero_of_le h]

/-- Subscribers, what waits for them, and what was published. -/
structure Bus where
  /-- The queues that follow a session, in the order of subscription. -/
  subscribers : Keyed String (List Nat) := {}
  /-- Events that wait for a first subscriber. -/
  backlogs : Keyed String (List Event) := {}
  histories : Keyed String (List Event) := {}
  /-- The events in each queue, oldest first. -/
  queues : Keyed Nat (List Event) := {}
  /-- The number of the next queue. -/
  fresh : Nat := 0
  /-- Whether an event was published on the loop. -/
  loopKnown : Bool := false
  /-- What the next turn of the loop puts into queues. -/
  scheduled : List (Nat × Event) := []

namespace Bus

/-- How many events of a session are kept. -/
def limit : Nat := 1000

/-- The queues that follow a session. -/
def followers (b : Bus) (key : String) : List Nat := (b.subscribers.find? key).getD []

/-- The events of a session that wait for a subscriber. -/
def backlog (b : Bus) (key : String) : List Event := (b.backlogs.find? key).getD []

/-- The latest events of a session, oldest first. -/
def history (b : Bus) (key : String) : List Event := (b.histories.find? key).getD []

/-- The events in a queue. -/
def queue (b : Bus) (q : Nat) : List Event := (b.queues.find? q).getD []

/-- Put an event into a queue. -/
def put (b : Bus) (e : Event) (q : Nat) : Bus := { b with queues := b.queues.put q (b.queue q ++ [e]) }

/-- Follow a session: a new queue, which gets what waited for a subscriber. -/
def subscribe (b : Bus) (key : String) : Nat × Bus :=
  let q := b.fresh
  (q, { b with
    fresh := q + 1
    subscribers := b.subscribers.put key (b.followers key ++ [q])
    backlogs := b.backlogs.erase key
    queues := b.queues.put q (b.backlog key) })

/-- Stop following; a queue that does not follow the session is left alone. -/
def unsubscribe (b : Bus) (key : String) (q : Nat) : Bus :=
  if q ∈ b.followers key then
    match (b.followers key).erase q with
    -- without followers the session's events are kept for the next one to come
    | [] => { b with subscribers := b.subscribers.erase key }
    | qs => { b with subscribers := b.subscribers.put key qs }
  else b

/-- Note an event in the history, and in the backlog where nobody follows the session. -/
def record (b : Bus) (e : Event) : Bus :=
  -- that a subscription ends is not something that happened to the session
  let b := if e.kind = .sessionClosed then b
    else { b with histories := b.histories.put e.session (newest limit (b.history e.session ++ [e])) }
  if b.followers e.session = [] then
    { b with backlogs := b.backlogs.put e.session (newest limit (b.backlog e.session ++ [e])) }
  else b

/-- Publish on the loop. -/
def publish (b : Bus) (e : Event) : Bus :=
  let b := { b.record e with loopKnown := true }
  (b.followers e.session).foldl (fun b q => b.put e q) b

/-- Publish on another thread, or where no loop runs. -/
def publishOutside (b : Bus) (e : Event) : Bus :=
  let b := b.record e
  let qs := b.followers e.session
  if b.loopKnown then { b with scheduled := b.scheduled ++ qs.map fun q => (q, e) }
  else qs.foldl (fun b q => b.put e q) b

/-- A turn of the loop. -/
def turn (b : Bus) : Bus :=
  b.scheduled.foldl (fun b (q, e) => b.put e q) { b with scheduled := [] }

/-- Take all events out of a queue. -/
def drain (b : Bus) (q : Nat) : List Event × Bus :=
  (b.queue q, { b with queues := b.queues.put q [] })

/-- End the subscriptions of a session, and drop what waited for subscribers. -/
def close (b : Bus) (key : String) : Bus :=
  (b.followers key).foldl (fun b q => b.put (.closing key) q)
    { b with subscribers := b.subscribers.erase key, backlogs := b.backlogs.erase key }

/-- Forget the history of a session. -/
def clearHistory (b : Bus) (key : String) : Bus := { b with histories := b.histories.erase key }

@[simp] theorem queue_put_self (b : Bus) (e : Event) (q : Nat) :
    (b.put e q).queue q = b.queue q ++ [e] := by
  simp [put, queue]

theorem queue_put_of_ne {q q' : Nat} (h : q' ≠ q) (b : Bus) (e : Event) :
    (b.put e q).queue q' = b.queue q' := by
  simp [put, queue, Keyed.find?_put_of_ne h]

@[simp] theorem followers_put (b : Bus) (e : Event) (q : Nat) (key : String) :
    (b.put e q).followers key = b.followers key := rfl

@[simp] theorem history_put (b : Bus) (e : Event) (q : Nat) (key : String) :
    (b.put e q).history key = b.history key := rfl

@[simp] theorem followers_record (b : Bus) (e : Event) (key : String) :
    (b.record e).followers key = b.followers key := by
  unfold record
  split <;> (dsimp only; split <;> rfl)

theorem history_record (b : Bus) (e : Event) :
    (b.record e).history e.session =
      if e.kind = .sessionClosed then b.history e.session
      else newest limit (b.history e.session ++ [e]) := by
  unfold record
  split <;> (dsimp only; split <;> simp [history])

end Bus

/-- The process-wide bus: which one it is, and the number of the next one. -/
structure SharedBus where
  current : Option Nat := none
  fresh : Nat := 0
deriving Repr

namespace SharedBus

/-- The number of the process-wide bus, which is made when it is first asked for. -/
def get (s : SharedBus) : Nat × SharedBus :=
  match s.current with
  | some n => (n, s)
  | none => (s.fresh, ⟨some s.fresh, s.fresh + 1⟩)

/-- Drop the process-wide bus. -/
def reset (s : SharedBus) : SharedBus := { s with current := none }

theorem get_get (s : SharedBus) : s.get.2.get.1 = s.get.1 := by
  cases h : s.current <;> simp [get, h]

end SharedBus

end GhciHost
