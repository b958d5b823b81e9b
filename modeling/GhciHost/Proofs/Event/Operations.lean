import Mathlib.Data.List.Nodup
import GhciHost.Event.Bus

/-!
# What the operations of a bus do

Each operation has one equation for each of the views of a bus: who follows a session, what waits
for a subscriber, the history, and what a queue holds.  A view that has no equation for an operation
is left alone by definition.

* `Op`, `Op.apply`, `run`   the operations on the loop, one after the other;
* `Sound`   a queue follows one session at most, and nothing waits for a session that is followed;
* `Sound.apply`, `sound_run`   this is so all along.
-/

namespace GhciHost

/-! ## The newest -/

section

variable {α : Type} (n : Nat)

theorem newest_nil : newest n ([] : List α) = [] := by
  simp [newest]

/-- The newest are found among the newest and what comes behind them. -/
theorem newest_newest_append (xs ys : List α) :
    newest n (newest n xs ++ ys) = newest n (xs ++ ys) := by
  rcases Nat.le_total xs.length n with h | h
  · rw [newest_of_length_le h]
  · have hxs : xs = xs.take (xs.length - n) ++ newest n xs := (List.take_append_drop _ _).symm
    have hlength : (newest n xs).length = n := by
      rw [newest, List.length_drop]
      omega
    have hall : (xs ++ ys).length - n = (xs.length - n) + ys.length := by
      rw [List.length_append]
      omega
    have hrest : (newest n xs ++ ys).length - n = ys.length := by
      rw [List.length_append, hlength]
      omega
    have hsplit : xs ++ ys = xs.take (xs.length - n) ++ (newest n xs ++ ys) := by
      rw [← List.append_assoc, ← hxs]
    have htake : (xs.take (xs.length - n)).length = xs.length - n := by
      rw [List.length_take]
      omega
    calc newest n (newest n xs ++ ys) = (newest n xs ++ ys).drop ys.length := by
          rw [newest, hrest]
      _ = (xs.take (xs.length - n) ++ (newest n xs ++ ys)).drop
            ((xs.take (xs.length - n)).length + ys.length) := by
          rw [← List.drop_drop, List.drop_left]
      _ = newest n (xs ++ ys) := by
          rw [htake, ← hsplit, ← hall, newest]

end

/-! ## Lookups -/

namespace Keyed

variable {κ : Type u} {α : Type v} [DecidableEq κ] (m : Keyed κ α) (k k' : κ) (a d : α)

theorem getD_find?_put :
    ((m.put k a).find? k').getD d = if k' = k then a else (m.find? k').getD d := by
  split
  · next h => rw [h, find?_put_self, Option.getD_some]
  · next h => rw [find?_put_of_ne h]

theorem getD_find?_erase :
    ((m.erase k).find? k').getD d = if k' = k then d else (m.find? k').getD d := by
  split
  · next h => rw [h, find?_erase_self, Option.getD_none]
  · next h => rw [find?_erase_of_ne h]

end Keyed

namespace Bus

section

variable (b : Bus) (e : Event) (key k : String) (q q' : Nat)

/-! ## Subscriptions -/

theorem followers_subscribe : (b.subscribe key).2.followers k =
    if k = key then b.followers key ++ [b.fresh] else b.followers k :=
  Keyed.getD_find?_put ..

theorem backlog_subscribe : (b.subscribe key).2.backlog k =
    if k = key then [] else b.backlog k :=
  Keyed.getD_find?_erase ..

theorem queue_subscribe : (b.subscribe key).2.queue q =
    if q = b.fresh then b.backlog key else b.queue q :=
  Keyed.getD_find?_put ..

/-- Only the followers of the session are changed. -/
theorem unsubscribe_eq : b.unsubscribe key q =
    { b with subscribers := (b.unsubscribe key q).subscribers } := by
  unfold unsubscribe
  split
  · split <;> rfl
  · rfl

theorem followers_unsubscribe : (b.unsubscribe key q).followers k =
    if k = key then (b.followers key).erase q else b.followers k := by
  unfold unsubscribe
  split
  · split
    · next h =>
      rw [h]
      exact Keyed.getD_find?_erase ..
    · next h => exact Keyed.getD_find?_put ..
  · next h =>
    rw [List.erase_of_not_mem h]
    split
    · next hk => rw [hk]
    · rfl

theorem backlog_unsubscribe : (b.unsubscribe key q).backlog k = b.backlog k := by
  rw [unsubscribe_eq]
  rfl

theorem history_unsubscribe : (b.unsubscribe key q).history k = b.history k := by
  rw [unsubscribe_eq]
  rfl

theorem queue_unsubscribe : (b.unsubscribe key q).queue q' = b.queue q' := by
  rw [unsubscribe_eq]
  rfl

theorem fresh_unsubscribe : (b.unsubscribe key q).fresh = b.fresh := by
  rw [unsubscribe_eq]

/-! ## Puts -/

/-- Only queues are changed. -/
theorem foldl_put_eq (qs : List Nat) : qs.foldl (fun b q => b.put e q) b =
    { b with queues := (qs.foldl (fun b q => b.put e q) b).queues } := by
  induction qs generalizing b with
  | nil => rfl
  | cons q qs ih => rw [List.foldl_cons, ih]; rfl

/-- An event is put once into each queue. -/
theorem queue_foldl_put {qs : List Nat} (h : qs.Nodup) :
    (qs.foldl (fun b q => b.put e q) b).queue q =
      if q ∈ qs then b.queue q ++ [e] else b.queue q := by
  induction qs generalizing b with
  | nil => rw [if_neg List.not_mem_nil]; rfl
  | cons q' qs ih =>
    obtain ⟨hq', hqs⟩ := List.nodup_cons.1 h
    rw [List.foldl_cons, ih _ hqs]
    by_cases hq : q = q'
    · subst hq
      rw [if_neg hq', if_pos List.mem_cons_self, queue_put_self]
    · simp only [List.mem_cons, hq, false_or, queue_put_of_ne hq]

/-! ## Records -/

theorem backlog_record : (b.record e).backlog k =
    if k = e.session ∧ b.followers e.session = [] then newest limit (b.backlog k ++ [e])
    else b.backlog k := by
  -- the history makes no difference
  have hnoted (b' : Bus) (hf : b'.followers e.session = b.followers e.session)
      (hb : b'.backlogs = b.backlogs) : (if b'.followers e.session = [] then
        { b' with backlogs := b'.backlogs.put e.session (newest limit (b'.backlog e.session ++ [e])) }
        else b').backlog k =
      if k = e.session ∧ b.followers e.session = [] then newest limit (b.backlog k ++ [e])
      else b.backlog k := by
    have hbacklog (k : String) : b'.backlog k = b.backlog k := by rw [backlog, hb, backlog]
    rw [hf]
    by_cases h : b.followers e.session = []
    · rw [if_pos h]
      refine (Keyed.getD_find?_put ..).trans ?_
      by_cases hk : k = e.session
      · rw [if_pos hk, if_pos ⟨hk, h⟩, hbacklog, hk]
      · rw [if_neg hk, if_neg fun c => hk c.1]
        exact hbacklog k
    · rw [if_neg h, if_neg fun c => h c.2, hbacklog]
  unfold record
  split
  · exact hnoted b rfl rfl
  · exact hnoted _ rfl rfl

theorem history_record_of_any : (b.record e).history k =
    if k = e.session ∧ e.kind ≠ .sessionClosed then newest limit (b.history k ++ [e])
    else b.history k := by
  by_cases hk : k = e.session
  · subst hk
    rw [history_record]
    by_cases h : e.kind = .sessionClosed
    · rw [if_pos h, if_neg fun c => c.2 h]
    · rw [if_neg h, if_pos ⟨rfl, h⟩]
  · rw [if_neg fun c => hk c.1]
    unfold record
    split
    · dsimp only
      split <;> rfl
    · dsimp only
      split <;> exact congrArg (Option.getD · []) (Keyed.find?_put_of_ne hk ..)

theorem queue_record : (b.record e).queue q = b.queue q := by
  unfold record
  split <;> (dsimp only; split <;> rfl)

theorem fresh_record : (b.record e).fresh = b.fresh := by
  unfold record
  split <;> (dsimp only; split <;> rfl)

/-! ## Publishing -/

theorem publish_eq : b.publish e =
    { b.record e with loopKnown := true, queues := (b.publish e).queues } := by
  unfold publish
  dsimp only
  rw [foldl_put_eq]

theorem followers_publish : (b.publish e).followers k = b.followers k := by
  rw [publish_eq]
  exact followers_record b e k

theorem backlog_publish : (b.publish e).backlog k =
    if k = e.session ∧ b.followers e.session = [] then newest limit (b.backlog k ++ [e])
    else b.backlog k := by
  rw [publish_eq]
  exact backlog_record b e k

theorem history_publish : (b.publish e).history k =
    if k = e.session ∧ e.kind ≠ .sessionClosed then newest limit (b.history k ++ [e])
    else b.history k := by
  rw [publish_eq]
  exact history_record_of_any b e k

theorem fresh_publish : (b.publish e).fresh = b.fresh := by
  rw [publish_eq]
  exact fresh_record b e

theorem queue_publish (h : (b.followers e.session).Nodup) : (b.publish e).queue q =
    if q ∈ b.followers e.session then b.queue q ++ [e] else b.queue q := by
  have hf : ({ b.record e with loopKnown := true } : Bus).followers e.session =
      b.followers e.session := followers_record b e _
  have hq : ({ b.record e with loopKnown := true } : Bus).queue q = b.queue q := queue_record b e q
  rw [publish, hf]
  exact (queue_foldl_put _ e q h).trans (by rw [hq])

/-! ## Closing -/

theorem close_eq : b.close key =
    { b with
      subscribers := b.subscribers.erase key
      backlogs := b.backlogs.erase key
      queues := (b.close key).queues } := by
  unfold close
  rw [foldl_put_eq]

theorem followers_close : (b.close key).followers k = if k = key then [] else b.followers k := by
  rw [close_eq]
  exact Keyed.getD_find?_erase ..

theorem backlog_close : (b.close key).backlog k = if k = key then [] else b.backlog k := by
  rw [close_eq]
  exact Keyed.getD_find?_erase ..

theorem history_close : (b.close key).history k = b.history k := by
  rw [close_eq]
  rfl

theorem fresh_close : (b.close key).fresh = b.fresh := by
  rw [close_eq]

theorem queue_close (h : (b.followers key).Nodup) : (b.close key).queue q =
    if q ∈ b.followers key then b.queue q ++ [.closing key] else b.queue q := by
  unfold close
  exact queue_foldl_put _ _ q h

theorem history_clearHistory : (b.clearHistory key).history k =
    if k = key then [] else b.history k :=
  Keyed.getD_find?_erase ..

end

/-! ## Operations -/

/-- What can be done to a bus on the loop.  A queue goes by its number: the first subscription makes
    queue 0. -/
inductive Op
  | subscribe (key : String)
  | unsubscribe (key : String) (queue : Nat)
  /-- By a task of the loop, or by a function that is called on it: both put at once. -/
  | publish (e : Event)
  | close (key : String)
  | clearHistory (key : String)

/-- The session that an operation is about. -/
def Op.key : Op → String
  | subscribe key | unsubscribe key _ | close key | clearHistory key => key
  | publish e => e.session

/-- Do something to a bus. -/
def Op.apply (b : Bus) : Op → Bus
  | subscribe key => (b.subscribe key).2
  | unsubscribe key q => b.unsubscribe key q
  | publish e => b.publish e
  | close key => b.close key
  | clearHistory key => b.clearHistory key

/-- A bus that was new, after operations. -/
def run (ops : List Op) : Bus := ops.foldl Op.apply {}

theorem run_append (ops ops' : List Op) : run (ops ++ ops') = ops'.foldl Op.apply (run ops) :=
  List.foldl_append

theorem run_concat (ops : List Op) (op : Op) : run (ops ++ [op]) = op.apply (run ops) :=
  run_append ops [op]

/-- A queue follows one session at most, once, and nothing waits for a session that is followed. -/
structure Sound (b : Bus) : Prop where
  nodup : ∀ key, (b.followers key).Nodup
  known : ∀ key, ∀ q ∈ b.followers key, q < b.fresh
  single : ∀ {q key key'}, q ∈ b.followers key → q ∈ b.followers key' → key = key'
  /-- A queue that was not made is empty. -/
  unused : ∀ q, b.fresh ≤ q → b.queue q = []
  attended : ∀ key, b.followers key ≠ [] → b.backlog key = []

namespace Sound

variable {b : Bus} {e : Event} {key : String} {q : Nat}

theorem subscribe (h : Sound b) : Sound (b.subscribe key).2 where
  nodup k := by
    rw [followers_subscribe]
    split
    · refine List.nodup_append.2 ⟨h.nodup key, List.nodup_singleton _, fun q hq q' hq' => ?_⟩
      have hlt : q < b.fresh := h.known key q hq
      rw [List.mem_singleton.1 hq']
      omega
    · exact h.nodup k
  known k q hq := by
    have hle (hq : q ∈ b.followers k) : q < b.fresh + 1 := by
      have := h.known k q hq
      omega
    show q < b.fresh + 1
    rw [followers_subscribe] at hq
    split at hq
    · next hk =>
      rcases List.mem_append.1 hq with hq | hq
      · exact hle (hk ▸ hq)
      · rw [List.mem_singleton.1 hq]
        omega
    · exact hle hq
  single {q k k'} hk hk' := by
    have hnew (k : String) (hq : q ∈ (b.subscribe key).2.followers k) :
        q ∈ b.followers k ∨ q = b.fresh ∧ k = key := by
      rw [followers_subscribe] at hq
      split at hq
      · next e =>
        rcases List.mem_append.1 hq with hq | hq
        · exact .inl (e ▸ hq)
        · exact .inr ⟨List.mem_singleton.1 hq, e⟩
      · exact .inl hq
    have hold (k : String) (hq : q ∈ b.followers k) : q ≠ b.fresh :=
      Nat.ne_of_lt (h.known k q hq)
    rcases hnew k hk with hm | ⟨e, rfl⟩
    · rcases hnew k' hk' with hm' | ⟨e', -⟩
      · exact h.single hm hm'
      · exact absurd e' (hold k hm)
    · rcases hnew k' hk' with hm' | ⟨-, rfl⟩
      · exact absurd e (hold k' hm')
      · rfl
  unused q hq := by
    have hq : b.fresh + 1 ≤ q := hq
    rw [queue_subscribe, if_neg (by omega)]
    exact h.unused q (by omega)
  attended k hk := by
    rw [followers_subscribe] at hk
    rw [backlog_subscribe]
    split at hk
    · next e => rw [if_pos e]
    · next e =>
      rw [if_neg e]
      exact h.attended k hk

theorem unsubscribe (h : Sound b) : Sound (b.unsubscribe key q) := by
  have hmem {k : String} {q' : Nat} (hq' : q' ∈ (b.unsubscribe key q).followers k) :
      q' ∈ b.followers k := by
    rw [followers_unsubscribe] at hq'
    split at hq'
    · next e => exact e ▸ List.mem_of_mem_erase hq'
    · exact hq'
  refine ⟨fun k => ?_, fun k q' hq' => ?_, fun hk hk' => h.single (hmem hk) (hmem hk'),
    fun q' hq' => ?_, fun k hk => ?_⟩
  · rw [followers_unsubscribe]
    split
    · exact (h.nodup key).erase q
    · exact h.nodup k
  · rw [fresh_unsubscribe]
    exact h.known k q' (hmem hq')
  · rw [fresh_unsubscribe] at hq'
    rw [queue_unsubscribe]
    exact h.unused q' hq'
  · rw [backlog_unsubscribe]
    obtain ⟨q', hq'⟩ := List.exists_mem_of_ne_nil _ hk
    exact h.attended k (List.ne_nil_of_mem (hmem hq'))

theorem publish (h : Sound b) : Sound (b.publish e) where
  nodup k := by
    rw [followers_publish]
    exact h.nodup k
  known k q hq := by
    rw [followers_publish] at hq
    rw [fresh_publish]
    exact h.known k q hq
  single hk hk' := by
    rw [followers_publish] at hk hk'
    exact h.single hk hk'
  unused q hq := by
    rw [fresh_publish] at hq
    rw [queue_publish _ _ _ (h.nodup _), if_neg fun hm => ?_]
    · exact h.unused q hq
    · exact absurd (h.known _ q hm) (Nat.not_lt.2 hq)
  attended k hk := by
    rw [followers_publish] at hk
    rw [backlog_publish, if_neg fun c => ?_]
    · exact h.attended k hk
    · rw [c.1] at hk
      exact hk c.2

theorem close (h : Sound b) : Sound (b.close key) := by
  have hmem {k : String} {q : Nat} (hq : q ∈ (b.close key).followers k) : q ∈ b.followers k := by
    rw [followers_close] at hq
    split at hq
    · exact absurd hq List.not_mem_nil
    · exact hq
  refine ⟨fun k => ?_, fun k q hq => ?_, fun hk hk' => h.single (hmem hk) (hmem hk'),
    fun q hq => ?_, fun k hk => ?_⟩
  · rw [followers_close]
    split
    · exact List.nodup_nil
    · exact h.nodup k
  · rw [fresh_close]
    exact h.known k q (hmem hq)
  · rw [fresh_close] at hq
    rw [queue_close _ _ _ (h.nodup _), if_neg fun hm => ?_]
    · exact h.unused q hq
    · exact absurd (h.known _ q hm) (Nat.not_lt.2 hq)
  · rw [backlog_close]
    split
    · rfl
    · obtain ⟨q, hq⟩ := List.exists_mem_of_ne_nil _ hk
      exact h.attended k (List.ne_nil_of_mem (hmem hq))

/-- What can be done to a bus keeps it sound. -/
theorem apply (h : Sound b) (op : Op) : Sound (op.apply b) := by
  cases op with
  | subscribe key => exact h.subscribe
  | unsubscribe key q => exact h.unsubscribe
  | publish e => exact h.publish
  | close key => exact h.close
  | clearHistory key => exact ⟨h.nodup, h.known, h.single, h.unused, h.attended⟩

theorem foldl (h : Sound b) (ops : List Op) : Sound (ops.foldl Op.apply b) := by
  induction ops generalizing b with
  | nil => exact h
  | cons op ops ih => exact ih (h.apply op)

end Sound

theorem sound_run (ops : List Op) : Sound (run ops) := by
  have hnew : Sound {} := {
    nodup := fun _ => List.nodup_nil
    known := fun _ _ h => absurd h List.not_mem_nil
    single := fun h => absurd h List.not_mem_nil
    unused := fun _ _ => rfl
    attended := fun _ h => absurd rfl h }
  exact hnew.foldl ops

end Bus

end GhciHost
