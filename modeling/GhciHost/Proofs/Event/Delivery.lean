import Mathlib.Data.List.Induction
import GhciHost.Proofs.Event.Operations

/-!
# What a bus delivers

What the queues, the backlogs and the histories of a bus hold, said of the operations that were done
to it alone.

* `published`, `subscriptions`, `followed`   what operations ask for;
* `Follows`, `Since`   which queues follow a session, and what was done since some moment;
* `Faithful`   nothing is lost, doubled or mixed up;
* `faithful_run`   no operations lead to anything else.
-/

namespace GhciHost.Bus

/-! ## What is asked for -/

/-- The event that an operation publishes to a session. -/
def Op.event? (key : String) : Op → Option Event
  | publish e => if e.session = key then some e else none
  | _ => none

/-- The events that operations publish to a session, in order. -/
def published (key : String) (ops : List Op) : List Event := ops.filterMap (Op.event? key)

/-- An operation makes a queue. -/
def Op.subscribes : Op → Bool
  | subscribe _ => true
  | _ => false

/-- How many queues operations make, which is the number of the next one. -/
def subscriptions (ops : List Op) : Nat := ops.countP Op.subscribes

/-- What a queue that follows a session is given by operations: what they publish to the session,
    until the queue is unsubscribed or the session closed.  The end of the session is told. -/
def followed (key : String) (q : Nat) : List Op → List Event
  | [] => []
  | .publish e :: ops =>
    if e.session = key then e :: followed key q ops else followed key q ops
  | .unsubscribe k q' :: ops => if k = key ∧ q' = q then [] else followed key q ops
  | .close k :: ops => if k = key then [.closing key] else followed key q ops
  | .subscribe _ :: ops | .clearHistory _ :: ops => followed key q ops

/-- A queue follows a session: it was made to do so, and neither unsubscribed since, nor was the
    session closed. -/
def Follows (key : String) (q : Nat) (ops : List Op) : Prop :=
  ∃ before after, ops = before ++ .subscribe key :: after ∧ q = subscriptions before ∧
    Op.unsubscribe key q ∉ after ∧ Op.close key ∉ after

/-- `after` is what was done since something last was so; all, if it never was. -/
def Since (p : List Op → Prop) (ops after : List Op) : Prop :=
  ∃ before, ops = before ++ after ∧ (before = [] ∨ p before) ∧
    ∀ more, more ≠ [] → more <+: after → ¬ p (before ++ more)

/-- A session has a subscriber, or was just closed. -/
def Settled (key : String) (ops : List Op) : Prop :=
  (∃ q, Follows key q ops) ∨ ops.getLast? = some (.close key)

/-- The history of a session was just cleared. -/
def Cleared (key : String) (ops : List Op) : Prop := ops.getLast? = some (.clearHistory key)

/-- Operations on a bus lose nothing, and double and mix up nothing. -/
structure Faithful (ops : List Op) : Prop where
  /-- A queue holds what waited for it, and then what it was given while it followed its session. -/
  queues : ∀ before key after, ops = before ++ .subscribe key :: after →
    (run ops).queue (subscriptions before) =
      (run before).backlog key ++ followed key (subscriptions before) after
  /-- Nothing is put where no queue was made. -/
  no_others : ∀ q, subscriptions ops ≤ q → (run ops).queue q = []
  followers : ∀ key q, q ∈ (run ops).followers key ↔ Follows key q ops
  /-- Nothing waits for a session that has a subscriber. -/
  attended : ∀ key q, Follows key q ops → (run ops).backlog key = []
  /-- The newest wait of what was published since there was a subscriber or a close. -/
  backlogs : ∀ key, ∃ after, Since (Settled key) ops after ∧
    (run ops).backlog key = newest limit (published key after)
  /-- The newest are kept of what was published since the history was cleared. -/
  histories : ∀ key, ∃ after, Since (Cleared key) ops after ∧
    (run ops).history key =
      newest limit ((published key after).filter fun e => decide (e.kind ≠ .sessionClosed))
  /-- What is done next to one session changes nothing of another. -/
  apart : ∀ op key, op.key ≠ key →
    (run (ops ++ [op])).backlog key = (run ops).backlog key ∧
    (run (ops ++ [op])).history key = (run ops).history key ∧
    (run (ops ++ [op])).followers key = (run ops).followers key ∧
    ∀ before after, ops = before ++ .subscribe key :: after →
      (run (ops ++ [op])).queue (subscriptions before) = (run ops).queue (subscriptions before)

/-! ## Queues -/

section

variable {b : Bus} {key : String} {q : Nat}

theorem fresh_foldl (b : Bus) (ops : List Op) :
    (ops.foldl Op.apply b).fresh = b.fresh + subscriptions ops := by
  induction ops generalizing b with
  | nil => rfl
  | cons op ops ih =>
    have hop : (op.apply b).fresh = b.fresh + if op.subscribes then 1 else 0 := by
      cases op with
      | subscribe key => rfl
      | unsubscribe key q => exact fresh_unsubscribe ..
      | publish e => exact fresh_publish ..
      | close key => exact fresh_close ..
      | clearHistory key => rfl
    have hcount : subscriptions (op :: ops) =
        subscriptions ops + if op.subscribes then 1 else 0 := List.countP_cons
    rw [List.foldl_cons, ih, hop, hcount]
    omega

/-- The next queue has the number of those that were made. -/
theorem fresh_run (ops : List Op) : (run ops).fresh = subscriptions ops := by
  rw [run, fresh_foldl]
  exact Nat.zero_add _

/-- A queue that was made follows a session until one of two things is done. -/
theorem mem_followers_apply (h : Sound b) (hq : q < b.fresh) (op : Op) :
    q ∈ (op.apply b).followers key ↔
      q ∈ b.followers key ∧ op ≠ .unsubscribe key q ∧ op ≠ .close key := by
  cases op with
  | subscribe k =>
    show q ∈ (b.subscribe k).2.followers key ↔ _
    rw [followers_subscribe]
    split
    · next e =>
      subst e
      simp [Nat.ne_of_lt hq]
    · simp
  | unsubscribe k q' =>
    show q ∈ (b.unsubscribe k q').followers key ↔ _
    rw [followers_unsubscribe]
    split
    · next e =>
      subst e
      rw [(h.nodup key).mem_erase_iff]
      simp [and_comm, eq_comm]
    · next e => simp [Ne.symm e]
  | publish e =>
    show q ∈ (b.publish e).followers key ↔ _
    rw [followers_publish]
    simp
  | close k =>
    show q ∈ (b.close k).followers key ↔ _
    rw [followers_close]
    split
    · next e => simp [e]
    · next e => simp [Ne.symm e]
  | clearHistory k =>
    show q ∈ b.followers key ↔ _
    simp

theorem mem_followers_foldl (h : Sound b) (hq : q < b.fresh) (ops : List Op) :
    q ∈ (ops.foldl Op.apply b).followers key ↔
      q ∈ b.followers key ∧ Op.unsubscribe key q ∉ ops ∧ Op.close key ∉ ops := by
  induction ops generalizing b with
  | nil => simp
  | cons op ops ih =>
    have hq' : q < (op.apply b).fresh := by
      have := fresh_foldl b [op]
      rw [List.foldl_cons, List.foldl_nil] at this
      omega
    rw [List.foldl_cons, ih (h.apply op) hq', mem_followers_apply h hq]
    simp only [List.mem_cons, not_or, ne_eq, @eq_comm _ op]
    tauto

/-- A queue that follows no session is left alone. -/
theorem queue_foldl_of_not_mem (h : Sound b) (hq : q < b.fresh) (hnone : ∀ k, q ∉ b.followers k)
    (ops : List Op) : (ops.foldl Op.apply b).queue q = b.queue q := by
  induction ops generalizing b with
  | nil => rfl
  | cons op ops ih =>
    have hop : (op.apply b).queue q = b.queue q := by
      cases op with
      | subscribe k => exact (queue_subscribe ..).trans (if_neg (Nat.ne_of_lt hq))
      | unsubscribe k q' => exact queue_unsubscribe ..
      | publish e => exact (queue_publish _ _ _ (h.nodup _)).trans (if_neg (hnone _))
      | close k => exact (queue_close _ _ _ (h.nodup _)).trans (if_neg (hnone _))
      | clearHistory k => rfl
    have hq' : q < (op.apply b).fresh := by
      have := fresh_foldl b [op]
      rw [List.foldl_cons, List.foldl_nil] at this
      omega
    rw [List.foldl_cons, ih (h.apply op) hq' fun k hk => ?_, hop]
    exact hnone k ((mem_followers_apply h hq op).1 hk).1

/-- A queue is given what is published to the session that it follows. -/
theorem queue_foldl_of_mem (h : Sound b) (hq : q ∈ b.followers key) (ops : List Op) :
    (ops.foldl Op.apply b).queue q = b.queue q ++ followed key q ops := by
  have hlt {b : Bus} (h : Sound b) (hq : q ∈ b.followers key) : q < b.fresh := h.known key q hq
  induction ops generalizing b with
  | nil => exact (List.append_nil _).symm
  | cons op ops ih =>
    have hq' : q < (op.apply b).fresh := by
      have := fresh_foldl b [op]
      have := hlt h hq
      rw [List.foldl_cons, List.foldl_nil] at *
      omega
    -- the session that the queue follows is the only one
    have hfollow (k : String) : q ∈ b.followers k ↔ k = key :=
      ⟨fun hk => h.single hk hq, fun e => e ▸ hq⟩
    have hgo (hu : op ≠ .unsubscribe key q) (hc : op ≠ .close key) :
        (ops.foldl Op.apply (op.apply b)).queue q = (op.apply b).queue q ++ followed key q ops :=
      ih (h.apply op) ((mem_followers_apply h (hlt h hq) op).2 ⟨hq, hu, hc⟩)
    have hstop (hs : op = .unsubscribe key q ∨ op = .close key) :
        (ops.foldl Op.apply (op.apply b)).queue q = (op.apply b).queue q := by
      refine queue_foldl_of_not_mem (h.apply op) hq' (fun k hk => ?_) ops
      obtain ⟨hm, hu, hc⟩ := (mem_followers_apply h (hlt h hq) op).1 hk
      rw [(hfollow k).1 hm] at hu hc
      exact hs.elim hu hc
    rw [List.foldl_cons]
    cases op with
    | subscribe k =>
      rw [hgo (by simp) (by simp), followed]
      exact congrArg (· ++ _) ((queue_subscribe ..).trans (if_neg (Nat.ne_of_lt (hlt h hq))))
    | unsubscribe k q' =>
      rw [followed]
      split
      · next e =>
        rw [hstop (.inl (by rw [e.1, e.2])), List.append_nil]
        exact queue_unsubscribe ..
      · next e =>
        rw [hgo (by simpa using e) (by simp)]
        exact congrArg (· ++ _) (queue_unsubscribe ..)
    | publish e =>
      have hqueue : (Op.apply b (.publish e)).queue q =
          if q ∈ b.followers e.session then b.queue q ++ [e] else b.queue q :=
        queue_publish _ _ _ (h.nodup _)
      rw [hgo (by simp) (by simp), followed, hqueue]
      simp only [hfollow]
      split
      · rw [List.append_assoc]
        rfl
      · rfl
    | close k =>
      have hqueue : (Op.apply b (.close k)).queue q =
          if q ∈ b.followers k then b.queue q ++ [.closing k] else b.queue q :=
        queue_close _ _ _ (h.nodup _)
      simp only [hfollow] at hqueue
      rw [followed]
      split at hqueue
      · next e => rw [if_pos e, hstop (.inr (by rw [e])), hqueue, e]
      · next e => rw [if_neg e, hgo (by simp) (by simpa using e), hqueue]
    | clearHistory k => exact hgo (by simp) (by simp)

end

/-- A queue that was made was made by a subscription. -/
theorem exists_subscription {ops : List Op} {q : Nat} (h : q < subscriptions ops) :
    ∃ before key after, ops = before ++ .subscribe key :: after ∧ q = subscriptions before := by
  induction ops using List.reverseRecOn with
  | nil => exact absurd h (Nat.not_lt_zero _)
  | append_singleton ops op ih =>
    by_cases hq : q < subscriptions ops
    · obtain ⟨before, key, after, e, hb⟩ := ih hq
      exact ⟨before, key, after ++ [op], by rw [e, List.append_assoc]; rfl, hb⟩
    · rw [subscriptions, List.countP_append, List.countP_singleton, ← subscriptions] at h
      cases op with
      | subscribe key =>
        refine ⟨ops, key, [], rfl, ?_⟩
        have : Op.subscribes (.subscribe key) = true := rfl
        rw [if_pos this] at h
        omega
      | unsubscribe | publish | close | clearHistory => exact absurd h hq

/-- Behind a subscription, the new queue follows the session and holds what waited. -/
theorem subscribed (before : List Op) (key : String) :
    Sound ((run before).subscribe key).2 ∧
      (∀ k, subscriptions before ∈ ((run before).subscribe key).2.followers k ↔ k = key) ∧
      ((run before).subscribe key).2.queue (subscriptions before) = (run before).backlog key := by
  have h := sound_run before
  refine ⟨h.subscribe, fun k => ?_, ?_⟩
  · rw [← fresh_run, followers_subscribe]
    split
    · next e => simp [e]
    · next e => exact iff_of_false (fun hm => Nat.lt_irrefl _ (h.known k _ hm)) e
  · rw [← fresh_run, queue_subscribe, if_pos rfl]

theorem run_subscribe (before : List Op) (key : String) (after : List Op) :
    run (before ++ .subscribe key :: after) =
      after.foldl Op.apply ((run before).subscribe key).2 :=
  run_append before (.subscribe key :: after)

theorem queue_run (before : List Op) (key : String) (after : List Op) :
    (run (before ++ .subscribe key :: after)).queue (subscriptions before) =
      (run before).backlog key ++ followed key (subscriptions before) after := by
  obtain ⟨hsound, hmem, hqueue⟩ := subscribed before key
  rw [run_subscribe, queue_foldl_of_mem hsound ((hmem key).2 rfl), hqueue]

/-- Who follows a session, said of the operations alone. -/
theorem mem_followers_run {ops : List Op} {key : String} {q : Nat} :
    q ∈ (run ops).followers key ↔ Follows key q ops := by
  have hsplit (before k after) : subscriptions before ∈
      (run (before ++ .subscribe k :: after)).followers key ↔
        key = k ∧ Op.unsubscribe key (subscriptions before) ∉ after ∧ Op.close key ∉ after := by
    obtain ⟨hsound, hmem, -⟩ := subscribed before k
    rw [run_subscribe, mem_followers_foldl hsound (hsound.known k _ ((hmem k).2 rfl)), hmem]
  constructor
  · intro hq
    have hlt : q < subscriptions ops := by
      rw [← fresh_run]
      exact (sound_run ops).known key q hq
    obtain ⟨before, k, after, rfl, rfl⟩ := exists_subscription hlt
    obtain ⟨rfl, hu, hc⟩ := (hsplit before k after).1 hq
    exact ⟨before, after, rfl, rfl, hu, hc⟩
  · rintro ⟨before, after, rfl, rfl, hu, hc⟩
    exact (hsplit before key after).2 ⟨rfl, hu, hc⟩

/-! ## Backlogs and histories -/

section

variable {ops after : List Op} {key : String}

/-- What was done since some moment, when one more operation is done. -/
theorem Since.concat {p : List Op → Prop} (h : Since p ops after) (op : Op) :
    p (ops ++ [op]) ∧ Since p (ops ++ [op]) [] ∨
      ¬ p (ops ++ [op]) ∧ Since p (ops ++ [op]) (after ++ [op]) := by
  obtain ⟨before, rfl, hb, hnone⟩ := h
  by_cases hp : p (before ++ after ++ [op])
  · exact .inl ⟨hp, _, (List.append_nil _).symm, .inr hp,
      fun _ hne hm => absurd (List.prefix_nil.1 hm) hne⟩
  · refine .inr ⟨hp, before, List.append_assoc .., hb, fun more hne hm => ?_⟩
    rcases List.prefix_concat_iff.1 hm with rfl | hm
    · rwa [← List.append_assoc]
    · exact hnone more hne hm

theorem since_nil (p : List Op → Prop) : Since p [] [] :=
  ⟨[], rfl, .inl rfl, fun _ hne hm => absurd (List.prefix_nil.1 hm) hne⟩

theorem published_concat (key : String) (ops : List Op) (op : Op) :
    published key (ops ++ [op]) = published key ops ++ (op.event? key).toList := by
  rw [published, List.filterMap_append, published]
  cases h : op.event? key <;> simp [h]

/-- An operation other than an event for the session publishes nothing to it. -/
theorem published_concat_of_none {op : Op} (h : op.event? key = none) :
    published key (ops ++ [op]) = published key ops := by
  rw [published_concat, h]
  exact List.append_nil _

/-- Nothing waits for a session that has a subscriber, or was just closed. -/
theorem backlog_of_settled (h : Settled key ops) : (run ops).backlog key = [] := by
  rcases h with ⟨q, hq⟩ | h
  · exact (sound_run ops).attended key (List.ne_nil_of_mem (mem_followers_run.2 hq))
  · obtain ⟨ops, rfl⟩ := List.getLast?_eq_some_iff.1 h
    rw [run_concat]
    exact (backlog_close ..).trans (if_pos rfl)

/-- One more operation, if there is no subscriber behind it and the session was not closed. -/
theorem backlog_concat {op : Op} (h : ¬ Settled key (ops ++ [op])) :
    (run (ops ++ [op])).backlog key =
      newest limit ((run ops).backlog key ++ (op.event? key).toList) ∨
    op.event? key = none ∧ (run (ops ++ [op])).backlog key = (run ops).backlog key := by
  have hnone : (run (ops ++ [op])).followers key = [] :=
    List.eq_nil_iff_forall_not_mem.2 fun q hq => h (.inl ⟨q, mem_followers_run.1 hq⟩)
  have hclose : op ≠ .close key := fun e => h (.inr (by rw [e, List.getLast?_concat]))
  rw [run_concat] at hnone ⊢
  cases op with
  | subscribe k =>
    refine .inr ⟨rfl, (backlog_subscribe ..).trans (if_neg ?_)⟩
    rintro rfl
    have := (followers_subscribe (run ops) key key).symm.trans hnone
    simp at this
  | unsubscribe k q => exact .inr ⟨rfl, backlog_unsubscribe ..⟩
  | publish e =>
    have hnone : (run ops).followers key = [] := (followers_publish ..).symm.trans hnone
    have hbacklog := backlog_publish (run ops) e key
    by_cases hk : key = e.session
    · rw [if_pos ⟨hk, hk ▸ hnone⟩] at hbacklog
      refine .inl (hbacklog.trans ?_)
      rw [Op.event?, if_pos hk.symm]
      rfl
    · rw [if_neg fun c => hk c.1] at hbacklog
      exact .inr ⟨if_neg (Ne.symm hk), hbacklog⟩
  | close k =>
    refine .inr ⟨rfl, (backlog_close ..).trans (if_neg ?_)⟩
    rintro rfl
    exact hclose rfl
  | clearHistory k => exact .inr ⟨rfl, rfl⟩

theorem backlog_run (key : String) (ops : List Op) : ∃ after, Since (Settled key) ops after ∧
    (run ops).backlog key = newest limit (published key after) := by
  induction ops using List.reverseRecOn with
  | nil => exact ⟨[], since_nil _, (newest_nil _).symm⟩
  | append_singleton ops op ih =>
    obtain ⟨after, hsince, hbacklog⟩ := ih
    rcases hsince.concat op with ⟨hp, hsince⟩ | ⟨hp, hsince⟩
    · exact ⟨[], hsince, (backlog_of_settled hp).trans (newest_nil _).symm⟩
    · refine ⟨after ++ [op], hsince, ?_⟩
      rcases backlog_concat hp with h | ⟨hnone, h⟩
      · rw [h, hbacklog, newest_newest_append, published_concat]
      · rw [h, hbacklog, published_concat_of_none hnone]

/-- One more operation, if it does not clear the history. -/
theorem history_apply (b : Bus) {op : Op} (h : op ≠ .clearHistory key) :
    (op.apply b).history key =
      newest limit (b.history key ++
        (op.event? key).toList.filter fun e => decide (e.kind ≠ .sessionClosed)) ∨
    (op.event? key).toList.filter (fun e => decide (e.kind ≠ .sessionClosed)) = [] ∧
      (op.apply b).history key = b.history key := by
  cases op with
  | subscribe k => exact .inr ⟨rfl, rfl⟩
  | unsubscribe k q => exact .inr ⟨rfl, history_unsubscribe ..⟩
  | publish e =>
    have hhistory := history_publish b e key
    by_cases hk : key = e.session
    · rw [Op.event?, if_pos hk.symm]
      by_cases hc : e.kind = .sessionClosed
      · rw [if_neg fun c => c.2 hc] at hhistory
        exact .inr ⟨by simp [hc], hhistory⟩
      · rw [if_pos ⟨hk, hc⟩] at hhistory
        exact .inl (hhistory.trans (by simp [hc]))
    · rw [if_neg fun c => hk c.1] at hhistory
      rw [Op.event?, if_neg (Ne.symm hk)]
      exact .inr ⟨rfl, hhistory⟩
  | close k => exact .inr ⟨rfl, history_close ..⟩
  | clearHistory k =>
    refine .inr ⟨rfl, (history_clearHistory ..).trans (if_neg ?_)⟩
    rintro rfl
    exact h rfl

theorem history_run (key : String) (ops : List Op) : ∃ after, Since (Cleared key) ops after ∧
    (run ops).history key =
      newest limit ((published key after).filter fun e => decide (e.kind ≠ .sessionClosed)) := by
  induction ops using List.reverseRecOn with
  | nil => exact ⟨[], since_nil _, (newest_nil _).symm⟩
  | append_singleton ops op ih =>
    obtain ⟨after, hsince, hhistory⟩ := ih
    rcases hsince.concat op with ⟨hp, hsince⟩ | ⟨hp, hsince⟩
    · refine ⟨[], hsince, ?_⟩
      have e : op = .clearHistory key := by
        rwa [Cleared, List.getLast?_concat, Option.some.injEq] at hp
      rw [run_concat, e]
      exact ((history_clearHistory ..).trans (if_pos rfl)).trans (newest_nil _).symm
    · have hclear : op ≠ .clearHistory key := fun e =>
        hp (by rw [Cleared, List.getLast?_concat, e])
      refine ⟨after ++ [op], hsince, ?_⟩
      rw [run_concat, published_concat, List.filter_append]
      rcases history_apply (run ops) hclear with h | ⟨hnone, h⟩
      · rw [h, hhistory, newest_newest_append]
      · rw [h, hhistory, hnone, List.append_nil]

end

/-! ## Sessions -/

/-- What is done to one session changes nothing that another one has. -/
theorem apply_apart (b : Bus) {op : Op} {key : String} (hk : op.key ≠ key) :
    (op.apply b).backlog key = b.backlog key ∧ (op.apply b).history key = b.history key ∧
      (op.apply b).followers key = b.followers key := by
  cases op with
  | subscribe k =>
    exact ⟨(backlog_subscribe ..).trans (if_neg (Ne.symm hk)), rfl,
      (followers_subscribe ..).trans (if_neg (Ne.symm hk))⟩
  | unsubscribe k q =>
    exact ⟨backlog_unsubscribe .., history_unsubscribe ..,
      (followers_unsubscribe ..).trans (if_neg (Ne.symm hk))⟩
  | publish e =>
    exact ⟨(backlog_publish ..).trans (if_neg fun c => hk c.1.symm),
      (history_publish ..).trans (if_neg fun c => hk c.1.symm), followers_publish ..⟩
  | close k =>
    exact ⟨(backlog_close ..).trans (if_neg (Ne.symm hk)), history_close ..,
      (followers_close ..).trans (if_neg (Ne.symm hk))⟩
  | clearHistory k => exact ⟨rfl, (history_clearHistory ..).trans (if_neg (Ne.symm hk)), rfl⟩

/-- A queue that follows one session is given nothing by what is done to another. -/
theorem followed_concat {op : Op} {key : String} (hk : op.key ≠ key) (q : Nat) (ops : List Op) :
    followed key q (ops ++ [op]) = followed key q ops := by
  induction ops with
  | nil =>
    cases op with
    | subscribe k => rfl
    | unsubscribe k q' => exact if_neg fun c => hk c.1
    | publish e => exact if_neg hk
    | close k => exact if_neg hk
    | clearHistory k => rfl
  | cons op' ops ih => cases op' <;> simp only [List.cons_append, followed, ih]

/-- Whatever is done to a bus, nothing is lost, doubled or mixed up. -/
theorem faithful_run (ops : List Op) : Faithful ops where
  queues before key after e := by
    rw [e]
    exact queue_run before key after
  no_others q hq := (sound_run ops).unused q (by rwa [fresh_run])
  followers key q := mem_followers_run
  attended key q hq := backlog_of_settled (.inl ⟨q, hq⟩)
  backlogs key := backlog_run key ops
  histories key := history_run key ops
  apart op key hk := by
    have h := apply_apart (run ops) hk
    rw [← run_concat] at h
    refine ⟨h.1, h.2.1, h.2.2, fun before after e => ?_⟩
    rw [e, List.append_assoc, List.cons_append, queue_run, queue_run, followed_concat hk]

end GhciHost.Bus
