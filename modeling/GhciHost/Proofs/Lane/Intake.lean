import GhciHost.Proofs.Lane.Order

/-!
# What a lane takes and what it gives

The output that a lane took since a process was attached to it is all that responses are made of
from then on: they are, in order, what stands between the markers in it.  So nothing of one
process's output comes into a response of the next, also where the next one is attached by an asker
while a feed is under way.

* `Intake`, `intake`   what was taken and given since a process was attached;
* `Gives`   entries that give responses in order, until a process is attached;
* `gives_loop`   so do the entries of a feed;
* `Matches.op`   what is taken and given goes together;
* `bodies_since_attached`   on every run.
-/

namespace GhciHost

open Host

/-! ## Taking and giving -/

/-- The response that an entry tells of. -/
def Entry.body? : Entry → Option String
  | answered _ body | unasked body => some body
  | _ => none

def Entry.isAttached : Entry → Bool
  | attached _ => true
  | _ => false

/-- The responses that entries tell of. -/
def bodiesOf (es : List Entry) : List String := es.filterMap Entry.body?

/-- What happens at a lane: it takes output, or an entry is made. -/
inductive LaneEvent
  | fed (bytes : List UInt8)
  | made (e : Entry)

/-- The output that a lane took since a process was attached, and the responses that it gave. -/
structure Intake where
  bytes : List UInt8 := []
  bodies : List String := []

/-- What is taken and given after one more event. -/
def Intake.next (i : Intake) : LaneEvent → Intake
  | .fed bytes => { i with bytes := i.bytes ++ bytes }
  | .made (.attached _) => {}
  | .made (.answered _ body) | .made (.unasked body) => { i with bodies := i.bodies ++ [body] }
  | .made _ => i

/-- What is taken and given after some events. -/
def intake (events : List LaneEvent) : Intake := events.foldl Intake.next {}

/-- What a lane is fed. -/
def LaneOp.output : LaneOp → List UInt8
  | feed _ bytes => bytes
  | _ => []

/-- What happens at a lane when something happens to it: output comes before what it brings
    about. -/
def LaneOp.events (l : Nat) (h : Host) (op : LaneOp) : List LaneEvent :=
  (match op with
    | feed _ bytes => [.fed bytes]
    | _ => []) ++ (op.entries l h).map .made

/-- What happens at a lane in the course of a run. -/
def chronicle (l : Nat) : List LaneOp → Host → List LaneEvent
  | [], _ => []
  | op :: ops, h => op.events l h ++ chronicle l ops (after (op.run l) h)

/-! ## Entries that give responses -/

/-- Responses are given in order, and none any more when a process was attached. -/
inductive Gives : List Entry → List String → Prop
  | nil : Gives [] []
  | body {e : Entry} {es : List Entry} {b : String} {bs : List String} (he : e.body? = some b)
      (hes : Gives es bs) : Gives (e :: es) (b :: bs)
  | other {e : Entry} {es : List Entry} {bs : List String} (he : e.body? = none)
      (ha : e.isAttached = false) (hes : Gives es bs) : Gives (e :: es) bs
  | attached {e : Entry} {es : List Entry} (bs : List String) (ha : e.isAttached = true)
      (hes : bodiesOf es = []) : Gives (e :: es) bs

section Lists

variable {e : Entry} {es fs : List Entry} {b : String} {bs : List String}

theorem bodiesOf_cons_of_some (he : e.body? = some b) : bodiesOf (e :: es) = b :: bodiesOf es :=
  List.filterMap_cons_some he

theorem bodiesOf_cons_of_none (he : e.body? = none) : bodiesOf (e :: es) = bodiesOf es :=
  List.filterMap_cons_none he

theorem bodiesOf_append (es fs : List Entry) : bodiesOf (es ++ fs) = bodiesOf es ++ bodiesOf fs :=
  List.filterMap_append

theorem Entry.isAttached_of_body? (he : e.body? = some b) : e.isAttached = false := by
  cases e with
  | attached q => cases he
  | _ => rfl

theorem Entry.body?_of_isAttached (ha : e.isAttached = true) : e.body? = none := by
  cases e with
  | attached q => rfl
  | _ => cases ha

theorem bodiesOf_cons_eq_nil (h : bodiesOf (e :: es) = []) : e.body? = none ∧ bodiesOf es = [] := by
  cases he : e.body? with
  | none => exact ⟨rfl, bodiesOf_cons_of_none he ▸ h⟩
  | some b =>
    rw [bodiesOf_cons_of_some he] at h
    cases h

theorem countP_isAttached_cons : (e :: es).countP Entry.isAttached =
    es.countP Entry.isAttached + if e.isAttached then 1 else 0 :=
  List.countP_cons

namespace Gives

/-- Entries that give nothing and attach nothing can come first. -/
theorem append (hes : bodiesOf es = []) (ha : es.countP Entry.isAttached = 0) (hfs : Gives fs bs) :
    Gives (es ++ fs) bs := by
  induction es with
  | nil => exact hfs
  | cons e es ih =>
    obtain ⟨he, hes⟩ := bodiesOf_cons_eq_nil hes
    have hna := List.countP_eq_zero.1 ha
    refine .other he (by simpa using hna e List.mem_cons_self) (ih hes ?_)
    exact List.countP_eq_zero.2 fun x hx => hna x (List.mem_cons_of_mem _ hx)

/-- Where a process is attached no response need be given. -/
theorem of_attached (hes : bodiesOf es = []) (ha : es.countP Entry.isAttached ≠ 0)
    (bs : List String) : Gives es bs := by
  induction es with
  | nil => exact absurd rfl ha
  | cons e es ih =>
    obtain ⟨he, hes⟩ := bodiesOf_cons_eq_nil hes
    by_cases hx : e.isAttached = true
    · exact .attached bs hx hes
    · refine .other he (by simpa using hx) (ih hes ?_)
      simpa [countP_isAttached_cons, hx] using ha

theorem of_quiet (hes : bodiesOf es = []) : Gives es [] := by
  by_cases ha : es.countP Entry.isAttached = 0
  · rw [← List.append_nil es]
    exact append hes ha .nil
  · exact of_attached hes ha []

theorem bodies_prefix (h : Gives es bs) : bodiesOf es <+: bs := by
  induction h with
  | nil => exact List.prefix_refl _
  | body he _ ih =>
    rw [bodiesOf_cons_of_some he]
    exact List.prefix_cons_inj _ |>.2 ih
  | other he _ _ ih => rwa [bodiesOf_cons_of_none he]
  | attached bs ha hes =>
    rw [bodiesOf_cons_of_none (Entry.body?_of_isAttached ha), hes]
    exact List.nil_prefix

/-- When a process was attached nothing more is given. -/
theorem bodiesOf_later (h : Gives es bs) {before later : List Entry} {q : Nat}
    (e : es = before ++ .attached q :: later) : bodiesOf later = [] := by
  induction h generalizing before with
  | nil => cases before <;> cases e
  | @body x xs b bs hx _ ih =>
    cases before with
    | nil =>
      cases e
      cases hx
    | cons y before => exact ih (List.cons.inj e).2
  | other _ hx _ ih =>
    cases before with
    | nil =>
      cases e
      cases hx
    | cons y before => exact ih (List.cons.inj e).2
  | attached bs _ hes =>
    cases before with
    | nil => exact (List.cons.inj e).2 ▸ hes
    | cons y before =>
      have e : _ = before ++ .attached q :: later := (List.cons.inj e).2
      rw [e, bodiesOf_append] at hes
      exact (List.append_eq_nil_iff.1 hes).2

/-- Without a new process all responses are given. -/
theorem bodiesOf_eq (h : Gives es bs) (ha : es.countP Entry.isAttached = 0) : bodiesOf es = bs := by
  induction h with
  | nil => rfl
  | body he _ ih =>
    rw [countP_isAttached_cons, Entry.isAttached_of_body? he] at ha
    rw [bodiesOf_cons_of_some he, ih ha]
  | other he hx _ ih =>
    rw [countP_isAttached_cons, hx] at ha
    rw [bodiesOf_cons_of_none he, ih ha]
  | attached bs hx _ => simp [hx] at ha

end Gives

/-! ## What entries add to what was taken and given -/

/-- What was given is the beginning of what stands between the markers in what was taken. -/
def Intake.Fits (marker : UInt8) (i : Intake) : Prop := i.bodies <+: bodiesIn marker i.bytes

/-- What is taken and given after some entries. -/
def Intake.entries (i : Intake) (es : List Entry) : Intake := (es.map .made).foldl Intake.next i

variable {i : Intake} {marker : UInt8}

theorem Intake.entries_cons (i : Intake) (e : Entry) (es : List Entry) :
    i.entries (e :: es) = (i.next (.made e)).entries es := rfl

theorem Intake.next_of_body? (he : e.body? = some b) :
    i.next (.made e) = { i with bodies := i.bodies ++ [b] } := by
  cases e with
  | answered r body | unasked body => cases he; rfl
  | _ => cases he

theorem Intake.next_of_other (he : e.body? = none) (ha : e.isAttached = false) :
    i.next (.made e) = i := by
  cases e with
  | attached q => cases ha
  | answered r body | unasked body => cases he
  | _ => rfl

theorem Intake.next_of_isAttached (ha : e.isAttached = true) : i.next (.made e) = {} := by
  cases e with
  | attached q => rfl
  | _ => cases ha

theorem Intake.fits_empty : Fits marker {} := List.nil_prefix

/-- Where nothing was taken and nothing is given, nothing has been. -/
theorem Intake.entries_empty (hes : bodiesOf es = []) : Intake.entries {} es = {} := by
  induction es with
  | nil => rfl
  | cons e es ih =>
    obtain ⟨he, hes⟩ := bodiesOf_cons_eq_nil hes
    have hnext : Intake.next {} (.made e) = {} := by
      by_cases ha : e.isAttached = true
      · exact next_of_isAttached ha
      · exact next_of_other he (by simpa using ha)
    rw [entries_cons, hnext]
    exact ih hes

/-- All that is given between two entries fits what was taken. -/
theorem Gives.fits (h : Gives es bs) (hi : i.bodies ++ bs = bodiesIn marker i.bytes)
    {before later : List Entry} (e : es = before ++ later) : (i.entries before).Fits marker := by
  induction h generalizing i before with
  | nil =>
    obtain ⟨rfl, -⟩ := List.append_eq_nil_iff.1 e.symm
    exact ⟨[], hi⟩
  | @body x xs b bs hx _ ih =>
    cases before with
    | nil => exact ⟨b :: bs, hi⟩
    | cons y before =>
      obtain ⟨rfl, hxs⟩ := List.cons.inj e
      rw [Intake.entries_cons, Intake.next_of_body? hx]
      exact ih (by rw [List.append_assoc]; exact hi) hxs
  | @other x xs bs hx ha _ ih =>
    cases before with
    | nil => exact ⟨bs, hi⟩
    | cons y before =>
      obtain ⟨rfl, hxs⟩ := List.cons.inj e
      rw [Intake.entries_cons, Intake.next_of_other hx ha]
      exact ih hi hxs
  | @attached x xs bs ha hes =>
    cases before with
    | nil => exact ⟨bs, hi⟩
    | cons y before =>
      obtain ⟨rfl, hxs⟩ := List.cons.inj e
      have hxs : xs = before ++ later := hxs
      rw [hxs, bodiesOf_append] at hes
      rw [Intake.entries_cons, Intake.next_of_isAttached ha]
      rw [Intake.entries_empty (List.append_eq_nil_iff.1 hes).1]
      exact Intake.fits_empty

/-- What is taken and given after all of the entries. -/
theorem Gives.entries_eq (h : Gives es bs) (i : Intake) :
    i.entries es =
      if es.countP Entry.isAttached = 0 then { i with bodies := i.bodies ++ bs } else {} := by
  induction h generalizing i with
  | nil => simp [Intake.entries]
  | body hx _ ih =>
    rw [countP_isAttached_cons, Entry.isAttached_of_body? hx, Intake.entries_cons,
      Intake.next_of_body? hx]
    exact (ih _).trans (by simp)
  | other hx ha _ ih =>
    rw [countP_isAttached_cons, ha, Intake.entries_cons,
      Intake.next_of_other hx ha]
    exact ih i
  | attached bs ha hes =>
    rw [countP_isAttached_cons, ha, Intake.entries_cons,
      Intake.next_of_isAttached ha, if_neg (by simp)]
    exact Intake.entries_empty hes

end Lists

namespace Host

/-! ## The entries of what is done on a lane -/

section

variable {l : Nat} {h : Host}

theorem bodiesOf_writing (a : Action Unit) {e : Nat → Entry} (he : ∀ p, (e p).body? = none) :
    bodiesOf (writing a l h e) = [] := by
  obtain hw | ⟨p, -, -, hw⟩ := writing_cases a l h e <;> rw [hw]
  · rfl
  · exact bodiesOf_cons_of_none (he p)

theorem countP_writing (a : Action Unit) {e : Nat → Entry} (he : ∀ p, (e p).isAttached = false) :
    (writing a l h e).countP Entry.isAttached = 0 := by
  obtain hw | ⟨p, -, -, hw⟩ := writing_cases a l h e <;> rw [hw]
  · rfl
  · rw [countP_isAttached_cons, he p]
    rfl

/-- What is done on a lane gives no response. -/
theorem bodiesOf_deed (d : Deed) : bodiesOf (d.entries l h) = [] := by
  cases d with
  | writeRaw command => exact bodiesOf_writing _ fun _ => rfl
  | submit command state reaction waiter => exact bodiesOf_writing _ fun _ => rfl
  | requeue r => exact bodiesOf_writing _ fun _ => rfl
  | _ => rfl

theorem bodiesOf_plan (p : Plan) : bodiesOf (p.entries l h) = [] := by
  induction p generalizing h with
  | done => rfl
  | fail e => rfl
  | look next ih => exact ih _
  | first d next ih => rw [Plan.entries, bodiesOf_append, bodiesOf_deed, ih, List.append_nil]

/-- How often a process was attached to a lane. -/
def attachmentsOf (l : Nat) (h : Host) : Nat := (h.laneOf l).attachments

instance (a : Action α) [ha : Within (Same cuts) a] : Within (Same (attachmentsOf l)) a :=
  ha.comp fun c => (c.2 l).attachments

instance (left : Option Nat) : Succeeds (keepFrom l left) := by
  cases left <;> (simp only [keepFrom]; infer_instance)

instance (left : Option Nat) : Within (Same (attachmentsOf l)) (keepFrom l left) := by
  cases left with
  | none => exact Within.pure ()
  | some start =>
    refine ⟨fun h => ?_⟩
    unfold Same attachmentsOf keepFrom
    dsimp only
    rw [laneOf_changeLane]
    split <;> rfl

/-- Each entry of an attachment is one. -/
theorem attachments_deed (hl : l < h.lanes.size) (d : Deed) :
    attachmentsOf l (after (d.run l) h) =
      attachmentsOf l h + (d.entries l h).countP Entry.isAttached := by
  by_cases hd : ∃ p, d = .attach p
  · obtain ⟨p, rfl⟩ := hd
    rw [attachmentsOf, Deed.run, laneOf_changeLane, if_pos ⟨rfl, hl⟩]
    rfl
  · have hstill := still_deed l (d := d) fun p e => hd ⟨p, e⟩
    have hentries : (d.entries l h).countP Entry.isAttached = 0 := by
      cases d with
      | attach p => exact absurd ⟨p, rfl⟩ hd
      | writeRaw command => exact countP_writing _ fun _ => rfl
      | submit command state reaction waiter => exact countP_writing _ fun _ => rfl
      | requeue r => exact countP_writing _ fun _ => rfl
      | _ => rfl
    rw [hentries]
    exact Within.rel_after (R := Same (attachmentsOf l)) h

theorem attachments_plan (hl : l < h.lanes.size) (p : Plan) :
    attachmentsOf l (after (p.run l) h) =
      attachmentsOf l h + (p.entries l h).countP Entry.isAttached := by
  induction p generalizing h with
  | done => rfl
  | fail e => rfl
  | look next ih => exact ih _ hl
  | first d next ih =>
    have hloyal : LoyalHost h (after (d.run l) h) := Within.rel_after h
    rw [Plan.run, Plan.entries, after_attempt_then, ih _ (hloyal.size ▸ hl), attachments_deed hl,
      List.countP_append, Nat.add_assoc]

/-- Of an answer no lane notices more than what the asker does. -/
theorem lanes_answerBy (ask : Asker) (state : Json) (reaction : Option Reaction)
    (waiter : Option Nat) (body : String) (h : Host) :
    (after (answerBy ask l state reaction waiter body) h).lanes =
      (match reaction with
        | some x => after (ask l state body x) h
        | none => h).lanes := by
  unfold answerBy
  cases reaction with
  | none => cases waiter <;> rfl
  | some x =>
    dsimp only
    rw [after_bind, run_attempt]
    cases waiter <;> rfl

/-- A delivery gives one response, and what its asker does gives no other. -/
theorem deliveryEntries_spec (hl : l < h.lanes.size) (p : Policy) (body : String) :
    ∃ e es, deliveryEntries p l body h = e :: es ∧ e.body? = some body ∧ bodiesOf es = [] ∧
      attachmentsOf l (after (deliverBy p.ask l body) h) =
        attachmentsOf l h + es.countP Entry.isAttached := by
  unfold deliveryEntries
  cases hq : (h.laneOf l).queue with
  | nil =>
    have hrun : (deliverBy p.ask l body).run h = (reject l body).run h := by
      rw [deliverBy, run_bind_ok (run_lane l h), hq]
    refine ⟨.unasked body, [], rfl, rfl, rfl, ?_⟩
    rw [after_congr hrun]
    exact Within.rel_after (R := Same (attachmentsOf l)) h
  | cons r queue =>
    obtain ⟨h', hh'⟩ : ∃ h', after (count (h.laneOf l).key .frame)
      (after (changeLane l fun lane => { lane with queue }) h) = h' := ⟨_, rfl⟩
    have hl' : l < h'.lanes.size := hh' ▸ Nat.lt_of_lt_of_eq hl (Table.size_modify ..).symm
    have hattach : attachmentsOf l h' = attachmentsOf l h := by
      have e : h'.laneOf l = { h.laneOf l with queue } := by
        rw [← hh']
        exact (laneOf_changeLane ..).trans (if_pos ⟨rfl, hl⟩)
      rw [attachmentsOf, e]
      rfl
    have hafter : after (deliverBy p.ask l body) h =
        after (answerBy p.ask l r.state r.reaction r.waiter body) h' := by
      rw [deliverBy, after_bind_ok (run_lane l h), hq]
      dsimp only
      rw [after_bind_ok (Succeeds.run_unit ..), after_bind_ok (Succeeds.run_unit ..), hh']
    have hlanes := lanes_answerBy p.ask r.state r.reaction r.waiter body h' (l := l)
    dsimp only
    rw [hh', hafter]
    cases hr : r.reaction with
    | none =>
      rw [hr] at hlanes
      refine ⟨_, [], rfl, rfl, rfl, ?_⟩
      rw [attachmentsOf, laneOf, hlanes]
      exact hattach
    | some x =>
      rw [hr] at hlanes
      refine ⟨_, _, rfl, rfl, bodiesOf_plan _, ?_⟩
      rw [← hattach, ← attachments_plan hl', attachmentsOf, laneOf, hlanes]
      rfl

end

/-! ## The entries of a feed -/

section

variable {l : Nat} {h : Host} {marker : UInt8} {buffer : List UInt8} {start scanned : Nat}

/-- The loop of a feed gives the responses in the buffer, until a process is attached, and tells how
    many it gave. -/
theorem gives_loop (p : Policy) (hl : l < h.lanes.size) (hle : start ≤ scanned)
    (hc : marker ∉ (buffer.drop start).take (scanned - start)) :
    let es := loopEntries p l (attachmentsOf l h) marker buffer start scanned h
    Gives es (bodiesIn marker (buffer.drop start)) ∧
      ∃ left k, (deliverFrom p.ask l (attachmentsOf l h) marker buffer start scanned).run h =
          .ok ((bodiesOf es).length, left) k ∧
        attachmentsOf l k = attachmentsOf l h + es.countP Entry.isAttached := by
  induction hd : buffer.length - scanned using Nat.strongRecOn generalizing start scanned h with
  | _ d ih =>
  cases hf : Lane.find? marker buffer scanned with
  -- There is no further response.
  | none =>
    rw [loopEntries_none _ _ _ _ hf, bodiesIn, Lane.frames_of_find?_none hle hc hf]
    exact ⟨.nil, _, h, run_deliverFrom_none _ _ _ _ hf h, rfl⟩
  | some i =>
    have hlt := Lane.find?_lt hf
    have hfr := Lane.frames_of_find? hle hc hf
    obtain ⟨body, hbody⟩ : ∃ body, bodyOf ((buffer.drop start).take (i - start)) = body := ⟨_, rfl⟩
    have hbodies : bodiesIn marker (buffer.drop start) =
        body :: bodiesIn marker (buffer.drop (i + 1)) := by
      rw [bodiesIn, hfr, List.map_cons, bodiesIn, hbody]
    obtain ⟨h₁, hh₁⟩ : ∃ h₁,
      after (changeLane l fun lane => { lane with scanned := i + 1 }) h = h₁ := ⟨_, rfl⟩
    obtain ⟨h', hh'⟩ : ∃ h', deliveredTo p.ask l i body h = h' := ⟨_, rfl⟩
    have hl₁ : l < h₁.lanes.size := hh₁ ▸ Nat.lt_of_lt_of_eq hl (Table.size_modify ..).symm
    have hattach : attachmentsOf l h₁ = attachmentsOf l h := by
      rw [← hh₁, attachmentsOf, laneOf_changeLane, if_pos ⟨rfl, hl⟩]
      rfl
    have hl' : l < h'.lanes.size := by
      have hloyal : LoyalHost h₁ h' := hh' ▸ hh₁ ▸ Within.rel_after _
      exact hloyal.size ▸ hl₁
    obtain ⟨e, es, hentries, he, hes, hcount⟩ := deliveryEntries_spec hl₁ p body
    have hdelivered : after (deliverBy p.ask l body) h₁ = h' := by
      rw [← hh', deliveredTo, hh₁]
    rw [hdelivered, hattach] at hcount
    have hcountP : (e :: es).countP Entry.isAttached = es.countP Entry.isAttached := by
      rw [countP_isAttached_cons, Entry.isAttached_of_body? he]
      rfl
    have hrun := run_deliverFrom_some p.ask l (attachmentsOf l h) start hf (hbody ▸ hh')
    have hloop := loopEntries_some p l (attachmentsOf l h) start hf (hbody ▸ hh')
    rw [hbody, hh₁, hentries] at hloop
    change _ = if attachmentsOf l h' = attachmentsOf l h then _ else _ at hrun
    change _ = _ ++ if attachmentsOf l h' = attachmentsOf l h then _ else _ at hloop
    intro fs
    have hfs : fs = _ := hloop
    by_cases hsame : attachmentsOf l h' = attachmentsOf l h
    -- The buffer is still that of the process, and is searched on.
    · have hna : es.countP Entry.isAttached = 0 := by omega
      obtain ⟨hgives, left, k, hrun', hk⟩ :=
        ih (buffer.length - (i + 1)) (by omega) hl' (Nat.le_refl (i + 1)) (by simp) rfl
      rw [hsame] at hgives hrun' hk
      rw [if_pos hsame] at hrun hfs
      rw [hfs, hbodies]
      refine ⟨.body he (hgives.append hes hna), left, k, ?_, ?_⟩
      · rw [hrun, map_eq_pure_bind, run_bind_ok hrun', List.cons_append, bodiesOf_cons_of_some he,
          bodiesOf_append, hes]
        rfl
      · rw [List.countP_append, hcountP, hna, Nat.zero_add, hk]
    -- A process was attached.
    · rw [if_neg hsame] at hrun hfs
      rw [hfs, hbodies, List.append_nil]
      refine ⟨.body he (.of_attached hes (by omega) _), none, h', ?_, ?_⟩
      · rw [hrun, bodiesOf_cons_of_some he, hes]
        rfl
      · rw [hcountP, hcount]

/-- So does a feed, for all the responses in what was left and what is fed. -/
theorem gives_feed (p : Policy) (ht : Tidy l h) (bytes : List UInt8) :
    let es := feedEntries p l bytes h
    Gives es (bodiesIn (h.laneOf l).marker ((h.laneOf l).buffer ++ bytes)) ∧
      ∃ k, (feedBy p.ask l bytes).run h = .ok (bodiesOf es).length k ∧
        attachmentsOf l k = attachmentsOf l h + es.countP Entry.isAttached := by
  by_cases hb : bytes = []
  · subst hb
    rw [List.append_nil, bodiesIn, Lane.frames_of_not_mem ht.not_mem]
    exact ⟨.nil, h, rfl, rfl⟩
  · obtain ⟨h', hh'⟩ : ∃ h', received l bytes h = h' := ⟨_, rfl⟩
    have hlane := laneOf_received ht.lt bytes
    rw [hh'] at hlane
    have hmarker : (h'.laneOf l).marker = (h.laneOf l).marker := by rw [hlane]
    have hbuffer : (h'.laneOf l).buffer = (h.laneOf l).buffer ++ bytes := by rw [hlane]
    have hattach : attachmentsOf l h' = attachmentsOf l h := by
      rw [attachmentsOf, hlane]
      rfl
    have hl' : l < h'.lanes.size := hh' ▸ Nat.lt_of_lt_of_eq ht.lt (Table.size_modify ..).symm
    have hc : (h'.laneOf l).marker ∉
        ((h'.laneOf l).buffer.drop 0).take ((h'.laneOf l).scanned - 0) := by
      rw [hlane]
      simpa [ht.searched] using ht.not_mem
    obtain ⟨hgives, left, k, hrun, hk⟩ := gives_loop p hl' (Nat.zero_le _) hc
    have hentries : feedEntries p l bytes h = loopEntries p l (attachmentsOf l h')
        (h'.laneOf l).marker (h'.laneOf l).buffer 0 (h'.laneOf l).scanned h' := by
      rw [feedEntries, if_neg (by simpa using hb), ← hh']
      rfl
    have hkept : attachmentsOf l (after (keepFrom l left) k) = attachmentsOf l k :=
      Within.rel_after (R := Same (attachmentsOf l)) k
    rw [List.drop_zero, hmarker, hbuffer] at hgives
    rw [hentries, hmarker, hbuffer]
    refine ⟨hgives, after (keepFrom l left) k, ?_, ?_⟩
    · have hrest := (run_bind_ok (f := fun r => keepFrom l r.2 >>= fun _ => pure r.1) hrun).trans
        (run_bind_ok (Succeeds.run_unit (keepFrom l left) k))
      rw [hmarker, hbuffer] at hrest
      have hfeed := run_feedBy_eq p.ask l hb hh'
      rw [hmarker, hbuffer] at hfeed
      exact hfeed.trans hrest
    · rw [hkept, hk, hattach, hmarker, hbuffer]

end

/-! ## What happens to a lane -/

section

variable {l : Nat} {h : Host}

/-- What is left in a lane is what was taken behind the last response that was given. -/
structure Matches (l : Nat) (key : String) (marker : UInt8) (h : Host) (i : Intake) : Prop where
  ofKey : (h.laneOf l).key = key
  ofMarker : (h.laneOf l).marker = marker
  bodies : i.bodies = bodiesIn marker i.bytes
  buffer : (h.laneOf l).buffer = (Lane.frames marker i.bytes).2

/-- Whatever happens to a lane, responses are given in order, until a process is attached. -/
theorem gives_op (ht : Tidy l h) (op : LaneOp) :
    Gives (op.entries l h) (bodiesIn (h.laneOf l).marker ((h.laneOf l).buffer ++ op.output)) ∧
      attachmentsOf l (after (op.run l) h) =
        attachmentsOf l h + (op.entries l h).countP Entry.isAttached := by
  have hnone : bodiesIn (h.laneOf l).marker ((h.laneOf l).buffer ++ []) = [] := by
    rw [List.append_nil, bodiesIn, Lane.frames_of_not_mem ht.not_mem]
    rfl
  cases op with
  | feed p bytes =>
    obtain ⟨hgives, k, hrun, hk⟩ := gives_feed p ht bytes
    refine ⟨hgives, ?_⟩
    rw [LaneOp.run, after_bind_unit, after_of_ok hrun]
    exact hk
  | deed d => exact ⟨hnone ▸ .of_quiet (bodiesOf_deed d), attachments_deed ht.lt d⟩
  | call command =>
    have (w : Nat) : Within (Same cuts) (submit l command .null none (some w)) := inferInstance
    have : Within (Same cuts) (LaneOp.run l (.call command)) := by
      unfold LaneOp.run
      infer_instance
    refine ⟨hnone ▸ .of_quiet (bodiesOf_writing _ fun _ => rfl), ?_⟩
    rw [LaneOp.entries, countP_writing _ fun _ => rfl]
    exact Within.rel_after (R := Same (attachmentsOf l)) h
  | settle c e => exact ⟨hnone ▸ .nil, rfl⟩
  | world f => exact ⟨hnone ▸ .nil, rfl⟩

/-- How something leaves a lane: what is behind the last response stays, unless a process was
    attached. -/
theorem buffer_op (ht : Tidy l h) (op : LaneOp) :
    let h' := after (op.run l) h
    ((h'.laneOf l).key = (h.laneOf l).key ∧ (h'.laneOf l).marker = (h.laneOf l).marker) ∧
      (attachmentsOf l h' = attachmentsOf l h → (h'.laneOf l).buffer =
        (Lane.frames (h.laneOf l).marker ((h.laneOf l).buffer ++ op.output)).2) ∧
      (attachmentsOf l h' ≠ attachmentsOf l h →
        (h'.laneOf l).buffer = [] ∧ (h'.laneOf l).scanned = 0) := by
  by_cases hop : ∃ p bytes, op = .feed p bytes
  · obtain ⟨p, bytes, rfl⟩ := hop
    obtain ⟨n, k, hrun, -, -, hend⟩ := run_feedBy p.ask (uncut_refl l _ h) ht rfl bytes
    rw [LaneOp.run, after_bind_unit, after_of_ok hrun]
    exact ⟨⟨hend.key, hend.marker⟩, fun e => (hend.kept e).2, hend.anew⟩
  · have hop : ∀ p bytes, op ≠ .feed p bytes := fun p bytes e => hop ⟨p, bytes, e⟩
    have hlane := (loyal_op l hop h).lane l
    refine ⟨⟨hlane.key, hlane.marker⟩, fun e => ?_, hlane.anew⟩
    have houtput : op.output = [] := by
      cases op with
      | feed p bytes => exact absurd rfl (hop p bytes)
      | _ => rfl
    rw [houtput, List.append_nil, Lane.frames_of_not_mem ht.not_mem]
    exact (hlane.same e).1

theorem events_eq (op : LaneOp) (i : Intake) :
    (op.events l h).foldl Intake.next i =
      ({ i with bytes := i.bytes ++ op.output } : Intake).entries (op.entries l h) := by
  cases op <;> simp [LaneOp.events, LaneOp.output, Intake.entries, Intake.next]

variable {key : String} {marker : UInt8} {i : Intake}

theorem Matches.fits (k : Matches l key marker h i) : i.Fits marker :=
  ⟨[], by rw [List.append_nil]; exact k.bodies⟩

/-- Something happens to a lane: before and after, and in between, what was given is what stands
    between the markers in what was taken. -/
theorem Matches.op (k : Matches l key marker h i) (ht : Tidy l h) (op : LaneOp) :
    Matches l key marker (after (op.run l) h) ((op.events l h).foldl Intake.next i) ∧
      ∀ before later, op.events l h = before ++ later →
        (before.foldl Intake.next i).Fits marker := by
  obtain ⟨hgives, hcount⟩ := gives_op ht op
  obtain ⟨⟨hkey, hmarker⟩, hkept, hanew⟩ := buffer_op ht op
  rw [k.ofMarker] at hgives hmarker hkept
  have hi : i.bodies ++ bodiesIn marker ((h.laneOf l).buffer ++ op.output) =
      bodiesIn marker (i.bytes ++ op.output) := by
    rw [bodiesIn_append _ i.bytes, ← k.buffer, ← k.bodies]
  refine ⟨?_, fun before later e => ?_⟩
  · rw [events_eq, hgives.entries_eq]
    split
    · next hna =>
      have hsame : attachmentsOf l (after (op.run l) h) = attachmentsOf l h := by omega
      refine ⟨hkey.trans k.ofKey, hmarker, hi, ?_⟩
      rw [hkept hsame, k.buffer]
      exact (Prod.ext_iff.1 (Lane.frames_append i.bytes op.output)).2.symm
    · next hna =>
      obtain ⟨hbuffer, -⟩ := hanew (by omega)
      exact ⟨hkey.trans k.ofKey, hmarker, rfl, hbuffer⟩
  · have hfits {before later : List LaneEvent}
        (e : (op.entries l h).map LaneEvent.made = before ++ later) :
        (before.foldl Intake.next { i with bytes := i.bytes ++ op.output }).Fits marker := by
      obtain ⟨es, fs, hes, rfl, rfl⟩ := List.map_eq_append_iff.1 e
      exact hgives.fits hi hes
    cases op with
    | feed p bytes =>
      cases before with
      | nil => exact k.fits
      | cons x before =>
        obtain ⟨rfl, hrest⟩ := List.cons.inj e
        exact hfits hrest
    | _ => simpa only [LaneOp.output, List.append_nil] using hfits e

/-- On every run. -/
theorem Matches.run (hr : Reached l h) (k : Matches l key marker h i) (ops : List LaneOp) :
    Matches l key marker (afterOps l ops h) ((chronicle l ops h).foldl Intake.next i) ∧
      ∀ before later, chronicle l ops h = before ++ later →
        (before.foldl Intake.next i).Fits marker := by
  induction ops generalizing h i with
  | nil =>
    refine ⟨k, fun before later e => ?_⟩
    obtain ⟨rfl, -⟩ := List.append_eq_nil_iff.1 e.symm
    exact k.fits
  | cons op ops ih =>
    obtain ⟨k', hfits⟩ := k.op hr.tidy op
    obtain ⟨k'', hfits'⟩ := ih (hr.op op) k'
    rw [chronicle, List.foldl_append]
    refine ⟨k'', fun before later e => ?_⟩
    obtain ⟨more, rfl, hlater⟩ | ⟨more, hmore, -⟩ := List.append_eq_append_iff.1 e
    -- The place is in what happens later, or in what happens now.
    · rw [List.foldl_append]
      exact hfits' more later hlater
    · exact hfits before more hmore

end

/-! ## Since a process was attached -/

/-- Nothing of one process's output comes into a response of the next.  At all times the responses
    that were given since a process was attached are, in order, the first of those that stand
    between the markers in what was fed since; between operations they are all of them, and the
    lane keeps what stands behind.  A feed comes to the deliveries of the responses that its entries
    tell of, and where a process is attached by an asker it delivers nothing more, and leaves the
    lane as every attachment does: with an empty buffer that is to be searched from its start. -/
theorem bodies_since_attached {l : Nat} {h : Host} {key : String} {marker : UInt8}
    {announces : Bool} (hl : h.lanes.get? l = some { key, marker, announces }) (ops : List LaneOp) :
    let es := chronicle l ops h
    let h' := afterOps l ops h
    (∀ before later, es = before ++ later →
      (intake before).bodies <+: bodiesIn marker (intake before).bytes) ∧
    ((intake es).bodies = bodiesIn marker (intake es).bytes ∧
      (h'.laneOf l).buffer = (Lane.frames marker (intake es).bytes).2) ∧
    (∀ p bytes,
      let fs := feedEntries p l bytes h'
      ∃ k, (feedBy p.ask l bytes).run h' = .ok (bodiesOf fs).length k ∧
        (uncut l key bytes.length).Alike (after (deliverEach p.ask l (bodiesOf fs)) h') k ∧
        ∀ before q later, fs = before ++ .attached q :: later →
          bodiesOf later = [] ∧ (k.laneOf l).buffer = [] ∧ (k.laneOf l).scanned = 0) ∧
    (∀ k q, l < k.lanes.size →
      let lane := (after ((Deed.attach q).run l) k).laneOf l
      lane.process = some q ∧ lane.buffer = [] ∧ lane.scanned = 0) := by
  intro es h'
  have hr : Reached l h := .new key marker announces hl
  have ht : Tidy l h' := (hr.afterOps ops).tidy
  have hnew : Matches l key marker h {} := by
    refine ⟨?_, ?_, rfl, ?_⟩ <;> rw [laneOf_of_get? hl]
    rfl
  obtain ⟨hmatches, hfits⟩ := hnew.run hr ops
  refine ⟨hfits, ⟨hmatches.bodies, hmatches.buffer⟩, fun p bytes => ?_, fun k q hlt => ?_⟩
  · obtain ⟨hgives, k, hrun, hcount⟩ := gives_feed p ht bytes
    obtain ⟨n, k', hrun', halike, -, hend⟩ :=
      run_feedBy p.ask (uncut_refl l _ h') ht hmatches.ofKey bytes
    rw [hrun] at hrun'
    cases hrun'
    refine ⟨k, hrun, ?_, fun before q later e => ⟨hgives.bodiesOf_later e, hend.anew ?_⟩⟩
    · rw [← List.prefix_iff_eq_take.1 hgives.bodies_prefix, Int.zero_add] at halike
      exact halike
    · have hpos : 0 < (feedEntries p l bytes h').countP Entry.isAttached :=
        List.countP_pos_iff.2 ⟨.attached q, by rw [e]; simp, rfl⟩
      change attachmentsOf l k ≠ attachmentsOf l h'
      omega
  · rw [Deed.run, laneOf_changeLane, if_pos ⟨rfl, hlt⟩]
    exact ⟨rfl, rfl, rfl⟩

/-- A worker is replaced when its first response comes, in the same output as a second one. -/
theorem bodies_since_attached_replaced :
    let startup : Request :=
      { command := "<startup>", reaction := some (.attach 1), internal := true }
    let ops : List LaneOp := [.deed (.attach 0), .deed (.register startup),
      .deed (.register { command := ":t x", reaction := some .note }),
      .feed .usual [97, 4, 98, 4], .feed .usual [99, 4, 100]]
    let es := chronicle 0 ops laneAndWorker
    let h' := afterOps 0 ops laneAndWorker
    laneAndWorker.lanes.get? 0 = some { key := "ghci:/p", marker := 4 } ∧
      (intake es).bytes = [99, 4, 100] ∧ (intake es).bodies = ["c"] ∧
      (intake es).bodies = bodiesIn 4 (intake es).bytes ∧
      (h'.laneOf 0).buffer = (Lane.frames 4 (intake es).bytes).2 := by
  intro startup ops es h'
  have hnew : laneAndWorker.lanes.get? 0 = some { key := "ghci:/p", marker := 4 } := rfl
  obtain ⟨-, ⟨hbodies, hbuffer⟩, -⟩ := bodies_since_attached hnew ops
  exact ⟨hnew, by decide +kernel, by decide +kernel, hbodies, hbuffer⟩

end Host

end GhciHost
