import GhciHost.Proofs.Lane.Run

/-!
# Output in chunks

It does not matter how the output of a worker is cut into chunks: askers that attach no process
get the same responses, in the same order, and the host ends in the same state.

* `run_feedEach`   what chunk after chunk comes to;
* `feedEach_eq_feedBy`   it is the same as one feed, and as the deliveries of all responses.
-/

namespace GhciHost.Host

/-- Feed one chunk after the other; the answer is how many responses were delivered. -/
def feedEach (ask : Asker) (l : Nat) : List (List UInt8) → Action Nat
  | [] => return 0
  | bytes :: chunks => do
    let n ← feedBy ask l bytes
    let m ← feedEach ask l chunks
    return n + m

/-- Count bytes and keep what is left of them. -/
def keepRest (l n : Nat) (rest : List UInt8) : Action Unit := do
  count (← lane l).key (.bytes n)
  changeLane l fun lane => { lane with buffer := rest, scanned := rest.length }

/-- Hosts that differ in nothing but a buffer and in counted bytes from one and the same host do
    not differ. -/
theorem eq_of_uncut {l : Nat} {key : String} {n : Int} {h k k' : Host}
    (ha : (uncut l key n).Alike h k) (ha' : (uncut l key n).Alike h k') (ht : Tidy l k)
    (ht' : Tidy l k') (hb : (k.laneOf l).buffer = (k'.laneOf l).buffer) : k = k' := by
  have hloop : k.loop = k'.loop := Eq.trans (Eq.symm ha.loop) ha'.loop
  have hmetrics : k.metrics = k'.metrics := Eq.trans ha.metrics (Eq.symm ha'.metrics)
  have hlanes : k.lanes = k'.lanes := by
    refine Table.ext fun i => ?_
    obtain ⟨e, e₁⟩ | ⟨a, b, e, e₁, ⟨⟨_, _, hab⟩, hne⟩⟩ := ha.get? i <;>
      obtain ⟨e', e₂⟩ | ⟨a', b', e', e₂, ⟨⟨_, _, hab'⟩, hne'⟩⟩ := ha'.get? i <;>
      rw [e] at e'
    · rw [e₁, e₂]
    · cases e'
    · cases e'
    · cases e'
      rw [e₁, e₂]
      by_cases hi : i = l
      · subst hi
        have hs := ht.searched
        have hs' := ht'.searched
        rw [laneOf_of_get? e₁] at hb hs
        rw [laneOf_of_get? e₂] at hb hs'
        subst hab hab'
        dsimp only at hb hs hs'
        rw [hs, hs', hb]
      · rw [hne hi, hne' hi]
  rw [ha.rest, ha'.rest, hloop, hmetrics, hlanes]

section

variable {p : Policy} {l : Nat}

/-- Without attachments all responses are delivered and the rest is kept. -/
theorem run_feedBy_peaceful (hp : p.Peaceful) {key : String} {d : Int} {h k : Host}
    (ha : (uncut l key d).Alike h k) (ht : Tidy l k) (hk : (k.laneOf l).key = key)
    (bytes : List UInt8) :
    let marker := (k.laneOf l).marker
    let buffer := (k.laneOf l).buffer ++ bytes
    ∃ k', (feedBy p.ask l bytes).run k = .ok (bodiesIn marker buffer).length k' ∧
      (uncut l key (d + bytes.length)).Alike
        (after (deliverEach p.ask l (bodiesIn marker buffer)) h) k' ∧
      Tidy l k' ∧ (k'.laneOf l).key = key ∧ (k'.laneOf l).marker = marker ∧
      (k'.laneOf l).buffer = (Lane.frames marker buffer).2 := by
  intro marker buffer
  obtain ⟨n, k', hrun, ha', ht', hend⟩ := run_feedBy p.ask ha ht hk bytes
  have hatt : (k'.laneOf l).attachments = (k.laneOf l).attachments := by
    have := still_ask hp
    obtain ⟨⟨_, _, e⟩, -⟩ := ha.lane l
    obtain ⟨⟨_, _, e'⟩, -⟩ := ha'.lane l
    have hcuts := Within.rel_after (R := Same cuts) (a := deliverEach p.ask l
      ((bodiesIn marker buffer).take n)) h
    have hlane := congrArg (fun c => (c.2 l).attachments) hcuts
    exact (congrArg Lane.attachments e').trans (hlane.trans (congrArg Lane.attachments e).symm)
  obtain ⟨hn, hb⟩ := hend.kept hatt
  refine ⟨k', hn ▸ hrun, ?_, ht', hend.key.trans hk, hend.marker, hb⟩
  rwa [hn, List.take_length] at ha'

/-- What chunk after chunk comes to. -/
theorem run_feedEach (hp : p.Peaceful) {key : String} {d : Int} {h k : Host}
    (ha : (uncut l key d).Alike h k) (ht : Tidy l k) (hk : (k.laneOf l).key = key)
    (chunks : List (List UInt8)) :
    let marker := (k.laneOf l).marker
    let buffer := (k.laneOf l).buffer ++ chunks.flatten
    ∃ k', (feedEach p.ask l chunks).run k = .ok (bodiesIn marker buffer).length k' ∧
      (uncut l key (d + chunks.flatten.length)).Alike
        (after (deliverEach p.ask l (bodiesIn marker buffer)) h) k' ∧
      Tidy l k' ∧ (k'.laneOf l).buffer = (Lane.frames marker buffer).2 := by
  induction chunks generalizing d h k with
  | nil =>
    have hfr := Lane.frames_of_not_mem ht.not_mem
    refine ⟨k, ?_, ?_, ht, ?_⟩ <;> simp only [List.flatten_nil, List.append_nil, bodiesIn, hfr]
    · rfl
    · simpa [deliverEach, after] using ha
  | cons bytes chunks ih =>
    intro marker buffer
    obtain ⟨k₁, hrun, ha₁, ht₁, hk₁, hm₁, hb₁⟩ := run_feedBy_peaceful hp ha ht hk bytes
    obtain ⟨k', hrun', ha', ht', hb'⟩ := ih ha₁ ht₁ hk₁
    rw [hm₁, hb₁] at hrun' ha' hb'
    have hbuffer : buffer = ((k.laneOf l).buffer ++ bytes) ++ chunks.flatten := by
      rw [List.append_assoc]
      rfl
    obtain ⟨old, hold⟩ : ∃ old, (k.laneOf l).buffer ++ bytes = old := ⟨_, rfl⟩
    rw [hold] at hrun hrun' ha' hb' hbuffer
    have hbodies : bodiesIn marker buffer = bodiesIn marker old ++
        bodiesIn marker ((Lane.frames marker old).2 ++ chunks.flatten) := by
      rw [hbuffer, bodiesIn_append]
    refine ⟨k', ?_, ?_, ht', ?_⟩
    · rw [feedEach, run_bind_ok hrun, run_bind_ok hrun', hbodies, List.length_append]
      rfl
    · rw [hbodies, after_deliverEach_append, List.flatten_cons, List.length_append, Int.natCast_add,
        ← Int.add_assoc]
      exact hold ▸ ha'
    · rw [hb', hbuffer, Lane.frames_append old]

/-- All that is told apart by keeping the rest is the buffer and what was counted. -/
theorem uncut_keepRest (hp : p.Peaceful) {h : Host} (ht : Tidy l h) {rest : List UInt8}
    (hrest : (h.laneOf l).marker ∉ rest) (bodies : List String) (n : Nat) :
    let k := after (deliverEach p.ask l bodies) h
    let k' := after (keepRest l n rest) k
    (keepRest l n rest).run k = .ok () k' ∧
      (uncut l (h.laneOf l).key n).Alike k k' ∧ Tidy l k' ∧ (k'.laneOf l).buffer = rest := by
  intro k k'
  have := still_ask hp
  have hloyal : LoyalHost h k := .of_cuts (Within.rel_after h)
  have hlane := hloyal.lane l
  have hlt : l < k.lanes.size := hloyal.size ▸ ht.lt
  let k₁ := after (count (h.laneOf l).key (.bytes n)) k
  have hrun : (keepRest l n rest).run k = .ok () (after (changeLane l fun a =>
      { a with buffer := rest, scanned := rest.length }) k₁) := by
    rw [keepRest, run_bind_ok (run_lane ..), hlane.key, run_bind_ok (Succeeds.run_unit ..),
      Succeeds.run_unit]
  have hk' : k' = _ := after_of_ok hrun
  have ha := uncut_count (uncut_refl l (h.laneOf l).key k) n
  rw [Int.zero_add] at ha
  have hlane' : k'.laneOf l = { k.laneOf l with buffer := rest, scanned := rest.length } := by
    rw [hk', laneOf_changeLane, if_pos ⟨rfl, hlt⟩]
    rfl
  refine ⟨hrun.trans (congrArg _ hk'.symm), hk' ▸ uncut_changeLane ha _ _, ⟨?_, ?_, ?_⟩, ?_⟩
  · rw [hk']
    exact Nat.lt_of_lt_of_eq hlt (Table.size_modify ..).symm
  · rw [hlane']
  · rw [hlane', hlane.marker]
    exact hrest
  · rw [hlane']

/-- It does not matter how output is cut into chunks.  Chunk after chunk comes to the same as one
    feed of it all, and that to the deliveries of what stands between the markers, one for each
    marker; what stands behind the last of them is kept. -/
theorem feedEach_eq_feedBy {h : Host} (hr : Reached l h) (hp : p.Peaceful)
    (chunks : List (List UInt8)) :
    let marker := (h.laneOf l).marker
    let bytes := chunks.flatten
    let pieces := Text.segments marker ((h.laneOf l).buffer ++ bytes)
    (feedEach p.ask l chunks).run h = (feedBy p.ask l bytes).run h ∧
      (feedBy p.ask l bytes).run h = (do
        deliverEach p.ask l (pieces.dropLast.map bodyOf)
        keepRest l bytes.length (pieces.getLast?.getD [])
        return bytes.count marker).run h := by
  intro marker bytes pieces
  have ht := hr.tidy
  obtain ⟨k, hrun, ha, htk, hb⟩ := run_feedEach hp (uncut_refl l _ h) ht rfl chunks
  obtain ⟨k', hrun', ha', htk', -, -, hb'⟩ :=
    run_feedBy_peaceful hp (uncut_refl l _ h) ht rfl bytes
  obtain ⟨hrun₃, ha₃, ht₃, hb₃⟩ := uncut_keepRest hp ht
    (Lane.not_mem_frames ((h.laneOf l).buffer ++ bytes)).2
    (bodiesIn marker ((h.laneOf l).buffer ++ bytes)) bytes.length
  have hk : k = k' := eq_of_uncut ha ha' htk htk' (hb.trans hb'.symm)
  rw [Int.zero_add] at ha'
  have hk₃ := eq_of_uncut ha' ha₃ htk' ht₃ (hb'.trans hb₃.symm)
  refine ⟨by rw [hrun, hrun', hk], ?_⟩
  have hcount : (bodiesIn marker ((h.laneOf l).buffer ++ bytes)).length = bytes.count marker := by
    rw [length_bodiesIn, List.count_append, List.count_eq_zero_of_not_mem ht.not_mem, Nat.zero_add]
  change _ = (deliverEach p.ask l (bodiesIn marker ((h.laneOf l).buffer ++ bytes)) >>= fun _ =>
    keepRest l bytes.length (Lane.frames marker ((h.laneOf l).buffer ++ bytes)).2 >>= fun _ =>
      pure (bytes.count marker)).run h
  rw [run_bind_ok (Succeeds.run_unit ..), run_bind_ok hrun₃, hrun', hk₃, ← hcount, run_pure]

/-- A host with a lane that nothing was asked of. -/
def oneLane : Host := { lanes := Table.push {} { key := "ghci:/p", marker := 4 } }

/-- Note a response, ask for the type of `x`, and fail. -/
def Policy.asking : Policy := fun state body _ =>
  .first (.note state body) fun _ => .first (.submit ":t x" .null (some .note) none) fun _ =>
    .fail (.fault (.other "RuntimeError" "boom"))

theorem feedEach_eq_feedBy_three :
    let request : Request := { command := "<startup>", reaction := some .note }
    let h := after (LaneOp.run 0 (.deed (.register request))) oneLane
    Reached 0 h ∧ Policy.asking.Peaceful ∧
      (feedEach Policy.asking.ask 0 [[97, 4], [], [98, 4, 99]]).run h =
        (feedBy Policy.asking.ask 0 [97, 4, 98, 4, 99]).run h := by
  have hr := (Reached.new (l := 0) (h := oneLane) "ghci:/p" 4 true rfl).op
    (.deed (.register { command := "<startup>", reaction := some .note }))
  have hp : Policy.asking.Peaceful := fun _ _ _ => ⟨nofun, fun _ => ⟨nofun, fun _ => trivial⟩⟩
  exact ⟨hr, hp, (feedEach_eq_feedBy hr hp [[97, 4], [], [98, 4, 99]]).1⟩

end

end GhciHost.Host
