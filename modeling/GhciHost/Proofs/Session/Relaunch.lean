import GhciHost.Proofs.Session.Destroyed
import GhciHost.Proofs.Session.Readers
import GhciHost.Proofs.Session.Traffic

/-!
# One more worker is started

When a worker ends on a missing dependency, the task that followed it starts one more, which
builds dependencies.  The requests that were pending go with that task, and meanwhile nothing is
queued for the session; when the new worker is set up they are written to it and queued again.

* `Escalates.tick`   the requests that the task takes along;
* `Relaunching`, `relaunching_of_underway`   how far the task is, and that nothing is queued;
* `untouched_of_newborn`   a worker that nobody has yet was written nothing;
* `Launches.tick`   what a new worker is written, and what is queued for it then.
-/

namespace GhciHost.Host

open Loop

variable {h h' : Host} {t s p q : Nat} {below : List Frame} {replay : List Request}
  {ks js : List Host}

/-! ## A worker ends on a missing dependency -/

/-- The worker of a session has ended. -/
theorem pumpEnd_exited (hn : h.board.Neat True) (hproc : (h.sessionOf s).process = some p)
    (code : Int) : ∃ a, h.core? s = some a ∧
      Comes (pumpEnd s p code) h fun n h' => Exited h s a n h'.core? := by
  obtain ⟨a, ha, hp⟩ := core?_of_process hproc
  obtain ⟨hw, hd⟩ := manned_of_neat hn s a ha (by rw [hp]; rfl)
  refine ⟨a, ha, ?_⟩
  unfold pumpEnd
  refine Comes.read (run_session s h) ?_
  rw [if_pos ⟨hproc, (destroyed_eq ha).trans hd⟩]
  exact workerExited_spec ha hw code

/-- The requests that callers have pending in a session. -/
def pendingOf (s : Nat) (h : Host) : List Request := (h.laneOf s).queue.filter (!·.internal)

/-- A worker that was started without building dependencies has ended on a missing one. -/
structure Escalates (h : Host) (t s p : Nat) (below : List Frame) : Prop where
  running : ∃ code, h.loop.running = some (t, .value (.code code))
  top : h.loop.stack? t = some (.pumpEnd s p :: below)
  process : (h.sessionOf s).process = some p
  alive : (h.sessionOf s).destroyed = false
  fast : (h.sessionOf s).phase.mode? = some .fast
  missing : (h.sessionOf s).dependencyMissing = true

namespace Escalates

variable (k : Escalates h t s p below)
include k

/-- The requests that are pending are submitted again to one more worker. -/
theorem comes (hn : h.board.Neat True) (code : Int) : Comes (pumpEnd s p code) h
    fun n _ => n = .call [.launch s .withBuild (pendingOf s h)] := by
  obtain ⟨a, ha, hexited⟩ := pumpEnd_exited hn k.process code
  refine hexited.mono fun n h' hcase => ?_
  generalize h'.core? = cores at hcase
  cases hcase with
  | escalated => rw [pendingOf, queueOf_eq]
  | died _ _ _ hno =>
    refine absurd ⟨?_, k.missing⟩ hno
    rw [← phase_eq ha]
    exact k.fast

/-- The next step is about to start the worker. -/
theorem tick (r : Regular h) :
    h.tick.loop.stack? t = some (.launch s .withBuild (pendingOf s h) :: below) := by
  obtain ⟨code, hrun⟩ := k.running
  have ks : Steps h t (.value (.code code)) (.pumpEnd s p) below := ⟨r.inOrder, hrun, k.top⟩
  have hnext : nextOf (resume (.pumpEnd s p) (.value (.code code))) h =
      .call [.launch s .withBuild (pendingOf s h)] := (k.comes r.neat code).nextOf
  have hstack := ks.stack_self
  rw [hnext] at hstack
  unfold Host.tick
  rw [hrun]
  exact hstack

end Escalates

/-! ## Until the worker has started -/

/-- How far a task is that starts one more worker for a session. -/
inductive Relaunching (t s : Nat) (replay : List Request) (below : List Frame) (h : Host) : Prop
  | launching : h.loop.stack? t = some (.launch s .withBuild replay :: below) →
      Relaunching t s replay below h
  | spawning (script : SpawnScript) :
      h.loop.stack? t = some (.spawnEnd script :: .launched s .withBuild replay :: below) →
      Relaunching t s replay below h
  | spawned : h.loop.stack? t = some (.launched s .withBuild replay :: below) →
      Relaunching t s replay below h
  | ended : h.loop.stack? t = some below → Relaunching t s replay below h

namespace Relaunching

/-- The task itself goes on. -/
theorem own (k : Relaunching t s replay below h) (r : InOrder h) {e : Ending}
    (hrun : h.loop.running = some (t, e))
    (hdeep : ∃ fs, h.loop.stack? t = some fs ∧ below.length < fs.length) :
    Relaunching t s replay below h.tick := by
  rw [tick_of_running hrun]
  cases k with
  | launching htop =>
    have ks : Steps h t e _ below := ⟨r, hrun, htop⟩
    have hstack := ks.stack_self
    have hcourse := ks.course rfl rfl
    generalize nextOf _ h = n at hstack hcourse
    generalize core? (after _ h) = cores at hcourse
    cases hcourse with
    | pass => exact .ended hstack
    | launch hpush =>
      rw [hpush] at hstack
      exact .spawning _ hstack
    | route haside => cases haside
    | ask hs => cases hs
    | giveUp _ _ _ hs => rcases hs with hs | hs <;> cases hs
    | proceed hp => cases hp
    | make hs => cases hs
  | spawning script htop =>
    have ks : Steps h t e _ _ := ⟨r, hrun, htop⟩
    have hstack := ks.stack_self
    rw [push_spawnEnd] at hstack
    exact .spawned hstack
  | spawned htop =>
    have ks : Steps h t e _ below := ⟨r, hrun, htop⟩
    have hstack := ks.stack_self
    have hcourse := ks.course rfl rfl
    generalize nextOf _ h = n at hstack hcourse
    generalize core? (after _ h) = cores at hcourse
    cases hcourse with
    | pass => exact .ended hstack
    | adopt => exact .ended hstack
    | giveUp => exact .ended hstack
    | route haside => cases haside
    | ask hs => cases hs
    | proceed hp => cases hp
    | make hs => cases hs
  | ended htop =>
    obtain ⟨fs, hfs, hlt⟩ := hdeep
    cases hfs.symm.trans htop
    exact absurd hlt (Nat.lt_irrefl _)

/-- The task stays where it is when others go on. -/
theorem beside (k : Relaunching t s replay below h)
    (hstack : ∀ fs, h.loop.stack? t = some fs → h'.loop.stack? t = some fs) :
    Relaunching t s replay below h' := by
  cases k with
  | launching htop => exact .launching (hstack _ htop)
  | spawning script htop => exact .spawning script (hstack _ htop)
  | spawned htop => exact .spawned (hstack _ htop)
  | ended htop => exact .ended (hstack _ htop)

end Relaunching

/-- A session that has no worker has nothing queued. -/
theorem queue_of_vacant (hn : h.board.Neat True) {a : Session.Core} (ha : h.core? s = some a)
    (hd : a.destroyed = false) (hproc : a.process = none) : (h.laneOf s).queue = [] := by
  obtain ⟨-, ready, hseat⟩ := unmanned_of_core? hn ha hd hproc
  exact (seat?_lane hseat).2.symm

/-- Until the worker has started nothing is queued for it, unless the session is destroyed. -/
theorem Relaunching.queue (k : Relaunching t s replay below h) (r : Regular h) (hd : ¬ Doomed s h)
    (hdeep : ∃ fs, h.loop.stack? t = some fs ∧ below.length < fs.length) :
    (h.laneOf s).queue = [] := by
  have halive {a : Session.Core} (ha : h.core? s = some a) : a.destroyed = false :=
    Bool.eq_false_iff.2 fun hdead => hd ⟨a, ha, hdead⟩
  have hlaunched {fs : List Frame} (hs : h.loop.stack? t = some fs)
      (hf : .launched s .withBuild replay ∈ fs) : (h.laneOf s).queue = [] := by
    obtain ⟨a, ha, hstage⟩ := (r.inOrder.stages.fits t _ _ hs hf).stage s (.starting .withBuild) rfl
    have hd := halive ha
    exact queue_of_vacant r.neat ha hd (hstage.resolve_left (by rw [hd]; exact Bool.false_ne_true)).2
  cases k with
  | launching htop =>
    obtain ⟨a, ha, hl⟩ := (r.inOrder.stages.fits t _ _ htop List.mem_cons_self).launch s .withBuild rfl
    exact queue_of_vacant r.neat ha hl.alive hl.process
  | spawning script htop => exact hlaunched htop (List.mem_cons_of_mem _ List.mem_cons_self)
  | spawned htop => exact hlaunched htop List.mem_cons_self
  | ended htop =>
    obtain ⟨fs, hfs, hlt⟩ := hdeep
    cases hfs.symm.trans htop
    exact absurd hlt (Nat.lt_irrefl _)

/-- How far the task is, and that nothing is queued meanwhile. -/
theorem relaunching_of_underway {start : Host} (hr : Run Fresh (Outside Reaction.isAsked) ks start)
    (hu : Underway start t below js h) (k : Relaunching t s replay below start) :
    Relaunching t s replay below h ∧ (¬ Doomed s h → ∀ j ∈ js, (j.laneOf s).queue = []) := by
  obtain ⟨hrun, hdeep⟩ := hu
  induction hrun with
  | start e => exact ⟨e ▸ k, fun _ _ hj => (List.not_mem_nil hj).elim⟩
  | @tick js h hj ih =>
    obtain ⟨hstage, hqueue⟩ := ih fun j hj => hdeep j (List.mem_append_left _ hj)
    have hrun := hr.append hj
    have r := regular_of_run hrun
    have hdeep := hdeep h (List.mem_append_right _ List.mem_cons_self)
    refine ⟨?_, fun hd j hj => ?_⟩
    · by_cases hown : ∃ e, h.loop.running = some (t, e)
      · obtain ⟨e, he⟩ := hown
        exact hstage.own r.inOrder he hdeep
      · exact hstage.beside (loop_tick r (heeded_of_reachable hrun.reachable) fun e he => hown ⟨e, he⟩).1
    · have hd : ¬ Doomed s h := fun hdoom => hd (hdoom.fades (.tick r.inOrder))
      rcases List.mem_append.1 hj with hj | hj
      · exact hqueue hd j hj
      · rw [List.mem_singleton.1 hj]
        exact hstage.queue r hd hdeep
  | @fire js h u hj hu ih =>
    obtain ⟨hstage, hqueue⟩ := ih hdeep
    have hm : Onward none h (h.fire u) := .fire (regular_of_run (hr.append hj)).filed hu
    exact ⟨hstage.beside fun fs => hm.moves.stack t fs nofun,
      fun hd => hqueue fun hdoom => hd (hdoom.fades (.of_core? rfl))⟩
  | @act js h h' hj hidle ho ih =>
    obtain ⟨hstage, hqueue⟩ := ih hdeep
    have r := regular_of_run (hr.append hj)
    have hm : Onward none h h' := .outside r.filed ho
    exact ⟨hstage.beside fun fs => hm.moves.stack t fs nofun,
      fun hd => hqueue fun hdoom => hd (hdoom.fades (.outside r.inOrder ho))⟩

/-! ## Processes that nobody has yet -/

theorem Fresh.untouched (hf : Fresh h) : Untouched q h where
  unattached l := by
    have hlane : h.laneOf l = noLane := by rw [laneOf, hf.lanes]; rfl
    rw [hlane]
    exact nofun
  unwritten w hw := by
    rw [hf.journal] at hw
    cases hw

/-- Nothing was written to a process before it is taken on. -/
theorem untouched_of_newborn (hr : Run Fresh (Outside Reaction.isAsked) ks h) (hq : Newborn q h) :
    Untouched q h := by
  induction hr with
  | start hf => exact hf.untouched
  | @tick ks h hr ih =>
    have hle : h.processes.size ≤ q := hq.before hr
    have hspares : Spares q h h.tick := Postal.tick fun t e f below hrun htop => by
      refine Given.step (regular_of_run hr).neat f e (fun l _ => Spares.free q l) ?_
      intro l m replay p hf he
      refine Spares.changeLane fun a hp => ?_
      cases hp
      subst hf he
      obtain ⟨e, he, hstart⟩ := ((balanced_of_run hr).accounts.heralded t _ _ htop).2 rfl
      cases hrun.symm.trans he
      exact absurd (lt_of_start hr hstart) (Nat.not_lt_of_le hle)
    exact hspares (ih (.inl hle))
  | @fire ks h v hr hv ih =>
    have hspares : Spares q h (h.fire v) := Postal.fire v
    exact hspares (ih hq.of_fire)
  | @act ks h h' hr hidle ho ih =>
    have hspares : Spares q h h' := Postal.outside ho
    exact hspares (ih (hq.of_outside hr hidle ho))

/-! ## A worker is set up -/

/-- A worker is attached to a lane that there is. -/
structure Attached (s q : Nat) (h : Host) : Prop where
  lt : s < h.lanes.size
  process : (h.laneOf s).process = some q

theorem Attached.workersOnly {p : Nat} {bytes : List UInt8} (ha : Attached s q h)
    (hw : WorkersOnly (withWrite p bytes h) h') : Attached s q h' := by
  rw [show h' = _ from hw]
  exact ⟨ha.lt, ha.process⟩

/-- A loop that makes an entry each turn, as long as the worker is attached. -/
theorem ledger_forIn {a : β → Action Unit} {entry : β → Entry}
    (ha : ∀ x h h', Attached s q h → (a x).run h = .ok () h' →
      Ledger.Step (ledgerOf s h) (entry x) (ledgerOf s h') ∧ Attached s q h')
    {xs : List β} {u : PUnit} (hs : Attached s q h)
    (e : (forIn xs PUnit.unit fun x _ => do a x; return ForInStep.yield PUnit.unit : Action PUnit).run h =
      .ok u h') :
    Ledger.Run (ledgerOf s h) (xs.map entry) (ledgerOf s h') ∧ Attached s q h' := by
  induction xs generalizing h with
  | nil =>
    cases e
    exact ⟨.nil _, hs⟩
  | cons x xs ih =>
    rw [List.forIn_cons] at e
    cases hx : (a x).run h with
    | error f h₁ =>
      rw [run_bind_error (run_bind_error hx)] at e
      cases e
    | ok v h₁ =>
      have hturn : (do a x; return ForInStep.yield PUnit.unit : Action (ForInStep PUnit)).run h =
        .ok (.yield PUnit.unit) h₁ := run_bind_ok hx
      rw [run_bind_ok hturn] at e
      obtain ⟨hstep, hs₁⟩ := ha x h h₁ hs hx
      obtain ⟨hrun, hs'⟩ := ih hs₁ e
      exact ⟨.cons hstep hrun, hs'⟩

theorem Attached.writeRaw {command : String} (hs : Attached s q h)
    (e : (writeRaw s command).run h = .ok () h') :
    Ledger.Step (ledgerOf s h) (.wrote q command) (ledgerOf s h') ∧ Attached s q h' := by
  obtain ⟨p, k, hp, hok, hw⟩ | ⟨x, hx⟩ := writeRaw_spec s command h
  · cases hs.process.symm.trans hp
    rw [hok] at e
    cases e
    exact ⟨ledger_wrote hp hw, hs.workersOnly hw⟩
  · rw [hx] at e
    cases e

theorem Attached.requeue {r : Request} (hs : Attached s q h)
    (e : (requeue s r).run h = .ok () h') :
    Ledger.Step (ledgerOf s h) (.sent q r) (ledgerOf s h') ∧ Attached s q h' := by
  obtain ⟨p, k, hp, hw, hok⟩ | ⟨x, hx⟩ := requeue_spec s r h
  · cases hs.process.symm.trans hp
    have hk : Attached s q k := hs.workersOnly hw
    rw [hok] at e
    cases e
    refine ⟨ledger_sent hs.lt hp hw rfl, Nat.lt_of_lt_of_eq hk.lt (Table.size_modify ..).symm, ?_⟩
    rw [laneOf_changeLane, if_pos ⟨rfl, hk.lt⟩]
    exact hk.process
  · rw [hx] at e
    cases e

/-- What is done when a worker is set up: the commands for that are written, and then those of the
    requests that are submitted again, which are queued in their order. -/
def setUpEntries (settings : Settings) (q : Nat) (replay : List Request) : List Entry :=
  (settings.setupCommands ++ [settings.promptCommand]).map (.wrote q) ++ replay.map (.sent q)

theorem ledger_setUp (hs : Attached s q h) (e : (setUp s replay).run h = .ok () h') :
    Ledger.Run (ledgerOf s h) (setUpEntries h.settings q replay) (ledgerOf s h') := by
  unfold setUp at e
  rw [run_bind_ok (run_get h)] at e
  dsimp only at e
  rw [run_bind] at e
  split at e
  · next v h₁ e₁ =>
    obtain ⟨hwrote, hs₁⟩ := ledger_forIn (fun _ _ _ => Attached.writeRaw) hs e₁
    rw [run_bind] at e
    split at e
    · next v' h₂ e₂ =>
      obtain ⟨hsent, -⟩ := ledger_forIn (fun _ _ _ => Attached.requeue) hs₁ e₂
      cases e
      exact hwrote.append hsent
    · cases e
  · cases e

/-- The lines that were written to a process, oldest first. -/
def linesTo (q : Nat) (h : Host) : List (List UInt8) :=
  (h.journal.writes.filter (·.1 = q)).map (·.2)

theorem linesTo_of_untouched (hu : Untouched q h) : linesTo q h = [] := by
  rw [linesTo, List.filter_eq_nil_iff.2 fun w hw => by simpa using hu.unwritten w hw]
  rfl

theorem appended_setUpEntries (settings : Settings) (q : Nat) (replay : List Request) :
    (setUpEntries settings q replay).flatMap Entry.appended = replay ∧
      (setUpEntries settings q replay).flatMap Entry.departed = [] := by
  constructor
  · simp [setUpEntries, List.flatMap_append, List.flatMap_map, Entry.appended]
  · simp [setUpEntries, List.flatMap_append, List.flatMap_map, Entry.departed, Entry.completed,
      Entry.withdrawn, Entry.dropped]

theorem lines_setUpEntries (settings : Settings) (q : Nat) (replay : List Request) :
    (setUpEntries settings q replay).flatMap Entry.lines =
      (settings.setupCommands ++ [settings.promptCommand] ++ replay.map (·.command)).map
        fun command => (q, Entry.line command) := by
  simp [setUpEntries, List.flatMap_append, List.flatMap_map, Entry.lines, Entry.submittedLines,
    ← List.map_eq_flatMap, Function.comp_def]

/-! ## The worker has started -/

/-- The worker that a task waits for was started, and all that it is written can be written. -/
structure Launches (h : Host) (t s q : Nat) (m : StartMode) (replay : List Request)
    (below : List Frame) : Prop where
  running : h.loop.running = some (t, .value (.process q))
  top : h.loop.stack? t = some (.launched s m replay :: below)
  alive : (h.sessionOf s).destroyed = false
  written : failure? (setUp s replay) (manned s q m h) = none

theorem lanes_engage (s p : Nat) (m : StartMode) (h : Host) :
    (after (engage s p m) h).lanes = h.lanes := rfl

theorem writes_engage (s p : Nat) (m : StartMode) (h : Host) :
    (after (engage s p m) h).journal.writes = h.journal.writes := rfl

instance (s p : Nat) (m : StartMode) : Within (Same core?) (engage s p m) := by
  unfold engage
  infer_instance

namespace Launches

variable {m : StartMode} (k : Launches h t s q m replay below)
include k

/-- The host when all was written. -/
theorem run_setUp : (setUp s replay).run (manned s q m h) =
    .ok () (after (setUp s replay) (manned s q m h)) := run_of_failure? k.written

theorem tick_eq : ∃ l, h.tick = { after (engage s q m) (after (setUp s replay) (manned s q m h)) with
    loop := l } := by
  have htry : (trySetUp s replay).run (manned s q m h) =
      .ok () (after (setUp s replay) (manned s q m h)) := by
    rw [trySetUp, run_tryCatch, k.run_setUp]
  have hafter : after (resume (.launched s m replay) (.value (.process q))) h =
      after (engage s q m) (after (setUp s replay) (manned s q m h)) := by
    show after (launched s m replay (.value (.process q))) h = _
    unfold launched
    dsimp only
    rw [after_bind_ok (run_session s h), k.alive, if_neg Bool.false_ne_true, after, run_adopt,
      ← after, after_bind_ok htry]
  unfold Host.tick
  rw [k.running]
  dsimp only
  rw [step_eq k.top, hafter]
  exact ⟨_, rfl⟩

end Launches

/-- The worker of a lane is the only process that the lane knows. -/
theorem attached_manned {m : StartMode} (hl : s < h.lanes.size) : Attached s q (manned s q m h) ∧
    (manned s q m h).lanes.get? s = some (((h.laneOf s).attach q).push (.startup s q m)) := by
  obtain ⟨b, hb⟩ := Table.exists_get? hl
  have hget : (manned s q m h).lanes.get? s = some (((h.laneOf s).attach q).push (.startup s q m)) := by
    show ((h.lanes.modify s _).modify s _).get? s = _
    rw [Table.get?_modify, if_pos rfl, Table.get?_modify, if_pos rfl, hb, laneOf_of_get? hb]
    rfl
  refine ⟨⟨Table.lt_size_of_get? hget, ?_⟩, hget⟩
  rw [laneOf_of_get? hget]
  rfl

/-- Of a session that there is there is a lane. -/
theorem lt_lanes_of_core? (hn : h.board.Neat True) {a : Session.Core} (ha : h.core? s = some a) :
    s < h.lanes.size := by
  obtain ⟨x, hx, -⟩ := seat?_of_core? ha
  exact Nat.lt_of_lt_of_eq (lt_of_seat? hx) hn.lanes.symm

namespace Launches

variable {m : StartMode} (k : Launches h t s q m replay below)
include k

/-- What a new worker is written is all that it is for, and its lane begins anew. -/
theorem tick (hr : Run Fresh (Outside Reaction.isAsked) ks h) :
    linesTo q h.tick = (h.settings.setupCommands ++ [h.settings.promptCommand] ++
        replay.map (·.command)).map Entry.line ∧
      h.tick.lanes.get? s = some { (h.laneOf s).attach q with
        queue := (h.laneOf s).queue ++ .startup s q m :: replay } ∧
      (h.tick.sessionOf s).process = some q := by
  have r := regular_of_run hr
  obtain ⟨a, ha, -⟩ := (r.inOrder.stages.fits t _ _ k.top List.mem_cons_self).stage s (.starting m) rfl
  have ha : h.core? s = some a := ha
  obtain ⟨hattached, hlane⟩ := attached_manned (q := q) (m := m) (lt_lanes_of_core? r.neat ha)
  obtain ⟨l, e⟩ := k.tick_eq
  generalize hg : after (setUp s replay) (manned s q m h) = g at e
  have hrun : Ledger.Run (ledgerOf s (manned s q m h)) (setUpEntries h.settings q replay)
      (ledgerOf s g) := by
    have := ledger_setUp hattached k.run_setUp
    rwa [hg] at this
  have hwrites : h.tick.journal.writes = h.journal.writes ++
      (setUpEntries h.settings q replay).flatMap Entry.lines := by
    rw [e]
    exact hrun.writes_eq
  refine ⟨?_, ?_, ?_⟩
  · have hnew : Untouched q h := untouched_of_newborn hr (.inr ⟨t, s, m, replay, below, k.running, k.top⟩)
    rw [linesTo, hwrites, List.filter_append, List.map_append, ← linesTo, linesTo_of_untouched hnew,
      lines_setUpEntries, List.nil_append, List.filter_eq_self.2, List.map_map]
    · rfl
    · intro w hw
      obtain ⟨command, -, rfl⟩ := List.mem_map.1 hw
      exact decide_eq_true rfl
  · have hlong : Lengthens s (manned s q m h) g := hg ▸ Within.rel_after _
    obtain ⟨rs, hrs⟩ := hlong _ hlane
    have hqueue := hrun.queue_eq
    obtain ⟨happended, hdeparted⟩ := appended_setUpEntries h.settings q replay
    rw [happended, hdeparted, ledgerOf, laneOf_of_get? hlane, ledgerOf, laneOf_of_get? hrs] at hqueue
    have hrs' : replay = rs := List.append_cancel_left hqueue
    rw [e]
    show g.lanes.get? s = _
    rw [hrs, ← hrs']
    show some { (h.laneOf s).attach q with
      queue := ((h.laneOf s).queue ++ [Request.startup s q m]) ++ replay } = _
    rw [List.append_assoc]
    rfl
  · have hcore : g.core? s = some { a with process := some q } := by
      have hmanned : (manned s q m h).core? s = some { a with process := some q } := by
        show (after (changeSession s fun a => { a with process := some q }) h).core? s = _
        rw [core?_bump h s (g := fun a => { a with process := some q }) fun _ => rfl, bump_self ha]
      have hsame : Same core? (manned s q m h) g := hg ▸ Within.rel_after _
      rw [← hmanned]
      exact congrFun hsame s
    rw [e]
    show ((after (engage s q m) g).sessionOf s).process = some q
    have hengaged : Same core? g (after (engage s q m) g) := Within.rel_after _
    exact process_eq ((congrFun hengaged s).trans hcore)

end Launches

end GhciHost.Host
