import GhciHost.Proofs.Host.Ends
import GhciHost.Proofs.Host.Steps

/-!
# What becomes of processes

Processes are made when the launcher starts them, and each ends once.  Relations that tell only of
that are `Apart` from the rest of the host, so all steps move a host along them, or all but the
two frames that have to do with the launcher.

* `Apart`   the relation tells of processes only;
* `Apart.resume`   what all steps have in common;
* `ExitsStay`   a process that has ended keeps its exit code;
* `tally_resume`   the launcher is called by one frame, and starts processes at another.
-/

namespace GhciHost.Host

/-- Every process that has ended has the exit code that it had. -/
def ExitsStay (h h' : Host) : Prop := ∀ p code, h.exitOf p = some code → h'.exitOf p = some code

instance : Std.Refl ExitsStay := ⟨fun _ _ _ hp => hp⟩

instance : IsTrans Host ExitsStay := ⟨fun _ _ _ h k p code hp => k p code (h p code hp)⟩

instance : Blind ExitsStay :=
  ⟨fun _ hm p _ hp => (congrFun (congrArg Margin.exits hm) p).trans hp⟩

instance : Tacit ExitsStay where
  of_spawns _ _ _ hp := hp
  of_active _ _ _ _ hp := hp
  of_killed q p _ hp :=
    (congrFun (exits_changeProcess _ q (f := fun a => { a with killed := true }) fun _ => rfl)
      p).trans hp
  of_reader _ _ _ _ hp := hp

instance : Blind (Same tally) := ⟨fun _ hm => congrArg Margin.tally hm⟩

theorem exitOf_eq (h : Host) (p : Nat) : h.exitOf p = (h.processOf p).exitCode := by
  unfold exitOf processOf
  cases h.processes.get? p <;> rfl

/-- The relation has nothing to say while the processes are the same and the launcher is not called.
    It allows that a process changes, as long as it does not end or start again, and that one ends. -/
class Apart (R : Host → Host → Prop) : Prop where
  of_same : ∀ {h h'}, h'.processes = h.processes → h'.journal.spawns = h.journal.spawns → R h h'
  changeProcess : ∀ (p : Nat) {f : Process → Process}, (∀ a, (f a).exitCode = a.exitCode) →
    Within R (Host.changeProcess p f)
  exit : ∀ (p : Nat) (code : Int), Within R (Host.exit p code)

namespace Apart

section

variable {R : Host → Host → Prop} [hR : Apart R]

instance changeLoop (f : Loop Value Failure Frame → Loop Value Failure Frame) :
    Within R (Host.changeLoop f) := ⟨fun _ => hR.of_same rfl rfl⟩

instance onLoop (f : Loop Value Failure Frame → β × Loop Value Failure Frame) :
    Within R (Host.onLoop f) := ⟨fun _ => hR.of_same rfl rfl⟩

instance finish (c : Nat) (e : Ending) : Within R (Host.finish c e) := changeLoop _

instance newCell : Within R Host.newCell := onLoop _

instance newTask (fs : List Frame) : Within R (Host.newTask fs) := onLoop _

instance releaseAll (cells : List Nat) : Within R (Host.releaseAll cells) := changeLoop _

instance changeSession (s : Nat) (f : Session → Session) : Within R (Host.changeSession s f) :=
  ⟨fun _ => hR.of_same rfl rfl⟩

instance changeLane (l : Nat) (f : Lane → Lane) : Within R (Host.changeLane l f) :=
  ⟨fun _ => hR.of_same rfl rfl⟩

instance changeChannel (c : Nat) (f : QueryChannel → QueryChannel) :
    Within R (Host.changeChannel c f) := ⟨fun _ => hR.of_same rfl rfl⟩

instance publish (e : Event) : Within R (Host.publish e) := ⟨fun _ => hR.of_same rfl rfl⟩

instance pushQuery (q : Query) :
    Within R (modify fun h => { h with queries := h.queries.push q } : Action Unit) :=
  ⟨fun _ => hR.of_same rfl rfl⟩

instance setRegistry (f : Host → Keyed (String × String) Nat) :
    Within R (modify fun h => { h with registry := f h } : Action Unit) :=
  ⟨fun _ => hR.of_same rfl rfl⟩

instance setRegistryMetrics (f : Host → Keyed (String × String) Nat) (g : Host → Option Metrics) :
    Within R (modify fun h => { h with registry := f h, metrics := g h } : Action Unit) :=
  ⟨fun _ => hR.of_same rfl rfl⟩

instance newSession (kind root : String) (targets : List String) :
    Within R (Host.newSession kind root targets) := by
  unfold Host.newSession
  refine ⟨fun h => ?_⟩
  rw [after_bind_ok (run_get h)]
  split <;> exact hR.of_same rfl rfl

instance setReader (p : Nat) (reader : Option Nat) :
    Within R (Host.changeProcess p fun a => { a with reader }) := hR.changeProcess p fun _ => rfl

instance setKilled (p : Nat) : Within R (Host.changeProcess p fun a => { a with killed := true }) :=
  hR.changeProcess p fun _ => rfl

instance putOutput (p : Nat) (o : WorkerOutput) : Within R (Host.changeProcess p fun a =>
    { a with output := a.output ++ [o], reader := none }) := hR.changeProcess p fun _ => rfl

instance addExitWaiter (p c : Nat) : Within R (Host.changeProcess p fun a =>
    { a with exitWaiters := a.exitWaiters ++ [c] }) := hR.changeProcess p fun _ => rfl

instance processEnds (p : Nat) (code : Int) : Within R (Host.exit p code) := hR.exit p code

end

/-! ## Steps -/

section

variable {R : Host → Host → Prop} [Std.Refl R] [IsTrans Host R] [Blind R] [hR : Apart R]

instance write (p : Nat) (text : List Char) : Within R (Host.write p text) := by
  have (line : String) (a : WorkerAct) : Within R (Host.act p line a) := inferInstance
  have : Within R (Host.hear p text) := inferInstance
  infer_instance

instance submit (l : Nat) (command : String) (state : Json) (reaction : Option Reaction)
    (waiter : Option Nat) : Within R (Host.submit l command state reaction waiter) := by
  have : Within R (Host.writeRaw l command) := inferInstance
  infer_instance

instance setUp (s : Nat) (replay : List Request) : Within R (Host.setUp s replay) := by
  have (command : String) : Within R (Host.writeRaw s command) := inferInstance
  have (r : Request) : Within R (Host.requeue s r) := inferInstance
  infer_instance

instance deliverBy (l : Nat) (body : String) : Within R (Host.deliverBy Host.react l body) := by
  have (state : Json) (body : String) (r : Reaction) :
      Within R (Host.react l state body r) := inferInstance
  infer_instance

instance endExchange (q : Nat) (e : Ending) : Within R (Host.endExchange q e) := by
  have (l : Nat) (state : Json) (body : String) (r : Reaction) :
      Within R (Host.react l state body r) := inferInstance
  have (reason : String) : Within R (Host.fallBackAfterFailure q reason) := inferInstance
  infer_instance

variable {f : Frame}
  (hlaunch : ∀ s m replay, f = .launch s m replay → Within R (Host.launch s m replay))
  (hspawn : ∀ script, f = .spawnEnd script → Within R (Host.spawnEnd script))
include hlaunch hspawn

theorem resumeWith (v : Value) : Within R (Host.resumeWith f v) := by
  unfold Host.resumeWith
  split <;> first | infer_instance | exact hlaunch _ _ _ rfl | exact hspawn _ rfl

/-- Whatever a frame does, if this is known of the frames that have to do with the launcher. -/
theorem resume (e : Ending) : Within R (Host.resume f e) := by
  unfold Host.resume
  split
  case h_17 => split <;> infer_instance
  case h_18 =>
    split
    · exact resumeWith hlaunch hspawn _
    · infer_instance
  all_goals infer_instance

end

end Apart

/-! ## Exit codes -/

namespace ExitsStay

/-- A process changes, but for its exit code. -/
theorem changeProcess (p : Nat) {f : Process → Process} (hf : ∀ a, (f a).exitCode = a.exitCode) :
    Within ExitsStay (Host.changeProcess p f) :=
  ⟨fun h q _ hq => (congrFun (exits_changeProcess h p hf) q).trans hq⟩

instance : Apart ExitsStay where
  of_same e _ p _ hp := by rwa [exitOf, e]
  changeProcess := changeProcess
  exit p code := ⟨fun h => by
    have hput : Within ExitsStay (Host.changeProcess p fun a =>
      { a with output := a.output ++ [.piece []], reader := none }) := changeProcess p fun _ => rfl
    have hfree (cells : List Nat) : Within ExitsStay (Host.releaseAll cells) := ⟨fun _ _ _ hq => hq⟩
    have hout : Within ExitsStay (Host.putOutput p (.piece [])) := inferInstance
    unfold Host.exit
    rw [after_bind_ok (run_process p h)]
    split
    -- a process ends once
    · next hnone =>
      refine Within.rel_after_bind (fun q x hq => ?_) fun _ k _ => Within.rel_after k
      have hqp : p ≠ q := by
        rintro rfl
        rw [exitOf_eq] at hq
        rw [hq] at hnone
        cases hnone
      exact ((exitOf_changeProcess h p q _).trans (if_neg hqp)).trans hq
    · exact Std.Refl.refl h⟩

/-- A process that is made has a number that no other has. -/
instance pushProcess (process : Process) :
    Within ExitsStay (modify fun h => { h with processes := h.processes.push process } :
      Action Unit) :=
  ⟨fun h p _ hp => by
    have hlt : p < h.processes.size := Nat.lt_of_not_le fun hle => by
      unfold exitOf at hp
      rw [Table.get?_eq_none hle] at hp
      cases hp
    show (h.processes.push process).get? p >>= _ = _
    rw [Table.get?_push, if_neg (Nat.ne_of_lt hlt)]
    exact hp⟩

theorem resume (f : Frame) (e : Ending) : Within ExitsStay (Host.resume f e) :=
  Apart.resume (fun _ _ _ _ => inferInstance) (fun _ _ => inferInstance) e

end ExitsStay

/-! ## Calls of the launcher -/

namespace SameTally

instance : Apart (Same tally) where
  of_same e es := by rw [Same, tally, tally, e, es]
  changeProcess p f _ := ⟨fun h => by
    show (h.journal.spawns.length, (h.processes.modify p f).size) = h.tally
    rw [Table.size_modify]
    rfl⟩
  exit p code := by
    have (f : Process → Process) : Within (Same tally) (Host.changeProcess p f) := ⟨fun h => by
      show (h.journal.spawns.length, (h.processes.modify p f).size) = h.tally
      rw [Table.size_modify]
      rfl⟩
    have (cells : List Nat) : Within (Same tally) (Host.releaseAll cells) := ⟨fun _ => rfl⟩
    infer_instance

theorem resume {f : Frame} (hl : ∀ s m replay, f ≠ .launch s m replay)
    (hs : f.isSpawn = false) (e : Ending) : Within (Same tally) (Host.resume f e) :=
  Apart.resume (fun s m replay e' => absurd e' (hl s m replay))
    (fun script e' => by rw [e'] at hs; cases hs) e

end SameTally

/-- Who goes on when some time has passed leaves its frames. -/
theorem sleep_tally (delay : Option Binary64) (fs : List Frame) (h : Host)
    {E : Failure → Host → Prop} :
    Ends (sleep delay fs) h (fun n h' => n.push = fs ∧ h'.tally = h.tally) E := by
  unfold sleep
  split
  · split
    · exact Ends.bind (Ends.of_succeeds (Same tally) fun c h' e => Ends.of_run rfl ⟨rfl, e⟩)
    · exact Ends.of_run rfl ⟨rfl, rfl⟩
  · exact Ends.of_run rfl ⟨rfl, rfl⟩

/-- The launcher is called once when a worker is launched, unless that is not allowed. -/
theorem launch_tally (s : Nat) (m : StartMode) (replay : List Request) (h : Host) :
    Ends (launch s m replay) h
      (fun n h' => (∃ script, n.push = [.spawnEnd script, .launched s m replay]) ∧
        h'.tally = (h.tally.1 + 1, h.tally.2))
      fun _ h' => h'.tally = h.tally := by
  unfold launch
  refine Ends.bind ?_
  rw [Ends]
  cases e : (transition s (.starting m)).run h with
  | error x h₁ => exact Within.of_error (R := Same tally) e
  | ok v h₁ =>
    have e₁ : h₁.tally = h.tally := Within.of_ok (R := Same tally) e
    dsimp only
    rw [← e₁]
    refine Ends.bind (Ends.of_run (run_session s h₁) ?_)
    refine Ends.bind (Ends.of_run (run_get h₁) ?_)
    refine Ends.bind (Ends.of_succeeds (Same tally) fun _ h₂ (e₂ : h₂.tally = h₁.tally) => ?_)
    refine Ends.bind (Ends.of_run (Succeeds.run_unit ..) ?_)
    refine Ends.bind (Ends.of_run (run_get _) (Ends.bind (Ends.of_run (Succeeds.run_unit ..) ?_)))
    refine (sleep_tally ..).mono fun n h₃ hn => ⟨⟨_, hn.1⟩, hn.2.trans ?_⟩
    show ((_ ++ [_]).length, _) = _
    rw [List.length_append, ← e₂]
    rfl

end GhciHost.Host
