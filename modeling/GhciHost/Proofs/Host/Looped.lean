import GhciHost.Proofs.Host.Steps
import GhciHost.Proofs.Loop.Owned

/-!
# What steps do to the loop

A step does something to the loop by few operations: it finishes cells, hangs hooks on them, cancels
them and makes new ones, and it begins tasks.  The loop moves along each relation that holds along
these, whatever else a step does.

* `Handles`   relations of this kind, but for cancellations and for the tasks that are begun;
* `Looped.resume`   the steps of all frames.
-/

namespace GhciHost

/-- The frames that cancel something. -/
def Frame.cancels : Frame → Bool
  | race .. | exchange .. | call .. | callSession .. | callOn .. | cancelQueries .. | teardown ..
  | waitReady => true
  | _ => false

namespace Host

open Loop

/-- The loop moves along the relation, whatever a step does to its cells but to cancel them. -/
class Handles (Q : Loop Value Failure Frame → Loop Value Failure Frame → Prop) : Prop where
  refl : ∀ l, Q l l
  trans : ∀ {l l' l''}, Q l l' → Q l' l'' → Q l l''
  finish : ∀ l c {e : Ending}, e ≠ .cancelled → Q l (l.finish c e)
  hook : ∀ l c {k : Hook}, k.task? = none → Q l (l.hook c k)
  newCell : ∀ l, Q l l.newCell.2
  timers : ∀ l timers, Q l { l with timers }

/-- A relation between the loops of hosts. -/
def Looped (Q : Loop Value Failure Frame → Loop Value Failure Frame → Prop) (h h' : Host) : Prop :=
  Q h.loop h'.loop

namespace Looped

variable {Q : Loop Value Failure Frame → Loop Value Failure Frame → Prop} [hQ : Handles Q]
  {h h' : Host}

instance : Std.Refl (Looped Q) := ⟨fun h => hQ.refl h.loop⟩

instance : IsTrans Host (Looped Q) := ⟨fun _ _ _ h k => hQ.trans h k⟩

theorem of_loop (e : h'.loop = h.loop) : Looped Q h h' := by
  rw [Looped, e]
  exact hQ.refl _

instance : Blind (Looped Q) := ⟨fun hv _ => of_loop (congrArg View.loop hv)⟩

instance : Tacit (Looped Q) :=
  ⟨fun _ => of_loop rfl, fun _ _ => of_loop rfl, fun _ => of_loop rfl, fun _ _ => of_loop rfl⟩

omit hQ in
theorem changeLoop {f : Loop Value Failure Frame → Loop Value Failure Frame}
    (hf : ∀ l, Q l (f l)) : Within (Looped Q) (Host.changeLoop f) := ⟨fun h => hf h.loop⟩

theorem foldl {f : Loop Value Failure Frame → Nat → Loop Value Failure Frame}
    (hf : ∀ l c, Q l (f l c)) (cells : List Nat) :
    Within (Looped Q) (Host.changeLoop fun l => cells.foldl f l) :=
  changeLoop fun l => by
    induction cells generalizing l with
    | nil => exact hQ.refl l
    | cons c cells ih => exact hQ.trans (hf l c) (ih _)

instance answer (c : Nat) (v : Value) : Within (Looped Q) (Host.finish c (.value v)) :=
  changeLoop fun l => hQ.finish l c nofun

instance fail (c : Nat) (x : Failure) : Within (Looped Q) (Host.finish c (.failed x)) :=
  changeLoop fun l => hQ.finish l c nofun

instance releaseAll (cells : List Nat) : Within (Looped Q) (Host.releaseAll cells) :=
  foldl (f := fun l c => l.release c) (fun l c => hQ.finish l c nofun) cells

instance hookRelease (c w : Nat) : Within (Looped Q) (Host.changeLoop (·.hook c (.release w))) :=
  changeLoop fun l => hQ.hook l c rfl

instance hookNotify (c q : Nat) : Within (Looped Q) (Host.changeLoop (·.hook c (.notify q))) :=
  changeLoop fun l => hQ.hook l c rfl

instance newCell : Within (Looped Q) Host.newCell := ⟨fun h => hQ.newCell h.loop⟩

instance newTimer (d : Binary64) : Within (Looped Q) (onLoop (·.newTimer d)) :=
  ⟨fun h => hQ.trans (hQ.newCell h.loop) (hQ.timers _ _)⟩

instance changeSession (s : Nat) (f : Session → Session) :
    Within (Looped Q) (Host.changeSession s f) := ⟨fun _ => of_loop rfl⟩

instance changeLane (l : Nat) (f : Lane → Lane) : Within (Looped Q) (Host.changeLane l f) :=
  ⟨fun _ => of_loop rfl⟩

instance changeChannel (c : Nat) (f : QueryChannel → QueryChannel) :
    Within (Looped Q) (Host.changeChannel c f) := ⟨fun _ => of_loop rfl⟩

instance changeProcess (p : Nat) (f : Process → Process) :
    Within (Looped Q) (Host.changeProcess p f) := ⟨fun _ => of_loop rfl⟩

instance pushProcess (p : Process) :
    Within (Looped Q) (modify fun h => { h with processes := h.processes.push p } : Action Unit) :=
  ⟨fun _ => of_loop rfl⟩

instance pushQuery (q : Query) :
    Within (Looped Q) (modify fun h => { h with queries := h.queries.push q } : Action Unit) :=
  ⟨fun _ => of_loop rfl⟩

instance setRegistry (f : Host → Keyed (String × String) Nat) :
    Within (Looped Q) (modify fun h => { h with registry := f h } : Action Unit) :=
  ⟨fun _ => of_loop rfl⟩

instance setRegistryMetrics (f : Host → Keyed (String × String) Nat) (g : Host → Option Metrics) :
    Within (Looped Q) (modify fun h => { h with registry := f h, metrics := g h } : Action Unit) :=
  ⟨fun _ => of_loop rfl⟩

instance publish (e : Event) : Within (Looped Q) (Host.publish e) := ⟨fun _ => of_loop rfl⟩

instance newSession (kind root : String) (targets : List String) :
    Within (Looped Q) (Host.newSession kind root targets) := by
  refine ⟨fun h => of_loop ?_⟩
  unfold Host.newSession
  rw [after_bind_ok (run_get h)]
  split <;> rfl

/-- A worker does nothing else, whatever is written to it. -/
instance write (p : Nat) (text : List Char) : Within (Looped Q) (Host.write p text) := by
  have (line : String) (a : WorkerAct) : Within (Looped Q) (Host.act p line a) := inferInstance
  have : Within (Looped Q) (Host.hear p text) := inferInstance
  infer_instance

instance submit (l : Nat) (command : String) (state : Json) (reaction : Option Reaction)
    (waiter : Option Nat) : Within (Looped Q) (Host.submit l command state reaction waiter) := by
  have : Within (Looped Q) (Host.writeRaw l command) := inferInstance
  infer_instance

instance setUp (s : Nat) (replay : List Request) : Within (Looped Q) (Host.setUp s replay) := by
  have (command : String) : Within (Looped Q) (Host.writeRaw s command) := inferInstance
  have (r : Request) : Within (Looped Q) (Host.requeue s r) := inferInstance
  infer_instance

instance kill (p : Nat) : Within (Looped Q) (Host.kill p) := by
  have (o : WorkerOutput) : Within (Looped Q) (Host.putOutput p o) := inferInstance
  infer_instance

instance giveUp (s : Nat) (reason : String) (kind : GiveUpKind) :
    Within (Looped Q) (Host.giveUp s reason kind) := by
  have (phase : Phase) : Within (Looped Q) (Host.transition s phase) := inferInstance
  infer_instance

/-- Many are cancelled as one is. -/
theorem cancelAll (hcancel : ∀ c, Within (Looped Q) (Host.changeLoop (·.cancel c)))
    (cells : List Nat) :
    Within (Looped Q) (Host.changeLoop fun l => cells.foldl (fun l c => l.cancel c) l) :=
  foldl (fun l c => (hcancel c).rel_after { loop := l }) cells

section Steps

variable [∀ s, Within (Looped Q) (Host.newTask [.readyEvent s])]
  [∀ host port, Within (Looped Q) (Host.newTask [.connect host port])]
  [∀ q, Within (Looped Q) (Host.newTask [.exchange q])]

instance deliverBy (l : Nat) (body : String) :
    Within (Looped Q) (Host.deliverBy Host.react l body) := by
  have (state : Json) (body : String) (r : Reaction) :
      Within (Looped Q) (Host.react l state body r) := inferInstance
  infer_instance

instance endExchange (q : Nat) (e : Ending) : Within (Looped Q) (Host.endExchange q e) := by
  have (l : Nat) (state : Json) (body : String) (r : Reaction) :
      Within (Looped Q) (Host.react l state body r) := inferInstance
  have (reason : String) : Within (Looped Q) (Host.fallBackAfterFailure q reason) := inferInstance
  infer_instance

theorem resumeWith {f : Frame}
    (hcancel : f.cancels = true → ∀ c, Within (Looped Q) (Host.changeLoop (·.cancel c)))
    (v : Value) : Within (Looped Q) (Host.resumeWith f v) := by
  unfold Host.resumeWith
  split
  all_goals
    first
    | infer_instance
    | have := hcancel rfl
      have := cancelAll this
      infer_instance

/-- The steps of frames, where things may be cancelled and the task may be begun that follows a worker
    that was started. -/
theorem resume {f : Frame} {e : Ending}
    (hcancel : f.cancels = true → ∀ c, Within (Looped Q) (Host.changeLoop (·.cancel c)))
    (hf : ∀ s m replay p, f = .launched s m replay → e = .value (.process p) →
      Within (Looped Q) (Host.newTask [.pump s p])) : Within (Looped Q) (Host.resume f e) := by
  have hlaunched (s : Nat) (m : StartMode) (replay : List Request) (e' : Ending)
      (hp : ∀ p, e' = .value (.process p) → Within (Looped Q) (Host.newTask [.pump s p])) :
      Within (Looped Q) (Host.launched s m replay e') := by
    unfold Host.launched
    split
    · next p =>
      have := hp p rfl
      infer_instance
    · infer_instance
    · infer_instance
  unfold Host.resume
  split
  case h_1 =>
    have := hcancel rfl
    infer_instance
  case h_14 => exact hlaunched _ _ _ _ fun p he => hf _ _ _ p rfl he
  case h_17 => split <;> infer_instance
  case h_18 =>
    split
    · exact resumeWith hcancel _
    · infer_instance
  all_goals infer_instance

end Steps

end Looped

end Host

end GhciHost
