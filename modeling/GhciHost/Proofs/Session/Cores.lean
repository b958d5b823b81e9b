import GhciHost.Proofs.Host.Orderly
import GhciHost.Proofs.Host.Steps

/-!
# What steps do to the cores of sessions

Most actions leave the cores of all sessions alone.  Those that anybody may take at any time are
`Calm`: a session whose worker has started can become ready, and a session can be made, but nothing
else happens to a core.  What the frames of a startup and of a session's end do is told exactly.

* `Calm`   what happens to cores behind the back of a startup;
* `transition_spec`   a session that is asked to go on to a phase;
* `core?_giveUp`, `core?_beginInstall`, `core?_launch` …   the exact steps.
-/

namespace GhciHost.Host

/-- The relation says something of sessions, of the registry and of the events about sessions
    only. -/
class Bound (R : Host → Host → Prop) : Prop where
  of_same : ∀ {h h'}, h'.core? = h.core? → h'.changes = h.changes → h'.registry = h.registry →
    R h h'

instance : Bound (Same core?) := ⟨fun e _ _ => e⟩

instance (R : Host → Host → Prop) [hR : Bound R] : Blind R :=
  ⟨fun e _ => hR.of_same (congrArg View.cores e) (congrArg View.changes e)
    (congrArg View.registry e)⟩

instance (R : Host → Host → Prop) [hR : Bound R] : Tacit R where
  of_spawns _ := hR.of_same rfl rfl rfl
  of_active _ _ := hR.of_same rfl rfl rfl
  of_killed _ := hR.of_same rfl rfl rfl
  of_reader s reader := hR.of_same (congrArg View.cores (view_setReader _ s reader)) rfl rfl

/-! ## Steps that leave cores alone -/

namespace Bound

variable {R : Host → Host → Prop} [hR : Bound R]

/-- A change of anything but sessions, events and the registry. -/
theorem of_modify {g : Host → Host} (hs : ∀ h, (g h).sessions = h.sessions)
    (hj : ∀ h, (g h).journal = h.journal) (hr : ∀ h, (g h).registry = h.registry) :
    Within R (modify g : Action Unit) :=
  Within.of_modify fun h =>
    hR.of_same (by unfold core?; rw [hs]) (by unfold changes; rw [hj]) (hr h)

instance changeLoop (f : Loop Value Failure Frame → Loop Value Failure Frame) :
    Within R (Host.changeLoop f) := of_modify (fun _ => rfl) (fun _ => rfl) fun _ => rfl

instance onLoop (f : Loop Value Failure Frame → β × Loop Value Failure Frame) :
    Within R (Host.onLoop f) := ⟨fun _ => hR.of_same rfl rfl rfl⟩

instance finish (c : Nat) (e : Ending) : Within R (Host.finish c e) := changeLoop _

instance newCell : Within R Host.newCell := onLoop _

instance newTask (fs : List Frame) : Within R (Host.newTask fs) := onLoop _

instance releaseAll (cells : List Nat) : Within R (Host.releaseAll cells) := changeLoop _

instance changeLane (l : Nat) (f : Lane → Lane) : Within R (Host.changeLane l f) :=
  of_modify (fun _ => rfl) (fun _ => rfl) fun _ => rfl

instance changeProcess (p : Nat) (f : Process → Process) : Within R (Host.changeProcess p f) :=
  of_modify (fun _ => rfl) (fun _ => rfl) fun _ => rfl

instance pushProcess (p : Process) :
    Within R (modify fun h => { h with processes := h.processes.push p } : Action Unit) :=
  of_modify (fun _ => rfl) (fun _ => rfl) fun _ => rfl

instance changeChannel (c : Nat) (f : QueryChannel → QueryChannel) :
    Within R (Host.changeChannel c f) := of_modify (fun _ => rfl) (fun _ => rfl) fun _ => rfl

instance pushQuery (q : Query) :
    Within R (modify fun h => { h with queries := h.queries.push q } : Action Unit) :=
  of_modify (fun _ => rfl) (fun _ => rfl) fun _ => rfl

theorem changeSession (s : Nat) {f : Session → Session} (hf : ∀ a, (f a).core = a.core) :
    Within R (Host.changeSession s f) :=
  Within.of_modify fun h => hR.of_same (by
    funext i
    rw [core?_changeSession]
    split
    · simp only [hf]
      rfl
    · rfl) rfl rfl

instance setReadyWaiters (s : Nat) (f : Session → List Nat) :
    Within R (Host.changeSession s fun a => { a with readyWaiters := f a }) :=
  changeSession s fun _ => rfl

/-- Nothing of this is about sessions, whatever a worker does with what is written to it. -/
instance write (p : Nat) (text : List Char) [Std.Refl R] [IsTrans Host R] :
    Within R (Host.write p text) := by
  have (line : String) (a : WorkerAct) : Within R (Host.act p line a) := inferInstance
  have : Within R (Host.hear p text) := inferInstance
  infer_instance

instance submit (l : Nat) (command : String) (state : Json) (reaction : Option Reaction)
    (waiter : Option Nat) [Std.Refl R] [IsTrans Host R] :
    Within R (Host.submit l command state reaction waiter) := by
  have : Within R (Host.writeRaw l command) := inferInstance
  infer_instance

instance setUp (s : Nat) (replay : List Request) [Std.Refl R] [IsTrans Host R] :
    Within R (Host.setUp s replay) := by
  have (command : String) : Within R (Host.writeRaw s command) := inferInstance
  have (r : Request) : Within R (Host.requeue s r) := inferInstance
  infer_instance

/-! Responses are about sessions where they make one ready. -/

section Responses

variable [Std.Refl R] [IsTrans Host R]
variable [hready : ∀ s p mode body, Within R (Host.becomeReady s p mode body)]

instance deliverBy (l : Nat) (body : String) : Within R (Host.deliverBy Host.react l body) := by
  have (state : Json) (body : String) (r : Reaction) : Within R (Host.react l state body r) :=
    inferInstance
  infer_instance

instance endExchange (q : Nat) (e : Ending) : Within R (Host.endExchange q e) := by
  have (l : Nat) (state : Json) (body : String) (r : Reaction) :
      Within R (Host.react l state body r) := inferInstance
  have (reason : String) : Within R (Host.fallBackAfterFailure q reason) := inferInstance
  infer_instance

end Responses

end Bound

/-! ## Changes of one core -/

/-- What is known of sessions, after a change of one. -/
def bump (s : Nat) (f : β → β) (cores : Nat → Option β) : Nat → Option β :=
  fun i => if i = s then (cores i).map f else cores i

theorem bump_self {s : Nat} {f : β → β} {cores : Nat → Option β} {a : β} (h : cores s = some a) :
    bump s f cores s = some (f a) := by
  simp [bump, h]

theorem bump_of_ne {s i : Nat} {f : β → β} {cores : Nat → Option β} (h : i ≠ s) :
    bump s f cores i = cores i := by
  simp [bump, h]

theorem bump_eq_some {s i : Nat} {f : β → β} {cores : Nat → Option β} {b : β}
    (h : bump s f cores i = some b) :
    (i = s ∧ ∃ a, cores s = some a ∧ b = f a) ∨ i ≠ s ∧ cores i = some b := by
  by_cases hi : i = s
  · subst hi
    rw [bump, if_pos rfl] at h
    obtain ⟨a, ha, rfl⟩ := Option.map_eq_some_iff.1 h
    exact .inl ⟨rfl, a, ha, rfl⟩
  · rw [bump_of_ne hi] at h
    exact .inr ⟨hi, h⟩

theorem bump_congr {s : Nat} {f g : β → β} {cores : Nat → Option β}
    (h : ∀ a, cores s = some a → f a = g a) : bump s f cores = bump s g cores := by
  funext i
  unfold bump
  split
  · next hi =>
    subst hi
    cases ha : cores i with
    | none => rfl
    | some a => exact congrArg some (h a ha)
  · rfl

theorem bump_bump (s : Nat) (f g : β → β) (cores : Nat → Option β) :
    bump s g (bump s f cores) = bump s (fun a => g (f a)) cores := by
  funext i
  simp only [bump]
  split
  · rw [Option.map_map]
    rfl
  · rfl

theorem bump_id (s : Nat) (cores : Nat → Option β) : bump s id cores = cores := by
  funext i
  simp [bump]

theorem isSome_bump {s : Nat} {f : β → β} {cores : Nat → Option β} (i : Nat) :
    (bump s f cores i).isSome = (cores i).isSome := by
  unfold bump
  split
  · exact Option.isSome_map
  · rfl

theorem core?_bump (h : Host) (s : Nat) {f : Session → Session}
    {g : Session.Core → Session.Core} (hf : ∀ a, (f a).core = g a.core) :
    core? (after (changeSession s f) h) = bump s g h.core? := by
  funext i
  have e : core? (after (changeSession s f) h) i = _ := core?_changeSession h s i f
  rw [e]
  unfold bump core?
  by_cases hi : s = i
  · subst hi
    rw [if_pos rfl, if_pos rfl, Option.map_map]
    congr 1
    exact funext hf
  · rw [if_neg hi, if_neg (Ne.symm hi)]

theorem core?_eq {h : Host} {s : Nat} {a : Session.Core} (e : h.core? s = some a) :
    (h.sessionOf s).core = a := by
  unfold core? at e
  unfold sessionOf
  cases hs : h.sessions.get? s with
  | none => rw [hs] at e; cases e
  | some b => rw [hs] at e; exact Option.some.inj e

/-- The phase of the session of a number. -/
theorem phase_eq {h : Host} {s : Nat} {a : Session.Core} (e : h.core? s = some a) :
    (h.sessionOf s).phase = a.phase := congrArg Session.Core.phase (core?_eq e)

theorem destroyed_eq {h : Host} {s : Nat} {a : Session.Core} (e : h.core? s = some a) :
    (h.sessionOf s).destroyed = a.destroyed := congrArg Session.Core.destroyed (core?_eq e)

theorem process_eq {h : Host} {s : Nat} {a : Session.Core} (e : h.core? s = some a) :
    (h.sessionOf s).process = a.process := congrArg Session.Core.process (core?_eq e)

/-! ## Phases -/

/-- The event that tells of a change of phase. -/
def changed (key : String) (before after : State) : Event :=
  ⟨.sessionStateChanged, key, [("previous", .str before.name), ("state", .str after.name)]⟩

/-- A session goes on to a phase that may follow its own, and tells of it; any other phase is
    refused, and nothing happens. -/
theorem transition_spec (s : Nat) (phase : Phase) (h : Host) :
    ((h.sessionOf s).phase.allows phase = true ∧ ∃ h', (transition s phase).run h = .ok () h' ∧
        h'.core? = bump s (fun a => { a with phase }) h.core? ∧
        h'.changes = h.changes ++
          [changed (h.sessionOf s).key (h.sessionOf s).phase.state phase.state]) ∨
      ((h.sessionOf s).phase.allows phase = false ∧ (transition s phase).run h =
        .error (.illegalTransition (h.sessionOf s).key (h.sessionOf s).phase.state phase.state) h) := by
  unfold transition
  rw [run_bind_ok (run_session s h)]
  cases hp : (h.sessionOf s).phase.allows phase with
  | false => exact .inr ⟨rfl, rfl⟩
  | true =>
    refine .inl ⟨rfl, ?_⟩
    dsimp only
    rw [if_neg (by simp), run_bind_ok (Succeeds.run_unit ..)]
    have hcore : core? (after (changeSession s fun session =>
        { session with phase, ready := phase.state.settled }) h) =
        bump s (fun a => { a with phase }) h.core? := core?_bump h s fun _ => rfl
    have hchanges (k : Host) (e : Event) (he : e.kind = .sessionStateChanged) :
        changes (after (publish e) k) = k.changes ++ [e] := by
      show (k.journal.events ++ [e]).filter _ = _
      rw [List.filter_append]
      simp [changes, he]
    have hpublish (e : Event) : Within (Same core?) (publish e) := ⟨fun _ => rfl⟩
    split
    -- Those who wait get to know.
    · rw [run_bind_ok (Succeeds.run_unit ..), run_bind_ok (Succeeds.run_unit ..)]
      refine ⟨_, Succeeds.run_unit .., ?_, hchanges _ _ rfl⟩
      rw [← hcore]
      have hwait : Within (Same core?) (changeSession s fun session =>
          { session with readyWaiters := [] }) := inferInstance
      have hrelease := Within.rel_after (R := Same core?)
        (a := releaseAll (h.sessionOf s).readyWaiters)
      exact (Within.rel_after (R := Same core?) _).trans
        ((hrelease _).trans (hwait.rel_after _))
    · refine ⟨_, Succeeds.run_unit .., ?_, hchanges _ _ rfl⟩
      rw [← hcore]
      exact Within.rel_after (R := Same core?) _

theorem run_transition {s : Nat} (phase : Phase) {h : Host}
    (hok : (h.sessionOf s).phase.allows phase = true) :
    ∃ h', (transition s phase).run h = .ok () h' ∧
      h'.core? = bump s (fun a => { a with phase }) h.core? := by
  rcases transition_spec s phase h with ⟨-, h', e, hc, -⟩ | ⟨hno, -⟩
  · exact ⟨h', e, hc⟩
  · rw [hok] at hno
    cases hno

/-! ## What happens behind the back of a startup -/

/-- Sessions became ready at most, and were made. -/
structure Calm (h h' : Host) : Prop where
  old : ∀ s a, h.core? s = some a → ∃ b, h'.core? s = some b ∧ a.Calm b
  new : ∀ s b, h'.core? s = some b → h.core? s = none → ∃ key, b = .new key

theorem Calm.of_core? {h h' : Host} (e : h'.core? = h.core?) : Calm h h' where
  old s a ha := ⟨a, by rw [e, ha], .refl a⟩
  new s b hb ha := by rw [e, ha] at hb; cases hb

instance : Std.Refl Calm := ⟨fun _ => .of_core? rfl⟩

instance : IsTrans Host Calm where
  trans h₁ h₂ h₃ h k := by
    refine ⟨fun s a ha => ?_, fun s c hc ha => ?_⟩
    · obtain ⟨b, hb, hab⟩ := h.old s a ha
      obtain ⟨c, hc, hbc⟩ := k.old s b hb
      exact ⟨c, hc, hab.trans hbc⟩
    · cases hb : h₂.core? s with
      | none => exact k.new s c hc hb
      | some b =>
        obtain ⟨key, rfl⟩ := h.new s b hb ha
        obtain ⟨c', hc', hbc⟩ := k.old s _ hb
        rw [hc] at hc'
        cases hc'
        rcases hbc with rfl | ⟨m, -, -, -, hm, -, -⟩
        · exact ⟨key, rfl⟩
        · cases hm

instance : Bound Calm := ⟨fun e _ _ => .of_core? e⟩

namespace Calm

instance newSession (kind root : String) (targets : List String) :
    Within Calm (Host.newSession kind root targets) :=
  ⟨fun h => by
    rcases newSession_spec kind root targets h with ⟨f, h', e, rfl⟩ | ⟨key, h', e, hv⟩
    · rw [after_of_error e]
      exact Std.Refl.refl _
    · have hc : h'.core? = fun s =>
          if s = h.sessions.size then some (.new key) else h.core? s := congrArg View.cores hv
      have hfresh : h.core? h.sessions.size = none := by
        unfold core?
        rw [Table.get?_eq_none (Nat.le_refl _)]
        rfl
      rw [after_of_ok e]
      refine ⟨fun s a ha => ?_, fun s b hb ha => ?_⟩
      · have hs : s ≠ h.sessions.size := fun hs => by
          rw [hs, hfresh] at ha
          cases ha
        exact ⟨a, by rw [hc]; exact (if_neg hs).trans ha, .refl a⟩
      · rw [hc] at hb
        dsimp only at hb
        split at hb
        · cases hb
          exact ⟨key, rfl⟩
        · rw [ha] at hb
          cases hb⟩

/-- A session becomes ready only while its worker starts, and by the output of this worker. -/
instance becomeReady (s p : Nat) (mode : StartMode) (body : String) :
    Within Calm (Host.becomeReady s p mode body) :=
  ⟨fun h => by
    unfold Host.becomeReady
    rw [after_bind_ok (run_session s h)]
    split
    · next m hm =>
      split
      · next hp =>
        split
        · exact Std.Refl.refl _
        · next port rest _ =>
          dsimp only
          refine Within.rel_after_bind (Within.rel_after h) fun _ h₁ e₁ => ?_
          refine Within.rel_after_bind (Within.rel_after h₁) fun _ h₂ e₂ => ?_
          have hc₁ : h₁.core? = h.core? := by
            rw [← after_of_ok e₁]
            exact Within.rel_after (R := Same core?) h
          have hc₂ : h₂.core? = h.core? := by
            rw [← after_of_ok e₂, ← hc₁]
            exact Within.rel_after (R := Same core?) h₁
          refine Within.rel_after_bind ?_ fun _ h₃ _ => Within.rel_after h₃
          rcases transition_spec s (.ready mode (port.map Int.ofNat)) h₂ with
            ⟨-, h₃, e₃, hc₃, -⟩ | ⟨-, e₃⟩
          · rw [after_of_ok e₃]
            refine ⟨fun i a ha => ?_, fun i b hb ha => ?_⟩
            · by_cases hi : i = s
              · subst hi
                rw [hc₂] at ha
                rw [phase_eq ha] at hm
                rw [process_eq ha] at hp
                exact ⟨_, by rw [hc₃, hc₂, bump_self ha], .inr ⟨m, _, _, p, hm, hp, rfl⟩⟩
              · exact ⟨a, by rw [hc₃, bump_of_ne hi, ha], .refl a⟩
            · have : (h₃.core? i).isSome = (h₂.core? i).isSome := by rw [hc₃, isSome_bump]
              rw [hb, ha] at this
              cases this
          · rw [after_of_error e₃]
            exact Std.Refl.refl _
      · exact Std.Refl.refl _
    · exact Std.Refl.refl _⟩

end Calm

/-! ## The registry -/

/-- The sessions in use are sessions that there are. -/
def Listed (h : Host) : Prop := ∀ s ∈ h.registry.values, (h.core? s).isSome

/-- No session goes away, and those in use stay among those that there are. -/
structure Listing (h h' : Host) : Prop where
  known : ∀ s, (h.core? s).isSome → (h'.core? s).isSome
  listed : h.Listed → h'.Listed

/-- The registry grows by sessions that there are at most. -/
theorem Listing.of_values {h h' : Host} (known : ∀ s, (h.core? s).isSome → (h'.core? s).isSome)
    (hv : ∀ s ∈ h'.registry.values, s ∈ h.registry.values ∨ (h'.core? s).isSome) :
    Listing h h' :=
  ⟨known, fun hl s hs => (hv s hs).elim (fun hs => known s (hl s hs)) fun hs => hs⟩

instance : Std.Refl Listing := ⟨fun _ => ⟨fun _ h => h, fun h => h⟩⟩

instance : IsTrans Host Listing :=
  ⟨fun _ _ _ h k => ⟨fun s hs => k.known s (h.known s hs), fun hl => k.listed (h.listed hl)⟩⟩

instance : Bound Listing :=
  ⟨fun hc _ hr => .of_values (fun s hs => by rwa [hc]) fun s hs => .inl (by rwa [hr] at hs)⟩

namespace Listing

instance changeSession (s : Nat) (f : Session → Session) :
    Within Listing (Host.changeSession s f) :=
  Within.of_modify fun h => .of_values (fun i hi => by
    rw [core?_changeSession]
    split
    · simpa [core?] using hi
    · exact hi) fun _ hi => .inl hi

instance publish (e : Event) : Within Listing (Host.publish e) :=
  ⟨fun _ => .of_values (fun _ hi => hi) fun _ hi => .inl hi⟩

theorem of_newSession {h h' : Host} {key : String} (hv : h'.view = { h.view with
      cores := fun s => if s = h.sessions.size then some (.new key) else h.core? s }) :
    Listing h h' ∧ (h'.core? h.sessions.size).isSome := by
  have hc : h'.core? = fun s => if s = h.sessions.size then some (.new key) else h.core? s :=
    congrArg View.cores hv
  have hr : h'.registry = h.registry := congrArg View.registry hv
  refine ⟨.of_values (fun s hs => ?_) fun s hs => .inl (by rwa [hr] at hs), by rw [hc]; simp⟩
  rw [hc]
  dsimp only
  split
  · rfl
  · exact hs

instance getOrCreate (root kind : String) (targets : Option (List String)) :
    Within Listing (Host.getOrCreate root kind targets) :=
  ⟨fun h => by
    unfold Host.getOrCreate
    rw [after_bind_ok (run_get h)]
    split
    · exact Std.Refl.refl _
    · exact Std.Refl.refl _
    · dsimp only
      split
      · exact Std.Refl.refl _
      -- the session that is put is the one that was made
      · rcases newSession_spec kind (Pathname.renderAbsolute _) (targets.getD []) h with
          ⟨f, h', e, rfl⟩ | ⟨key, h', e, hv⟩
        · rw [after_bind, e]
          exact Std.Refl.refl _
        · obtain ⟨hl, hs⟩ := of_newSession hv
          rw [after_bind_ok e, after_bind_ok (run_session _ h')]
          refine trans_of Listing hl (Within.rel_after_bind ?_ fun _ k _ => Within.rel_after k)
          refine .of_values (fun _ hi => hi) fun s hi => ?_
          rcases Keyed.mem_values_put hi with rfl | hi
          · exact .inr hs
          · exact .inl hi⟩

instance destroy (root kind : String) : Within Listing (Host.destroy root kind) := by
  have (f : Host → String × String) : Within Listing (modify fun h =>
      { h with registry := h.registry.erase (f h) } : Action Unit) :=
    Within.of_modify fun _ => .of_values (fun _ hi => hi) fun _ hi => .inl (Keyed.mem_values_erase hi)
  unfold Host.destroy
  refine @Within.bind _ _ _ _ _ _ _ fun path => ?_
  refine @Within.bind _ _ _ _ _ _ _ fun h => ?_
  split
  · infer_instance
  · have := this fun _ => (kind, path)
    infer_instance

instance cleanup : Within Listing Host.cleanup := by
  have : Within Listing (modify fun h => { h with registry := {} } : Action Unit) :=
    Within.of_modify fun _ => .of_values (fun _ hi => hi) fun _ hi => by cases hi
  unfold Host.cleanup
  infer_instance

instance transition (s : Nat) (phase : Phase) : Within Listing (Host.transition s phase) :=
  inferInstance

instance becomeReady (s p : Nat) (mode : StartMode) (body : String) :
    Within Listing (Host.becomeReady s p mode body) := inferInstance

instance resumeWith (f : Frame) (v : Value) : Within Listing (Host.resumeWith f v) := by
  unfold Host.resumeWith
  split <;> infer_instance

instance resume (f : Frame) (e : Ending) : Within Listing (Host.resume f e) := by
  unfold Host.resume
  split
  case h_17 | h_18 => split <;> infer_instance
  all_goals infer_instance

end Listing

/-! ## Ordinary frames -/

section

variable {P : Next → Prop} [Next.Lenient P]

theorem Orderly.resumeWith {f : Frame} (hf : f.isOrdinary = true) (hfollow : f.follows? = none)
    (v : Value) : Orderly P (Host.resumeWith f v) := by
  have (s : Nat) (text : String) : Orderly P (do
      return Next.done (.diagnostics (← Host.diagnostics s text))) := inferInstance
  unfold Host.resumeWith
  split
  case h_37 => exact .call _ rfl
  all_goals first
    | infer_instance
    | (cases hf; done)
    | cases hfollow

/-- Whatever an ordinary frame does that follows no worker. -/
theorem Orderly.resume {f : Frame} (hf : f.isOrdinary = true) (hfollow : f.follows? = none)
    (e : Ending) : Orderly P (Host.resume f e) := by
  unfold Host.resume
  split
  case h_17 => split <;> infer_instance
  case h_18 =>
    split
    · exact Orderly.resumeWith hf hfollow _
    · infer_instance
  all_goals first
    | infer_instance
    | (cases hf; done)
    | cases hfollow

end

/-- Whatever an ordinary frame does. -/
theorem Orderly.resume_easy {f : Frame} (hf : f.isOrdinary = true) (e : Ending) :
    Orderly Next.Easy (Host.resume f e) := by
  cases hfollow : f.follows? with
  | none => exact Orderly.resume hf hfollow e
  | some x =>
    cases f with
    | pumped s p => exact Orderly.pumped s p e
    | pump s p =>
      cases e with
      | value v => exact Orderly.pure rfl
      | _ => exact Orderly.pass _
    | pumpEnd => cases hf
    | _ => cases hfollow

theorem Calm.resumeWith {f : Frame} (hf : f.isOrdinary = true) (v : Value) :
    Within Calm (Host.resumeWith f v) := by
  unfold Host.resumeWith
  split
  all_goals first
    | infer_instance
    | cases hf

theorem Calm.resume {f : Frame} (hf : f.isOrdinary = true) (e : Ending) :
    Within Calm (Host.resume f e) := by
  unfold Host.resume
  split
  case h_17 => split <;> infer_instance
  case h_18 =>
    split
    · exact Calm.resumeWith hf _
    · infer_instance
  all_goals first
    | infer_instance
    | cases hf

end GhciHost.Host
