import GhciHost.Proofs.Host.Ends
import GhciHost.Proofs.Session.Cores

/-!
# What the frames of a startup and of a session's end do

Each of these frames supposes something of the session that it is about (`Fits`).  If that holds,
its step is one of those that `Course` lists: it says how the task goes on, and what becomes of the
sessions' cores.  In particular no step asks a session for a phase that may not follow its own.

* `Fits`   what a frame supposes;
* `Course`   what comes of a step;
* `startBody_comes` … `cleanupRest_comes`   one lemma for each frame;
* `workerExited_spec`   what comes of the end of a worker;
* `course`   the steps of all frames that are not ordinary, but for those that queue for a turn.
-/

namespace GhciHost

/-- Whether a session has a worker in a phase. -/
def Phase.hasWorker : Phase → Bool
  | starting _ | ready .. => true
  | _ => false

/-- A worker can be started in a mode. -/
structure Session.Core.Launchable (a : Session.Core) (m : StartMode) : Prop where
  alive : a.destroyed = false
  process : a.process = none
  allows : a.phase.allows (.starting m) = true
  mode : m = .withBuild ↔ a.phase.state = .restarting

namespace Host

/-- The cores of all sessions. -/
abbrev Cores := Nat → Option Session.Core

/-- What a frame supposes of the sessions that it is about. -/
structure Fits (cores : Cores) (f : Frame) : Prop where
  startup : ∀ s, f.startup? = some s → (cores s).isSome
  early : ∀ s, f.early? = some s →
    ∃ a, cores s = some a ∧ (a.destroyed = true ∨ a.phase = .absent)
  stage : ∀ s phase, f.stage? = some (s, phase) →
    ∃ a, cores s = some a ∧ (a.destroyed = true ∨ a.phase = phase ∧ a.process = none)
  launch : ∀ s m, f.launches? = some (s, m) → ∃ a, cores s = some a ∧ a.Launchable m
  tears : ∀ s ∈ f.tears, (cores s).isSome
  gone : ∀ s, f.gone? = some s → ∃ a, cores s = some a ∧ a.destroyed = true

/-- Only sessions that have a worker have a process, until they are destroyed. -/
def Manned (cores : Cores) : Prop :=
  ∀ s a, cores s = some a → a.process.isSome → a.phase.hasWorker = true ∧ a.destroyed = false

/-- What a frame is told when the worker of a session can be started. -/
inductive Permits (s : Nat) : Frame → Ending → Prop
  | found : Permits s (.gotStatus s) (.value (.status .installed))
  | installed (transcript : String) : Permits s (.gotInstall s) (.value (.text transcript))

/-- A frame that is told so takes part in the startup. -/
theorem Permits.kinds {s : Nat} {f : Frame} {e : Ending} (h : Permits s f e) :
    (f.early? = some s ∨ f.stage?.map (·.1) = some s) ∧ f.startup? = some s := by
  cases h with
  | found => exact ⟨.inl rfl, rfl⟩
  | installed => exact ⟨.inr rfl, rfl⟩

/-- What comes of a step of a frame that is told how something ended: how the task goes on, and the
    cores then. -/
inductive Course (h : Host) (e : Ending) : Frame → Next → Cores → Prop
  /-- Nothing happens to sessions. -/
  | pass {f : Frame} {e' : Ending} : f.ends? = none → f.turn? = none →
      (f.isFind = true → ∀ s, e' = .value (.session s) → (h.core? s).isSome) →
      Course h e f (.pass e') h.core?
  /-- A session is made. -/
  | make {f : Frame} {s : Nat} {key : String} : f.isFind = true → h.core? s = none →
      Course h e f (.done (.session s))
        (fun i => if i = s then some (.new key) else h.core? i)
  /-- A session is about to be destroyed, or its destruction goes on. -/
  | route {f : Frame} {n : Next} : f.isAside = true → f.isFind = false →
      (∀ g ∈ n.push, g.isAside = true ∧ g.expects? = none ∧ g.follows? = none ∧ Fits h.core? g ∧
        (∀ i ∈ g.tears, i ∈ f.tears ∨ f.isDrop = true) ∧ (g.gone?.isSome → g.gone? = f.gone?)) →
      Course h e f n h.core?
  /-- The next question before the worker is started. -/
  | ask {f g : Frame} {gs : List Frame} {s : Nat} {a : Session.Core} : f.startup? = some s →
      h.core? s = some a → (a.destroyed = true ∨ a.phase = .absent) → gentle gs = true →
      g.early? = some s → Course h e f (.call (gs ++ [g])) h.core?
  /-- The worker is about to be installed. -/
  | install {gs : List Frame} {s : Nat} {a : Session.Core} : h.core? s = some a →
      a.destroyed = false → a.phase = .absent → gentle gs = true →
      h.settings.autoInstall = true →
      Course h e (.gotStatus s) (.call (gs ++ [.gotInstall s]))
        (bump s (fun a => { a with phase := .installing }) h.core?)
  /-- The session gives up before it has a worker. -/
  | giveUp {f : Frame} {s : Nat} {a : Session.Core} (reason transcript : String)
      (kind : GiveUpKind) : (f.early? = some s ∨ f.stage?.map (·.1) = some s) →
      h.core? s = some a → a.destroyed = false → a.process = none →
      Course h e f (.done .unit)
        (bump s (fun a => { a with phase := .givenUp reason transcript kind }) h.core?)
  /-- The worker is about to be started. -/
  | proceed {f : Frame} {s : Nat} {a : Session.Core} : Permits s f e → h.core? s = some a → a.Launchable .fast → Course h e f (.call [.launch s .fast []]) h.core?
  | launch {s : Nat} {m : StartMode} {replay : List Request} {script : SpawnScript} {n : Next} :
      n.push = [.spawnEnd script, .launched s m replay] →
      Course h e (.launch s m replay) n
        (bump s (fun a => { a with phase := .starting m }) h.core?)
  /-- The worker has started. -/
  | adopt {s p : Nat} {m : StartMode} {replay : List Request} {a : Session.Core} {e' : Ending} :
      e = .value (.process p) → h.core? s = some a → a.destroyed = false →
      Course h e (.launched s m replay) (.pass e')
        (bump s (fun a => { a with process := some p }) h.core?)
  /-- The worker has ended, and one more is about to be started. -/
  | escalate {s p : Nat} {code : Int} {replay : List Request} {a : Session.Core} :
      e = .value (.code code) → h.core? s = some a → a.destroyed = false → a.process = some p →
      a.phase.mode? = some .fast → (h.sessionOf s).dependencyMissing = true →
      (∀ r ∈ replay, r ∈ h.queueOf s ∧ r.internal = false) →
      Course h e (.pumpEnd s p) (.call [.launch s .withBuild replay])
        (bump s (fun a => { a with
          process := none, phase := .restarting .withBuild escalationReason }) h.core?)
  /-- The worker has ended, and the session gives up. -/
  | die {s p : Nat} {a : Session.Core} (reason transcript : String) (kind : GiveUpKind) :
      h.core? s = some a → a.destroyed = false → a.process = some p →
      Course h e (.pumpEnd s p) (.done .unit)
        (bump s (fun a => { a with
          process := none, phase := .givenUp reason transcript kind }) h.core?)
  /-- The session is being destroyed. -/
  | tear {s : Nat} {p : Option Nat} {n : Next} : n.push = [.readerGone s p] →
      Course h e (.teardown s) n
        (bump s (fun a => { a with destroyed := true, process := none }) h.core?)
  /-- The session is destroyed. -/
  | clear {s : Nat} : Course h e (.queriesGone s) (.done .unit)
        (bump s (fun a => { a with phase := .absent }) h.core?)

/-! ## Following a step -/

namespace Comes

variable {α : Type} {h : Host} {Q : Next → Host → Prop}

theorem done {n : Next} (hQ : Q n h) : Comes (pure n) h Q := hQ

/-- Something is read. -/
theorem read {a : Action α} {v : α} {f : α → Action Next} (e : a.run h = .ok v h)
    (hf : Comes (f v) h Q) : Comes (a >>= f) h Q :=
  Ends.bind (Ends.of_run e hf)

/-- Something that is not about sessions cannot fail. -/
theorem quiet {a : Action α} [Succeeds a] [Within (Same core?) a] {f : α → Action Next}
    (hf : ∀ v h', h'.core? = h.core? → Comes (f v) h' Q) : Comes (a >>= f) h Q :=
  Ends.bind (.of_succeeds (Same core?) hf)

/-- Something is done that cannot fail. -/
theorem run {a : Action Unit} [Succeeds a] {f : Unit → Action Next}
    (hf : Comes (f ()) (after a h) Q) : Comes (a >>= f) h Q :=
  Ends.bind (Ends.of_run (Succeeds.run_unit ..) hf)

/-- Something that is not about sessions can fail. -/
theorem risky {a : Action α} [Lawful a] [Within (Same core?) a] {f : α → Action Next}
    (hf : ∀ v h', h'.core? = h.core? → Comes (f v) h' Q)
    (he : ∀ x h', h'.core? = h.core? → Q (.pass (.failed x)) h') : Comes (a >>= f) h Q :=
  Ends.bind (.of_lawful (Same core?) hf fun x h' hx e => ⟨hx, he x h' e⟩)

/-- A session goes on to a phase that may follow its own. -/
theorem transition {s : Nat} {phase : Phase} {f : Unit → Action Next}
    (hok : (h.sessionOf s).phase.allows phase = true)
    (hf : ∀ h', h'.core? = bump s (fun a => { a with phase }) h.core? → Comes (f ()) h' Q) :
    Comes (Host.transition s phase >>= f) h Q := by
  obtain ⟨h', e, hc⟩ := run_transition _ hok
  exact Ends.bind (Ends.of_run e (hf h' hc))

/-- A session is changed. -/
theorem changeSession (s : Nat) {g : Session → Session} (g' : Session.Core → Session.Core)
    (hg : ∀ a, (g a).core = g' a.core) {f : Unit → Action Next}
    (hf : ∀ h', h'.core? = bump s g' h.core? → Comes (f ()) h' Q) :
    Comes (Host.changeSession s g >>= f) h Q :=
  Ends.bind (Ends.of_run (Succeeds.run_unit ..) (hf _ (core?_bump h s hg)))

/-- A session gives up from a phase from which it may. -/
theorem giveUp {s : Nat} {reason : String} {kind : GiveUpKind} {f : Unit → Action Next}
    (hok : ∀ transcript, (h.sessionOf s).phase.allows (.givenUp reason transcript kind) = true)
    (hf : ∀ transcript h', h'.core? =
      bump s (fun a => { a with phase := .givenUp reason transcript kind }) h.core? →
      Comes (f ()) h' Q) : Comes (Host.giveUp s reason kind >>= f) h Q := by
  unfold Host.giveUp
  simp only [bind_assoc]
  refine read (run_session s h) (transition (hok _) fun h₁ e₁ => ?_)
  refine quiet fun _ h₂ e₂ => quiet fun _ h₃ e₃ => ?_
  exact hf _ h₃ (by rw [e₃, e₂, e₁])

end Comes

/-- Settings are not touched by a session that goes on to a phase. -/
theorem settings_transition (s : Nat) (phase : Phase) (h : Host) :
    (after (transition s phase) h).settings = h.settings := by
  have (f : Session → Session) : Within (Same Host.settings) (changeSession s f) := ⟨fun _ => rfl⟩
  have (cells : List Nat) : Within (Same Host.settings) (releaseAll cells) := ⟨fun _ => rfl⟩
  have (e : Event) : Within (Same Host.settings) (publish e) := ⟨fun _ => rfl⟩
  exact Within.rel_after (R := Same Host.settings) h

theorem core?_of_fits {h : Host} {f : Frame} {s : Nat} (hf : Fits h.core? f)
    (hs : f.startup? = some s) : ∃ a, h.core? s = some a :=
  Option.isSome_iff_exists.1 (hf.startup s hs)

/-- What is read of a session that there is. -/
theorem sessionOf_eq {h h' : Host} {s : Nat} {a : Session.Core} (ha : h.core? s = some a)
    (e : h'.core? = h.core?) : (h'.sessionOf s).core = a :=
  core?_eq (by rw [e, ha])

/-! ## The steps before the worker is started -/

section Startup

variable {h : Host} {s : Nat}

/-- The task goes on below a frame that takes no turn and finds no session. -/
theorem Course.stays {e : Ending} {f : Frame} (e' : Ending) (hends : f.ends? = none)
    (hturn : f.turn? = none) (hfind : f.isFind = false) : Course h e f (.pass e') h.core? :=
  .pass hends hturn fun hf => by rw [hfind] at hf; cases hf

theorem startBody_comes {e : Ending} (hf : Fits h.core? (.startBody s)) :
    Comes (startBody s) h fun n h' => Course h e (.startBody s) n h'.core? := by
  obtain ⟨a, ha⟩ := core?_of_fits hf rfl
  unfold startBody checkWorker
  refine Comes.read (run_session s h) ?_
  split
  · exact Comes.done (.stays _ rfl rfl rfl)
  · next hcond =>
    have habsent : a.phase = .absent := by
      rw [phase_eq ha] at hcond
      exact Classical.byContradiction fun hne => hcond (.inl hne)
    split
    · exact Comes.read (run_get h) (Comes.done (Course.ask rfl ha (.inr habsent) rfl rfl))
    · exact Comes.read (run_get h) (Comes.read (run_session s h)
        (Comes.done (Course.ask rfl ha (.inr habsent) rfl rfl)))

theorem checkWorker_comes {e : Ending} (hf : Fits h.core? (.checkWorker s)) :
    Comes (checkWorker s) h fun n h' => Course h e (.checkWorker s) n h'.core? := by
  obtain ⟨a, ha, hearly⟩ := hf.early s rfl
  exact Comes.read (run_get h) (Comes.read (run_session s h)
    (Comes.done (Course.ask rfl ha hearly rfl rfl)))

theorem gotVersion_comes {e : Ending} (hf : Fits h.core? (.gotVersion s)) (v : Option String) :
    Comes (gotVersion s v) h fun n h' => Course h e (.gotVersion s) n h'.core? := by
  obtain ⟨a, ha, hearly⟩ := hf.early s rfl
  unfold gotVersion
  refine Comes.quiet fun _ h' e => ?_
  refine Comes.read (run_get h') (Comes.read (run_session s h') (Comes.done ?_))
  rw [e]
  exact .ask rfl ha hearly rfl rfl

theorem gotExtensions_comes {e : Ending} (hf : Fits h.core? (.gotExtensions s)) (names : List String) :
    Comes (gotExtensions s names) h fun n h' => Course h e (.gotExtensions s) n h'.core? := by
  obtain ⟨a, ha, hearly⟩ := hf.early s rfl
  unfold gotExtensions checkWorker
  refine Comes.quiet fun _ h' e => Comes.read (run_session s h') ?_
  split
  · exact Comes.done (e ▸ .stays _ rfl rfl rfl)
  · refine Comes.read (run_get h') (Comes.read (run_session s h') (Comes.done ?_))
    rw [e]
    exact .ask rfl ha hearly rfl rfl

/-- A session that is absent and not destroyed has no worker yet, and can have one. -/
theorem launchable_of_absent {cores : Cores} {a : Session.Core} (hp : Manned cores)
    (ha : cores s = some a) (hd : a.destroyed = false) (hphase : a.phase = .absent) :
    a.process = none ∧ a.Launchable .fast := by
  have hproc : a.process = none := by
    cases hs : a.process with
    | none => rfl
    | some p =>
      have := (hp s a ha (by rw [hs]; rfl)).1
      rw [hphase] at this
      cases this
  exact ⟨hproc, hd, hproc, by rw [hphase]; rfl, by rw [hphase]; decide⟩

theorem gotStatus_comes (hp : Manned h.core?) (hf : Fits h.core? (.gotStatus s))
    (status : InstallStatus) :
    Comes (gotStatus s status) h
      fun n h' => Course h (.value (.status status)) (.gotStatus s) n h'.core? := by
  obtain ⟨a, ha, hearly⟩ := hf.early s rfl
  unfold gotStatus
  refine Comes.read (run_session s h) ?_
  rw [destroyed_eq ha]
  split
  · exact Comes.done (.stays _ rfl rfl rfl)
  · next hd =>
    have hd : a.destroyed = false := by simpa using hd
    have hphase : a.phase = .absent := hearly.resolve_left (by simp [hd])
    obtain ⟨hproc, hlaunch⟩ := launchable_of_absent hp ha hd hphase
    split
    · next hs => exact Comes.done (.proceed (hs ▸ .found) ha hlaunch)
    · unfold beginInstall
      obtain ⟨h₁, hrun, e₁⟩ := run_transition (s := s) .installing (h := h)
        (by rw [phase_eq ha, hphase]; rfl)
      have hsettings : h₁.settings = h.settings := by
        rw [← after_of_ok hrun]
        exact settings_transition s _ h
      refine Ends.bind (Ends.of_run hrun ?_)
      have ha₁ : h₁.core? s = some { a with phase := .installing } := by rw [e₁, bump_self ha]
      refine Comes.read (run_get h₁) (Comes.read (run_session s h₁) ?_)
      split
      -- The worker may not be installed.
      · refine Comes.giveUp (fun _ => by rw [phase_eq ha₁]; rfl) fun transcript h₂ e₂ => ?_
        refine Comes.done ?_
        rw [e₂, e₁, bump_bump]
        exact .giveUp _ transcript _ (.inl rfl) ha hd hproc
      · next hauto =>
        refine Comes.quiet fun _ h₂ e₂ => Comes.done ?_
        rw [e₂, e₁]
        refine .install ha hd hphase rfl ?_
        rw [← hsettings]
        simpa using hauto

theorem gotInstall_comes (hf : Fits h.core? (.gotInstall s)) (e : Ending) :
    Comes (gotInstall s e) h fun n h' => Course h e (.gotInstall s) n h'.core? := by
  obtain ⟨a, ha, hstage⟩ := hf.stage s .installing rfl
  have hd (hno : ¬ a.destroyed = true) : a.destroyed = false ∧ a.phase = .installing ∧
      a.process = none :=
    ⟨by simpa using hno, hstage.resolve_left hno⟩
  unfold gotInstall
  refine Comes.read (run_session s h) ?_
  dsimp only
  split
  -- The worker is installed.
  · refine Comes.quiet fun _ h₁ e₁ => Comes.quiet fun _ h₂ e₂ => ?_
    rw [destroyed_eq ha]
    have hc : h₂.core? = h.core? := e₂.trans e₁
    split
    · exact Comes.done (hc ▸ .stays _ rfl rfl rfl)
    · next hno =>
      obtain ⟨hd, hphase, hproc⟩ := hd hno
      refine Comes.done ?_
      rw [hc]
      exact .proceed (.installed _) ha
        ⟨hd, hproc, by rw [hphase]; rfl, by rw [hphase]; decide⟩
  -- It could not be installed.
  · rw [destroyed_eq ha]
    split
    · exact Comes.done (.stays _ rfl rfl rfl)
    · next hno =>
      obtain ⟨hd, hphase, hproc⟩ := hd hno
      refine Comes.quiet fun _ h₁ e₁ => Comes.quiet fun _ h₂ e₂ => ?_
      have hc : h₂.core? = h.core? := e₂.trans e₁
      have ha₂ : h₂.core? s = some a := by rw [hc, ha]
      refine Comes.giveUp (fun _ => by rw [phase_eq ha₂, hphase]; rfl) fun transcript h₃ e₃ => ?_
      refine Comes.done ?_
      rw [e₃, hc]
      exact .giveUp _ transcript _ (.inr rfl) ha hd hproc
  · exact Comes.done (.stays _ rfl rfl rfl)

end Startup

/-! ## The start of a worker -/

section Launch

variable {h : Host} {s : Nat} {m : StartMode} {replay : List Request}

theorem launch_comes {e : Ending} (hf : Fits h.core? (.launch s m replay)) :
    Comes (launch s m replay) h fun n h' => Course h e (.launch s m replay) n h'.core? := by
  obtain ⟨a, ha, hlaunch⟩ := hf.launch s m rfl
  unfold launch
  refine Comes.transition (by rw [phase_eq ha]; exact hlaunch.allows) fun h₁ e₁ => ?_
  refine Comes.read (run_session s h₁) (Comes.read (run_get h₁) ?_)
  refine Comes.quiet fun _ h₂ e₂ => Comes.quiet fun _ h₃ e₃ => Comes.read (run_get h₃) ?_
  refine Comes.quiet fun _ h₄ e₄ => ?_
  have hc : h₄.core? = bump s (fun a => { a with phase := .starting m }) h.core? := by
    rw [e₄, e₃, e₂, e₁]
  -- the start takes some time, or none
  unfold sleep
  split
  · split
    · refine Comes.quiet fun _ h₅ e₅ => Comes.done ?_
      rw [e₅, hc]
      exact .launch rfl
    · exact Comes.done (hc ▸ .launch rfl)
  · exact Comes.done (hc ▸ .launch rfl)

theorem launched_comes (hf : Fits h.core? (.launched s m replay)) (e : Ending) :
    Comes (launched s m replay e) h fun n h' => Course h e (.launched s m replay) n h'.core? := by
  obtain ⟨a, ha, hstage⟩ := hf.stage s (.starting m) rfl
  have hd (hno : ¬ a.destroyed = true) : a.destroyed = false ∧ a.phase = .starting m ∧
      a.process = none :=
    ⟨by simpa using hno, hstage.resolve_left hno⟩
  unfold launched
  split
  -- The worker has started.
  · refine Comes.read (run_session s h) ?_
    rw [destroyed_eq ha]
    split
    · exact Comes.quiet fun _ h₁ e₁ => Comes.done (e₁ ▸ .stays _ rfl rfl rfl)
    · next p hno =>
      obtain ⟨hd, -, -⟩ := hd hno
      unfold adopt
      refine Comes.changeSession s (fun a => { a with process := some p }) (fun _ => rfl)
        fun h₁ e₁ => Comes.quiet fun _ h₂ e₂ => Comes.quiet fun _ h₃ e₃ => ?_
      refine Comes.risky (fun _ h₄ e₄ => ?_) fun x h₄ e₄ => ?_
      · refine Comes.quiet fun _ h₅ e₅ => Comes.quiet fun _ h₆ e₆ => ?_
        refine Comes.read (run_session s h₆) (Comes.quiet fun _ h₇ e₇ => Comes.done ?_)
        rw [e₇, e₆, e₅, e₄, e₃, e₂, e₁]
        exact .adopt rfl ha hd
      · rw [e₄, e₃, e₂, e₁]
        exact .adopt rfl ha hd
  -- It has not.
  · split
    · refine Comes.read (run_session s h) ?_
      rw [destroyed_eq ha]
      dsimp only
      split
      · next hno =>
        obtain ⟨hd, hphase, hproc⟩ := hd (by simpa using hno)
        refine Comes.quiet fun _ h₁ e₁ => ?_
        have ha₁ : h₁.core? s = some a := by rw [e₁, ha]
        refine Comes.giveUp (fun _ => by rw [phase_eq ha₁, hphase]; rfl) fun transcript h₂ e₂ => ?_
        refine Comes.done ?_
        rw [e₂, e₁]
        exact .giveUp _ transcript _ (.inr rfl) ha hd hproc
      · exact Comes.done (.stays _ rfl rfl rfl)
    · exact Comes.done (.stays _ rfl rfl rfl)
  · exact Comes.done (.stays _ rfl rfl rfl)

end Launch

/-! ## The end of a worker -/

section Exit

variable {h : Host} {s : Nat}

theorem core?_of_process {p : Nat} (e : (h.sessionOf s).process = some p) :
    ∃ a, h.core? s = some a ∧ a.process = some p := by
  unfold sessionOf at e
  unfold core?
  cases hs : h.sessions.get? s with
  | none =>
    rw [hs] at e
    cases e
  | some a =>
    rw [hs] at e
    exact ⟨a.core, rfl, e⟩

theorem queueOf_detach (l : Nat) : queueOf (after (changeLane l (·.detach)) h) l = h.queueOf l := by
  show (laneState { h with lanes := h.lanes.modify l (·.detach) } l).2 = _
  rw [laneState_changeLane, if_pos rfl]
  unfold queueOf laneState
  cases h.lanes.get? l <;> rfl

/-- What else is known of a session whose process is forgotten. -/
theorem dependencyMissing_forget :
    ((after (changeSession s fun a => { a with process := none }) h).sessionOf s).dependencyMissing =
      (h.sessionOf s).dependencyMissing := by
  show (((h.sessions.modify s _).get? s).getD noSession).dependencyMissing = _
  rw [Table.get?_modify, if_pos rfl]
  unfold sessionOf
  cases h.sessions.get? s <;> rfl

/-- What comes of the end of a session's worker: the requests that were pending go on to one more
    worker, which builds dependencies, or the session gives up. -/
inductive Exited (h : Host) (s : Nat) (a : Session.Core) : Next → Cores → Prop
  | escalated : a.phase.mode? = some .fast → (h.sessionOf s).dependencyMissing = true →
      Exited h s a (.call [.launch s .withBuild ((h.queueOf s).filter (!·.internal))])
        (bump s (fun a => { a with
          process := none, phase := .restarting .withBuild escalationReason }) h.core?)
  | died (reason transcript : String) (kind : GiveUpKind) :
      ¬ (a.phase.mode? = some .fast ∧ (h.sessionOf s).dependencyMissing = true) →
      Exited h s a (.done .unit) (bump s (fun a => { a with
        process := none, phase := .givenUp reason transcript kind }) h.core?)

theorem escalation_spec {k : Host} {a : Session.Core} (key : String) (ha : h.core? s = some a)
    (hw : a.phase.hasWorker = true) (hfast : a.phase.mode? = some .fast)
    (hmissing : (h.sessionOf s).dependencyMissing = true)
    (hc : k.core? = bump s (fun a => { a with process := none }) h.core?)
    (hq : k.queueOf s = h.queueOf s) :
    Comes (do
      let replay := (← takePending s).filter (!·.internal)
      transition s (.restarting .withBuild escalationReason)
      count key .restart
      publish ⟨.workerEscalated, key,
        [("mode", .str StartMode.withBuild.name), ("replayed", .int replay.length)]⟩
      return .call [.launch s .withBuild replay]) k fun n h' => Exited h s a n h'.core? := by
  refine Ends.bind (Ends.of_run (run_takePending s k) ?_)
  generalize hk₁ : after (changeLane s fun lane => { lane with queue := [] }) k = k₁
  have hc₁ : k₁.core? = k.core? := by
    rw [← hk₁]
    exact Within.rel_after (R := Same core?) k
  have ha₁ : k₁.core? s = some { a with process := none } := by rw [hc₁, hc, bump_self ha]
  refine Comes.transition ?_ fun k₂ e₂ => ?_
  · rw [phase_eq ha₁]
    cases e : a.phase <;> rw [e] at hw <;> first | rfl | cases hw
  · refine Comes.quiet fun _ k₃ e₃ => Comes.quiet fun _ k₄ e₄ => Comes.done ?_
    rw [e₄, e₃, e₂, hc₁, hc, bump_bump, ← queueOf_eq, hq]
    exact .escalated hfast hmissing

theorem workerExited_spec {a : Session.Core} (ha : h.core? s = some a)
    (hw : a.phase.hasWorker = true) (code : Int) :
    Comes (workerExited s code) h fun n h' => Exited h s a n h'.core? := by
  unfold workerExited
  refine Comes.run (Comes.run (Comes.run ?_))
  generalize hk : after (changeChannel s fun ch => { ch with port := none }) (after
    (changeLane s (·.detach)) (after (changeSession s fun a => { a with process := none }) h)) = k
  have hc : k.core? = bump s (fun a => { a with process := none }) h.core? := by
    rw [← hk]
    exact core?_bump h s fun _ => rfl
  have hq : k.queueOf s = h.queueOf s := by
    rw [← hk]
    exact queueOf_detach s
  have hmissing : (k.sessionOf s).dependencyMissing = (h.sessionOf s).dependencyMissing := by
    rw [← hk]
    exact dependencyMissing_forget
  refine Comes.read (run_session s k) (Comes.run ?_)
  generalize hk₁ : after (publish _) k = k₁
  have hc₁ : k₁.core? = bump s (fun a => { a with process := none }) h.core? := by
    rw [← hk₁, ← hc]
    exact Within.rel_after (R := Same core?) k
  have hq₁ : k₁.queueOf s = h.queueOf s := by
    rw [← hk₁, ← hq]
    rfl
  have ha₁ : k₁.core? s = some { a with process := none } := by rw [hc₁, bump_self ha]
  have hgive (reason : String) (kind : GiveUpKind)
      (hno : ¬ (a.phase.mode? = some .fast ∧ (h.sessionOf s).dependencyMissing = true)) :
      Comes (do giveUp s reason kind; return Next.done .unit) k₁
        fun n h' => Exited h s a n h'.core? := by
    refine Comes.giveUp (fun _ => ?_) fun transcript k₂ e₂ => Comes.done ?_
    · rw [phase_eq ha₁]
      cases e : a.phase <;> rw [e] at hw <;> first | rfl | cases hw
    · rw [e₂, hc₁, bump_bump]
      exact .died reason transcript kind hno
  have hphase : (k.sessionOf s).phase = a.phase := by
    rw [phase_eq (show k.core? s = some { a with process := none } by rw [hc, bump_self ha])]
  dsimp only
  rw [hphase]
  -- the two phases with a worker differ in nothing that counts here
  split
  case h_3 h₁ h₂ =>
    cases e : a.phase with
    | starting m => exact absurd e (h₁ m)
    | ready m port => exact absurd e (h₂ m port)
    | _ => rw [e] at hw; cases hw
  all_goals
    next hm =>
    split
    · next hcond =>
      simp only [Bool.and_eq_true, decide_eq_true_eq] at hcond
      refine escalation_spec _ ha hw ?_ (hmissing.symm.trans hcond.1) hc₁ hq₁
      rw [hm, ← hcond.2]
      rfl
    · next hcond =>
      have hno : ¬ (a.phase.mode? = some .fast ∧ (h.sessionOf s).dependencyMissing = true) := by
        rintro ⟨hfast, hmiss⟩
        rw [hm] at hfast
        cases hfast
        exact hcond (by rw [hmissing, hmiss]; rfl)
      split
      · exact hgive _ _ hno
      · exact hgive _ _ hno

/-- A worker that ends has its session give up, or be started once more. -/
theorem workerExited_comes {p : Nat} {code : Int} {a : Session.Core} (hp : Manned h.core?)
    (ha : h.core? s = some a) (hd : a.destroyed = false) (hproc : a.process = some p) :
    Comes (workerExited s code) h
      fun n h' => Course h (.value (.code code)) (.pumpEnd s p) n h'.core? := by
  have hw : a.phase.hasWorker = true := (hp s a ha (by rw [hproc]; rfl)).1
  refine (workerExited_spec ha hw code).mono fun n h' hexited => ?_
  generalize h'.core? = cores at hexited
  cases hexited with
  | escalated hfast hmissing =>
    refine .escalate rfl ha hd hproc hfast hmissing fun r hr => ?_
    obtain ⟨hr, hno⟩ := List.mem_filter.1 hr
    exact ⟨hr, by simpa using hno⟩
  | died reason transcript kind => exact .die reason transcript kind ha hd hproc

theorem pumpEnd_comes {p : Nat} {code : Int} (hp : Manned h.core?) :
    Comes (pumpEnd s p code) h
      fun n h' => Course h (.value (.code code)) (.pumpEnd s p) n h'.core? := by
  unfold pumpEnd
  refine Comes.read (run_session s h) ?_
  split
  · next hcond =>
    obtain ⟨a, ha, hproc⟩ := core?_of_process hcond.1
    rw [destroyed_eq ha] at hcond
    exact workerExited_comes hp ha hcond.2 hproc
  · exact Comes.done (.stays _ rfl rfl rfl)

end Exit

/-! ## The end of a session -/

theorem Fits.of_isPlain {cores : Cores} {f : Frame} (hf : f.isPlain = true) : Fits cores f where
  startup s hs := by rw [startup?_of_isPlain hf] at hs; cases hs
  early s hs := by rw [early?_of_isPlain hf] at hs; cases hs
  stage s phase hs := by rw [stage?_of_isPlain hf] at hs; cases hs
  launch s m hs := by rw [launches?_of_isPlain hf] at hs; cases hs
  tears s hs := by rw [tears_of_isPlain hf] at hs; cases hs
  gone s hs := by rw [gone?_of_isPlain hf] at hs; cases hs

theorem Fits.of_isAside {cores : Cores} {f : Frame} (hf : f.isAside = true)
    (htears : ∀ s ∈ f.tears, (cores s).isSome)
    (hgone : ∀ s, f.gone? = some s → ∃ a, cores s = some a ∧ a.destroyed = true) :
    Fits cores f where
  startup s hs := by cases f <;> first | (cases hs; done) | cases hf
  early s hs := by cases f <;> first | (cases hs; done) | cases hf
  stage s phase hs := by cases f <;> first | (cases hs; done) | cases hf
  launch s m hs := by cases f <;> first | (cases hs; done) | cases hf
  tears := htears
  gone := hgone

theorem fits_teardown {cores : Cores} {s : Nat} (hs : (cores s).isSome) :
    Fits cores (.teardown s) :=
  .of_isAside rfl (fun _ hi => by rw [List.mem_singleton.1 hi]; exact hs) nofun

/-- A frame of the end of a session that is destroyed. -/
theorem fits_gone {cores : Cores} {f : Frame} {s : Nat} {a : Session.Core} (ha : cores s = some a)
    (hd : a.destroyed = true) (haside : f.isAside = true) (hs : f.gone? = some s) :
    Fits cores f := by
  refine .of_isAside haside (fun i hi => ?_) fun i hi => ?_
  · cases f <;> first | (cases hi; done) | cases hs
  · rw [hs] at hi
    cases hi
    exact ⟨a, ha, hd⟩

section Destruction

variable {h : Host} {s : Nat} {e : Ending}

/-- The worker that the session had is told to whoever goes on with its end. -/
theorem teardown_spec : Comes (teardown s) h fun n h' =>
    n.push = [.readerGone s (h.sessionOf s).process] ∧
      h'.core? = bump s (fun a => { a with destroyed := true, process := none }) h.core? := by
  unfold teardown
  refine Comes.read (run_session s h) ?_
  refine Comes.changeSession s (fun a => { a with destroyed := true, process := none })
    (fun _ => rfl) fun h₁ e₁ => ?_
  refine Comes.quiet fun _ h₂ e₂ => Comes.quiet fun _ h₃ e₃ => Comes.quiet fun _ h₄ e₄ => ?_
  have hc : h₄.core? = bump s (fun a => { a with destroyed := true, process := none }) h.core? := by
    rw [e₄, e₃, e₂, e₁]
  dsimp only
  split
  · refine Comes.quiet fun _ h₅ e₅ => Comes.read (run_get h₅) ?_
    split
    · exact Comes.done ⟨rfl, e₅.trans hc⟩
    · exact Comes.quiet fun _ h₆ e₆ => Comes.done ⟨rfl, e₆.trans (e₅.trans hc)⟩
  · exact Comes.done ⟨rfl, hc⟩

theorem teardown_comes :
    Comes (teardown s) h fun n h' => Course h e (.teardown s) n h'.core? :=
  teardown_spec.mono fun _ _ ⟨hn, hc⟩ => hc ▸ .tear hn

theorem readerGone_comes {p : Option Nat} (hf : Fits h.core? (.readerGone s p)) (e : Ending) :
    Comes (readerGone s p e) h fun n h' => Course h e (.readerGone s p) n h'.core? := by
  obtain ⟨a, ha, hd⟩ := hf.gone s rfl
  have hroute : Course h e (.readerGone s p) (.call [.cancelQueries s, .queriesGone s])
      h.core? := by
    refine .route rfl rfl fun g hg => ?_
    rcases List.mem_cons.1 hg with rfl | hg
    · exact ⟨rfl, rfl, rfl, fits_gone ha hd rfl rfl, fun i hi => (List.not_mem_nil hi).elim, fun _ => rfl⟩
    · rw [List.mem_singleton.1 hg]
      exact ⟨rfl, rfl, rfl, fits_gone ha hd rfl rfl, fun i hi => (List.not_mem_nil hi).elim, fun _ => rfl⟩
  unfold readerGone
  split
  · exact Comes.done (.stays _ rfl rfl rfl)
  · dsimp only
    split
    · refine Comes.read (run_process _ h) ?_
      split
      · exact Comes.quiet fun _ h₁ e₁ => Comes.done (e₁ ▸ hroute)
      · exact Comes.done hroute
    · exact Comes.done hroute

theorem cancelQueries_comes (hf : Fits h.core? (.cancelQueries s)) :
    Comes (cancelQueries s) h fun n h' => Course h e (.cancelQueries s) n h'.core? := by
  obtain ⟨a, ha, hd⟩ := hf.gone s rfl
  have htasks (qs : List Nat) : Succeeds (qs.mapM fun q => return (← query q).task) := by
    induction qs with
    | nil => rw [List.mapM_nil]; infer_instance
    | cons q qs ih => rw [List.mapM_cons]; infer_instance
  have hread (qs : List Nat) : Within (Same core?) (qs.mapM fun q => return (← query q).task) := by
    induction qs with
    | nil => rw [List.mapM_nil]; infer_instance
    | cons q qs ih => rw [List.mapM_cons]; infer_instance
  unfold cancelQueries
  refine Comes.quiet fun _ h₁ e₁ => Comes.quiet fun _ h₂ e₂ => Comes.quiet fun _ h₃ e₃ => ?_
  refine Comes.done ?_
  rw [e₃, e₂, e₁]
  refine .route rfl rfl fun g hg => ?_
  rw [List.mem_singleton.1 hg]
  exact ⟨rfl, rfl, rfl, fits_gone ha hd rfl rfl, fun i hi => (List.not_mem_nil hi).elim, fun _ => rfl⟩

theorem queriesEnd_comes {rest : List Nat} {n : Nat} (hf : Fits h.core? (.queriesEnd s rest n))
    (e : Ending) : Comes (queriesEnd s rest n e) h
      fun next h' => Course h e (.queriesEnd s rest n) next h'.core? := by
  obtain ⟨a, ha, hd⟩ := hf.gone s rfl
  unfold queriesEnd
  split
  · exact Comes.done (.stays _ rfl rfl rfl)
  · refine Comes.done (.route rfl rfl fun g hg => ?_)
    rw [List.mem_singleton.1 hg]
    exact ⟨rfl, rfl, rfl, fits_gone ha hd rfl rfl, fun i hi => (List.not_mem_nil hi).elim, fun _ => rfl⟩
  · exact Comes.quiet fun _ h₁ e₁ => Comes.done (e₁ ▸ .stays _ rfl rfl rfl)

theorem phase_sessionOf {h h' : Host} (e : h'.core? = h.core?) :
    (h'.sessionOf s).phase = (h.sessionOf s).phase := by
  have hcore : (h'.sessions.get? s).map Session.core = (h.sessions.get? s).map Session.core :=
    congrFun e s
  unfold sessionOf
  cases ha : h.sessions.get? s with
  | none =>
    rw [ha] at hcore
    rw [Option.map_eq_none_iff.1 hcore]
  | some a =>
    rw [ha] at hcore
    obtain ⟨b, hb, hab⟩ := Option.map_eq_some_iff.1 hcore
    rw [hb]
    exact congrArg Session.Core.phase hab

/-- The session is absent then, and its directory is gone. -/
theorem queriesGone_spec : Comes (queriesGone s) h fun n h' => n = .done .unit ∧
    (h'.core? = bump s (fun a => { a with phase := .absent }) h.core? ∨
      h'.core? = h.core? ∧ (h.sessionOf s).phase = .absent) ∧
    h'.disk.tree.entries.entries.all (fun x => !(h'.sessionOf s).workDir.isPrefixOf x.1) = true := by
  have hgone (t : FileTree) (dir : List String) :
      (t.removeBelow dir).entries.entries.all (fun x => !dir.isPrefixOf x.1) = true :=
    List.all_eq_true.2 fun x hx => (List.mem_filter.1 hx).2
  unfold queriesGone
  refine Comes.read (run_session s h) (Comes.quiet fun _ h₁ e₁ => ?_)
  refine Comes.read (run_session s h₁) ?_
  dsimp only
  split
  · next hphase =>
    refine Comes.transition ((State.allows_absent_iff _).2 fun e => hphase ?_) fun h₂ e₂ => ?_
    · cases hp : (h₁.sessionOf s).phase <;> rw [hp] at e <;> first | rfl | cases e
    · refine Comes.read (run_session s h₂) (Ends.bind (Ends.of_run (run_modify _ h₂) ?_))
      refine Comes.run (Ends.bind (Ends.of_run (run_modify ..) (Comes.done ⟨rfl, .inl ?_, hgone _ _⟩)))
      rw [← e₁]
      exact e₂
  · next hphase =>
    refine Comes.read (run_session s h₁) (Ends.bind (Ends.of_run (run_modify _ h₁) ?_))
    refine Comes.run (Ends.bind (Ends.of_run (run_modify ..) (Comes.done ⟨rfl, .inr ⟨?_, ?_⟩, hgone _ _⟩)))
    · exact e₁
    · rw [← phase_sessionOf e₁]
      exact Decidable.not_not.1 hphase

theorem queriesGone_comes :
    Comes (queriesGone s) h fun n h' => Course h e (.queriesGone s) n h'.core? := by
  refine queriesGone_spec.mono fun n h' ⟨hn, hc, _⟩ => ?_
  subst hn
  rcases hc with hc | ⟨hc, -⟩
  · exact hc ▸ .clear
  · exact hc ▸ .stays _ rfl rfl rfl

theorem destroy_comes (hl : h.Listed) (root kind : String) :
    Comes (destroy root kind) h fun n h' => Course h e (.destroy root kind) n h'.core? := by
  unfold destroy
  -- nothing happens while the root is resolved
  refine Ends.bind (Ends.of_lawful (Same fun h => h) (fun path h' e => ?_) fun x h' hx e => ?_)
  · rw [show h' = h from e]
    refine Comes.read (run_get h) ?_
    split
    · exact Comes.done (.stays _ rfl rfl rfl)
    · next i hi =>
      have hs : (h.core? i).isSome := hl i (Keyed.mem_values_of_find? hi)
      refine Comes.run (Comes.done (.route rfl rfl fun g hg => ?_))
      rcases List.mem_cons.1 hg with rfl | hg
      · exact ⟨rfl, rfl, rfl, fits_teardown hs, fun _ _ => .inr rfl, fun hg => by cases hg⟩
      · rw [List.mem_singleton.1 hg]
        exact ⟨rfl, rfl, rfl, .of_isPlain rfl, fun _ _ => .inr rfl, fun hg => by cases hg⟩
  · rw [show h' = h from e]
    exact ⟨hx, .stays _ rfl rfl rfl⟩

theorem cleanup_comes (hl : h.Listed) :
    Comes cleanup h fun n h' => Course h e .cleanup n h'.core? := by
  unfold cleanup
  refine Comes.read (run_get h) (Comes.run (Comes.done (.route rfl rfl fun g hg => ?_)))
  rw [List.mem_singleton.1 hg]
  exact ⟨rfl, rfl, rfl, .of_isAside rfl hl nofun, fun _ _ => .inr rfl, fun hg => by cases hg⟩

theorem cleanupRest_course {rest : List Nat} (hf : Fits h.core? (.cleanupRest rest)) (e : Ending) :
    Course h e (.cleanupRest rest) (cleanupRest rest e) h.core? := by
  unfold cleanupRest
  split
  · exact .stays _ rfl rfl rfl
  · next s rest _ =>
    refine .route rfl rfl fun g hg => ?_
    rcases List.mem_cons.1 hg with rfl | hg
    · refine ⟨rfl, rfl, rfl, fits_teardown (hf.tears s List.mem_cons_self), fun i hi => .inl ?_, fun hg => by cases hg⟩
      rw [List.mem_singleton.1 hi]
      exact List.mem_cons_self
    · rw [List.mem_singleton.1 hg]
      exact ⟨rfl, rfl, rfl, .of_isAside rfl (fun i hi => hf.tears i (List.mem_cons_of_mem _ hi)) nofun,
        fun i hi => .inl (List.mem_cons_of_mem _ hi), fun hg => by cases hg⟩
  · exact .stays _ rfl rfl rfl

end Destruction

/-! ## Finding a session -/

theorem getOrCreate_comes {h : Host} {e : Ending} (hl : h.Listed) (root kind : String)
    (targets : Option (List String)) :
    Comes (getOrCreate root kind targets) h
      fun n h' => Course h e (.getOrCreate root kind targets) n h'.core? := by
  have hfail (x : Failure) (hx : x.isIllegal = false) : x.isIllegal = false ∧
      Course h e (.getOrCreate root kind targets) (.pass (.failed x)) h.core? :=
    ⟨hx, .pass rfl rfl fun _ s e => by cases e⟩
  unfold getOrCreate
  refine Comes.read (run_get h) ?_
  split
  · exact Ends.of_error rfl (hfail _ rfl)
  · exact Ends.of_error rfl (hfail _ rfl)
  · dsimp only
    split
    · next s hs =>
      refine Comes.done (.pass rfl rfl fun _ i e => ?_)
      cases e
      exact hl s (Keyed.mem_values_of_find? hs)
    · rcases newSession_spec kind (Pathname.renderAbsolute _) (targets.getD []) h with
        ⟨x, h', e, rfl⟩ | ⟨key, h', e, hv⟩
      · refine Ends.bind (Ends.of_error e (hfail x ?_))
        exact (Orderly.newSession kind _ _).error e
      · have hc : h'.core? = fun s =>
            if s = h.sessions.size then some (.new key) else h.core? s := congrArg View.cores hv
        have hfresh : h.core? h.sessions.size = none := by
          unfold core?
          rw [Table.get?_eq_none (Nat.le_refl _)]
          rfl
        refine Ends.bind (Ends.of_run e (Comes.read (run_session _ h') ?_))
        refine Comes.run (Comes.quiet fun _ h₁ e₁ => Comes.done ?_)
        rw [e₁]
        show Course h _ _ _ h'.core?
        rw [hc]
        exact .make rfl hfresh

/-! ## All steps -/

/-- A frame that takes a value passes everything else on. -/
theorem resume_pass_comes {h : Host} {f : Frame} {a : Action Next} {e : Ending}
    (hends : f.ends? = none) (hturn : f.turn? = none)
    (ha : ∀ e, Comes a h fun n h' => Course h e f n h'.core?) :
    Comes (match e with
      | .value _ => a
      | e => return .pass e) h fun n h' => Course h e f n h'.core? := by
  split
  · exact ha _
  · next hno => exact Comes.done (.pass hends hturn fun _ s hs => absurd hs (hno _))

/-- A step of a frame that fits, but for those that queue for a turn. -/
theorem course {h : Host} {f : Frame} (hl : h.Listed) (hp : Manned h.core?) (hf : Fits h.core? f)
    (hord : f.isOrdinary = false) (hturn : f.isTurn = false) (e : Ending) :
    Comes (resume f e) h fun n h' => Course h e f n h'.core? := by
  have hpass {e : Ending} {f : Frame} (v : Value) (hends : f.ends? = none) (hturn : f.turn? = none)
      (hfind : f.isFind = false) :
      Comes (return .done v) h fun n h' => Course h e f n h'.core? :=
    Comes.done (.stays _ hends hturn hfind)
  cases f
  case pumpEnd s p =>
    cases e with
    | value v => cases v <;> first | exact pumpEnd_comes hp | exact hpass _ rfl rfl rfl
    | _ => exact Comes.done (.stays _ rfl rfl rfl)
  case getOrCreate root kind targets => exact resume_pass_comes rfl rfl fun _ => getOrCreate_comes hl ..
  case startBody s => exact resume_pass_comes rfl rfl fun _ => startBody_comes hf
  case checkWorker s => exact resume_pass_comes rfl rfl fun _ => checkWorker_comes hf
  case gotVersion s =>
    cases e with
    | value v => cases v <;> first | exact gotVersion_comes hf _ | exact hpass _ rfl rfl rfl
    | _ => exact Comes.done (.stays _ rfl rfl rfl)
  case gotExtensions s =>
    cases e with
    | value v => cases v <;> first | exact gotExtensions_comes hf _ | exact hpass _ rfl rfl rfl
    | _ => exact Comes.done (.stays _ rfl rfl rfl)
  case gotStatus s =>
    cases e with
    | value v => cases v <;> first | exact gotStatus_comes hp hf _ | exact hpass _ rfl rfl rfl
    | _ => exact Comes.done (.stays _ rfl rfl rfl)
  case gotInstall s => exact gotInstall_comes hf e
  case launch s m replay => exact resume_pass_comes rfl rfl fun _ => launch_comes hf
  case launched s m replay => exact launched_comes hf e
  case destroy root kind => exact resume_pass_comes rfl rfl fun _ => destroy_comes hl root kind
  case teardown s => exact resume_pass_comes rfl rfl fun _ => teardown_comes
  case readerGone s p => exact readerGone_comes hf e
  case cancelQueries s => exact resume_pass_comes rfl rfl fun _ => cancelQueries_comes hf
  case queriesEnd s rest n => exact queriesEnd_comes hf e
  case queriesGone s => exact resume_pass_comes rfl rfl fun _ => queriesGone_comes
  case cleanup => exact resume_pass_comes rfl rfl fun _ => cleanup_comes hl
  case cleanupRest rest => exact Comes.done (cleanupRest_course hf e)
  all_goals first | (cases hord; done) | cases hturn

end Host

end GhciHost
