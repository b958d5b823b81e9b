import GhciHost.Proofs.Session.Kept

/-!
# Sessions go from phase to phase as they may

No session is ever asked for a phase that may not follow its own, whatever callers, workers and
tools do and in whatever order it happens.  The events that tell of changes of phase are those of
the sessions: those of one session lead from `absent` to its state, each from where the last one
led, and each to a state that may follow.

* `Chain`   changes that follow each other;
* `Tells`   what is told of is what happens;
* `transitions_legal`   the result.
-/

namespace GhciHost

namespace Host

/-- The state of the session of a number; there it is absent if there is no such session. -/
def stateOf (h : Host) (s : Nat) : State := (h.sessionOf s).phase.state

/-- A change of state of a session. -/
structure Change where
  session : Nat
  before : State
  after : State

/-- The event that tells of a change. -/
def Change.event (h : Host) (c : Change) : Event :=
  changed (h.sessionOf c.session).key c.before c.after

/-- Changes lead from one state to another, each from where the last one led, and each to a state
    that may follow. -/
def Chain : State → List Change → State → Prop
  | x, [], y => x = y
  | x, c :: cs, y => c.before = x ∧ x.allows c.after = true ∧ Chain c.after cs y

theorem Chain.append {x y z : State} {cs ds : List Change} (h : Chain x cs y) (k : Chain y ds z) :
    Chain x (cs ++ ds) z := by
  induction cs generalizing x with
  | nil =>
    cases h
    exact k
  | cons c cs ih =>
    obtain ⟨hb, ha, h⟩ := h
    exact ⟨hb, ha, ih h⟩

/-- The changes of a session among others. -/
def changesOf (s : Nat) (cs : List Change) : List Change := cs.filter (·.session = s)

/-! ## What is told of is what happens -/

/-- The events that were added tell how the states of sessions changed.  A session keeps its
    name. -/
structure Tells (h h' : Host) : Prop where
  known : ∀ s a, h.core? s = some a → ∃ b, h'.core? s = some b ∧ b.key = a.key
  told : ∃ cs : List Change, h'.changes = h.changes ++ cs.map (·.event h') ∧
    (∀ c ∈ cs, (h'.core? c.session).isSome) ∧
      ∀ s, Chain (h.stateOf s) (changesOf s cs) (h'.stateOf s)

theorem key_eq {h : Host} {s : Nat} {a : Session.Core} (e : h.core? s = some a) :
    (h.sessionOf s).key = a.key := congrArg Session.Core.key (core?_eq e)

theorem stateOf_eq {h : Host} {s : Nat} {a : Session.Core} (e : h.core? s = some a) :
    h.stateOf s = a.phase.state := congrArg Phase.state (phase_eq e)

theorem stateOf_none {h : Host} {s : Nat} (e : h.core? s = none) : h.stateOf s = .absent := by
  unfold core? at e
  rw [stateOf, sessionOf, Option.map_eq_none_iff.1 e]
  rfl

/-- No session changes its state, and nothing is told of changes. -/
theorem Tells.of_states {h h' : Host} (hc : h'.changes = h.changes)
    (hk : ∀ s a, h.core? s = some a → ∃ b, h'.core? s = some b ∧ b.key = a.key)
    (hs : ∀ s, h'.stateOf s = h.stateOf s) : Tells h h' where
  known := hk
  told := ⟨[], by rw [hc, List.map_nil, List.append_nil], fun _ hc => absurd hc List.not_mem_nil,
    fun s => (hs s).symm⟩

theorem Tells.refl (h : Host) : Tells h h :=
  .of_states rfl (fun _ a ha => ⟨a, ha, rfl⟩) fun _ => rfl

theorem Tells.trans {h₁ h₂ h₃ : Host} (h : Tells h₁ h₂) (k : Tells h₂ h₃) : Tells h₁ h₃ where
  known s a ha := by
    obtain ⟨b, hb, e⟩ := h.known s a ha
    obtain ⟨c, hc, e'⟩ := k.known s b hb
    exact ⟨c, hc, e'.trans e⟩
  told := by
    obtain ⟨cs, hcs, hin, hchain⟩ := h.told
    obtain ⟨ds, hds, hin', hchain'⟩ := k.told
    refine ⟨cs ++ ds, ?_, fun c hc => ?_, fun s => ?_⟩
    · rw [hds, hcs, List.map_append, List.append_assoc]
      congr 2
      refine List.map_congr_left fun c hc => ?_
      obtain ⟨a, ha⟩ := Option.isSome_iff_exists.1 (hin c hc)
      obtain ⟨b, hb, e⟩ := k.known _ a ha
      rw [Change.event, Change.event, key_eq ha, key_eq hb, e]
    · rcases List.mem_append.1 hc with hc | hc
      · obtain ⟨a, ha⟩ := Option.isSome_iff_exists.1 (hin c hc)
        obtain ⟨b, hb, -⟩ := k.known _ a ha
        rw [hb]
        rfl
      · exact hin' c hc
    · rw [changesOf, List.filter_append]
      exact (hchain s).append (hchain' s)

theorem Tells.isSome {h h' : Host} (k : Tells h h') {s : Nat} (hs : (h.core? s).isSome) :
    (h'.core? s).isSome := by
  obtain ⟨a, ha⟩ := Option.isSome_iff_exists.1 hs
  obtain ⟨b, hb, -⟩ := k.known s a ha
  rw [hb]
  rfl

/-- The same of an action that may take a session to a phase, if there is that session. -/
def TellsOf (o : Option Nat) (h h' : Host) : Prop := (∀ s ∈ o, (h.core? s).isSome) → Tells h h'

instance (o : Option Nat) : Std.Refl (TellsOf o) := ⟨fun h _ => .refl h⟩

instance (o : Option Nat) : IsTrans Host (TellsOf o) :=
  ⟨fun _ _ _ h k ho => (h ho).trans (k fun s hs => (h ho).isSome (ho s hs))⟩

theorem Tells.of_cores {h h' : Host} (hcore : h'.core? = h.core?) (hc : h'.changes = h.changes) :
    Tells h h' := by
  refine .of_states hc (fun s a ha => ⟨a, by rw [hcore, ha], rfl⟩) fun s => ?_
  cases ha : h.core? s with
  | none => rw [stateOf_none ha, stateOf_none (by rw [hcore, ha])]
  | some a => rw [stateOf_eq ha, stateOf_eq (show h'.core? s = some a by rw [hcore, ha])]

instance (o : Option Nat) : Bound (TellsOf o) := ⟨fun hcore hc _ _ => .of_cores hcore hc⟩

namespace TellsOf

variable {o : Option Nat}

/-- A session changes, but for its name and its phase. -/
theorem changeSession (i : Nat) {f : Session → Session} (hk : ∀ a, (f a).key = a.key)
    (hp : ∀ a, (f a).phase = a.phase) : Within (TellsOf o) (Host.changeSession i f) :=
  Within.of_modify fun h _ => by
    have hget (j : Nat) : (h.sessions.modify i f).get? j =
        if i = j then (h.sessions.get? j).map f else h.sessions.get? j := Table.get?_modify ..
    refine .of_states rfl (fun j a ha => ?_) fun j => ?_
    · unfold core? at ha ⊢
      dsimp only
      rw [hget]
      obtain ⟨b, hb, rfl⟩ := Option.map_eq_some_iff.1 ha
      rw [hb]
      split
      · exact ⟨_, rfl, hk b⟩
      · exact ⟨_, rfl, rfl⟩
    · unfold stateOf sessionOf
      dsimp only
      rw [hget]
      split
      · cases h.sessions.get? j with
        | none => rfl
        | some b => exact congrArg Phase.state (hp b)
      · rfl

instance setProcess (i : Nat) (process : Option Nat) :
    Within (TellsOf o) (Host.changeSession i fun a => { a with process }) :=
  changeSession i (fun _ => rfl) fun _ => rfl

instance setStarting (i : Nat) (starting : Bool) :
    Within (TellsOf o) (Host.changeSession i fun a => { a with starting }) :=
  changeSession i (fun _ => rfl) fun _ => rfl

instance setStartWaiters (i : Nat) (f : Session → List Nat) :
    Within (TellsOf o) (Host.changeSession i fun a => { a with startWaiters := f a }) :=
  changeSession i (fun _ => rfl) fun _ => rfl

instance tearDown (i : Nat) : Within (TellsOf o) (Host.changeSession i fun a =>
    { a with destroyed := true, ready := true, readyWaiters := [], process := none
             reader := none }) :=
  changeSession i (fun _ => rfl) fun _ => rfl

instance setRegistry (f : Host → Keyed (String × String) Nat) :
    Within (TellsOf o) (modify fun h => { h with registry := f h } : Action Unit) :=
  Within.of_modify fun _ _ => .of_cores rfl rfl

instance setRegistryMetrics (f : Host → Keyed (String × String) Nat) (g : Host → Option Metrics) :
    Within (TellsOf o) (modify fun h => { h with registry := f h, metrics := g h } : Action Unit) :=
  Within.of_modify fun _ _ => .of_cores rfl rfl

instance newSession (kind root : String) (targets : List String) :
    Within (TellsOf o) (Host.newSession kind root targets) :=
  ⟨fun h hs => by
    rcases newSession_spec kind root targets h with ⟨f, h', e, rfl⟩ | ⟨key, h', e, hv⟩
    · rw [after_of_error e]
      exact .refl _
    · rw [after_of_ok e]
      have hcore : h'.core? = fun i =>
          if i = h.sessions.size then some (.new key) else h.core? i := congrArg View.cores hv
      have hfresh : h.core? h.sessions.size = none := by
        unfold core?
        rw [Table.get?_eq_none (Nat.le_refl _)]
        rfl
      refine .of_states (congrArg View.changes hv) (fun i a ha => ?_) fun i => ?_
      · refine ⟨a, ?_, rfl⟩
        rw [hcore]
        dsimp only
        rw [if_neg, ha]
        rintro rfl
        rw [hfresh] at ha
        cases ha
      · by_cases hi : i = h.sessions.size
        · subst hi
          rw [stateOf_none hfresh, stateOf_eq (a := .new key) (by rw [hcore]; exact if_pos rfl)]
          rfl
        · have hi' : h'.core? i = h.core? i := by
            rw [hcore]
            exact if_neg hi
          cases ha : h.core? i with
          | none => rw [stateOf_none ha, stateOf_none (hi'.trans ha)]
          | some a => rw [stateOf_eq ha, stateOf_eq (hi'.trans ha)]⟩

/-- A session that is there goes on to a phase, and tells of it. -/
theorem of_transition {i : Nat} {phase : Phase} {h : Host} (hi : (h.core? i).isSome) :
    Tells h (after (Host.transition i phase) h) := by
  obtain ⟨a, ha⟩ := Option.isSome_iff_exists.1 hi
  rcases transition_spec i phase h with ⟨hok, h', e, hcore, hc⟩ | ⟨-, e⟩
  · rw [after_of_ok e]
    have hself : h'.core? i = some { a with phase } := by
      rw [hcore]
      exact bump_self ha
    have hrest {j : Nat} (hj : j ≠ i) : h'.core? j = h.core? j := by
      rw [hcore]
      exact bump_of_ne hj
    rw [key_eq ha, phase_eq ha] at hc
    rw [phase_eq ha] at hok
    refine ⟨fun j b hb => ?_, [⟨i, a.phase.state, phase.state⟩], ?_, fun c hc => ?_, fun j => ?_⟩
    · by_cases hj : j = i
      · subst hj
        rw [ha] at hb
        cases hb
        exact ⟨_, hself, rfl⟩
      · exact ⟨b, by rw [hrest hj, hb], rfl⟩
    · rw [hc, List.map_singleton, Change.event, key_eq hself]
    · rw [List.mem_singleton.1 hc, hself]
      rfl
    · by_cases hj : j = i
      · subst hj
        rw [changesOf, List.filter_cons, if_pos (decide_eq_true rfl), stateOf_eq ha, stateOf_eq hself]
        exact ⟨rfl, hok, rfl⟩
      · rw [changesOf, List.filter_cons, if_neg (by simpa using Ne.symm hj)]
        cases hb : h.core? j with
        | none => rw [stateOf_none hb, stateOf_none ((hrest hj).trans hb)]; rfl
        | some b => rw [stateOf_eq hb, stateOf_eq ((hrest hj).trans hb)]; rfl
  · rw [after_of_error e]
    exact .refl h

instance transition (s : Nat) (phase : Phase) :
    Within (TellsOf (some s)) (Host.transition s phase) :=
  ⟨fun _ hs => of_transition (hs s rfl)⟩

theorem noSession_of_core? {i : Nat} {h : Host} (hi : h.core? i = none) :
    h.sessionOf i = noSession := by
  unfold core? at hi
  rw [sessionOf, Option.map_eq_none_iff.1 hi]
  rfl

/-- An action on a session of which it finds out first whether it is there. -/
theorem of_known {i : Nat} {a : Action α} [ha : Within (TellsOf (some i)) a]
    (hno : ∀ h : Host, h.sessionOf i = noSession → after a h = h) : Within (TellsOf o) a :=
  ⟨fun h _ => by
    cases hi : h.core? i with
    | some b => exact ha.rel_after h fun s hs => by cases hs; rw [hi]; rfl
    | none =>
      rw [hno h (noSession_of_core? hi)]
      exact .refl h⟩

instance becomeReady (s p : Nat) (mode : StartMode) (body : String) :
    Within (TellsOf o) (Host.becomeReady s p mode body) :=
  of_known (i := s) fun h hs => by
    unfold Host.becomeReady
    rw [after_bind_ok (run_session s h), hs]
    rfl

instance pumpEnd (s p : Nat) (code : Int) : Within (TellsOf o) (Host.pumpEnd s p code) :=
  of_known (i := s) fun h hs => by
    unfold Host.pumpEnd
    rw [after_bind_ok (run_session s h), hs]
    rfl

end TellsOf

/-! ## Steps -/

/-- The session that a frame may take to a phase without looking for it. -/
def shifts? : Frame → Option Nat
  | .gotStatus s | .gotInstall s | .launch s .. | .launched s .. | .queriesGone s => some s
  | _ => none

theorem shifts_known {h : Host} {f : Frame} (hf : Fits h.core? f) :
    ∀ s ∈ shifts? f, (h.core? s).isSome := by
  intro s hs
  cases f with
  | gotStatus i =>
    obtain ⟨a, ha, -⟩ := hf.early i rfl
    cases hs
    rw [ha]
    rfl
  | gotInstall i =>
    obtain ⟨a, ha, -⟩ := hf.stage i _ rfl
    cases hs
    rw [ha]
    rfl
  | launch i m replay =>
    obtain ⟨a, ha, -⟩ := hf.launch i m rfl
    cases hs
    rw [ha]
    rfl
  | launched i m replay =>
    obtain ⟨a, ha, -⟩ := hf.stage i _ rfl
    cases hs
    rw [ha]
    rfl
  | queriesGone i =>
    obtain ⟨a, ha, -⟩ := hf.gone i rfl
    cases hs
    rw [ha]
    rfl
  | _ => cases hs

namespace TellsOf

theorem resumeWith (f : Frame) (v : Value) : Within (TellsOf (shifts? f)) (Host.resumeWith f v) := by
  unfold Host.resumeWith
  split <;> (try unfold shifts?) <;> infer_instance

theorem resume (f : Frame) (e : Ending) : Within (TellsOf (shifts? f)) (Host.resume f e) := by
  unfold Host.resume
  split
  case h_17 => split <;> infer_instance
  case h_18 =>
    split
    · exact resumeWith f _
    · infer_instance
  all_goals
    try unfold shifts?
    infer_instance

end TellsOf

/-! ## Runs -/

theorem Tells.of_loop {h : Host} (l : Loop Value Failure Frame) : Tells h { h with loop := l } :=
  .of_cores rfl rfl

theorem Tells.step {h : Host} {t : Nat} {e : Ending} {f : Frame} {below : List Frame}
    (k : Steps h t e f below) : Tells h (step t e h) := by
  rw [step_eq k.top]
  have hfits := k.inOrder.stages.fits t _ f k.top List.mem_cons_self
  exact ((TellsOf.resume f e).rel_after h (shifts_known hfits)).trans (.of_loop _)

/-- What leaves sessions alone, but for those that become ready. -/
theorem TellsOf.tells {a : Action α} [ha : Within (TellsOf none) a] (h : Host) :
    Tells h (after a h) := ha.rel_after h nofun

theorem Tells.beginJob (j : Job) (h : Host) : Tells h (beginJob j h) := by
  cases j with
  | notify q =>
    rw [beginJob_notify]
    exact TellsOf.tells h
  | _ => exact .of_loop _

theorem Tells.tick {h : Host} (k : InOrder h) : Tells h h.tick := by
  rcases tick_cases h with ⟨t, e, f, below, hrun, hs, e'⟩ | ⟨t, e, -, -, e'⟩ | ⟨-, e'⟩ |
    ⟨j, jobs, -, -, e'⟩
  · exact e'.symm ▸ .step ⟨k, hrun, hs⟩
  · exact e'.symm ▸ .of_loop _
  · exact e'.symm ▸ .refl h
  · exact e'.symm ▸ (Tells.of_loop _).trans (.beginJob _ _)

theorem Tells.outside {P : Reaction → Prop} {h h' : Host} (ho : Outside P h h') : Tells h h' := by
  cases ho with
  | ask | submit | query | cancel | act | worker => exact TellsOf.tells h
  | world | time => exact .of_cores rfl rfl

/-- No session is asked for a phase that may not follow its own: not by the frame that goes on, nor
    where the failure would be forgotten, nor by what is done between steps. -/
structure Undisputed (h : Host) : Prop where
  frame : ∀ {t e f below x h'}, h.loop.running = some (t, e) → h.loop.stack? t = some (f :: below) →
    (resume f e).run h = .error x h' → x.isIllegal = false
  response : ∀ l state body r, Lawful (react l state body r)
  submission : ∀ s command state reaction, Lawful (submitSession s command state reaction)
  query : ∀ s command state reaction, Lawful (queryOn s command state reaction)
  listener : ∀ q, Lawful (queryEnded q)

theorem core_sessionOf (h : Host) (s : Nat) :
    (h.sessionOf s).core = (h.core? s).getD noSession.core := by
  unfold sessionOf core?
  cases h.sessions.get? s <;> rfl

/-- A session becomes ready only from a phase from which it may. -/
instance lawful_becomeReady (s p : Nat) (mode : StartMode) (body : String) :
    Lawful (becomeReady s p mode body) where
  ok _ := trivial
  error {h x h'} e := by
    have hends : Ends (becomeReady s p mode body) h (fun _ _ => True)
        fun x _ => x.isIllegal = false := by
      unfold becomeReady
      refine Ends.bind (Ends.of_run (run_session s h) ?_)
      split
      · next m hm =>
        split
        · split
          · exact Ends.of_error (run_throw _ h) rfl
          · next port rest _ =>
            refine Ends.bind (Ends.of_succeeds (Same core?) fun _ h₁ e₁ => ?_)
            refine Ends.bind (Ends.of_succeeds (Same core?) fun _ h₂ e₂ => ?_)
            have hphase : (h₂.sessionOf s).phase = .starting m := by
              rw [← hm]
              refine congrArg Session.Core.phase (?_ : (h₂.sessionOf s).core = (h.sessionOf s).core)
              rw [core_sessionOf, core_sessionOf, e₂, e₁]
            obtain ⟨h₃, e₃, -⟩ := run_transition (s := s) (.ready mode (port.map Int.ofNat))
              (h := h₂) (by rw [hphase]; rfl)
            exact Ends.bind (Ends.of_run e₃ (Ends.of_succeeds (Same core?) fun _ _ _ => trivial))
        · exact Ends.of_run (run_pure _ h) trivial
      · exact Ends.of_run (run_pure _ h) trivial
    rw [Ends, e] at hends
    exact hends

theorem lawful_react (l : Nat) (state : Json) (body : String) (r : Reaction) :
    Lawful (react l state body r) := by
  unfold react
  cases r <;> (dsimp only; infer_instance)

theorem lawful_of_isTurn {f : Frame} (hf : f.isTurn = true) (e : Ending) :
    Lawful (resume f e) := by
  have hstart (s : Nat) : Succeeds (startSession s) := .of_run fun h => by
    unfold startSession
    rw [run_bind_ok (run_session s h)]
    obtain ⟨b, e, -⟩ := run_allM_isCancelled (h.sessionOf s).startWaiters h
    rw [run_bind_ok e]
    split
    · exact ⟨_, _, rfl⟩
    · exact ⟨_, _, rfl⟩
  cases f with
  | startSession =>
    cases e with
    | value v => cases v <;> first | exact @Orderly.succeeds _ _ (hstart _) | exact Orderly.pureLawful _
    | _ => exact Orderly.pureLawful _
  | startTurn s c =>
    have (e : Ending) : Succeeds (startTurn s c e) := by
      unfold startTurn
      refine @Succeeds.bind _ _ _ _ _ fun _ => ?_
      split <;> infer_instance
    exact @Orderly.succeeds _ _ (this e)
  | startEnd s =>
    have (e : Ending) : Succeeds (startEnd s e) := by
      unfold startEnd
      infer_instance
    exact @Orderly.succeeds _ _ (this e)
  | _ => cases hf

theorem Undisputed.of_inOrder {h : Host} (k : InOrder h) : Undisputed h where
  frame {t e f below x h'} hrun hs hx := by
    have hfits := k.stages.fits t _ f hs List.mem_cons_self
    cases hord : f.isOrdinary with
    | true => exact (Orderly.resume_easy hord e).error hx
    | false =>
      cases hturn : f.isTurn with
      | false => exact (course k.listed k.stages.manned hfits hord hturn e).legal hx
      -- who queues for a turn cannot fail
      | true => exact (lawful_of_isTurn hturn e).error hx
  response := lawful_react
  submission _ _ _ _ := inferInstance
  query _ _ _ _ := inferInstance
  listener _ := inferInstance

/-- In every run no session is asked for a phase that may not follow its own, and the events that
    tell of changes of phase are those of changes that lead each session from `absent` to its
    state, each to a state that may follow the one before. -/
theorem transitions_legal {P : Reaction → Prop} {h : Host} (hr : Reachable Fresh (Outside P) h) :
    Undisputed h ∧ ∃ log : List Change, h.changes = log.map (·.event h) ∧
      (∀ c ∈ log, (h.core? c.session).isSome) ∧
        ∀ s, Chain .absent (changesOf s log) (h.stateOf s) := by
  refine ⟨.of_inOrder (inOrder_of_reachable hr), ?_⟩
  obtain ⟨h₀, hf, ht⟩ : ∃ h₀, Fresh h₀ ∧ Tells h₀ h := by
    induction hr with
    | start hf => exact ⟨_, hf, .refl _⟩
    | tick hr ih =>
      obtain ⟨h₀, hf, ht⟩ := ih
      exact ⟨h₀, hf, ht.trans (.tick (inOrder_of_reachable hr))⟩
    | fire _ _ ih =>
      obtain ⟨h₀, hf, ht⟩ := ih
      exact ⟨h₀, hf, ht.trans (.of_loop _)⟩
    | act _ _ ho ih =>
      obtain ⟨h₀, hf, ht⟩ := ih
      exact ⟨h₀, hf, ht.trans (.outside ho)⟩
  obtain ⟨log, hlog, hin, hchain⟩ := ht.told
  have hnone : h₀.changes = [] := by
    unfold changes
    rw [hf.journal]
    rfl
  refine ⟨log, by rw [hlog, hnone, List.nil_append], hin, fun s => ?_⟩
  have := hchain s
  rwa [stateOf_none (hf.core? s)] at this

/-- A session whose worker has started well went through two changes. -/
theorem transitions_legal_ready : ∃ log : List Change,
    log.length = 2 ∧ Chain .absent (changesOf 0 log) .ready ∧
      (settleWithin 30 begun).changes = log.map (·.event (settleWithin 30 begun)) := by
  obtain ⟨-, log, hlog, -, hchain⟩ := transitions_legal (P := Reaction.isAsked)
    (reachable_settleWithin (reachable_begun {}) 30)
  have hlength : (settleWithin 30 begun).changes.length = 2 := by decide +kernel
  have hstate : (settleWithin 30 begun).stateOf 0 = .ready := by decide +kernel
  have hchain₀ := hchain 0
  rw [hstate] at hchain₀
  rw [hlog, List.length_map] at hlength
  exact ⟨log, hlength, hchain₀, hlog⟩

end Host

end GhciHost
