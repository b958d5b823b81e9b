import GhciHost.Proofs.Session.Enrolled
import GhciHost.Proofs.Session.Relay
import GhciHost.Proofs.Session.Startups
import GhciHost.Proofs.Session.Transitions

/-!
# Sessions that gave up

A session that gave up and is in use stays as it is: no step takes it to another phase, no task has
anything of a startup to do for it, and nothing is checked, installed or started for it.  Only who
drops it from the registry can end that.

* `Resigned.tick`, `Resigned.fire`, `Resigned.outside`   whatever happens keeps it so;
* `Resigned.workless`, `Resigned.dealings`   nothing is done for it;
* `Resigned.unqueued`   when nothing is left to do, nobody waits for its turn;
* `Resigned.refuses`   it takes no command and no query.
-/

namespace GhciHost

/-- A session that gave up, with the project that it is in use for. -/
structure Resignation where
  session : Nat
  project : String × String
  key : String
  reason : String
  transcript : String
  kind : GiveUpKind

namespace Resignation

/-- The phase of the session. -/
def phase (r : Resignation) : Phase := .givenUp r.reason r.transcript r.kind

/-- What callers get who ask for the session itself. -/
def verdict (r : Resignation) : Failure :=
  .session (.gaveUp r.kind r.reason r.transcript (some r.key))

/-- What callers get who want it to do something. -/
def refusal (r : Resignation) : Failure :=
  .session { kind := .processNotRunning
             text := "Session gave up (" ++ r.reason ++ "); restart it to try again"
             key := some r.key }

end Resignation

/-- The session for which something is checked, installed or started. -/
def Dealing.worksFor? : Dealing → Option Nat
  | check s _ | install s _ | installed s | spawn s _ | start s _ _ => some s
  | _ => none

/-- The frame has something of a startup to do for the session. -/
def Frame.WorksFor (f : Frame) (s : Nat) : Prop := f.early? = some s ∨ f.staged? = some s

namespace Host

open Loop

variable {h h' : Host} {t s : Nat} {e : Ending} {f : Frame} {below : List Frame}
  {r : Resignation}

/-! ## What is known of every host -/

/-- What holds of each host in a run. -/
structure Regular (h : Host) : Prop where
  inOrder : InOrder h
  filed : h.loop.Filed
  relay : Relay h
  crowned : h.CrownedAll
  enrolled : Enrolled h
  neat : h.board.Neat True

theorem regular_of_run {ks : List Host} (hr : Run Fresh (Outside Reaction.isAsked) ks h) :
    Regular h where
  inOrder := inOrder_of_reachable hr.reachable
  filed := filed_of_reachable hr.reachable
  relay := relay_of_reachable hr.reachable
  crowned := crownedAll_of_reachable hr.reachable
  enrolled := enrolled_of_reachable hr.reachable
  neat := neat_of_run hr (.inl trivial)

/-! ## Phases that stay -/

theorem hasWorker_of_givenUp {p : Phase} (hp : p.state = .givenUp) : p.hasWorker = false := by
  cases p <;> first | rfl | cases hp

/-- No frame has anything to do for a session that gave up. -/
theorem not_worksFor (hf : Fits h.core? f) {a : Session.Core} (ha : h.core? s = some a)
    (hd : a.destroyed = false) (hp : a.phase.state = .givenUp) : ¬ f.WorksFor s := by
  have hstage {phase : Phase} (hs : f.stage? = some (s, phase)) : phase.state = .givenUp := by
    obtain ⟨b, hb, hphase⟩ := hf.stage s phase hs
    rw [ha] at hb
    cases hb
    rcases hphase with hdead | ⟨rfl, -⟩
    · rw [hd] at hdead
      cases hdead
    · exact hp
  rintro (hs | hs)
  · obtain ⟨b, hb, hphase⟩ := hf.early s hs
    rw [ha] at hb
    cases hb
    rcases hphase with hdead | hphase
    · rw [hd] at hdead
      cases hdead
    · rw [hphase] at hp
      cases hp
  · cases f with
    | gotInstall i =>
      cases hs
      cases hstage rfl
    | launched i m replay =>
      cases hs
      cases hstage rfl
    | launch i m replay =>
      cases hs
      obtain ⟨b, hb, hl⟩ := hf.launch s m rfl
      rw [ha] at hb
      cases hb
      have hallows := hl.allows
      rw [Phase.allows, hp] at hallows
      cases m <;> cases hallows
    | _ => cases hs

/-- Sessions become ready at most. -/
theorem Calm.givenUp (hc : Calm h h') {a : Session.Core} (ha : h.core? s = some a)
    (hp : a.phase.state = .givenUp) : ∃ b, h'.core? s = some b ∧ b.phase = a.phase := by
  obtain ⟨b, hb, hab⟩ := hc.old s a ha
  refine ⟨b, hb, ?_⟩
  rcases hab with rfl | ⟨m, m', port, p, hm, -, -⟩
  · rfl
  · rw [hm] at hp
    cases hp

/-- A step of a startup or of a session's end is about another session, or destroys this one. -/
theorem Course.givenUp {n : Next} {cores : Cores} (hc : Course h e f n cores) (hm : Manned h.core?)
    (hf : Fits h.core? f) {a : Session.Core} (ha : h.core? s = some a) (hd : a.destroyed = false)
    (hp : a.phase.state = .givenUp) : ∃ b, cores s = some b ∧ b.phase = a.phase := by
  have hwork := not_worksFor hf ha hd hp
  have hbump {i : Nat} {F : Session.Core → Session.Core} (hF : i = s → (F a).phase = a.phase) :
      ∃ b, bump i F h.core? s = some b ∧ b.phase = a.phase := by
    by_cases hi : s = i
    · subst hi
      exact ⟨_, bump_self ha, hF rfl⟩
    · exact ⟨a, by rw [bump_of_ne hi, ha], rfl⟩
  have hprocess {p : Nat} (hproc : a.process = some p) : False := by
    have hworker := (hm s a ha (by rw [hproc]; rfl)).1
    rw [hasWorker_of_givenUp hp] at hworker
    cases hworker
  cases hc with
  | pass | route | ask | proceed => exact ⟨a, ha, rfl⟩
  | make _ hnone =>
    refine ⟨a, ?_, rfl⟩
    dsimp only
    rw [if_neg, ha]
    rintro rfl
    rw [hnone] at ha
    cases ha
  | install hcore _ hphase =>
    refine hbump fun hi => ?_
    subst hi
    exact absurd (.inl rfl) hwork
  | giveUp _ _ _ hs =>
    refine hbump fun hi => ?_
    subst hi
    exact absurd (hs.imp_right staged?_of_stage) hwork
  | launch | adopt =>
    refine hbump fun hi => ?_
    subst hi
    exact absurd (.inr rfl) hwork
  | escalate _ hcore _ hproc | die _ _ _ hcore _ hproc =>
    refine hbump fun hi => ?_
    subst hi
    rw [ha] at hcore
    cases hcore
    exact (hprocess hproc).elim
  | tear => exact hbump fun _ => rfl
  | clear =>
    refine hbump fun hi => ?_
    subst hi
    obtain ⟨b, hb, hdead⟩ := hf.gone _ rfl
    rw [ha] at hb
    cases hb
    rw [hd] at hdead
    cases hdead

/-- A session that gave up and is not destroyed stays in its phase. -/
theorem Steps.givenUp (k : Steps h t e f below) {a : Session.Core} (ha : h.core? s = some a)
    (hd : a.destroyed = false) (hp : a.phase.state = .givenUp) :
    ∃ b, (Host.step t e h).core? s = some b ∧ b.phase = a.phase := by
  rw [step_eq k.top]
  show ∃ b, (after (resume f e) h).core? s = some b ∧ b.phase = a.phase
  cases hord : f.isOrdinary with
  | true => exact ((Calm.resume hord e).rel_after h).givenUp ha hp
  | false =>
    cases hturn : f.isTurn with
    | false =>
      exact (k.course hord hturn).givenUp k.inOrder.stages.manned
        (k.inOrder.stages.fits t _ f k.top List.mem_cons_self) ha hd hp
    | true =>
      have hboard : (after (resume f e) h).board = h.board :=
        (board_resume_of_isTurn hturn e).rel_after h
      have hseat : (after (resume f e) h).seat? s = h.seat? s :=
        congrFun (congrArg Board.seats hboard) s
      rw [seat?, seat?, ha] at hseat
      obtain ⟨b, hb, hseat⟩ := Option.map_eq_some_iff.1 hseat
      exact ⟨b, hb, congrArg Seat.phase hseat⟩

/-! ## Sessions that gave up and are in use -/

/-- The session has given up, and is in use. -/
structure Resigned (r : Resignation) (h : Host) : Prop where
  registered : h.registry.find? r.project = some r.session
  core : ∃ a, h.core? r.session = some a ∧ a.phase = r.phase ∧ a.key = r.key

namespace Resigned

theorem givenUp (hr : Resigned r h) (hg : Regular h) : ∃ a, h.core? r.session = some a ∧
    a.phase = r.phase ∧ a.key = r.key ∧ a.destroyed = false ∧ a.phase.state = .givenUp := by
  obtain ⟨a, ha, hphase, hkey⟩ := hr.core
  obtain ⟨b, hb, hd⟩ := hg.enrolled.alive r.project r.session hr.registered
  rw [ha] at hb
  cases hb
  exact ⟨a, ha, hphase, hkey, hd, by rw [hphase]; rfl⟩

/-- The session stays in use, in its phase, and keeps its name. -/
theorem keep (hr : Resigned r h) (hregistry : h'.registry.find? r.project = some r.session)
    (ht : Tells h h')
    (hphase : ∀ a, h.core? r.session = some a → a.phase = r.phase →
      ∃ b, h'.core? r.session = some b ∧ b.phase = a.phase) : Resigned r h' := by
  obtain ⟨a, ha, hp, hkey⟩ := hr.core
  obtain ⟨b, hb, hbp⟩ := hphase a ha hp
  obtain ⟨b', hb', hbk⟩ := ht.known _ a ha
  rw [hb] at hb'
  cases hb'
  exact ⟨hregistry, b, hb, hbp.trans hp, hbk.trans hkey⟩

theorem ofCalm (hr : Resigned r h) (hregistry : h'.registry = h.registry) (ht : Tells h h')
    (hc : Calm h h') : Resigned r h' :=
  hr.keep (hregistry ▸ hr.registered) ht fun a ha hp => hc.givenUp ha (by rw [hp]; rfl)

theorem ofLoop (hr : Resigned r h) (l : Loop Value Failure Frame) :
    Resigned r { h with loop := l } :=
  ⟨hr.registered, hr.core⟩

/-- A step of the loop drops the session or leaves it as it is. -/
theorem tick (hr : Resigned r h) (hg : Regular h) (hkept : .drop r.project ∉ dealings h) :
    Resigned r h.tick := by
  rcases tick_cases h with ⟨t, e, f, below, hrun, hs, e'⟩ | ⟨t, e, -, -, e'⟩ | ⟨-, e'⟩ |
    ⟨j, jobs, -, -, e'⟩
  · have k : Steps h t e f below := ⟨hg.inOrder, hrun, hs⟩
    have hdealt : dealings h = told h f below e ++ calls h (nextOf (resume f e) h).push := by
      unfold dealings
      rw [hrun]
      dsimp only
      rw [hs]
    rw [e']
    refine hr.keep ?_ (.step k) fun a ha hp => ?_
    · rw [step_eq hs]
      refine (find?_resume f below e hr.registered).resolve_right fun hdrop => hkept ?_
      rw [hdealt]
      exact List.mem_append_left _ hdrop
    · obtain ⟨b, hb, -, -, hd, hstate⟩ := hr.givenUp hg
      rw [ha] at hb
      cases hb
      exact k.givenUp ha hd hstate
  · exact e' ▸ hr.ofLoop _
  · exact e'.symm ▸ hr
  · rw [e']
    cases j with
    | notify q =>
      rw [beginJob_notify]
      exact (hr.ofLoop _).ofCalm (Within.rel_after (R := Same Host.registry) _) (TellsOf.tells _)
        (Within.rel_after _)
    | _ => exact hr.ofLoop _

theorem fire (hr : Resigned r h) (t : Timer) : Resigned r (h.fire t) := hr.ofLoop _

theorem outside {P : Reaction → Prop} (hr : Resigned r h) (ho : Outside P h h') :
    Resigned r h' := by
  refine hr.ofCalm ?_ (.outside ho) ?_
  · cases ho with
    | ask | submit | query | cancel | act | worker =>
      exact Within.rel_after (R := Same Host.registry) h
    | world | time => rfl
  · cases ho with
    | ask | submit | query | cancel | act | worker => exact Within.rel_after h
    | world | time => exact .of_core? rfl

/-! ## Nothing is done for it -/

/-- No task has anything of a startup to do for the session. -/
theorem workless (hr : Resigned r h) (hg : Regular h) {fs : List Frame}
    (ht : h.loop.stack? t = some fs) (hf : f ∈ fs) : ¬ f.WorksFor r.session := by
  obtain ⟨a, ha, -, -, hd, hstate⟩ := hr.givenUp hg
  exact not_worksFor (hg.inOrder.stages.fits t fs f ht hf) ha hd hstate

/-- Whatever is done for a session is done by a frame that works for it. -/
theorem worksFor_of_told {d : Dealing} (hd : d ∈ told h f below e) (hs : d.worksFor? = some s) :
    ∃ g ∈ f :: below, g.WorksFor s := by
  unfold told at hd
  split at hd
  case h_1 =>
    split at hd
    · rw [List.mem_singleton.1 hd] at hs
      cases hs
    · cases hd
  case h_2 =>
    split at hd
    · rw [List.mem_singleton.1 hd] at hs
      cases hs
    · cases hd
  case h_3 =>
    obtain ⟨q, -, rfl⟩ := List.mem_map.1 hd
    cases hs
  case h_4 =>
    rw [List.mem_singleton.1 hd] at hs
    cases hs
    exact ⟨_, List.mem_cons_self, .inl rfl⟩
  case h_5 =>
    rw [List.mem_singleton.1 hd] at hs
    cases hs
    exact ⟨_, List.mem_cons_self, .inr rfl⟩
  case h_6 =>
    split at hd
    · rw [List.mem_singleton.1 hd] at hs
      cases hs
      exact ⟨_, List.mem_cons_of_mem _ List.mem_cons_self, .inr rfl⟩
    · cases hd
  case h_7 =>
    rw [List.mem_singleton.1 hd] at hs
    cases hs
  case h_8 => cases hd

/-- Who is called for a session leaves a frame to wait for the end. -/
theorem worksFor_of_calls {push : List Frame} {d : Dealing} (hd : d ∈ calls h push)
    (hs : d.worksFor? = some s) : ∃ g ∈ push, g.WorksFor s := by
  obtain ⟨g, hg, hcall⟩ := List.mem_filterMap.1 hd
  refine ⟨g, hg, ?_⟩
  cases g with
  | gotInstall i =>
    cases hcall
    cases hs
    exact .inr rfl
  | launched i m replay =>
    cases hcall
    cases hs
    exact .inr rfl
  | _ => cases hcall

/-- No step checks, installs or starts anything for the session. -/
theorem dealings (hr : Resigned r h) (hg : Regular h) (hg' : Regular h.tick)
    (hkept : .drop r.project ∉ dealings h) {d : Dealing} (hd : d ∈ Host.dealings h) :
    d.worksFor? ≠ some r.session := by
  intro hs
  have hr' := hr.tick hg hkept
  unfold Host.dealings at hd
  split at hd
  · cases hd
  · next t e hrun =>
    split at hd
    · next f below htop =>
      rcases List.mem_append.1 hd with hd | hd
      · obtain ⟨g, hgs, hwork⟩ := worksFor_of_told hd hs
        exact hr.workless hg htop hgs hwork
      · obtain ⟨g, hgs, hwork⟩ := worksFor_of_calls hd hs
        have k : Steps h t e f below := ⟨hg.inOrder, hrun, htop⟩
        exact hr'.workless hg' (tick_of_running hrun ▸ k.stack_self) (List.mem_append_left _ hgs) hwork
    · cases hd

/-! ## What callers find -/

/-- The session has no worker, nothing is queued for one, and nobody would have to wait. -/
theorem vacant (hr : Resigned r h) (hg : Regular h) :
    h.laneState r.session = (none, []) ∧ h.readyOf r.session = true := by
  obtain ⟨a, ha, -, -, -, hstate⟩ := hr.givenUp hg
  obtain ⟨x, hx, hphase, -, -⟩ := seat?_of_core? ha
  have hgood := hg.neat.good _ x hx
  rw [← hphase] at hstate
  have hworker := hasWorker_of_givenUp hstate
  have hprocess : x.process = none := by
    cases hp : x.process with
    | none => rfl
    | some p =>
      have := (hgood.manned (by rw [hp]; rfl)).1
      rw [hworker] at this
      cases this
  have hempty := hgood.empty (.inl hworker)
  have hattached := hgood.attached.trans hprocess
  have hready := hgood.ready (.inr hstate)
  rw [seat?, ha] at hx
  cases hx
  exact ⟨Prod.ext hattached hempty, hready⟩

/-- The session refuses whatever it is asked for. -/
theorem run_checkUsable (hr : Resigned r h) :
    (checkUsable r.session).run h = .error r.refusal h := by
  obtain ⟨a, ha, hphase, hkey⟩ := hr.core
  unfold checkUsable
  rw [run_bind_ok (run_session _ h)]
  have hp : (h.sessionOf r.session).phase = .givenUp r.reason r.transcript r.kind :=
    (phase_eq ha).trans hphase
  have hk : (h.sessionOf r.session).key = r.key := (key_eq ha).trans hkey
  dsimp only
  rw [hp, hk]
  exact run_throw _ h

/-- Commands and queries are refused, and nothing happens. -/
theorem refuses (hr : Resigned r h) :
    (∀ command state reaction,
      (submitSession r.session command state reaction).run h = .error r.refusal h) ∧
    (∀ command state reaction,
      (queryOn r.session command state reaction).run h = .error r.refusal h) ∧
    (∀ command timeout, (callSession r.session command timeout).run h = .error r.refusal h) ∧
    ∀ command, (querySession r.session command).run h = .error r.refusal h := by
  have hcheck := hr.run_checkUsable
  exact ⟨fun _ _ _ => run_bind_error hcheck, fun _ _ _ => run_bind_error hcheck,
    fun _ _ => run_bind_error hcheck, fun _ => run_bind_error hcheck⟩

/-- When nothing is left to do, nobody waits for the turn to start the session. -/
theorem unqueued (hr : Resigned r h) (hg : Regular h) (hidle : h.loop.isIdle = true) (c : Nat) :
    ¬ h.Queued r.session c := by
  obtain ⟨a, ha, -, -, hd, hstate⟩ := hr.givenUp hg
  rw [Loop.isIdle, Bool.and_eq_true, Option.isNone_iff_eq_none, List.isEmpty_iff] at hidle
  obtain ⟨hrun, hjobs⟩ := hidle
  have hfree : a.starting = false := by
    rw [← Bool.not_eq_true]
    intro hstarting
    obtain ⟨t, fs, ht, hheld⟩ := hg.relay.driven _ a ha hstarting
    have hprompt {f : Frame} {rest : List Frame} (e : fs = f :: rest) : f.Inner := by
      by_contra hf
      obtain ⟨x, hx⟩ := hg.crowned.prompt t f rest (e ▸ ht) hf
      rw [hrun] at hx
      cases hx
    rcases (hg.crowned.crowned t fs ht).driven hheld with ⟨rest, e⟩ | ⟨rest, e⟩ |
      ⟨g, hgs, hdrives, hbegins⟩
    · cases (hprompt e).1
    · cases (hprompt e).2
    · refine hr.workless hg ht hgs ?_
      rcases hdrives with hs | hs
      · cases g with
        | startBody => cases hbegins
        | gotVersion | gotExtensions | checkWorker | gotStatus => exact .inl hs
        | gotInstall => exact .inr hs
        | launch i m replay =>
          cases m with
          | fast => exact .inr hs
          | withBuild => cases hs
        | _ => cases hs
      · exact .inr hs
  intro hq
  obtain ⟨b, hb, hc⟩ := hq
  rw [ha] at hb
  cases hb
  -- whoever is the first was called, so there is a job that lets it go on
  obtain ⟨d, ds, hw⟩ := List.exists_cons_of_ne_nil (List.ne_nil_of_mem hc)
  obtain ⟨u, fs, -, hgo⟩ := hg.relay.queued _ d ⟨a, ha, hw ▸ List.mem_cons_self⟩
  have hdone := hg.relay.called _ a d ds ha hfree hw
  rcases hgo with ⟨x, hx⟩ | ⟨-, ⟨hnone, -⟩ | hjob⟩
  · rw [hrun] at hx
    cases hx
  · rw [Loop.isDone, hnone] at hdone
    cases hdone
  · rw [hjobs] at hjob
    cases hjob

end Resigned

end Host

end GhciHost
