import GhciHost.Proofs.Session.Awaited
import GhciHost.Proofs.Session.Sheltered

/-!
# Calls for a session that gave up

Who asks something of a session that gave up finds the session, takes a turn and finds nothing to
start.  Then it is refused, or gets the verdict: at the latest when nothing is left to do.  Whatever
it does until then leaves no trace but in the loop, and in who has the turn.

* `Heads`   how a task goes on that was made for a call, and what its caller gets;
* `Heads.next`, `Heads.traceless`   a step of a call, and that it leaves no trace;
* `Calling.tick`, `Calling.onward`   a call is made, goes on, and ends;
* `Calling.not_idle`   nobody is kept waiting.
-/

namespace GhciHost

/-- What callers get who ask for the session itself and have so much time to wait. -/
def Resignation.answer (r : Resignation) (limit : Option Seconds) : Failure :=
  if Host.expired limit then .timeout else r.verdict

/-- What is asked of a session directly. -/
inductive Frame.Asks (s : Nat) : Frame → Prop
  | call (command : String) (timeout : Option Seconds) : Asks s (.callSession s command timeout)
  | query (command : String) : Asks s (.querySession s command)

/-- The frames of a call that only wait, and take turns. -/
def Frame.waits : Frame → Bool
  | .startSession | .startTurn .. | .startBody _ | .startEnd _ | .give _ | .waitReady | .readyEvent _
  | .readyCheck _ | .race _ | .reap .. | .ensureReady .. => true
  | _ => false

namespace Host

open Loop

variable {h h' : Host} {t c : Nat} {e : Ending} {f : Frame} {fs below : List Frame}
  {r : Resignation} {root : String} {limit : Option Seconds} {x : Failure}

/-! ## Calls -/

/-- What is asked of a session that was started, and what the caller gets. -/
inductive Wants (r : Resignation) (limit : Option Seconds) : Frame → Failure → Prop
  | session : Wants r limit .waitReady (r.answer limit)
  | submit (command : String) (state : Json) (reaction : Option Reaction) :
      Wants r limit (.submitTo command state reaction) r.refusal
  | call (command : String) (timeout : Option Seconds) :
      Wants r limit (.callOn command timeout) r.refusal
  | query (command : String) (state : Json) (reaction : Option Reaction) :
      Wants r limit (.queryOn command state reaction) r.refusal

/-- How a task goes on that was made for a call: its frames, and what the first of them is told. -/
inductive Heads (r : Resignation) (root : String) (limit : Option Seconds) (x : Failure) :
    List Frame → Ending → Prop
  | ensure (targets : Option (List String)) (v : Value) : x = r.answer limit →
      Heads r root limit x [.ensureReady root r.project.1 targets] (.value v)
  | find (targets : Option (List String)) (v : Value) {last : Frame} : Wants r limit last x →
      Heads r root limit x [.getOrCreate root r.project.1 targets, .startSession, last] (.value v)
  | found {last : Frame} : Wants r limit last x →
      Heads r root limit x [.startSession, last] (.value (.session r.session))
  | turn (c : Nat) (v : Value) {last : Frame} : Wants r limit last x →
      Heads r root limit x [.startTurn r.session c, .give (.session r.session), last] (.value v)
  | begin (v : Value) {last : Frame} : Wants r limit last x →
      Heads r root limit x [.startBody r.session, .startEnd r.session, .give (.session r.session),
        last] (.value v)
  | ended (v : Value) {last : Frame} : Wants r limit last x →
      Heads r root limit x [.startEnd r.session, .give (.session r.session), last] (.value v)
  | give (v : Value) {last : Frame} : Wants r limit last x →
      Heads r root limit x [.give (.session r.session), last] (.value v)
  | last {last : Frame} : Wants r limit last x →
      Heads r root limit x [last] (.value (.session r.session))
  | direct (v : Value) {f : Frame} : f.Asks r.session → x = r.refusal →
      Heads r root limit x [f] (.value v)
  | event (v : Value) : x = r.verdict →
      Heads r root limit x [.readyEvent r.session, .readyCheck r.session] (.value v)
  | check (v : Value) : x = r.verdict → Heads r root limit x [.readyCheck r.session] (.value v)
  | late : Heads r root limit x [.readyCheck r.session] (.failed x)
  | done : Heads r root limit x [] (.failed x)

/-! ## What a call leaves alone -/

/-- What is queued, asked and written, who works and is followed by whom, and what was noted. -/
def footprint (h : Host) : Table Lane × Table QueryChannel × Table Query × Table Process ×
    Table Connection × Journal × (Nat → Option Nat) :=
  (h.lanes, h.channels, h.queries, h.processes, h.connections, h.journal, h.readerOf)

@[inherit_doc footprint]
abbrev Traceless : Host → Host → Prop := Same footprint

namespace Traceless

/-- Nothing comes to be remembered. -/
theorem recalls (ht : Traceless h h') (hc : h'.Recalls c) : h.Recalls c := by
  have he : h'.footprint = h.footprint := ht
  obtain ⟨-, he⟩ := Prod.mk.inj he
  obtain ⟨-, he⟩ := Prod.mk.inj he
  obtain ⟨hqueries, he⟩ := Prod.mk.inj he
  obtain ⟨-, he⟩ := Prod.mk.inj he
  obtain ⟨-, he⟩ := Prod.mk.inj he
  obtain ⟨-, hreaders⟩ := Prod.mk.inj he
  cases hc with
  | reader hs => exact .reader (hreaders ▸ hs)
  | query hx ht => exact .query (hqueries ▸ hx) ht

instance newCell : Within Traceless newCell := ⟨fun _ => rfl⟩

instance newTask (fs : List Frame) : Within Traceless (newTask fs) := ⟨fun _ => rfl⟩

instance newTimer (d : Binary64) : Within Traceless (onLoop (·.newTimer d)) := ⟨fun _ => rfl⟩

instance changeLoop (g : Loop Value Failure Frame → Loop Value Failure Frame) :
    Within Traceless (changeLoop g) := ⟨fun _ => rfl⟩

theorem changeSession (s : Nat) {g : Session → Session} (hg : ∀ a, (g a).reader = a.reader) :
    Within Traceless (changeSession s g) := by
  refine ⟨fun h => ?_⟩
  have hreaders : (after (Host.changeSession s g) h).readerOf = h.readerOf := by
    funext i
    refine (readerOf_changeSession h s i g).trans ?_
    simp only [hg]
    exact ite_self _
  show footprint _ = footprint h
  simp only [footprint, hreaders]
  rfl

instance setStarting (s : Nat) (starting : Bool) :
    Within Traceless (Host.changeSession s fun a => { a with starting }) :=
  changeSession s fun _ => rfl

instance addStartWaiter (s c : Nat) : Within Traceless (Host.changeSession s fun a =>
    { a with startWaiters := a.startWaiters ++ [c] }) := changeSession s fun _ => rfl

instance eraseStartWaiter (s c : Nat) : Within Traceless (Host.changeSession s fun a =>
    { a with startWaiters := a.startWaiters.erase c }) := changeSession s fun _ => rfl

instance addReadyWaiter (s c : Nat) : Within Traceless (Host.changeSession s fun a =>
    { a with readyWaiters := a.readyWaiters ++ [c] }) := changeSession s fun _ => rfl

instance releaseAll (cells : List Nat) : Within Traceless (releaseAll cells) := ⟨fun _ => rfl⟩

end Traceless

theorem traceless_resume (hf : f.waits = true) (e : Ending) : Within Traceless (resume f e) := by
  cases f with
  | race cell => exact inferInstanceAs (Within _ (raceOver cell e))
  | reap cell timeUp => exact inferInstanceAs (Within _ (reaped cell timeUp e))
  | startTurn s c => exact inferInstanceAs (Within _ (startTurn s c e))
  | startEnd s => exact inferInstanceAs (Within _ (startEnd s e))
  | give v => cases e <;> exact inferInstanceAs (Within Traceless (pure _))
  | ensureReady root kind targets => cases e <;> exact inferInstanceAs (Within Traceless (pure _))
  | startSession =>
    cases e with
    | value v =>
      cases v with
      | session s => exact inferInstanceAs (Within _ (startSession s))
      | _ => exact inferInstanceAs (Within Traceless (pure _))
    | _ => exact inferInstanceAs (Within Traceless (pure _))
  | waitReady =>
    cases e with
    | value v =>
      cases v with
      | session s => exact inferInstanceAs (Within _ (waitReady s))
      | _ => exact inferInstanceAs (Within Traceless (pure _))
    | _ => exact inferInstanceAs (Within Traceless (pure _))
  | startBody s =>
    cases e with
    | value v => exact inferInstanceAs (Within _ (startBody s))
    | _ => exact inferInstanceAs (Within Traceless (pure _))
  | readyEvent s =>
    cases e with
    | value v => exact inferInstanceAs (Within _ (readyEvent s))
    | _ => exact inferInstanceAs (Within Traceless (pure _))
  | readyCheck s =>
    cases e with
    | value v => exact inferInstanceAs (Within _ (readyCheck s))
    | _ => exact inferInstanceAs (Within Traceless (pure _))
  | _ => cases hf

/-! ## Steps of a call -/

/-- The circumstances of a call: the root leads to the project, and there is so much time to wait. -/
structure Steady (r : Resignation) (root : String) (limit : Option Seconds) (h : Host) : Prop where
  root : ∃ path, h.disk.checkRoot h.settings.projectWhitelist h.settings.projectBlacklist root =
    .ok (.ok path) ∧ Pathname.renderAbsolute path = r.project.2
  limit : h.settings.startupTimeout = limit

/-- How far a call is. -/
inductive Calling (r : Resignation) (root : String) (limit : Option Seconds) (x : Failure) (t : Nat)
    (h : Host) : Prop
  | enters {fs : List Frame} : h.loop.stack? t = some fs → Parked h t none →
      Heads r root limit x fs (.value .unit) → Calling r root limit x t h
  | runs {fs : List Frame} {e : Ending} : Runs h t fs e → Heads r root limit x fs e →
      Calling r root limit x t h
  | queues {c : Nat} {last : Frame} :
      h.loop.stack? t = some [.startTurn r.session c, .give (.session r.session), last] →
      Parked h t (some c) → Wants r limit last x → Calling r root limit x t h
  | awaits {u i w : Nat} : x = r.answer limit →
      Awaits r.session t (expired limit) h u i w → Calling r root limit x t h
  | woken {u i : Nat} {e : Ending} : x = r.answer limit →
      Woken r.session t (expired limit) h u i e → e ≠ .cancelled → Calling r root limit x t h

/-- The call has ended, and its caller gets the failure. -/
structure Refused (x : Failure) (t c : Nat) (h : Host) : Prop where
  outcome : h.loop.outcome? c = some (.failed x)
  stack : h.loop.stack? t = some []

/-- The project's session is found. -/
theorem getOrCreate_run_found (hg : Resigned r h) (hs : Steady r root limit h)
    (targets : Option (List String)) :
    (getOrCreate root r.project.1 targets).run h = .ok (.done (.session r.session)) h := by
  obtain ⟨path, hpath, hname⟩ := hs.root
  unfold getOrCreate
  rw [run_bind_ok (run_get h), hpath]
  dsimp only
  rw [hname, show (r.project.1, r.project.2) = r.project from rfl, hg.registered]
  rfl

/-- There is nothing to start. -/
theorem startBody_run_givenUp (hg : Resigned r h) :
    (startBody r.session).run h = .ok (.done .unit) h := by
  obtain ⟨a, ha, hphase, -⟩ := hg.core
  have hp : (h.sessionOf r.session).phase = r.phase := (phase_eq ha).trans hphase
  unfold startBody
  have hne : (h.sessionOf r.session).phase ≠ .absent := by
    rw [hp]
    nofun
  rw [run_bind_ok (run_session _ h), if_pos (.inl hne)]
  rfl

/-- The verdict. -/
theorem readyCheck_run_givenUp (hg : Resigned r h) :
    (readyCheck r.session).run h = .error r.verdict h := by
  obtain ⟨a, ha, hphase, hkey⟩ := hg.core
  have hp : (h.sessionOf r.session).phase = .givenUp r.reason r.transcript r.kind :=
    (phase_eq ha).trans hphase
  have hk : (h.sessionOf r.session).key = r.key := (key_eq ha).trans hkey
  unfold readyCheck
  rw [run_bind_ok (run_session _ h), hp, hk]
  rfl

theorem Heads.calm (hh : Heads r root limit x fs e) : e ≠ .cancelled := by
  rintro rfl
  cases hh

theorem Heads.raceless (hh : Heads r root limit x fs e) (c : Nat) : .race c ∉ fs := by
  have hlast {last : Frame} (hw : Wants r limit last x) : .race c ≠ last := by cases hw <;> nofun
  have hasks {f : Frame} (hf : f.Asks r.session) : .race c ≠ f := by cases hf <;> nofun
  cases hh with
  | find _ _ hw | found hw | turn _ _ hw | begin _ hw | ended _ hw | give _ hw | last hw =>
    simpa using hlast hw
  | direct _ hf => simpa using hasks hf
  | _ => simp

/-- How a call goes on: at once, or it queues for its turn, or waits for a task of its own. -/
inductive Heads.Next (r : Resignation) (root : String) (limit : Option Seconds) (x : Failure)
    (f : Frame) (below : List Frame) (e : Ending) (h : Host) : Prop
  | goes {push : List Frame} {e' : Ending} : nextOf (resume f e) h = .go push e' →
      (∀ D S, Looped (Loop.Evades D S) h (after (resume f e) h)) →
      Heads r root limit x (push ++ below) e' → Next r root limit x f below e h
  | queues {last : Frame} {h₁ : Host} : f = .startSession → below = [last] →
      (resume f e).run h = .ok (.wait [.startTurn r.session h.loop.cells.size,
        .give (.session r.session)] h.loop.cells.size) h₁ →
      h₁.loop = h.loop.newCell.2 → Wants r limit last x → Next r root limit x f below e h
  | awaits {l : Seconds} : f = .waitReady → below = [] → e = .value (.session r.session) →
      limit = some l → x = r.answer limit → Next r root limit x f below e h

/-- A step of a call. -/
theorem Heads.next (hh : Heads r root limit x (f :: below) e) (hreg : Regular h) (hg : Resigned r h)
    (hs : Steady r root limit h) : Heads.Next r root limit x f below e h := by
  obtain ⟨a, ha, -, -⟩ := hg.core
  obtain ⟨hsubmit, hquery, hcall, hask⟩ := hg.refuses
  have hgoes {push : List Frame} {e' : Ending} {h₁ : Host} (hcancel : f.cancels = false)
      (e₁ : (resume f e).run h = .ok (.go push e') h₁)
      (hh : Heads r root limit x (push ++ below) e') : Heads.Next r root limit x f below e h :=
    .goes (nextOf_of_ok e₁) (fun D S => (Looped.resume (fun hc => by rw [hcancel] at hc; cases hc)
      fun _ _ _ _ _ _ => inferInstance).rel_after h) hh
  have hstill {push : List Frame} {e' : Ending} (e₁ : (resume f e).run h = .ok (.go push e') h)
      (hh : Heads r root limit x (push ++ below) e') : Heads.Next r root limit x f below e h :=
    .goes (nextOf_of_ok e₁) (fun D S => by rw [after_of_ok e₁]; exact Std.Refl.refl h) hh
  have hfails {y : Failure} (e₁ : (resume f e).run h = .error y h)
      (hh : Heads r root limit x below (.failed y)) : Heads.Next r root limit x f below e h :=
    have hgo : nextOf (resume f e) h = .go [] (.failed y) := by simp [nextOf, e₁, Host.Next.pass]
    .goes hgo (fun D S => by rw [after_of_error e₁]; exact Std.Refl.refl h) hh
  cases hh with
  | ensure targets v hx => exact hstill rfl (.find targets _ (hx ▸ .session))
  | find targets v hw => exact hstill (getOrCreate_run_found hg hs targets) (.found hw)
  | found hw =>
    rcases startSession_run ha with ⟨-, -, h₁, e₁, -⟩ | ⟨c, h₁, hc, -, e₁, hv⟩
    · exact hgoes rfl e₁ (.begin _ hw)
    · subst hc
      exact .queues rfl rfl e₁ (congrArg View.loop hv) hw
  | turn c v hw =>
    obtain ⟨h₁, e₁, -⟩ := startTurn_run r.session c v h
    exact hgoes rfl e₁ (.begin _ hw)
  | begin v hw => exact hstill (startBody_run_givenUp hg) (.ended _ hw)
  | ended v hw =>
    obtain ⟨h₁, e₁, -⟩ := startEnd_run ha (.value v)
    exact hgoes rfl e₁ (.give _ hw)
  | give v hw => exact hstill rfl (.last hw)
  | last hw =>
    cases hw with
    | session =>
      cases hlimit : limit with
      | none =>
        subst hlimit
        have e₁ : (waitReady r.session).run h =
            .ok (.call [.readyEvent r.session, .readyCheck r.session]) h := by
          unfold waitReady
          rw [run_bind_ok (run_get h), hs.limit]
          rfl
        exact hstill e₁ (.event _ rfl)
      | some l => exact hlimit ▸ .awaits rfl rfl rfl hlimit rfl
    | submit command state reaction =>
      exact hfails (run_bind_error (hsubmit command state reaction)) .done
    | call command timeout => exact hfails (hcall command timeout) .done
    | query command state reaction =>
      exact hfails (run_bind_error (hquery command state reaction)) .done
  | direct v hf hx =>
    subst hx
    cases hf with
    | call command timeout => exact hfails (hcall command timeout) .done
    | query command => exact hfails (hask command) .done
  | event v hx => exact hstill (readyEvent_run (hg.vacant hreg).2) (.check _ hx)
  | check v hx =>
    subst hx
    exact hfails (readyCheck_run_givenUp hg) .done
  | late => exact hstill rfl .done

/-- How far a call is after a step. -/
theorem Heads.calling (hh : Heads r root limit x (f :: below) e) (hr : Runs h t (f :: below) e)
    (k : Ordered h) (hreg : Regular h) (hg : Resigned r h) (hs : Steady r root limit h) :
    Calling r root limit x t h.tick := by
  have ks := hr.steps k
  have hself := ks.stack_self
  rw [← hr.tick_eq] at hself
  cases hh.next hreg hg hs with
  | goes hgo _ hh => exact .runs (hr.on k hgo) hh
  | @queues last h₁ hf hbelow e₁ hloop hw =>
    subst hf hbelow
    have hlt : h.loop.cells.size < h₁.loop.cells.size := by
      rw [hloop]
      simp [Loop.newCell]
    have hnew : h₁.loop.outcome? h.loop.cells.size = none := by
      rw [hloop]
      exact outcome?_newCell h.loop
    have hwait := ks.waits e₁ hlt hnew
    rw [nextOf_of_ok e₁] at hself
    rw [← hr.tick_eq] at hwait
    exact .queues hself hwait hw
  | @awaits l hf hbelow he hlimit hx =>
    subst hf hbelow he hlimit
    exact .awaits hx (hr.awaits k hs.limit)

/-- A step of a call leaves no trace. -/
theorem Heads.traceless (hh : Heads r root limit x fs e) (hr : Runs h t fs e) (hg : Resigned r h)
    (hs : Steady r root limit h) : Traceless h h.tick := by
  obtain ⟨hsubmit, hquery, hcall, hask⟩ := hg.refuses
  have hframe {f : Frame} {below : List Frame} (hr : Runs h t (f :: below) e)
      (hf : Traceless h (after (resume f e) h)) : Traceless h h.tick := by
    rw [hr.tick_eq, step_eq hr.stack]
    exact hf
  have hwaits {f : Frame} {below : List Frame} (hr : Runs h t (f :: below) e)
      (hf : f.waits = true) : Traceless h h.tick :=
    hframe hr ((traceless_resume hf e).rel_after h)
  have hfails {f : Frame} {below : List Frame} {y : Failure} (hr : Runs h t (f :: below) e)
      (e₁ : (resume f e).run h = .error y h) : Traceless h h.tick :=
    hframe hr (by rw [after_of_error e₁]; rfl)
  cases hh with
  | ensure | found | turn | begin | ended | give | event | check | late => exact hwaits hr rfl
  | find targets v hw =>
    refine hframe hr ?_
    rw [after_of_ok (show (resume (.getOrCreate root r.project.1 targets) (.value v)).run h = _ from
      getOrCreate_run_found hg hs targets)]
    rfl
  | last hw =>
    cases hw with
    | session => exact hwaits hr rfl
    | submit command state reaction =>
      exact hfails hr (run_bind_error (hsubmit command state reaction))
    | call command timeout => exact hfails hr (hcall command timeout)
    | query command state reaction =>
      exact hfails hr (run_bind_error (hquery command state reaction))
  | direct v hf hx =>
    cases hf with
    | call command timeout => exact hfails hr (hcall command timeout)
    | query command => exact hfails hr (hask command)
  | done =>
    rw [hr.tick_eq, step, show (h.loop.tasks.get? t).map (·.stack) = some [] from hr.stack]
    rfl

namespace Calling

theorem onward (hst : Calling r root limit x t h) (k : Ordered h) (o : Onward none h h')
    (hs : Loop.Spares none h.loop h'.loop) : Calling r root limit x t h' := by
  cases hst with
  | enters hstack hp hh =>
    exact .enters (o.moves.stack t _ nofun hstack) (hp.moves o.moves nofun) hh
  | runs hr hh => exact .runs (hr.moves o.moves nofun) hh
  | queues hstack hp hw =>
    exact .queues (o.moves.stack t _ nofun hstack) (hp.moves o.moves nofun) hw
  | awaits hx ha => exact .awaits hx (ha.onward k o hs)
  | woken hx hw he => exact .woken hx (hw.onward k o hs) he

/-- The call goes on, or has ended, unless it is cancelled. -/
theorem tick (hst : Calling r root limit x t h) (hu : Unended t c h) (k : Ordered h)
    (hreg : Regular h) (hg : Resigned r h) (hs : Steady r root limit h)
    (hcalm : h.tick.loop.running ≠ some (t, .cancelled)) :
    Unended t c h.tick ∧ Calling r root limit x t h.tick ∨ Refused x t c h.tick := by
  have hgo (hmore : h.loop.stack? t ≠ some [] ∨ ∀ e, h.loop.running ≠ some (t, e))
      (hst : Calling r root limit x t h.tick) :
      Unended t c h.tick ∧ Calling r root limit x t h.tick ∨ Refused x t c h.tick :=
    .inl ⟨hu.tick k hmore, hst⟩
  cases hst with
  | enters hstack hp hh =>
    refine hgo (.inr fun e => hp.not_running k.inOrder.sound) ?_
    rcases hp.tick k with ⟨-, hp'⟩ | ⟨e, hrun, htold⟩
    · exact .enters (hp.stack k hstack) hp' hh
    · rcases htold with rfl | ⟨-, ⟨-, rfl⟩ | ⟨c, hc, -⟩⟩
      · exact absurd hrun hcalm
      · exact .runs ⟨hp.stack k hstack, hrun⟩ hh
      · cases hc
  | @runs fs e hr hh =>
    cases fs with
    | nil =>
      cases hh
      obtain ⟨o, ho, rfl | ⟨-, v, hv⟩⟩ := hu.ended k hr.running hr.stack
      · refine .inr ⟨ho, ?_⟩
        rw [tick_of_ended hr.running hr.stack]
        exact (stack?_endTask h.loop t _ t).trans hr.stack
      · cases hv
    | cons f below =>
      exact hgo (.inl (by rw [hr.stack]; nofun)) (hh.calling hr k hreg hg hs)
  | @queues d last hstack hp hw =>
    refine hgo (.inl (by rw [hstack]; nofun)) ?_
    rcases hp.tick k with ⟨-, hp'⟩ | ⟨e, hrun, htold⟩
    · exact .queues (hp.stack k hstack) hp' hw
    · rcases htold with rfl | ⟨-, ⟨hno, -⟩ | ⟨d', hd, he⟩⟩
      · exact absurd hrun hcalm
      · cases hno
      · cases hd
        have hq : h.Queued r.session d :=
          (k.inOrder.queues.turn t _ _ _ _ hstack List.mem_cons_self rfl).2.1
        cases e with
        | value v => exact .runs ⟨hp.stack k hstack, hrun⟩ (.turn d v hw)
        | failed y => exact absurd he (hreg.relay.unfailed _ _ y hq)
        | cancelled => exact absurd hrun hcalm
  | awaits hx ha =>
    refine hgo (.inl (by rw [ha.stack]; nofun)) ?_
    rcases ha.tick k (hg.vacant hreg).2 with ha' | ⟨e, hw⟩
    · exact .awaits hx ha'
    · exact .woken hx hw fun he => hcalm (he ▸ hw.runs.running)
  | @woken u i e hx hw he =>
    refine hgo (.inl (by rw [hw.runs.stack]; nofun)) ?_
    obtain ⟨e', e₁, htold⟩ := hw.told he
    have hr : Runs h.tick t [.readyCheck r.session] e' := hw.runs.goes k e₁
    cases htold with
    | timeout hl he' =>
      have hx : x = .timeout := by rw [hx, Resignation.answer, if_pos hl]
      exact .runs (he' ▸ hr) (hx ▸ .late)
    | ended hl _ he' =>
      have hx : x = r.verdict := by rw [hx, Resignation.answer, if_neg (by rw [hl]; nofun)]
      rcases he' with rfl | rfl
      · exact absurd hr.running hcalm
      · exact .runs hr (.check _ hx)

/-- When nothing is left to do, no call is under way. -/
theorem not_idle (hst : Calling r root limit x t h) (k : Ordered h) (hreg : Regular h)
    (hg : Resigned r h) : h.loop.isIdle ≠ true := by
  intro hidle
  have hrun : h.loop.running = none := by
    rw [Loop.isIdle, Bool.and_eq_true, Option.isNone_iff_eq_none] at hidle
    exact hidle.1
  cases hst with
  | enters _ hp =>
    obtain ⟨c, hc, -⟩ := hp.undone hidle
    cases hc
  | runs hr =>
    rw [hr.running] at hrun
    cases hrun
  | queues hstack =>
    exact hg.unqueued hreg hidle _
      (k.inOrder.queues.turn t _ _ _ _ hstack List.mem_cons_self rfl).2.1
  | awaits _ ha => exact ha.not_idle hidle
  | woken _ hw =>
    rw [hw.runs.running] at hrun
    cases hrun

/-- What the task of a call does leaves no trace. -/
theorem traceless (hst : Calling r root limit x t h) (k : Ordered h) (hg : Resigned r h)
    (hs : Steady r root limit h) (hrun : h.loop.running = some (t, e)) : Traceless h h.tick := by
  cases hst with
  | enters _ hp => exact absurd hrun (hp.not_running k.inOrder.sound)
  | runs hr hh => exact hh.traceless hr hg hs
  | queues _ hp => exact absurd hrun (hp.not_running k.inOrder.sound)
  | awaits _ ha => exact absurd hrun (ha.parked.not_running k.inOrder.sound)
  | woken _ hw =>
    rw [hw.runs.tick_eq, step_eq hw.runs.stack]
    have hf (late : Bool) (i : Nat) : (awaitFrame late i).waits = true := by
      unfold awaitFrame
      split <;> rfl
    exact (traceless_resume (hf _ _) _).rel_after h

end Calling

end Host

end GhciHost
