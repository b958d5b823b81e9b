import GhciHost.Proofs.Session.Attended
import GhciHost.Proofs.Session.Destroyed

/-!
# Giving up is terminal

A session that gave up stays as it is until somebody drops it: nothing is checked, installed or
started for it, and it has nothing in its queue.  Whoever calls for it is refused, or gets the verdict,
and leaves no trace.  This holds in whatever order the calls are made and go on, and of whatever
happens besides, as long as nobody cancels the call.

* `Call`   what is asked of the session, and what comes of it;
* `Outstanding.tick`, `Outstanding.fire`, `Outstanding.outside`   a call goes on until it is answered;
* `rebuffs_of_run`   and so it does in each run;
* `givenUp_terminal`   what becomes of the session and of all calls.
-/

namespace GhciHost.Host

open Loop

variable {h h' i j : Host} {ks is js : List Host} {t c : Nat} {fs : List Frame} {r : Resignation}
  {root : String} {limit : Option Seconds} {x : Failure}

/-! ## Between the steps -/

instance : Handles Forbears where
  refl := .refl
  trans h k := h.trans k
  finish l c _ he := .finish l c he
  hook l c k _ := .hook l c k
  newCell := .newCell
  timers _ _ := .of_eq rfl rfl

instance forbears_newTask (fs : List Frame) : Within (Looped Forbears) (newTask fs) :=
  ⟨fun h => .newTask h.loop fs⟩

/-- What can happen between steps if nobody cancels anything. -/
def Undisturbed (P : Reaction → Prop) (h h' : Host) : Prop :=
  Outside P h h' ∧ Forbears h.loop h'.loop

/-- Nothing is cancelled but by who cancels it. -/
theorem undisturbed_or_cancel {P : Reaction → Prop} (ho : Outside P h h') :
    Undisturbed P h h' ∨ ∃ c, h' = after (changeLoop (·.cancel c)) h := by
  by_cases hcancel : ∃ c, h' = after (changeLoop (·.cancel c)) h
  · exact .inr hcancel
  · refine .inl ⟨ho, ?_⟩
    cases ho with
    | ask | submit | query | act => exact Within.rel_after (R := Looped Forbears) h
    | cancel c => exact absurd ⟨c, rfl⟩ hcancel
    | worker | world => exact .refl _
    | time => exact .of_eq rfl rfl

/-! ## What is asked -/

/-- What is asked of the session, by the root of its project or directly, and what the caller gets. -/
inductive Call (r : Resignation) (root : String) (limit : Option Seconds) :
    List Frame → Failure → Prop
  | ensureReady (targets : Option (List String)) :
      Call r root limit [.ensureReady root r.project.1 targets] (r.answer limit)
  | submit (command : String) (state : Json) (reaction : Option Reaction) :
      (∀ q ∈ reaction, q.isAsked) → Call r root limit
        [.getOrCreate root r.project.1 none, .startSession, .submitTo command state reaction] r.refusal
  | blockingCall (command : String) (timeout : Option Seconds) : Call r root limit
      [.getOrCreate root r.project.1 none, .startSession, .callOn command timeout] r.refusal
  | queryAsync (command : String) (state : Json) (reaction : Option Reaction) :
      (∀ q ∈ reaction, q.isAsked) → Call r root limit
        [.getOrCreate root r.project.1 none, .startSession, .queryOn command state reaction] r.refusal
  | callSession (command : String) (timeout : Option Seconds) :
      Call r root limit [.callSession r.session command timeout] r.refusal
  | querySession (command : String) : Call r root limit [.querySession r.session command] r.refusal

namespace Call

theorem asked (hc : Call r root limit fs x) : Asked Reaction.isAsked fs := by
  cases hc with
  | ensureReady targets => exact .ensureReady ..
  | submit command state reaction hr => exact .submit _ _ _ _ _ hr
  | blockingCall command timeout => exact .blockingCall ..
  | queryAsync command state reaction hr => exact .queryAsync _ _ _ _ _ hr
  | callSession command timeout => exact .callSession ..
  | querySession command => exact .querySession ..

theorem heads (hc : Call r root limit fs x) : Heads r root limit x fs (.value .unit) := by
  cases hc with
  | ensureReady targets => exact .ensure targets _ rfl
  | submit command state reaction => exact .find none _ (.submit command state reaction)
  | blockingCall command timeout => exact .find none _ (.call command timeout)
  | queryAsync command state reaction => exact .find none _ (.query command state reaction)
  | callSession command timeout => exact .direct _ (.call command timeout) rfl
  | querySession command => exact .direct _ (.query command) rfl

theorem replayless (hc : Call r root limit fs x) : ∀ f ∈ fs, f.replay? = none := by
  cases hc <;> simp [Frame.replay?]

end Call

/-! ## A call goes on -/

/-- What is known of the tasks and the sessions of every host. -/
structure Known (h : Host) : Prop where
  ordered : Ordered h
  named : Named h
  regular : Regular h

theorem known_of_run (hr : Run Fresh (Outside Reaction.isAsked) ks h) : Known h :=
  ⟨ordered_of_reachable hr.reachable, named_of_reachable hr.reachable, regular_of_run hr⟩

/-- The call is under way, and nobody can cancel it. -/
structure Outstanding (r : Resignation) (root : String) (limit : Option Seconds) (x : Failure)
    (t c : Nat) (h : Host) : Prop where
  unended : Unended t c h
  calling : Calling r root limit x t h
  attended : ∃ D S, Attended r.session t D S h

namespace Outstanding

/-- The call is made: its task is the only one that knows the cell that tells of its end. -/
theorem begins (hc : Call r root limit fs x) (k : Known h) :
    Outstanding r root limit x h.loop.tasks.size h.loop.cells.size (after (newTask fs) h) := by
  have hstack := stack?_newTask h.loop fs
  have hself : (h.loop.newTask fs).2.stack? h.loop.tasks.size = some fs :=
    (hstack _).trans (if_pos rfl)
  have hcells : (h.loop.newTask fs).2.cells.size = h.loop.cells.size + 1 := by simp [Loop.newTask]
  have htasks : (h.loop.newTask fs).2.tasks.size = h.loop.tasks.size + 1 := by simp [Loop.newTask]
  have hnone : Safe (fun _ => False) (fun _ => False) h :=
    { secluded := ⟨nofun, nofun, fun _ _ _ => .rfl, fun _ _ _ => id⟩
      frames := fun _ _ _ _ _ _ => id
      recalled := fun _ _ => id
      outcome := nofun
      asked := nofun
      running := nofun
      waits := nofun }
  have hnew : after (newTask fs) h = { h with loop := (h.loop.newTask fs).2 } := rfl
  rw [hnew]
  refine ⟨?_, .enters hself ?_ hc.heads, (· = h.loop.cells.size), (· = h.loop.tasks.size), ?_, rfl,
    fun u _ hu hut => absurd hu hut, fun gs i hs hi => ?_⟩
  · exact .of_grows k.ordered (.newTask (P := (· = fs)) h.loop rfl) (fun gs e => e ▸ hc.replayless)
      ((result?_newTask h.loop fs _).trans (if_pos rfl)) (outcome?_newTask h.loop fs) holds_newTask
  · exact List.mem_append_right _ List.mem_cons_self
  · refine hnone.grow k.ordered k.named (by rw [hcells]; exact Nat.le_succ _)
      (by rw [htasks]; exact Nat.le_succ _) nofun (fun d hd => .inr ?_) nofun
      (fun u hu => .inr ?_) (fun d u hd => ?_) (waiting_newTask h.loop fs)
      (outcome?_newTask h.loop fs) (fun u _ => asked_newTask) rfl (fun u gs hu hs => .inl ?_)
      fun d hd => ?_
    · rw [hd, hcells]
      exact ⟨Nat.le_refl _, Nat.lt_succ_self _⟩
    · rw [hu, htasks]
      exact ⟨Nat.le_refl _, Nat.lt_succ_self _⟩
    · replace hd : (h.loop.newTask fs).2.owner? d = some u := hd
      rw [owner?_newTask] at hd
      split at hd
      · next hcell =>
        cases hd
        exact .inr ⟨fun _ => rfl, fun _ => hcell⟩
      · exact .inl hd
    · exact (if_neg hu).symm.trans ((hstack u).symm.trans hs)
    · exact .of_loop hd
  · cases hself.symm.trans hs
    exact absurd hi (hc.heads.raceless i)

/-- The next step of the loop. -/
theorem tick (ho : Outstanding r root limit x t c h) (k : Known h) (hg : Resigned r h)
    (hs : Steady r root limit h) : Outstanding r root limit x t c h.tick ∨ Refused x t c h.tick := by
  obtain ⟨D, S, ha⟩ := ho.attended
  obtain ⟨D', S', ha'⟩ := ha.tick ho.calling k.ordered k.named k.regular hg hs
  exact (ho.calling.tick ho.unended k.ordered k.regular hg hs (ha'.safe.running t ha'.self)).imp_left
    fun ⟨hu, hc⟩ => ⟨hu, hc, D', S', ha'⟩

theorem fire (ho : Outstanding r root limit x t c h) (k : Known h) {v : Timer}
    (hv : v ∈ h.loop.timers) : Outstanding r root limit x t c (h.fire v) := by
  have o : Onward none h (h.fire v) := .fire k.ordered.filed hv
  have hs := spares_fire h v
  obtain ⟨D, S, ha⟩ := ho.attended
  exact ⟨ho.unended.onward k.ordered.filed k.ordered.owned o hs nofun,
    ho.calling.onward k.ordered o hs, D, S, ha.fire v⟩

theorem outside {P : Reaction → Prop} (ho : Outstanding r root limit x t c h) (k : Known h)
    (hu : Undisturbed P h h') : Outstanding r root limit x t c h' := by
  have o : Onward none h h' := .outside k.ordered.filed hu.1
  have hs := spares_outside hu.1
  obtain ⟨D, S, ha⟩ := ho.attended
  exact ⟨ho.unended.onward k.ordered.filed k.ordered.owned o hs nofun,
    ho.calling.onward k.ordered o hs, D, S, ha.outside k.ordered.filed hu.1 hu.2⟩

end Outstanding

/-! ## A call has ended -/

namespace Refused

theorem onward (hx : Refused x t c h) (o : Onward none h h') : Refused x t c h' :=
  ⟨o.moves.outcome c _ hx.outcome, o.moves.stack t _ nofun hx.stack⟩

theorem tick (hx : Refused x t c h) (k : Ordered h) : Refused x t c h.tick := by
  refine ⟨(Onward.tick k.inOrder k.filed).moves.outcome c _ hx.outcome, ?_⟩
  by_cases hrun : ∃ e, h.loop.running = some (t, e)
  · obtain ⟨e, hrun⟩ := hrun
    rw [tick_of_ended hrun hx.stack]
    exact (stack?_endTask h.loop t e t).trans hx.stack
  · exact stack?_tick k (fun e he => hrun ⟨e, he⟩) hx.stack

end Refused

/-- What comes of a call: what its task does leaves no trace, and the caller gets nothing but the
    failure, at the latest when nothing is left to do. -/
structure Rebuffs (x : Failure) (t c : Nat) (js : List Host) (j : Host) : Prop where
  traceless : ∀ k ∈ js, ∀ e, k.loop.running = some (t, e) → Traceless k k.tick
  only : ∀ o, j.loop.outcome? c = some o → o = .failed x
  ends : j.loop.isIdle = true → j.loop.outcome? c = some (.failed x)

/-- A session that gave up stays as it is, and nothing is done for it, as long as it is in use. -/
theorem resigned_of_run (hr : Run Fresh (Outside Reaction.isAsked) ks h) (hg : Resigned r h)
    (hi : Run (· = h) (Outside Reaction.isAsked) is i) (hkept : .drop r.project ∉ is.flatMap dealings) :
    Resigned r i ∧ ∀ d ∈ is.flatMap dealings, d.worksFor? ≠ some r.session := by
  induction hi with
  | start e => exact ⟨e ▸ hg, by simp⟩
  | @tick is i hi ih =>
    rw [List.flatMap_append, List.mem_append, not_or] at hkept
    obtain ⟨hg, hdealt⟩ := ih hkept.1
    have hrun := hr.append hi
    have hdrop : .drop r.project ∉ dealings i := by simpa using hkept.2
    refine ⟨hg.tick (regular_of_run hrun) hdrop, fun d hd => ?_⟩
    rw [List.flatMap_append, List.mem_append] at hd
    refine hd.elim (hdealt d) fun hd => ?_
    exact hg.dealings (regular_of_run hrun) (regular_of_run hrun.tick) hdrop (by simpa using hd)
  | fire _ _ ih => exact ⟨(ih hkept).1.fire _, (ih hkept).2⟩
  | act _ _ ho ih => exact ⟨(ih hkept).1.outside ho, (ih hkept).2⟩

/-- A run in which nobody cancels anything is a run. -/
theorem Run.of_undisturbed {start : Host → Prop} {P : Reaction → Prop}
    (hr : Run start (Undisturbed P) ks h) : Run start (Outside P) ks h := by
  induction hr with
  | start hs => exact .start hs
  | tick _ ih => exact ih.tick
  | fire _ ht ih => exact ih.fire ht
  | act _ hidle ho ih => exact ih.act hidle ho.1

/-- A call for a session that gave up goes on or has ended, and its task leaves no trace. -/
theorem outstanding_of_run (hr : Run Fresh (Outside Reaction.isAsked) ks h) (hg : Resigned r h)
    (hc : Call r root limit fs x) (hidle : h.loop.running = none)
    (hj : Run (· = after (newTask fs) h) (Undisturbed Reaction.isAsked) js j)
    (hkept : .drop r.project ∉ js.flatMap dealings) (hs : ∀ k ∈ js, Steady r root limit k) :
    (Outstanding r root limit x h.loop.tasks.size h.loop.cells.size j ∨
      Refused x h.loop.tasks.size h.loop.cells.size j) ∧
      ∀ k ∈ js, ∀ e, k.loop.running = some (h.loop.tasks.size, e) → Traceless k k.tick := by
  have hasked : Run Fresh (Outside Reaction.isAsked) ks (after (newTask fs) h) :=
    hr.act hidle (.ask hc.asked)
  have hg : Resigned r (after (newTask fs) h) := hg.ofLoop _
  have hknown {js : List Host} {j : Host}
      (hj : Run (· = after (newTask fs) h) (Undisturbed Reaction.isAsked) js j) : Known j :=
    known_of_run (hasked.append (Run.of_undisturbed hj))
  induction hj with
  | start e =>
    subst e
    exact ⟨.inl (.begins hc (known_of_run hr)), fun _ hk => absurd hk List.not_mem_nil⟩
  | @tick js j hj ih =>
    rw [List.flatMap_append, List.mem_append, not_or] at hkept
    obtain ⟨hstage, hquiet⟩ := ih hkept.1 fun k hk => hs k (List.mem_append_left _ hk)
    have k := hknown hj
    have hs : Steady r root limit j := hs j (List.mem_append_right _ List.mem_cons_self)
    have hgj := (resigned_of_run hasked hg (Run.of_undisturbed hj) hkept.1).1
    refine ⟨?_, fun k' hk' e hrun => ?_⟩
    · rcases hstage with ho | hx
      · exact ho.tick k hgj hs
      · exact .inr (hx.tick k.ordered)
    · rcases List.mem_append.1 hk' with hk' | hk'
      · exact hquiet k' hk' e hrun
      · cases List.mem_singleton.1 hk'
        rcases hstage with ho | hx
        · exact ho.calling.traceless k.ordered hgj hs hrun
        · rw [tick_of_ended hrun hx.stack]
          rfl
  | fire hj hv ih =>
    obtain ⟨hstage, hquiet⟩ := ih hkept hs
    have k := hknown hj
    exact ⟨hstage.imp (·.fire k hv) (·.onward (.fire k.ordered.filed hv)), hquiet⟩
  | act hj _ ho ih =>
    obtain ⟨hstage, hquiet⟩ := ih hkept hs
    have k := hknown hj
    exact ⟨hstage.imp (·.outside k ho) (·.onward (.outside k.ordered.filed ho.1)), hquiet⟩

/-- Whoever calls for a session that gave up is rebuffed. -/
theorem rebuffs_of_run (hr : Run Fresh (Outside Reaction.isAsked) ks h) (hg : Resigned r h)
    (hc : Call r root limit fs x) (hidle : h.loop.running = none)
    (hj : Run (· = after (newTask fs) h) (Undisturbed Reaction.isAsked) js j)
    (hkept : .drop r.project ∉ js.flatMap dealings) (hs : ∀ k ∈ js, Steady r root limit k) :
    Rebuffs x h.loop.tasks.size h.loop.cells.size js j := by
  obtain ⟨hstage, hquiet⟩ := outstanding_of_run hr hg hc hidle hj hkept hs
  refine ⟨hquiet, fun o ho => ?_, fun hend => ?_⟩
  · rcases hstage with hstage | hx
    · cases hstage.unended.undone.symm.trans ho
    · exact Option.some.inj (ho.symm.trans hx.outcome)
  · rcases hstage with hstage | hx
    · have hasked := hr.act hidle (.ask hc.asked)
      have hrun := hasked.append (Run.of_undisturbed hj)
      have hgj := (resigned_of_run hasked (hg.ofLoop _) (Run.of_undisturbed hj) hkept).1
      exact absurd hend
        (hstage.calling.not_idle (ordered_of_reachable hrun.reachable) (regular_of_run hrun) hgj)
    · exact hx.outcome

/-- A session that gave up stays as it is until it is dropped: it has no worker and nothing to do, and
    nothing is checked, installed or started for it.  Commands and queries are refused at once, who has
    waited for it gets the verdict, and whoever calls is rebuffed. -/
theorem givenUp_terminal (hr : Run Fresh (Outside Reaction.isAsked) ks h) (hg : Resigned r h)
    (hi : Run (· = h) (Outside Reaction.isAsked) is i)
    (hkept : .drop r.project ∉ is.flatMap dealings) :
    Resigned r i ∧ i.laneState r.session = (none, []) ∧
      (∀ d ∈ is.flatMap dealings, d.worksFor? ≠ some r.session) ∧
      (∀ command state reaction,
        (submitSession r.session command state reaction).run i = .error r.refusal i ∧
        (queryOn r.session command state reaction).run i = .error r.refusal i) ∧
      (readyCheck r.session).run i = .error r.verdict i ∧
      ∀ root limit fs x js j, Call r root limit fs x → i.loop.running = none →
        Run (· = after (newTask fs) i) (Undisturbed Reaction.isAsked) js j →
          .drop r.project ∉ js.flatMap dealings → (∀ k ∈ js, Steady r root limit k) →
            Rebuffs x i.loop.tasks.size i.loop.cells.size js j := by
  obtain ⟨hgi, hdealt⟩ := resigned_of_run hr hg hi hkept
  have hrun := hr.append hi
  obtain ⟨hsubmit, hquery, -, -⟩ := hgi.refuses
  exact ⟨hgi, (hgi.vacant (regular_of_run hrun)).1, hdealt,
    fun command state reaction => ⟨hsubmit command state reaction, hquery command state reaction⟩,
    readyCheck_run_givenUp hgi, fun _ _ _ _ _ _ hc hidle hj hkept hs => rebuffs_of_run hrun hgi hc hidle hj hkept hs⟩

/-- A launcher by which no worker can be installed. -/
def barren : Launcher :=
  { check := [{ outcome := .ok ⟨"", 1, false⟩ }]
    install := [{ outcome := .ok ⟨"no network", 1, false⟩ }] }

/-- The session gave up, and the first caller got the verdict. -/
def gaveUp : Host := settleWithin 60 (begun barren)

/-- Then a query was refused. -/
def queried : Host := settleWithin 20 (after (newTask [.querySession 0 "id"]) gaveUp)

/-- And then somebody asked for the session again. -/
def askedAgain : Host := after (newTask [.ensureReady "/" "ghc" none]) queried

/-- The session that gave up. -/
def failedInstall : Resignation where
  session := 0
  project := ("ghc", "/")
  key := "ghc:/"
  reason := "Installing intero-0.1.40 failed (exit code 1)"
  transcript := "$ stack build --copy-compiler-tool intero-0.1.40 ghc-paths-0.1.0.9 mtl-2.2.2 " ++
    "network-2.6.3.6 random-1.1 syb-0.7 --resolver lts-12.26\nno network\n"
  kind := .installFailure

theorem run_gaveUp : ∃ ks, Run Fresh (Outside Reaction.isAsked) ks gaveUp :=
  ⟨_, (run_begun barren).settleWithin 60⟩

theorem resigned_of_core (hfind : h.registry.find? ("ghc", "/") = some 0)
    (hcore : (h.core? 0).map (fun a => (a.phase, a.key)) =
      some (failedInstall.phase, failedInstall.key)) : Resigned failedInstall h := by
  obtain ⟨a, ha, e⟩ := Option.map_eq_some_iff.1 hcore
  exact ⟨hfind, a, ha, Prod.mk.inj e⟩

theorem resigned_gaveUp : Resigned failedInstall gaveUp :=
  resigned_of_core (by decide +kernel) (by decide +kernel)

/-- The root leads to the session's project in each host with the usual settings. -/
theorem steady_slash (hs : h.settings = {}) :
    Steady failedInstall "/" ({} : Settings).startupTimeout h := by
  have hroot := checkRoot_slash h.disk
  refine ⟨⟨[], ?_, by decide +kernel⟩, by rw [hs]⟩
  rw [hs]
  exact hroot

/-- Whoever looks for the session of a project drops none. -/
theorem drop_notMem_dealings {targets : Option (List String)} {kind : String} {e : Ending}
    {below : List Frame} {project : String × String}
    (hr : Runs h t (.getOrCreate root kind targets :: below) e) : .drop project ∉ dealings h := by
  intro hd
  unfold dealings at hd
  rw [hr.running] at hd
  dsimp only at hd
  rw [hr.stack] at hd
  rcases List.mem_append.1 hd with hd | hd
  · cases e with
    | value v =>
      unfold told at hd
      dsimp only at hd
      split at hd
      · cases List.mem_singleton.1 hd
      · cases hd
    | _ => cases hd
  · obtain ⟨g, -, hg⟩ := List.mem_filterMap.1 hd
    cases g <;> cases hg

/-- Steps that deal with no worker leave nothing in the log. -/
theorem notMem_of_quiet {d : Dealing} (hks : ks.all (fun k => (dealings k).isEmpty) = true) :
    d ∉ ks.flatMap dealings := fun hd => by
  obtain ⟨k, hk, hd⟩ := List.mem_flatMap.1 hd
  rw [List.isEmpty_iff.1 (List.all_eq_true.1 hks k hk)] at hd
  cases hd

theorem run_queried : ∃ ks, Run Fresh (Outside Reaction.isAsked) ks queried := by
  obtain ⟨ks, hr⟩ := run_gaveUp
  exact ⟨_, (hr.act (by decide +kernel) (.ask (.querySession 0 "id"))).settleWithin 20⟩

/-- The session is about to be looked up. -/
theorem runs_askedAgain : Runs askedAgain.tick.tick 3
    [.getOrCreate "/" "ghc" none, .startSession, .waitReady] (.value .unit) := by
  have hstate : queried.loop.running = none ∧ queried.loop.tasks.size = 3 ∧
      askedAgain.loop.running = none ∧ askedAgain.loop.jobs = [.start 3] ∧
      (askedAgain.loop.tasks.get? 3).map (·.cancelAsked) = some false := by decide +kernel
  obtain ⟨hidle, hsize, hnone, hjobs, hask⟩ := hstate
  have hnew (h : Host) (hsize : h.loop.tasks.size = 3) : (after (newTask
      [.ensureReady "/" "ghc" none]) h).loop.stack? 3 = some [.ensureReady "/" "ghc" none] :=
    (stack?_newTask h.loop _ 3).trans (if_pos hsize.symm)
  obtain ⟨ks, hr⟩ := run_queried
  have hasked : Run Fresh (Outside Reaction.isAsked) ks askedAgain :=
    hr.act hidle (.ask (.ensureReady "/" "ghc" none))
  have htop : askedAgain.loop.stack? 3 = some [.ensureReady "/" "ghc" none] := hnew queried hsize
  obtain ⟨hrun, hstack⟩ := tick_start hnone hjobs htop hask
  have hruns : Runs askedAgain.tick 3 [.ensureReady "/" "ghc" none] (.value .unit) := ⟨hstack, hrun⟩
  exact hruns.goes (ordered_of_reachable hasked.tick.reachable) rfl

/-- Nothing was done for the session until then. -/
theorem resigned_askedAgain : Resigned failedInstall askedAgain.tick.tick := by
  obtain ⟨ks, hr⟩ := run_gaveUp
  have hstate : gaveUp.loop.running = none ∧ queried.loop.running = none ∧
      ([] ++ Run.settling 20 (after (newTask [.querySession 0 "id"]) gaveUp) ++ [askedAgain] ++
        [askedAgain.tick]).all (fun k => (dealings k).isEmpty) = true := by
    decide +kernel
  obtain ⟨hidle, hidle', hquiet⟩ := hstate
  have hstart : Run (· = gaveUp) (Outside Reaction.isAsked) [] gaveUp := .start rfl
  have hi : Run (· = gaveUp) (Outside Reaction.isAsked) _ queried :=
    (hstart.act hidle (.ask (.querySession 0 "id"))).settleWithin 20
  have hasked : Run (· = gaveUp) (Outside Reaction.isAsked) _ askedAgain :=
    hi.act hidle' (.ask (.ensureReady "/" "ghc" none))
  exact (resigned_of_run hr resigned_gaveUp hasked.tick.tick (notMem_of_quiet hquiet)).1

/-- The session is found, and nothing else happens. -/
theorem Runs.found {targets : Option (List String)} {v : Value} {below : List Frame}
    (hr : Runs h t (.getOrCreate root r.project.1 targets :: below) (.value v)) (hg : Resigned r h)
    (hs : Steady r root limit h) :
    h.tick = { h with loop := proceed t below (.done (.session r.session)) h.loop } := by
  have e₁ : (resume (.getOrCreate root r.project.1 targets) (.value v)).run h = _ :=
    getOrCreate_run_found hg hs targets
  rw [hr.tick_eq, step_eq hr.stack, nextOf_of_ok e₁, after_of_ok e₁]

/-- Nothing is left to do in the end. -/
theorem run_askedAgain : ∃ js j, Run (· = askedAgain) (Undisturbed Reaction.isAsked) js j ∧
    .drop failedInstall.project ∉ js.flatMap dealings ∧
    (∀ k ∈ js, Steady failedInstall "/" ({} : Settings).startupTimeout k) ∧
    j.loop.isIdle = true := by
  have hfirst : ([] ++ [askedAgain] ++ [askedAgain.tick]).all (fun k => (dealings k).isEmpty) = true ∧
      askedAgain.settings = {} ∧ askedAgain.tick.settings = {} ∧
      askedAgain.tick.tick.settings = {} := by decide +kernel
  obtain ⟨hquiet, hs₀, hs₁, hs₂⟩ := hfirst
  have hruns := runs_askedAgain
  have hfound := hruns.found resigned_askedAgain (steady_slash hs₂)
  -- from here on the run evaluates
  have hlast : (Run.settling 20 askedAgain.tick.tick.tick).all (fun k => (dealings k).isEmpty) = true ∧
      (Run.settling 20 askedAgain.tick.tick.tick).all (fun k => k.settings = {}) = true ∧
      (settleWithin 20 askedAgain.tick.tick.tick).loop.isIdle = true := by
    rw [hfound]
    decide +kernel
  obtain ⟨hquiet', hsettings, hend⟩ := hlast
  have hstart : Run (· = askedAgain) (Undisturbed Reaction.isAsked) [] askedAgain := .start rfl
  refine ⟨_, _, hstart.tick.tick.tick.settleWithin 20, ?_, fun k hk => ?_, hend⟩
  · rw [List.flatMap_append, List.flatMap_append, List.mem_append, List.mem_append, not_or, not_or]
    refine ⟨⟨notMem_of_quiet hquiet, ?_⟩, notMem_of_quiet hquiet'⟩
    rw [List.flatMap_singleton]
    exact drop_notMem_dealings hruns
  · simp only [List.nil_append, List.mem_append, List.mem_singleton] at hk
    rcases hk with ((e | e) | e) | hk
    · exact steady_slash (by rw [e, hs₀])
    · exact steady_slash (by rw [e, hs₁])
    · exact steady_slash (by rw [e, hs₂])
    · exact steady_slash (of_decide_eq_true (List.all_eq_true.1 hsettings k hk))

/-- Who asks again gets the verdict. -/
theorem givenUp_terminal_again : ∃ ks is js j, Run Fresh (Outside Reaction.isAsked) ks gaveUp ∧
    Resigned failedInstall gaveUp ∧ Run (· = gaveUp) (Outside Reaction.isAsked) is queried ∧
    .drop failedInstall.project ∉ is.flatMap dealings ∧ Resigned failedInstall queried ∧
    Run (· = askedAgain) (Undisturbed Reaction.isAsked) js j ∧
    .drop failedInstall.project ∉ js.flatMap dealings ∧
    (∀ k ∈ js, Steady failedInstall "/" ({} : Settings).startupTimeout k) ∧
    j.loop.isIdle = true ∧ j.loop.outcome? 4 = some (.failed failedInstall.verdict) := by
  obtain ⟨ks, hr⟩ := run_gaveUp
  obtain ⟨js, j, hj, hkept', hs, hend⟩ := run_askedAgain
  have hstate : gaveUp.loop.running = none ∧ queried.loop.running = none ∧
      (queried.loop.tasks.size, queried.loop.cells.size) = (3, 4) ∧
      ([] ++ Run.settling 20 (after (newTask [.querySession 0 "id"]) gaveUp)).all
        (fun k => (dealings k).isEmpty) = true := by decide +kernel
  obtain ⟨hidle, hidle', hsize, hquiet⟩ := hstate
  have hstart : Run (· = gaveUp) (Outside Reaction.isAsked) [] gaveUp := .start rfl
  have hi : Run (· = gaveUp) (Outside Reaction.isAsked) _ queried :=
    (hstart.act hidle (.ask (.querySession 0 "id"))).settleWithin 20
  have hkept := notMem_of_quiet (d := .drop failedInstall.project) hquiet
  obtain ⟨hstill, -, -, -, -, hcalls⟩ := givenUp_terminal hr resigned_gaveUp hi hkept
  have hcall : Call failedInstall "/" ({} : Settings).startupTimeout [.ensureReady "/" "ghc" none]
      (failedInstall.answer ({} : Settings).startupTimeout) := .ensureReady none
  have hanswer : failedInstall.answer ({} : Settings).startupTimeout = failedInstall.verdict :=
    if_neg (by decide +kernel)
  have htold := (hcalls _ _ _ _ _ _ hcall hidle' hj hkept' hs).ends hend
  rw [hanswer, (Prod.mk.inj hsize).2] at htold
  exact ⟨ks, _, js, j, hr, resigned_gaveUp, hi, hkept, hstill, hj, hkept', hs, hend, htold⟩

end GhciHost.Host
