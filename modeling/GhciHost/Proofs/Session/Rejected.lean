import GhciHost.Proofs.Session.Destroyed

/-!
# Restarts that reject their root

A call to restart a session destroys the one of the project and looks at the root only then.  If no
worker may be started there, the call has done what it takes to destroy a session, and nothing else:
where the root cannot be resolved, or has no session, nothing at all.

* `restart_run`   the call begins;
* `Rejects`, `Rejects.fails`   how it goes on to its failure;
* `Aside`, `Stage.aside`   what its steps leave alone;
* `OnlyDestroyed`, `rejected_restart`   what it has done then.
-/

namespace GhciHost.Host

open Loop

variable {h h' k start : Host} {t s : Nat} {p : Option Nat} {e : Ending} {f : Frame}
  {below : List Frame} {ks js : List Host} {root kind : String} {targets : Option (List String)}
  {q : String × String}

/-! ## The call begins -/

/-- The targets of a session that is restarted: those of the session before, unless others are
    given. -/
def restartTargets (targets : Option (List String)) (q : String × String) (h : Host) :
    Option (List String) :=
  targets <|> (h.registry.find? q).map fun s => (h.sessionOf s).targets

theorem restart_run (hq : h.projectOf root kind = some q) : (restart root kind targets).run h =
    .ok (.call [.destroy root kind, .ensureReady root kind (restartTargets targets q h)]) h := by
  unfold projectOf at hq
  cases hpath : h.disk.resolveWritten root with
  | error x =>
    rw [hpath] at hq
    cases hq
  | ok path =>
    rw [hpath] at hq
    cases hq
    have hfound : (sessionOf? root kind).run h =
        .ok (h.registry.find? (kind, Pathname.renderAbsolute path)) h := by
      unfold sessionOf? resolveRoot
      rw [run_bind, run_bind_ok (run_get h), hpath]
      rfl
    unfold restart restartTargets
    rw [run_bind_ok hfound]
    cases targets with
    | some targets => rfl
    | none =>
      cases h.registry.find? (kind, Pathname.renderAbsolute path) <;> rfl

theorem LoopOnly.projectOf (hl : LoopOnly h h') :
    h'.projectOf root kind = h.projectOf root kind := by
  obtain ⟨l, rfl⟩ := hl
  rfl

theorem restart_run_error (hq : h.projectOf root kind = none) :
    ∃ x, (restart root kind targets).run h = .error (.path x) h := by
  unfold projectOf at hq
  cases hpath : h.disk.resolveWritten root with
  | ok path =>
    rw [hpath] at hq
    cases hq
  | error x =>
    refine ⟨x, ?_⟩
    unfold restart
    refine run_bind_error ?_
    unfold sessionOf? resolveRoot
    rw [run_bind, run_bind_ok (run_get h), hpath]
    rfl

/-- A root that is given is refused for where it leads. -/
theorem ne_empty_of_checkRoot {d : Disk} {whitelist blacklist : List String} {x : RootFault}
    (hroot : root ≠ "") (hx : d.checkRoot whitelist blacklist root = .ok (.error x)) :
    x ≠ .empty := by
  rintro rfl
  unfold Disk.checkRoot at hx
  rw [if_neg (by simpa [String.isEmpty_iff] using hroot)] at hx
  split at hx
  · cases hx
  · cases hx
  · simp only [bind, Except.bind] at hx
    repeat' split at hx
    all_goals cases hx

/-! ## The call goes on -/

/-- A call that takes a step keeps on, if it is not over. -/
theorem Underway.tick (hu : Underway start t below js h)
    (hdeep : ∃ fs, h.loop.stack? t = some fs ∧ below.length < fs.length) :
    Underway start t below (js ++ [h]) h.tick :=
  ⟨hu.run.tick, fun j hj => (List.mem_append.1 hj).elim (hu.deeper j) fun hj => by
    rw [List.mem_singleton.1 hj]
    exact hdeep⟩

/-- A call to restart a session finds its root refused: it was told in `h` whether a session was
    destroyed, and no worker may be started there, as things stand then. -/
structure Rejects (k : Host) (t : Nat) (root kind : String) (targets : Option (List String))
    (below : List Frame) (js : List Host) (h : Host) (x : RootFault) : Prop where
  underway : Underway k.tick.tick t (.ensureReady root kind targets :: below) js h
  returns : ∃ v, Returns h t (.ensureReady root kind targets :: below) v
  refused : h.disk.checkRoot h.settings.projectWhitelist h.settings.projectBlacklist root =
    .ok (.error x)

/-- A call that is told so fails, without another effect. -/
theorem getOrCreate_refused {x : RootFault} (hx : h.disk.checkRoot h.settings.projectWhitelist
    h.settings.projectBlacklist root = .ok (.error x)) :
    (getOrCreate root kind targets).run h = .error (.badRoot x) h := by
  unfold getOrCreate
  rw [run_bind_ok (run_get h), hx]
  rfl

/-- What a call does that looks at a root which is refused: it fails, and leaves no trace but in the
    loop. -/
theorem ensureReady_refused {x : RootFault} {v : Value}
    (hr : Runs h t (.ensureReady root kind targets :: below) (.value v))
    (hx : h.disk.checkRoot h.settings.projectWhitelist h.settings.projectBlacklist root =
      .ok (.error x)) :
    (∀ j ∈ [h, h.tick, h.tick.tick, h.tick.tick.tick],
      ∃ fs e, Runs j t fs e ∧ below.length < fs.length) ∧
      Runs h.tick.tick.tick.tick t below (.failed (.badRoot x)) ∧
      LoopOnly h h.tick.tick.tick.tick := by
  obtain ⟨r₁, s₁⟩ : Runs h.tick t
      (.getOrCreate root kind targets :: .startSession :: .waitReady :: below) (.value .unit) ∧
      LoopOnly h h.tick := hr.advance rfl rfl
  have hx₁ : h.tick.disk.checkRoot h.tick.settings.projectWhitelist
      h.tick.settings.projectBlacklist root = .ok (.error x) := by
    obtain ⟨l, e⟩ := s₁
    rw [e]
    exact hx
  obtain ⟨r₂, s₂⟩ := r₁.fail (getOrCreate_refused hx₁) rfl
  -- the frames that wait for a session are passed over
  obtain ⟨r₃, s₃⟩ : Runs h.tick.tick.tick t (.waitReady :: below) (.failed (.badRoot x)) ∧
      LoopOnly h.tick.tick h.tick.tick.tick := r₂.advance rfl rfl
  obtain ⟨r₄, s₄⟩ : Runs h.tick.tick.tick.tick t below (.failed (.badRoot x)) ∧
      LoopOnly h.tick.tick.tick h.tick.tick.tick.tick := r₃.advance rfl rfl
  have hlonger (f : Frame) (fs : List Frame) : below.length < (f :: fs ++ below).length := by
    rw [List.length_append, List.length_cons]
    omega
  refine ⟨?_, r₄, ((s₁.trans s₂).trans s₃).trans s₄⟩
  simp only [List.forall_mem_cons]
  exact ⟨⟨_, _, hr, hlonger _ []⟩, ⟨_, _, r₁, hlonger _ [.startSession, .waitReady]⟩,
    ⟨_, _, r₂, hlonger _ [.waitReady]⟩, ⟨_, _, r₃, hlonger _ []⟩, List.forall_mem_nil _⟩

/-- A call to restart a session whose root can be resolved looks the session up. -/
theorem runs_restart {v : Value} (hr : Runs k t (.restart root kind targets :: below) (.value v))
    (hq : k.projectOf root kind = some q) :
    k.tick = goOn t below
        (.call [.destroy root kind, .ensureReady root kind (restartTargets targets q k)]) k ∧
      Runs k.tick t
        (.destroy root kind :: .ensureReady root kind (restartTargets targets q k) :: below)
        (.value .unit) := by
  have e := hr.tick_of_ok (restart_run hq)
  refine ⟨e, ?_⟩
  rw [e]
  exact .continued hr.stack below _ _

theorem Runs.looksUp {v : Value} (hr : Runs h t (.destroy root kind :: below) (.value v)) :
    LooksUp h t root kind below := ⟨⟨v, hr.running⟩, hr.stack⟩

/-- All steps of a run are of one task. -/
def Alone (t : Nat) (js : List Host) : Prop := ∀ j ∈ js, ∃ e, j.loop.running = some (t, e)

/-- A call that rejects its root is a run to its failure. -/
theorem Rejects.fails {v : Value} {x : RootFault}
    (hr : Runs k t (.restart root kind targets :: below) (.value v))
    (hq : k.projectOf root kind = some q)
    (hj : Rejects k t root kind (restartTargets targets q k) below js h x) :
    Underway k t below (k :: k.tick :: (js ++ [h, h.tick, h.tick.tick, h.tick.tick.tick]))
        h.tick.tick.tick.tick ∧
      (Alone t js → Alone t (k :: k.tick :: (js ++ [h, h.tick, h.tick.tick, h.tick.tick.tick]))) ∧
      Runs h.tick.tick.tick.tick t below (.failed (.badRoot x)) ∧
      LoopOnly h h.tick.tick.tick.tick := by
  obtain ⟨v', hv⟩ := hj.returns
  obtain ⟨hdeep, hfails⟩ := ensureReady_refused ⟨hv.stack, hv.running⟩ hj.refused
  -- the steps are the first two, those that destroy, and the four to the failure
  refine ⟨⟨?_, fun j hmem => ?_⟩, fun halone j hmem => ?_, hfails⟩
  · have hstart : Run (· = k) (Outside Reaction.isAsked) [] k := .start rfl
    have hrun := (hstart.tick.tick.append hj.underway.run).tick.tick.tick.tick
    simpa using hrun
  · rcases List.mem_cons.1 hmem with rfl | hmem
    · exact ⟨_, hr.stack, by simp⟩
    rcases List.mem_cons.1 hmem with rfl | hmem
    · exact ⟨_, (runs_restart hr hq).2.stack, by simp only [List.length_cons]; omega⟩
    rcases List.mem_append.1 hmem with hmem | hmem
    · obtain ⟨fs, hfs, hlt⟩ := hj.underway.deeper j hmem
      exact ⟨fs, hfs, Nat.lt_of_succ_lt hlt⟩
    · obtain ⟨fs, e, hruns, hlt⟩ := hdeep j hmem
      exact ⟨fs, hruns.stack, hlt⟩
  · rcases List.mem_cons.1 hmem with rfl | hmem
    · exact ⟨_, hr.running⟩
    rcases List.mem_cons.1 hmem with rfl | hmem
    · exact ⟨_, (runs_restart hr hq).2.running⟩
    rcases List.mem_append.1 hmem with hmem | hmem
    · exact halone j hmem
    · obtain ⟨fs, e, hruns, -⟩ := hdeep j hmem
      exact ⟨e, hruns.running⟩

/-! ## What is left alone -/

/-- How many sessions and processes there are, and all processes but one. -/
def census (p : Option Nat) (h : Host) : Nat × Nat × (Nat → Option Process) :=
  (h.sessions.size, h.processes.size, fun r => if r ∈ p then none else h.processes.get? r)

/-- What is neither of a session nor its worker stays as it is: the registry, the other sessions
    with their lanes and channels, the other workers; and there are no more than before. -/
structure Aside (s : Nat) (p : Option Nat) (h h' : Host) : Prop where
  registry : h'.registry = h.registry
  part : ∀ i, i ≠ s → part i h' = part i h
  census : census p h' = census p h

/-- Whoever destroys one session and its worker starts none, and leaves the other workers alone. -/
theorem census_resume (hf : Tearing s f) (hp : ∀ r, f = .readerGone s r → r = p) (e : Ending) :
    Within (Same (census p)) (resume f e) := by
  have (g : Session → Session) : Within (Same (census p)) (changeSession s g) :=
    ⟨fun h => congrArg (·, h.processes.size, _) (Table.size_modify ..)⟩
  have (g : Lane → Lane) : Within (Same (census p)) (changeLane s g) := ⟨fun _ => rfl⟩
  have (g : QueryChannel → QueryChannel) : Within (Same (census p)) (changeChannel s g) :=
    ⟨fun _ => rfl⟩
  have (g : Loop Value Failure Frame → Loop Value Failure Frame) :
      Within (Same (census p)) (changeLoop g) := ⟨fun _ => rfl⟩
  have (e : Event) : Within (Same (census p)) (publish e) := ⟨fun _ => rfl⟩
  -- what is left is the one frame that changes a process, which is the worker's
  refine within_tearing (fun r hr g => ⟨fun h => ?_⟩) (fun _ _ _ => ⟨fun _ => rfl⟩) hf e
  obtain rfl := hp _ hr
  refine congrArg (h.sessions.size, ·) (Prod.ext (Table.size_modify ..) (funext fun i => ?_))
  by_cases hi : i ∈ some r
  · simp only [hi, if_true]
  · have hne : r ≠ i := fun e => hi (e ▸ rfl)
    simp only [hi, if_false]
    exact (Table.get?_modify ..).trans (if_neg hne)

theorem aside_resume (hf : Tearing s f) (hp : ∀ r, f = .readerGone s r → r = p) (e : Ending)
    (h : Host) : Aside s p h (after (resume f e) h) where
  registry := by
    have hregistrar : isRegistrar f = false := by cases hf <;> rfl
    exact (registry_resume hregistrar e).rel_after h
  part i hi := (part_resume (Ne.symm hi) hf e).rel_after h
  census := (census_resume hf hp e).rel_after h

/-- A step of a task that destroys a session leaves everything else alone. -/
theorem Stage.aside (k : Stage s t p below js h) (hrun : h.loop.running = some (t, e))
    (hdeep : ∃ fs, h.loop.stack? t = some fs ∧ below.length < fs.length) : Aside s p h h.tick := by
  have hstep {f : Frame} {fs : List Frame} (htop : h.loop.stack? t = some (f :: fs))
      (hf : Tearing s f) (hp : ∀ r, f = .readerGone s r → r = p) : Aside s p h h.tick := by
    have ha := aside_resume hf hp e h
    rw [tick_of_running hrun, step_eq htop]
    exact ⟨ha.registry, ha.part, ha.census⟩
  -- the frames of the call are not all gone, so the first of them takes the step
  obtain ⟨gs, hgs, hlt⟩ := hdeep
  have hshallow (hs : h.loop.stack? t = some below) : False := by
    cases hgs.symm.trans hs
    exact Nat.lt_irrefl _ hlt
  cases k with
  | tearing _ htop _ _ => exact hstep htop .teardown fun _ => nofun
  | parting htop _ _ => exact hstep htop (.readerGone p) fun r hr => by cases hr; rfl
  | cancelling _ htop _ _ _ => exact hstep htop .cancelQueries fun _ => nofun
  | draining htop _ _ _ => exact hstep htop (.queriesEnd _ _) fun _ => nofun
  | clearing _ htop _ _ _ => exact hstep htop .queriesGone fun _ => nofun
  | leaving _ htop _ => exact hstep htop (.give _) fun _ => nofun
  | left _ htop _ => exact (hshallow htop).elim
  | failing fs _ _ hfs htop =>
    cases fs with
    | nil => exact (hshallow htop).elim
    | cons f fs =>
      have hf := hfs.subset List.mem_cons_self
      simp only [List.mem_cons, List.not_mem_nil, or_false] at hf
      rcases hf with rfl | rfl | rfl
      · exact hstep htop .cancelQueries fun _ => nofun
      · exact hstep htop .queriesGone fun _ => nofun
      · exact hstep htop (.give _) fun _ => nofun

/-- A call was under way when it took its steps. -/
theorem Underway.before (hu : Underway start t below js h) {j : Host} (hj : j ∈ js) :
    ∃ is, Underway start t below is j := by
  obtain ⟨hrun, hdeep⟩ := hu
  induction hrun with
  | start => cases hj
  | @tick js h hrun ih =>
    have hdeep' : ∀ j ∈ js, _ := fun j hj => hdeep j (List.mem_append_left _ hj)
    rcases List.mem_append.1 hj with hj | hj
    · exact ih hj hdeep'
    · rw [List.mem_singleton.1 hj]
      exact ⟨js, hrun, hdeep'⟩
  | fire _ _ ih => exact ih hj hdeep
  | act _ _ _ ih => exact ih hj hdeep

/-! ## The whole call -/

/-- What a call to restart a session has done that destroyed it and went no further. -/
structure OnlyDestroyed (k : Host) (t : Nat) (q : String × String) (s : Nat) (js : List Host)
    (h : Host) : Prop where
  /-- The session was taken out of the registry, and nothing else was done so far. -/
  first : LoopOnly { k with registry := k.registry.erase q } k.tick.tick
  /-- Whatever the call did from then on, it left alone what is neither of the session nor its
      worker. -/
  aside : ∀ j ∈ js, (∃ e, j.loop.running = some (t, e)) → Aside s (k.sessionOf s).process j j.tick
  /-- The session's worker has ended and its work directory is gone. -/
  torn : TornDown s (k.sessionOf s).process js h
  /-- It stays destroyed. -/
  cleared : ∀ is i, Run (· = h) (Outside Reaction.isAsked) is i → Cleared s i

section

variable {v : Value} {x : RootFault}

/-- A call that found no session, and is told so, has done nothing. -/
theorem Rejects.idle (hk : Runs k t (.restart root kind targets :: below) (.value v))
    (hq : k.projectOf root kind = some q) (hs : k.registry.find? q = none)
    (hj : Rejects k t root kind (restartTargets targets q k) below js h x) : LoopOnly k h := by
  obtain ⟨hstart, hd⟩ := runs_restart hk hq
  have s₁ : LoopOnly k k.tick := hstart ▸ loopOnly_goOn ..
  have hrun := destroy_run (s₁.projectOf.trans hq)
  rw [s₁.registry, hs] at hrun
  -- the destroy is over at once, and so is what comes before the root is looked at
  obtain ⟨hover, s₂⟩ : Runs k.tick.tick t
      (.ensureReady root kind (restartTargets targets q k) :: below) (.value (.flag false)) ∧
      LoopOnly k.tick k.tick.tick := hd.advance hrun rfl
  exact (s₁.trans s₂).trans (hj.underway.over hover.running hover.stack).2

/-- A call that found a session has destroyed it. -/
theorem Rejects.onlyDestroyed (hr : Run Fresh (Outside Reaction.isAsked) ks k)
    (hk : Runs k t (.restart root kind targets :: below) (.value v))
    (hq : k.projectOf root kind = some q) (hs : k.registry.find? q = some s)
    (hj : Rejects k t root kind (restartTargets targets q k) below js h x) :
    OnlyDestroyed k t q s js h := by
  obtain ⟨hstart, hd⟩ := runs_restart hk hq
  have s₁ : LoopOnly k k.tick := hstart ▸ loopOnly_goOn ..
  have hq' : k.tick.projectOf root kind = some q := s₁.projectOf.trans hq
  have hs' : k.tick.registry.find? q = some s := by rw [s₁.registry, hs]
  have hp : (k.tick.sessionOf s).process = (k.sessionOf s).process := by
    rw [hstart]
    rfl
  have hrun := destroy_run hq'
  rw [hs'] at hrun
  obtain ⟨-, hpopped⟩ := hd.advance hrun rfl
  have hstage {is : List Host} {i : Host}
      (hu : Underway k.tick.tick t (.ensureReady root kind (restartTargets targets q k) :: below)
        is i) :
      Stage s t (k.sessionOf s).process
        (.ensureReady root kind (restartTargets targets q k) :: below) is i ∧ Sole s t i := by
    rw [← hp]
    exact stage_of_looked_up hr.tick hd.looksUp hq' hs' hu
  obtain ⟨hend, hsole⟩ := hstage hj.underway
  obtain ⟨v', hv⟩ := hj.returns
  have htorn := tornDown_of_returns hend hv
  refine ⟨?_, fun j hmem ⟨e, he⟩ => ?_, htorn, fun is i hi => ?_⟩
  · obtain ⟨l, e⟩ := hpopped
    rw [e, hstart]
    exact ⟨l, rfl⟩
  · obtain ⟨is, hu⟩ := hj.underway.before hmem
    exact (hstage hu).1.aside he (hj.underway.deeper j hmem)
  · exact cleared_of_run (hr.tick.tick.append hj.underway.run) hsole.unlisted htorn.gone
      htorn.silent hi

/-- A restart that rejects its root has done what it takes to destroy a session, and nothing else:
    for a root that cannot be resolved, or under which no session is in use, nothing at all. -/
theorem rejected_restart (hr : Run Fresh (Outside Reaction.isAsked) ks k)
    (hk : Runs k t (.restart root kind targets :: below) (.value v)) :
    (k.projectOf root kind = none →
      (∃ y, Runs k.tick t below (.failed (.path y))) ∧ LoopOnly k k.tick) ∧
    ∀ q, k.projectOf root kind = some q → ∀ js h x,
      Rejects k t root kind (restartTargets targets q k) below js h x →
      (Runs h.tick.tick.tick.tick t below (.failed (.badRoot x)) ∧
        LoopOnly h h.tick.tick.tick.tick) ∧
      (k.registry.find? q = none → LoopOnly k h) ∧
      (root ≠ "" → x ≠ .empty ∧ ∀ s, k.registry.find? q = some s → OnlyDestroyed k t q s js h) := by
  refine ⟨fun hq => ?_, fun q hq js h x hj => ⟨(hj.fails hk hq).2.2, fun hs => hj.idle hk hq hs,
    fun hroot => ⟨ne_empty_of_checkRoot hroot hj.refused, fun s hs =>
      hj.onlyDestroyed hr hk hq hs⟩⟩⟩
  obtain ⟨y, hrun⟩ : ∃ y, (restart root kind targets).run k = .error (.path y) k :=
    restart_run_error hq
  obtain ⟨hfails, hstill⟩ := hk.fail hrun rfl
  exact ⟨⟨y, hfails⟩, hstill⟩

end

/-! ## A session whose root is barred -/

/-- A compiler that is slow to tell its version. -/
def slow : Launcher :=
  { ghcVersion := [{ delay := some (.ofInt 1), outcome := .ok (Tool.usual .ghcVersion) }] }

/-- No worker may be started anywhere any longer. -/
def barRoots (h : Host) : Host :=
  { h with settings := { h.settings with projectBlacklist := ["/"] } }

/-- A session is being started where no other may be. -/
def barred : Host := barRoots (settleWithin 3 (begun slow))

/-- Somebody asks to restart it. -/
def asksToRestart : Host := after (newTask [.restart "/" "ghc" none]) barred

/-- The session was destroyed, and the root is looked at. -/
def rejecting : Host := settleWithin 6 asksToRestart.tick.tick.tick

theorem outside_barRoots {P : Reaction → Prop} (h : Host) : Outside P h (barRoots h) :=
  .world _ h.installer h.disk h.launcher h.connectionScripts h.bus

/-- The directory is refused. -/
theorem checkRoot_slash_barred (disk : Disk) : disk.checkRoot [] ["/"] "/" =
    .ok (.error (.blacklisted "/")) := by
  unfold Disk.checkRoot Disk.firstOver? Disk.liesUnder
  rw [if_neg (by decide +kernel), resolveWritten_slash]
  rfl

/-- The call begins. -/
theorem runs_asksToRestart : ∃ ks, Run Fresh (Outside Reaction.isAsked) ks asksToRestart.tick ∧
    Runs asksToRestart.tick 1 [.restart "/" "ghc" none] (.value .unit) := by
  have hbegun := (run_begun (P := Reaction.isAsked) slow).settleWithin 3
  have hidle : (settleWithin 3 (begun slow)).loop.running = none ∧ barred.loop.running = none := by
    decide +kernel
  have hbarred : Run Fresh (Outside Reaction.isAsked) _ barred :=
    .act hbegun hidle.1 (outside_barRoots _)
  have hasked : Run Fresh (Outside Reaction.isAsked) _ asksToRestart :=
    .act hbarred hidle.2 (.ask (.restart "/" "ghc" none))
  have hstart : asksToRestart.loop.running = none ∧ asksToRestart.loop.jobs = [.start 1] ∧
      (asksToRestart.loop.tasks.get? 1).map (·.cancelAsked) = some false ∧
      barred.loop.tasks.size = 1 := by
    decide +kernel
  obtain ⟨hidle, hjobs, hask, hsize⟩ := hstart
  have hnew (h : Host) (hsize : h.loop.tasks.size = 1) :
      (after (newTask [.restart "/" "ghc" none]) h).loop.stack? 1 =
        some [.restart "/" "ghc" none] :=
    (stack?_newTask h.loop _ 1).trans (if_pos hsize.symm)
  have htop : asksToRestart.loop.stack? 1 = some [.restart "/" "ghc" none] := by
    unfold asksToRestart
    exact hnew barred hsize
  obtain ⟨hrun, hs⟩ := tick_start hidle hjobs htop hask
  exact ⟨_, hasked.tick, hs, hrun⟩

/-- What a session is to be made ready with. -/
def ensures? : List Frame → Option (String × String × Option (List String))
  | [.ensureReady root kind targets] => some (root, kind, targets)
  | _ => none

theorem eq_of_ensures? {fs : List Frame} {root kind : String} {targets : Option (List String)}
    (hfs : ensures? fs = some (root, kind, targets)) : fs = [.ensureReady root kind targets] := by
  unfold ensures? at hfs
  split at hfs
  · cases hfs
    rfl
  · cases hfs

/-- The call destroys the session and finds its root refused; nobody else does anything. -/
theorem rejects_asksToRestart : asksToRestart.tick.registry.find? ("ghc", "/") = some 0 ∧
    rejecting.registry.find? ("ghc", "/") = none ∧
    Alone 1 (Run.settling 6 asksToRestart.tick.tick.tick) ∧
    Rejects asksToRestart.tick 1 "/" "ghc" (restartTargets none ("ghc", "/") asksToRestart.tick) []
      (Run.settling 6 asksToRestart.tick.tick.tick) rejecting (.blacklisted "/") := by
  obtain ⟨ks, hr, hk⟩ := runs_asksToRestart
  obtain ⟨hstart, hd⟩ := runs_restart hk (projectOf_slash _ "ghc")
  have hbefore : asksToRestart.tick.registry.find? ("ghc", "/") = some 0 ∧
      restartTargets none ("ghc", "/") asksToRestart.tick = some [] := by
    decide +kernel
  obtain ⟨hfind, htargets⟩ := hbefore
  have hfound : asksToRestart.tick.tick.registry.find? ("ghc", "/") = some 0 := by
    rw [hstart, (loopOnly_goOn ..).registry, hfind]
  have htick := hd.tick_of_ok ((destroy_run (projectOf_slash _ "ghc")).trans (by rw [hfound]))
  rw [htargets] at htick hstart ⊢
  -- from here on the run evaluates
  have hend : (Run.settling 6 asksToRestart.tick.tick.tick).all
        (fun j => (j.loop.stack? 1).any (1 < ·.length)) = true ∧
      (Run.settling 6 asksToRestart.tick.tick.tick).all
        (fun j => j.loop.running.map (·.1) = some 1) = true ∧
      (rejecting.loop.running.map fun x => (x.1, flag? x.2)) = some (1, some true) ∧
      (rejecting.loop.stack? 1).bind ensures? = some ("/", "ghc", some []) ∧
      rejecting.settings.projectWhitelist = [] ∧ rejecting.settings.projectBlacklist = ["/"] ∧
      rejecting.registry.find? ("ghc", "/") = none := by
    unfold rejecting
    rw [htick, hstart]
    decide +kernel
  obtain ⟨hdeep, halone, hflag, hover, hwhite, hblack, hgone⟩ := hend
  refine ⟨hfind, hgone, fun j hj => ?_, ⟨Run.settled _ 6, fun j hj => ?_⟩, ⟨.flag true, ?_, ?_⟩, ?_⟩
  · obtain ⟨⟨u, e⟩, hrunning, hu⟩ :=
      Option.map_eq_some_iff.1 (of_decide_eq_true (List.all_eq_true.1 halone j hj))
    cases hu
    exact ⟨e, hrunning⟩
  · obtain ⟨fs, hfs, hlt⟩ := (Option.any_eq_true _ _).1 (List.all_eq_true.1 hdeep j hj)
    exact ⟨fs, hfs, of_decide_eq_true hlt⟩
  · obtain ⟨y, hy, hflag⟩ := Option.map_eq_some_iff.1 hflag
    obtain ⟨ht, he⟩ := Prod.mk.inj hflag
    rw [hy, ← ht, ← eq_of_flag? he]
  · obtain ⟨fs, hfs, hfs'⟩ := Option.bind_eq_some_iff.1 hover
    rw [hfs, eq_of_ensures? hfs']
  · rw [hwhite, hblack]
    exact checkRoot_slash_barred _

/-- Somebody restarts a session whose root is barred by then: the session is destroyed. -/
theorem rejected_restart_barred : ∃ ks js h,
    Run Fresh (Outside Reaction.isAsked) ks asksToRestart.tick ∧
    Runs asksToRestart.tick 1 [.restart "/" "ghc" none] (.value .unit) ∧
    asksToRestart.tick.projectOf "/" "ghc" = some ("ghc", "/") ∧
    Rejects asksToRestart.tick 1 "/" "ghc" (restartTargets none ("ghc", "/") asksToRestart.tick) []
      js h (.blacklisted "/") ∧
    "/" ≠ "" ∧ asksToRestart.tick.registry.find? ("ghc", "/") = some 0 ∧
    Runs h.tick.tick.tick.tick 1 [] (.failed (.badRoot (.blacklisted "/"))) ∧
    OnlyDestroyed asksToRestart.tick 1 ("ghc", "/") 0 js h := by
  obtain ⟨ks, hr, hk⟩ := runs_asksToRestart
  obtain ⟨hfind, -, -, hj⟩ := rejects_asksToRestart
  have hq := projectOf_slash asksToRestart.tick "ghc"
  have hroot : "/" ≠ "" := by decide +kernel
  obtain ⟨⟨hfails, -⟩, -, hdone⟩ := (rejected_restart hr hk).2 _ hq _ _ _ hj
  exact ⟨ks, _, _, hr, hk, hq, hj, hroot, hfind, hfails, (hdone hroot).2 0 hfind⟩

/-- So not every restart that rejects its root leaves everything as it was, even if nobody else does
    anything meanwhile. -/
theorem rejected_restart_not_inert : ¬ ∀ (ks js : List Host) (k h : Host) (t : Nat)
    (root kind : String) (targets : Option (List String)) (below : List Frame) (v : Value)
    (x : RootFault),
    Run Fresh (Outside Reaction.isAsked) ks k →
    Runs k t (.restart root kind targets :: below) (.value v) →
    Underway k t below js h → Alone t js → Runs h t below (.failed (.badRoot x)) →
    h.registry = k.registry ∧ h.processes = k.processes ∧ h.lanes = k.lanes := by
  intro hinert
  obtain ⟨ks, hr, hk⟩ := runs_asksToRestart
  obtain ⟨hfind, hgone, halone, hj⟩ := rejects_asksToRestart
  obtain ⟨hu, hself, hfails, hloop⟩ := hj.fails hk (projectOf_slash asksToRestart.tick "ghc")
  obtain ⟨hregistry, -⟩ := hinert _ _ _ _ _ _ _ _ _ _ _ hr hk hu (hself halone) hfails
  rw [hloop.registry] at hregistry
  rw [hregistry, hfind] at hgone
  cases hgone

end GhciHost.Host
