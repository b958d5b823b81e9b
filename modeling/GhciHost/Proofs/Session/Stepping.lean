import GhciHost.Proofs.Session.Stages

/-!
# Startups and ends of sessions keep to their stages

Each step that `Course` lists is followed: what it pushes may stand where it does, and what it does
to a session is not against what any other frame supposes of it.

* `Replaced.same`, `Replaced.bumped`   no session changes, or one does;
* `Pushed.nil`, `Pushed.one`, `Pushed.behind`   what is pushed;
* `Replaced.course`   all steps that `Course` lists.
-/

namespace GhciHost.Host

open Loop

/-! ## Frames by their kinds -/

theorem fed_of_not_start {gs : List Frame} (h : ∀ g ∈ gs, g.isStart = false) (b : Bool) :
    Fed b gs := by
  induction gs generalizing b with
  | nil => trivial
  | cons g gs ih =>
    refine ⟨fun hg => ?_, ih (fun g hg => h g (List.mem_cons_of_mem _ hg)) _⟩
    rw [h g List.mem_cons_self] at hg
    cases hg

theorem not_find_of_startup {f : Frame} {s : Nat} (h : f.startup? = some s) : f.isFind = false := by
  cases f <;> first | rfl | cases h

theorem not_find_of_staged {f : Frame} {s : Nat} (h : f.staged? = some s) : f.isFind = false := by
  cases f <;> first | rfl | cases h

theorem not_start_of_staged {f : Frame} {s : Nat} (h : f.staged? = some s) :
    f.isStart = false := by
  cases f <;> first | rfl | cases h

theorem fits_launch {cores : Cores} {s : Nat} {m : StartMode} {replay : List Request}
    {a : Session.Core} (ha : cores s = some a) (hl : a.Launchable m) :
    Fits cores (.launch s m replay) where
  startup i hi := by
    cases m with
    | fast => cases hi; rw [ha]; rfl
    | withBuild => cases hi
  early i hi := by cases hi
  stage i phase hi := by cases hi
  launch i m' hi := by cases hi; exact ⟨a, ha, hl⟩
  tears i hi := by cases hi
  gone i hi := by cases hi

theorem fits_of_stage {cores : Cores} {f : Frame} {s : Nat} {phase : Phase} {a : Session.Core}
    (hf : f.stage? = some (s, phase)) (ha : cores s = some a) (hp : a.phase = phase)
    (hn : a.process = none) : Fits cores f where
  startup i hi := by
    cases f <;> cases hf <;> cases hi
    rw [ha]
    rfl
  early i hi := by cases f <;> cases hf <;> cases hi
  stage i phase' hi := by
    rw [hf] at hi
    cases hi
    exact ⟨a, ha, .inr ⟨hp, hn⟩⟩
  launch i m hi := by cases f <;> cases hf <;> cases hi
  tears i hi := by cases f <;> cases hf <;> cases hi
  gone i hi := by cases f <;> cases hf <;> cases hi

/-! ## What is pushed -/

section Replaced

variable {v v' : View} {t : Nat} {e : Ending} {f : Frame} {below push : List Frame}

namespace Replaced

/-- What stands below a frame is given a session by it at most. -/
theorem fed (k : Replaced v v' t e f below push) : Fed f.isFind below := by
  rcases k.stages.fed t _ k.top with hfed | ⟨-, -, -, hfed⟩
  · exact hfed.2
  · exact hfed.2

theorem mounted (k : Replaced v v' t e f below push) : Mounted below :=
  (k.stages.mounted t _ k.top).2

theorem fits (k : Replaced v v' t e f below push) : Fits v.cores f :=
  k.stages.fits t _ f k.top List.mem_cons_self

/-- Nobody takes a session to a phase that is in none from which that is done. -/
theorem unstaged (k : Replaced v v' t e f below push) (hf : f.launches? = none) {s : Nat}
    {a : Session.Core} (ha : v.cores s = some a) (hd : a.destroyed = false)
    (hno : ∀ g phase, Frame.stage? g = some (s, phase) → ¬ (a.phase = phase ∧ a.process = none))
    (u : Nat) (gs : List Frame) (hu : v.loop.stack? u = some gs) : s ∉ staged gs := by
  intro hs
  obtain ⟨g, hg, hgs⟩ := List.mem_filterMap.1 hs
  have helse (hne : g ∈ f :: below → u = t → g ∈ below) : g.launches? = none := by
    refine k.stages.launches_elsewhere k.running k.top ?_
    by_cases hut : u = t
    · subst hut
      rw [k.top] at hu
      cases hu
      exact .inl (hne hg rfl)
    · exact .inr ⟨u, gs, hut, hu, hg⟩
  have hlaunch : g.launches? = none := by
    by_cases hgf : g = f
    · rw [hgf, hf]
    · exact helse fun hg _ => (List.mem_cons.1 hg).resolve_left hgf
  have hstage : ∃ phase, g.stage? = some (s, phase) := by
    cases g with
    | gotInstall i => cases hgs; exact ⟨_, rfl⟩
    | launched i m replay => cases hgs; exact ⟨_, rfl⟩
    | launch i m replay => cases hlaunch
    | _ => cases hgs
  obtain ⟨phase, hphase⟩ := hstage
  obtain ⟨b, hb, hor⟩ := (k.stages.fits u gs g hu hg).stage s phase hphase
  rw [ha] at hb
  cases hb
  exact hno g phase hphase (hor.resolve_left (by rw [hd]; exact Bool.false_ne_true))

/-- Nobody else supposes that the session is where the frame finds it. -/
theorem unshared (k : Replaced v v' t e f below push) {s : Nat} {a : Session.Core}
    (hf : f.early? = some s ∨ f.stage?.map (·.1) = some s) (ha : v.cores s = some a)
    (hd : a.destroyed = false) {g : Frame} (hg : Elsewhere v t below g) :
    (g.early? = some s → a.phase ≠ .absent) ∧
      ∀ phase, g.stage? = some (s, phase) → a.phase ≠ phase := by
  have hno : ¬ a.destroyed = true := by rw [hd]; exact Bool.false_ne_true
  rcases hf with hf | hf
  · obtain ⟨b, hb, hphase⟩ := k.fits.early s hf
    rw [ha] at hb
    cases hb
    refine ⟨fun hearly _ => k.stages.alone k.turns k.top (startup?_of_early hf) hg
      (startup?_of_early hearly), fun phase hs hp => ?_⟩
    rw [← hp, hphase.resolve_left hno] at hs
    exact not_absent_of_stage hs
  · obtain ⟨⟨i, phase⟩, hs, rfl⟩ := Option.map_eq_some_iff.1 hf
    obtain ⟨b, hb, hphase⟩ := k.fits.stage i phase hs
    rw [ha] at hb
    cases hb
    refine ⟨fun _ hp => ?_, fun phase' hs' _ => k.stages.staged_alone k.top
      (staged?_of_stage hf) hg (staged?_of_stage (by rw [hs']; rfl))⟩
    rw [(hphase.resolve_left hno).1] at hp
    rw [hp] at hs
    exact not_absent_of_stage hs

/-- No session changes. -/
theorem same (k : Replaced v v' t e f below push) (hp : Pushed v v' t f below push)
    (hc : v'.cores = v.cores) : v'.Stages :=
  k.step hp (by rw [hc]; exact k.stages.manned) fun g _ _ hg => by rw [hc]; exact hg

/-- One session changes, but not where another frame supposes it to stay. -/
theorem bumped (k : Replaced v v' t e f below push) (hp : Pushed v v' t f below push) {s : Nat}
    {a : Session.Core} (ha : v.cores s = some a) (F : Session.Core → Session.Core)
    (hc : v'.cores = bump s F v.cores)
    (hworker : (F a).process.isSome → (F a).phase.hasWorker = true ∧ (F a).destroyed = false)
    (hd : a.destroyed = true → (F a).destroyed = true)
    (hkeep : a.destroyed = false → (F a).destroyed = true ∨ ∀ g, Elsewhere v t below g →
      (g.early? = some s → a.phase ≠ .absent) ∧
        ∀ phase, g.stage? = some (s, phase) → a.process = none → a.phase ≠ phase) :
    v'.Stages := by
  refine k.step hp ?_ fun g hg hl hfits => ?_
  · rw [hc]
    refine k.stages.manned.bump fun b hb => ?_
    rw [ha] at hb
    cases hb
    exact hworker
  · rw [hc]
    refine hfits.bump ha F hd (fun hearly hno hphase => ?_) (fun phase hs hno hphase hproc => ?_) hl
    · exact .inl ((hkeep hno).resolve_right fun h => (h g hg).1 hearly hphase)
    · exact .inl ((hkeep hno).resolve_right fun h => (h g hg).2 phase hs hproc hphase)

end Replaced

namespace Pushed

/-- Nothing is pushed. -/
theorem nil (k : Replaced v v' t e f below [])
    (hf : f.isFind = true → ∃ e', v'.loop.running = some (t, e') ∧
      ∀ s, e' = .value (.session s) → (v'.cores s).isSome) : Pushed v v' t f below [] where
  fits g hg := absurd hg List.not_mem_nil
  mounted := k.mounted
  fed := by
    have hfed := k.fed
    cases hfind : f.isFind with
    | false =>
      rw [hfind] at hfed
      exact .inl hfed
    | true =>
      rw [hfind] at hfed
      obtain ⟨e', he, hvalid⟩ := hf hfind
      exact .inr ⟨e', he, hvalid, hfed⟩
  launch := .inl fun g hg => absurd hg List.not_mem_nil
  staged := .inl rfl

/-- Frames are pushed that have no part in a startup. -/
theorem aside (k : Replaced v v' t e f below push) (hf : f.isFind = false)
    (hpush : ∀ g ∈ push, g.isAside = true ∧ Fits v'.cores g) : Pushed v v' t f below push where
  fits g hg := (hpush g hg).2
  mounted := mounted_append (fun g hg => (kinds_of_isAside (hpush g hg).1).1) k.mounted
  fed := by
    have hfed := k.fed
    rw [hf] at hfed
    exact .inl (fed_append (fed_of_not_start
      (fun g hg => (kinds_of_isAside (hpush g hg).1).2.2.2.2.2.1) false) hfed)
  launch := .inl fun g hg => (kinds_of_isAside (hpush g hg).1).2.2.1
  staged := .inl (List.filterMap_eq_nil_iff.2 fun g hg => (kinds_of_isAside (hpush g hg).1).2.1)

/-- One frame is pushed, with which a startup goes on, and others above it. -/
theorem behind (gs : List Frame) {g : Frame} (k : Replaced v v' t e f below push)
    (hf : f.isFind = false) (hgs : ∀ g ∈ gs, g.isPlain = true) (hfed : Fed false gs)
    (hg : g.isStart = false) (hfits : Fits v'.cores g) (hmount : ∀ s, g.startup? = some s → f.startup? = some s)
    (hlaunch : g.launches? = none ∨ gs = [] ∧ ∃ x, v'.loop.running = some (t, .value x))
    (hstaged : ∀ s, g.staged? = some s → f.staged? = some s ∨
      ∀ u gs, v.loop.stack? u = some gs → s ∉ GhciHost.staged gs) :
    Pushed v v' t f below (gs ++ [g]) where
  fits g' hg' := by
    rcases List.mem_append.1 hg' with hg' | hg'
    · exact .of_isPlain (hgs g' hg')
    · rw [List.mem_singleton.1 hg']
      exact hfits
  mounted := by
    rw [List.append_assoc]
    exact mounted_append (fun g' hg' => startup?_of_isPlain (hgs g' hg'))
      ⟨fun s hs => (k.stages.mounted t _ k.top).1 s (hmount s hs), k.mounted⟩
  fed := by
    have hbelow := k.fed
    rw [hf] at hbelow
    rw [List.append_assoc]
    have hg : Fed false [g] := ⟨fun hst => absurd hst (by simp [hg]), trivial⟩
    exact .inl (fed_append hfed (fed_append hg hbelow))
  launch := by
    rcases hlaunch with hl | ⟨rfl, x, hx⟩
    · refine .inl fun g' hg' => ?_
      rcases List.mem_append.1 hg' with hg' | hg'
      · exact launches?_of_isPlain (hgs g' hg')
      · rw [List.mem_singleton.1 hg', hl]
    · exact .inr ⟨g, x, rfl, hx⟩
  staged := by
    have hnone : GhciHost.staged gs = [] :=
      List.filterMap_eq_nil_iff.2 fun g' hg' => staged?_of_isPlain (hgs g' hg')
    rw [staged_append, hnone, staged_cons]
    cases hs : g.staged? with
    | none => exact .inl rfl
    | some s => exact .inr ⟨s, rfl, hstaged s hs⟩

end Pushed

/-! ## All steps -/

namespace Replaced

variable {h : Host} {n : Next} {cores : Cores} {s : Nat} {a : Session.Core} {m : StartMode}
  {replay : List Request}

/-- A session that has a worker is not about to be started. -/
theorem busy (k : Replaced v v' t e f below push) {p : Nat} (ha : v.cores s = some a)
    (hp : a.process = some p) (g : Frame) : (g.early? = some s → a.phase ≠ .absent) ∧
      ∀ phase, g.stage? = some (s, phase) → a.process = none → a.phase ≠ phase := by
  refine ⟨fun _ he => ?_, fun phase _ hno => ?_⟩
  · have := (k.stages.manned s a ha (by rw [hp]; rfl)).1
    rw [he] at this
    cases this
  · rw [hp] at hno
    cases hno

/-- A session that is absent is taken to no phase by anybody. -/
theorem idle (k : Replaced v v' t e f below push) (hf : f.launches? = none)
    (ha : v.cores s = some a) (hd : a.destroyed = false) (hphase : a.phase = .absent) (u : Nat)
    (gs : List Frame) (hu : v.loop.stack? u = some gs) : s ∉ staged gs :=
  k.unstaged hf ha hd (fun g phase hs hp => by
    rw [← hp.1, hphase] at hs
    exact not_absent_of_stage hs) u gs hu

/-- What a frame supposes of its session while it is not destroyed. -/
theorem absent_of_early (k : Replaced v v' t e f below push) (hf : f.early? = some s)
    (ha : v.cores s = some a) (hd : a.destroyed = false) : a.phase = .absent := by
  obtain ⟨b, hb, hor⟩ := k.fits.early s hf
  rw [ha] at hb
  cases hb
  exact hor.resolve_left (by rw [hd]; exact Bool.false_ne_true)

@[inherit_doc absent_of_early]
theorem phase_of_stage (k : Replaced v v' t e f below push) {phase : Phase}
    (hf : f.stage? = some (s, phase)) (ha : v.cores s = some a) (hd : a.destroyed = false) :
    a.phase = phase ∧ a.process = none := by
  obtain ⟨b, hb, hor⟩ := k.fits.stage s phase hf
  rw [ha] at hb
  cases hb
  exact hor.resolve_left (by rw [hd]; exact Bool.false_ne_true)

/-- A worker is started: nobody else is at the session. -/
theorem launchAlone (k : Replaced v v' t e (.launch s m replay) below push)
    (hl : a.Launchable m) {g : Frame} (hg : Elsewhere v t below g) :
    (g.early? = some s → a.phase ≠ .absent) ∧
      ∀ phase, g.stage? = some (s, phase) → a.process = none → a.phase ≠ phase := by
  refine ⟨fun hearly hphase => ?_, fun phase hs _ _ =>
    k.stages.staged_alone k.top rfl hg (staged?_of_stage (by rw [hs]; rfl))⟩
  obtain rfl : m = .fast := by
    cases m with
    | fast => rfl
    | withBuild =>
      have := hl.mode.1 rfl
      rw [hphase] at this
      cases this
  exact k.stages.alone k.turns k.top rfl hg (startup?_of_early hearly)

/-- A session is made. -/
theorem made (k : Replaced v v' t e f below push) (hp : Pushed v v' t f below push)
    {key : String} (hs : v.cores s = none)
    (hc : v'.cores = fun i => if i = s then some (.new key) else v.cores i) : v'.Stages := by
  have hold (i : Nat) (b : Session.Core) (hb : v.cores i = some b) : v'.cores i = some b := by
    rw [hc]
    dsimp only
    rw [if_neg, hb]
    rintro rfl
    rw [hs] at hb
    cases hb
  refine k.step hp (fun i b hb hproc => ?_) fun g _ hl hg =>
    hg.calm (fun i b hb => ⟨b, hold i b hb, .refl b⟩) hl
  rw [hc] at hb
  dsimp only at hb
  split at hb
  · cases hb
    cases hproc
  · exact k.stages.manned i b hb hproc

/-- All steps of frames that take part in a startup or in a session's end. -/
theorem course (k : Replaced h.view v' t e f below n.push) (hc : Course h e f n cores)
    (hcores : v'.cores = cores)
    (hgo : ∀ e', n = .go n.push e' → v'.loop.running = some (t, e')) : v'.Stages := by
  have hno {a : Session.Core} (hd : a.destroyed = false) : ¬ a.destroyed = true := by
    rw [hd]
    exact Bool.false_ne_true
  cases hc with
  | pass _ _ hfind =>
    next e' _ _ =>
    refine k.same (.nil k fun hf => ⟨e', hgo e' rfl, fun s hs => ?_⟩) hcores
    rw [hcores]
    exact hfind hf s hs
  | make hf hs =>
    next s key =>
    refine k.made (.nil k fun _ => ⟨_, hgo _ rfl, fun i hi => ?_⟩) hs hcores
    cases hi
    rw [hcores]
    simp
  | route _ hf hgs =>
    refine k.same (.aside k hf fun g hg => ?_) hcores
    rw [hcores]
    exact ⟨(hgs g hg).1, (hgs g hg).2.2.2.1⟩
  | ask hs ha hor hgs hearly =>
    obtain ⟨hst, hl, -, -, hstart, -⟩ := kinds_of_early hearly
    have htame : Tame _ := tame_of_gentle hgs
    refine k.same (.behind _ k (not_find_of_startup hs) (fun _ => isPlain_of_tame htame)
      (fed_of_tame htame) hstart ?_ (fun i hi => ?_) (.inl hl) fun i hi => ?_) hcores
    · rw [hcores]
      exact fits_of_early hearly ha hor
    · rw [startup?_of_early hearly] at hi
      exact hs.trans hi
    · rw [hst] at hi
      cases hi
  | install ha hd hphase hgs =>
    have htame : Tame _ := tame_of_gentle hgs
    refine k.bumped (.behind _ k rfl (fun _ => isPlain_of_tame htame) (fed_of_tame htame) rfl ?_
      (fun i hi => hi) (.inl rfl) fun i hi => ?_) ha _ hcores
      (fun hp => ?_) (fun h => (hno hd h).elim) fun _ => .inr fun g hg => ?_
    · rw [hcores]
      exact fits_of_stage rfl (bump_self ha) rfl (launchable_of_absent k.stages.manned ha hd hphase).1
    · cases hi
      exact .inr (k.idle rfl ha hd hphase)
    · rw [(launchable_of_absent k.stages.manned ha hd hphase).1] at hp
      cases hp
    · obtain ⟨h₁, h₂⟩ := k.unshared (.inl rfl) ha hd hg
      exact ⟨h₁, fun phase hs _ => h₂ phase hs⟩
  | giveUp reason transcript kind hor ha hd hproc =>
    refine k.bumped (.nil k fun hf => ?_) ha _ hcores (fun hp => ?_) (fun h => (hno hd h).elim)
      fun _ => .inr fun g hg => ?_
    · rcases hor with hor | hor
      · rw [not_find_of_startup (startup?_of_early hor)] at hf
        cases hf
      · rw [not_find_of_staged (staged?_of_stage hor)] at hf
        cases hf
    · rw [hproc] at hp
      cases hp
    · obtain ⟨h₁, h₂⟩ := k.unshared hor ha hd hg
      exact ⟨h₁, fun phase hs _ => h₂ phase hs⟩
  | proceed hpermits ha hl =>
    next s a =>
    obtain ⟨hor, hs⟩ := hpermits.kinds
    refine k.same (.behind [] k (not_find_of_startup hs) (List.forall_mem_nil _) trivial rfl ?_ (fun i hi => ?_)
      (.inr ⟨rfl, _, hgo _ rfl⟩) fun i hi => ?_) hcores
    · rw [hcores]
      exact fits_launch ha hl
    · cases hi
      exact hs
    · cases hi
      rcases hor with hor | hor
      · exact .inr (k.idle (kinds_of_early hor).2.1 ha hl.alive (k.absent_of_early hor ha hl.alive))
      · exact .inl (staged?_of_stage hor)
  | launch hn =>
    next s m replay script =>
    obtain ⟨a, ha, hl⟩ := k.fits.launch s m rfl
    rw [hn] at k
    have hplain : ∀ g ∈ [Frame.spawnEnd script], g.isPlain = true := fun g hg => by
      rw [List.mem_singleton.1 hg]
      rfl
    refine k.bumped (.behind _ k rfl hplain ⟨Bool.noConfusion, trivial⟩ rfl ?_ (fun i hi => ?_) (.inl rfl)
      fun i hi => .inl hi) ha _ hcores (fun hp => ?_) (fun h => (hno hl.alive h).elim)
      fun _ => .inr fun g hg => k.launchAlone hl hg
    · rw [hcores]
      exact fits_of_stage rfl (bump_self ha) rfl hl.process
    · cases hi
    · rw [hl.process] at hp
      cases hp
  | adopt _ ha hd =>
    obtain ⟨hphase, -⟩ := k.phase_of_stage rfl ha hd
    refine k.bumped (.nil k nofun) ha _ hcores (fun _ => ⟨?_, hd⟩) (fun h => (hno hd h).elim)
      fun _ => .inr fun g hg => ⟨fun _ he => ?_, fun phase hs _ _ =>
        k.stages.staged_alone k.top rfl hg (staged?_of_stage (by rw [hs]; rfl))⟩
    · dsimp only
      rw [hphase]
      rfl
    · rw [hphase] at he
      cases he
  | @escalate s p _ replay a _ ha hd hp =>
    refine k.bumped (.behind [] k rfl (List.forall_mem_nil _) trivial rfl ?_ (fun i hi => ?_)
      (.inr ⟨rfl, _, hgo _ rfl⟩) fun i hi => ?_) ha _ hcores (fun hp => ?_)
      (fun h => (hno hd h).elim) fun _ => .inr fun g _ => k.busy ha hp g
    · rw [hcores]
      exact fits_launch (bump_self ha) ⟨hd, rfl, rfl, ⟨fun _ => rfl, fun _ => rfl⟩⟩
    · cases hi
    · cases hi
      refine .inr (k.unstaged rfl ha hd fun g phase _ hno => ?_)
      rw [hp] at hno
      cases hno.2
    · cases hp
  | die reason transcript kind ha hd hp =>
    refine k.bumped (.nil k nofun) ha _ hcores nofun (fun h => (hno hd h).elim)
      fun _ => .inr fun g _ => k.busy ha hp g
  | tear hn =>
    next s p =>
    obtain ⟨a, ha⟩ := Option.isSome_iff_exists.1 (k.fits.tears s (List.mem_singleton.2 rfl))
    rw [hn] at k
    refine k.bumped (.aside k rfl fun g hg => ?_) ha _ hcores nofun (fun _ => rfl) fun _ => .inl rfl
    rw [List.mem_singleton.1 hg, hcores]
    refine ⟨rfl, .of_isAside rfl nofun fun i hi => ?_⟩
    cases hi
    exact ⟨_, bump_self ha, rfl⟩
  | clear =>
    next s =>
    obtain ⟨a, ha, hd⟩ := k.fits.gone s rfl
    refine k.bumped (.nil k nofun) ha _ hcores (fun hp => ?_) (fun _ => hd) fun h => ?_
    · have := (k.stages.manned s a ha hp).2
      exact (hno this hd).elim
    · exact (hno h hd).elim

end Replaced

end Replaced

end GhciHost.Host
