import GhciHost.Proofs.Session.Accounts

/-!
# Steps are accounted for

What a step adds to the log is allowed, and the log with it accounts for the host after the step.

* `Course.called`   whom a step calls;
* `Steps.proper`   each dealing of a step is allowed;
* `Steps.due`, `Steps.backed`, `Steps.heralded`, `Steps.unstarted`   what is found then is accounted
  for;
* `Accounts.step`   the log with what a step does accounts for the host after it.
-/

namespace GhciHost.Host

open Loop

variable {h : Host} {t : Nat} {e : Ending} {f : Frame} {below : List Frame} {log : List Dealing}

/-! ## Whom a step calls -/

theorem stage?_of_not_call {g : Frame} (hg : g.isCall = false) : g.stage? = none := by
  cases g <;> first | rfl | cases hg

theorem isSpawn_of_not_call {g : Frame} (hg : g.isCall = false) : g.isSpawn = false := by
  cases g <;> first | rfl | cases hg

theorem isCall_of_isAside {g : Frame} (hg : g.isAside = true) : g.isCall = false := by
  cases g <;> first | rfl | cases hg

theorem isCall_of_isQueued {g : Frame} (hg : isQueued g = true) : g.isCall = false := by
  cases g <;> first | rfl | cases hg

theorem isCall_of_early {g : Frame} {s : Nat} (hg : g.early? = some s) : g.isCall = false := by
  cases g <;> first | rfl | cases hg

theorem isCall_of_easy {gs : List Frame} (hgs : easy gs = true) {g : Frame} (hg : g ∈ gs) :
    g.isCall = false := by
  obtain ⟨hplain, hspawn⟩ := kind_of_tame (tame_of_easy hgs) hg
  cases g <;> first | rfl | (cases hspawn; done) | cases hplain

/-- Whom a step calls: nobody, the installer or the launcher. -/
inductive Calls (h : Host) : Frame → List Frame → Prop
  | nobody {f : Frame} {push : List Frame} :
      (∀ g ∈ push, g.isCall = false) → Calls h f push
  | installer {s : Nat} {a : Session.Core} {gs : List Frame} : h.core? s = some a →
      a.destroyed = false → a.phase = .absent → h.settings.autoInstall = true →
      easy gs = true → Calls h (.gotStatus s) (gs ++ [.gotInstall s])
  | launcher {s : Nat} {m : StartMode} {replay : List Request} {script : SpawnScript} :
      Calls h (.launch s m replay) [.spawnEnd script, .launched s m replay]

theorem Course.called {n : Next} {cores : Cores} (hc : Course h e f n cores) :
    Calls h f n.push := by
  cases hc with
  | pass | make | giveUp | adopt | die | clear => exact .nobody fun g hg => absurd hg List.not_mem_nil
  | route _ _ hgs => exact .nobody fun g hg => isCall_of_isAside (hgs g hg).1
  | ask _ _ _ hgs hearly =>
    refine .nobody fun g hg => ?_
    rcases List.mem_append.1 hg with hg | hg
    · exact isCall_of_easy (easy_of_gentle hgs) hg
    · rw [List.mem_singleton.1 hg]
      exact isCall_of_early hearly
  | install ha hd hphase hgs hauto => exact .installer ha hd hphase hauto (easy_of_gentle hgs)
  | proceed | escalate => exact .nobody fun g hg => by rw [List.mem_singleton.1 hg]; rfl
  | launch hpush =>
    rw [hpush]
    exact .launcher
  | tear hpush =>
    rw [hpush]
    exact .nobody fun g hg => by rw [List.mem_singleton.1 hg]; rfl

namespace Steps

/-- Whom the step of a frame calls. -/
theorem called (k : Steps h t e f below) : Calls h f (nextOf (resume f e) h).push := by
  cases hord : f.isOrdinary with
  | true => exact .nobody fun g hg => isCall_of_easy (easy_nextOf hord e h) hg
  | false =>
    cases hturn : f.isTurn with
    | true => exact .nobody fun g hg => isCall_of_isQueued (queued_nextOf hturn e h g hg)
    | false => exact (k.course hord hturn).called

end Steps

theorem calls_install {s : Nat} {gs : List Frame} (hgs : easy gs = true)
    (hauto : h.settings.autoInstall = true) :
    calls h (gs ++ [.gotInstall s]) = [.install s true] := by
  rw [calls, List.filterMap_append, ← hauto]
  rw [show gs.filterMap _ = [] from calls_eq_nil fun g hg => isCall_of_easy hgs hg]
  rfl

/-- What a call tells of itself. -/
theorem Calls.eq {push : List Frame} (hc : Calls h f push) : calls h push = [] ∨
    (∃ s a, h.core? s = some a ∧ a.destroyed = false ∧ a.phase = .absent ∧
      calls h push = [.install s true]) ∨
        ∃ s m replay, f = .launch s m replay ∧ calls h push = [.spawn s m] := by
  cases hc with
  | nobody hpush => exact .inl (calls_eq_nil hpush)
  | @installer s a gs ha hd hphase hauto hgs =>
    exact .inr (.inl ⟨s, a, ha, hd, hphase, calls_install hgs hauto⟩)
  | launcher => exact .inr (.inr ⟨_, _, _, rfl, rfl⟩)

/-- What a step adds to the log calls nobody, if the step does not. -/
theorem uncalled {push : List Frame} (hcalls : calls h push = []) (s : Nat) :
    spawns s (told h f below e ++ calls h push) = [] ∧
      installs s (told h f below e ++ calls h push) = [] := by
  rw [hcalls, List.append_nil]
  exact ⟨spawns_told s, installs_told s⟩

/-- What a step adds to the log does not call anybody for a session, if its call does not. -/
theorem uncalled_of_ne {push : List Frame} {d : Dealing} (hcalls : calls h push = [d]) {s : Nat}
    (hs : d.spawnOf? s = none) (hi : d.installOf? s = none) :
    spawns s (told h f below e ++ calls h push) = [] ∧
      installs s (told h f below e ++ calls h push) = [] := by
  rw [hcalls, spawns_concat, installs_concat, spawns_told, installs_told, hs, hi]
  exact ⟨rfl, rfl⟩

/-! ## What is done is allowed -/

section Step

variable (k : Steps h t e f below) (hb : Accounts log h)
include k hb

/-- What the frame that goes on has to be told is so. -/
theorem Steps.informed (hf : f.expects?.isSome) : Informed log h f e := by
  obtain ⟨e', hrun, hinf⟩ := (hb.heralded t f below k.top).2 hf
  rw [k.running] at hrun
  cases hrun
  exact hinf

theorem Steps.proper : Proper (log ++ (told h f below e ++ calls h (nextOf (resume f e) h).push)) := by
  have hbacked := hb.backed t _ f k.top List.mem_cons_self
  have htold : Proper (log ++ told h f below e) := by
    rcases told_cases h f below e with hfree | ⟨project, s, e'⟩ |
      ⟨script, s, m, replay, rest, -, rfl, e'⟩
    · exact hb.proper.append_free hfree
    -- who is found is in use, as whoever stands for the project is
    · rw [e']
      refine hb.proper.concat fun s' hs' => ?_
      obtain ⟨hnew, hold⟩ := find?_of_find (show Dealing.find project s ∈ told h f below e by
        rw [e']
        exact List.mem_singleton.2 rfl)
      exact Option.some.inj ((hold project s' (hb.stands project s' hs')).symm.trans hnew)
    · rw [e']
      exact hb.proper.concat
        ⟨hb.backed t _ _ k.top (List.mem_cons_of_mem _ List.mem_cons_self),
          fun q => hb.unstarted t _ s m replay q k.top List.mem_cons_self⟩
  rw [← List.append_assoc]
  rcases k.called.eq with hcalls | ⟨s, a, ha, hd, hphase, hcalls⟩ | ⟨s, m, replay, rfl, hcalls⟩
  · rwa [hcalls, List.append_nil]
  · rw [hcalls]
    refine htold.concat ⟨?_, rfl⟩
    rw [installs_append, installs_told, List.append_nil]
    exact (hb.due s a ha hd).installs hphase
  · rw [hcalls]
    obtain ⟨a, ha, hl⟩ := (k.inOrder.stages.fits t _ _ k.top List.mem_cons_self).launch s m rfl
    refine htold.concat ⟨?_, hbacked.append _⟩
    rw [spawns_append, spawns_told, List.append_nil]
    exact (hb.due s a ha hl.alive).before hl

end Step

/-! ## What was done for each session -/

/-- The mode of a session's worker is seen on the board. -/
theorem modes_of_core? {s : Nat} {a : Session.Core} (ha : h.core? s = some a) :
    h.board.modes s = a.phase.mode? := by
  show (h.seat? s).bind _ = _
  rw [seat?, ha]
  rfl

theorem akin_of_calm {a b : Session.Core} (hab : a.Calm b) (hm : b.phase.mode? = a.phase.mode?) :
    a.Akin b := by
  rcases hab with rfl | ⟨m, m', port, p, ha, -, rfl⟩
  · exact ⟨rfl, rfl, .inl rfl⟩
  · rw [ha] at hm
    cases hm
    exact ⟨rfl, rfl, .inr ⟨m, port, ha, rfl⟩⟩

/-- Each session is as before, has become ready, or is new. -/
def Akin (h h' : Host) : Prop := ∀ s b, h'.core? s = some b →
  (∃ a, h.core? s = some a ∧ a.Akin b) ∨ h.core? s = none ∧ ∃ key, b = .new key

theorem Akin.of_calm {h' : Host} (hc : Calm h h') (hm : h'.board.modes = h.board.modes) :
    Akin h h' := fun s b hb => by
  cases ha : h.core? s with
  | none => exact .inr ⟨rfl, hc.new s b hb ha⟩
  | some a =>
    obtain ⟨b', hb', hab⟩ := hc.old s a ha
    rw [hb] at hb'
    cases hb'
    refine .inl ⟨a, rfl, akin_of_calm hab ?_⟩
    rw [← modes_of_core? hb, hm, modes_of_core? ha]

theorem Akin.of_board {h' : Host} (e : h'.board = h.board) : Akin h h' := fun s b hb => by
  obtain ⟨x, hx, hphase, hproc, hd⟩ := seat?_of_core? hb
  rw [show h'.seat? = h.seat? from congrArg Board.seats e] at hx
  obtain ⟨a, ha, rfl⟩ := Option.map_eq_some_iff.1 hx
  exact .inl ⟨a, ha, hproc.symm, hd.symm, .inl hphase.symm⟩

/-- Who queues for a turn does nothing to the seats of sessions. -/
theorem board_resume_of_isTurn (hf : f.isTurn = true) (e : Ending) :
    Within (Same board) (resume f e) := by
  cases f with
  | startSession =>
    have (v : Value) : Within (Same board) (resumeWith .startSession v) := by
      cases v <;> (unfold resumeWith; infer_instance)
    cases e with
    | value v => exact this v
    | _ => exact .pure _
  | startTurn s c => exact Within.startTurn s c e
  | startEnd s => exact Within.startEnd s e
  | _ => cases hf

theorem modes_resume (hf : f.isOrdinary = true) (hfair : f.Fair) (hn : h.board.Neat True) :
    (after (resume f e) h).board.modes = h.board.modes := by
  cases hseat : f.reseats with
  | false => exact ((Keeps.resume hseat hfair e).rel_after h hn).2.modes
  | true =>
    cases f with
    | pumped s p => exact (neat_pumped hn p (.inl trivial)).2
    | gotStatus | gotInstall | launch | launched | pumpEnd | teardown | queriesGone => cases hf
    | _ => cases hseat

section Step

variable (k : Steps h t e f below)
include k

theorem Steps.akin (hn : h.board.Neat True) (hf : f.isOrdinary = true ∨ f.isTurn = true) :
    Akin h (after (resume f e) h) := by
  rcases hf with hord | hturn
  · exact .of_calm ((Calm.resume hord e).rel_after h)
      (modes_resume hord (hn.fair t _ f k.top List.mem_cons_self) hn)
  · exact .of_board ((board_resume_of_isTurn hturn e).rel_after h)

end Step

/-- Nobody is called for a session that is as before, has become ready, or is new. -/
theorem Accounts.due_akin {h' : Host} (hb : Accounts log h) (hk : Akin h h') {ds : List Dealing}
    (hds : ∀ s, spawns s ds = [] ∧ installs s ds = []) {s : Nat} {b : Session.Core}
    (hs : h'.core? s = some b) (hd : b.destroyed = false) : Due (log ++ ds) s b := by
  rcases hk s b hs with ⟨a, ha, hab⟩ | ⟨ha, key, rfl⟩
  · exact ((hb.due s a ha (hab.destroyed.symm.trans hd)).append (hds s).1 (hds s).2).akin hab
  · obtain ⟨hspawns, hinstalls⟩ := hb.unborn s ha
    refine .new key ?_ ?_
    · rw [spawns_append, hspawns, (hds s).1, List.nil_append]
    · rw [installs_append, hinstalls, (hds s).2, List.nil_append]

/-- One session changes, and nobody is called for another. -/
theorem Accounts.due_bump (hb : Accounts log h) {ds : List Dealing} {s : Nat}
    {F : Session.Core → Session.Core}
    (hds : ∀ i, i ≠ s → spawns i ds = [] ∧ installs i ds = [])
    (hF : ∀ a, h.core? s = some a → (F a).destroyed = false → Due (log ++ ds) s (F a))
    {i : Nat} {b : Session.Core} (hi : bump s F h.core? i = some b) (hd : b.destroyed = false) :
    Due (log ++ ds) i b := by
  rcases bump_eq_some hi with ⟨rfl, a, ha, rfl⟩ | ⟨his, hi⟩
  · exact hF a ha hd
  · exact (hb.due i b hi hd).append (hds i his).1 (hds i his).2

/-- Each step that `Course` lists does for a session what its next phase tells. -/
theorem Course.due {n : Next} {cores : Cores} (hc : Course h e f n cores) (hb : Accounts log h)
    (hf : Fits h.core? f) (hinf : f.expects?.isSome → Informed log h f e) {i : Nat}
    {b : Session.Core} (hi : cores i = some b) (hd : b.destroyed = false) :
    Due (log ++ (told h f below e ++ calls h n.push)) i b := by
  have hsame (hcalls : calls h n.push = []) (hi : h.core? i = some b) :
      Due (log ++ (told h f below e ++ calls h n.push)) i b :=
    (hb.due i b hi hd).append (uncalled hcalls i).1 (uncalled hcalls i).2
  have hquiet (hpush : n.push = []) (j : Nat) : spawns j (told h f below e ++ calls h n.push) = [] ∧
      installs j (told h f below e ++ calls h n.push) = [] :=
    uncalled (by rw [hpush]; rfl) j
  cases hc with
  | pass => exact hsame rfl hi
  | make hfind hs =>
    dsimp only at hi
    split at hi
    · next s key his =>
      subst his
      cases hi
      obtain ⟨hspawns, hinstalls⟩ := hb.unborn i hs
      refine .new key ?_ ?_
      · rw [spawns_append, hspawns, (hquiet rfl i).1, List.nil_append]
      · rw [installs_append, hinstalls, (hquiet rfl i).2, List.nil_append]
    · exact hsame rfl hi
  | route _ _ hgs => exact hsame (calls_eq_nil fun g hg => isCall_of_isAside (hgs g hg).1) hi
  | @ask _ g gs _ _ _ _ _ hgs hearly =>
    refine hsame (calls_eq_nil fun g' hg' => ?_) hi
    rcases List.mem_append.1 hg' with hg' | hg'
    · exact isCall_of_easy (easy_of_gentle hgs) hg'
    · rw [List.mem_singleton.1 hg']
      exact isCall_of_early hearly
  | @install gs s a ha hda hphase hgs hauto =>
    have hcalls : calls h (gs ++ [.gotInstall s]) = [.install s true] := calls_install (easy_of_gentle hgs) hauto
    refine hb.due_bump (fun j hj => ?_) (fun a' ha' _ => ?_) hi hd
    · exact uncalled_of_ne hcalls rfl (if_neg (Ne.symm hj))
    · rw [ha] at ha'
      cases ha'
      refine ⟨fun ms hms => ?_, fun he => (by cases he), fun _ _ he => by cases he⟩
      cases hms
      show spawns s (_ ++ (_ ++ calls h (gs ++ [.gotInstall s]))) = []
      rw [hcalls, spawns_append, spawns_concat, spawns_told,
        (hb.due s a ha hda).spawns [] (by rw [hphase]; rfl)]
      rfl
  | giveUp reason transcript kind _ ha hda _ =>
    exact hb.due_bump (fun j _ => hquiet rfl j) (fun _ _ _ => .givenUp rfl) hi hd
  | proceed => exact hsame rfl hi
  | @launch s m replay script _ hpush =>
    obtain ⟨a, ha, hl⟩ := hf.launch s m rfl
    have hcalls : calls h n.push = [.spawn s m] := by rw [hpush]; rfl
    refine hb.due_bump (fun j hj => ?_) (fun a' ha' _ => ?_) hi hd
    · exact uncalled_of_ne hcalls (if_neg (Ne.symm hj)) rfl
    · rw [ha] at ha'
      cases ha'
      refine ⟨fun ms hms => ?_, fun he => (by cases he), fun m' p _ hp => ?_⟩
      · cases hms
        rw [hcalls, spawns_append, spawns_concat, spawns_told, (hb.due s a ha hl.alive).before hl,
          Dealing.spawnOf?, if_pos rfl]
        rfl
      · cases hl.process.symm.trans hp
  | @adopt s p m replay a e' he ha hda =>
    obtain ⟨a', ha', hphase⟩ := hf.stage s (.starting m) rfl
    rw [ha] at ha'
    cases ha'
    have hphase : a.phase = .starting m :=
      (hphase.resolve_left (by rw [hda]; exact Bool.false_ne_true)).1
    have hstart : .start s m p ∈ log := by
      have := hinf rfl
      rwa [he] at this
    refine hb.due_bump (fun j _ => hquiet rfl j) (fun a' ha' _ => ?_) hi hd
    rw [ha] at ha'
    cases ha'
    have hdue := (hb.due s a ha hda).append (hquiet rfl s).1 (hquiet rfl s).2
    refine ⟨hdue.spawns, hdue.installs, fun m' p' hm hp => ?_⟩
    rw [show a.phase.mode? = some m by rw [hphase]; rfl] at hm
    cases hm
    cases hp
    exact List.mem_append_left _ hstart
  | @escalate s p code replay a he ha hda hproc hfast hmissing hq =>
    refine hb.due_bump (fun j _ => uncalled rfl j) (fun a' ha' _ => ?_) hi hd
    rw [ha] at ha'
    cases ha'
    refine ⟨fun ms hms => ?_, fun he => (by cases he), fun _ _ _ hp => by cases hp⟩
    cases hms
    rw [spawns_append, (uncalled rfl s).1, List.append_nil]
    exact (hb.due s a ha hda).spawns _ (Phase.spawned?_of_fast hfast)
  | die reason transcript kind ha hda _ =>
    exact hb.due_bump (fun j _ => hquiet rfl j) (fun _ _ _ => .givenUp rfl) hi hd
  | tear hpush =>
    refine hb.due_bump (fun j _ => uncalled ?_ j) (fun _ _ hno => ?_) hi hd
    · rw [hpush]
      rfl
    · cases hno
  | @clear s =>
    obtain ⟨a, ha, hda⟩ := hf.gone s rfl
    refine hb.due_bump (fun j _ => hquiet rfl j) (fun a' ha' hno => ?_) hi hd
    rw [ha] at ha'
    cases ha'
    exact absurd hda (by rw [show a.destroyed = false from hno]; exact Bool.false_ne_true)

/-! ## Frames that are left -/

theorem backed_of_stage? {g : Frame} (hs : g.stage? = none) (hl : g.launches? = none) :
    Backed log g := by
  cases g <;> trivial

theorem backed_of_isQueued {g : Frame} (hg : isQueued g = true) : Backed log g := by
  cases g <;> trivial

theorem backed_of_easy {gs : List Frame} (hgs : easy gs = true) {g : Frame} (hg : g ∈ gs) :
    Backed log g :=
  backed_of_stage? (stage?_of_not_call (isCall_of_easy hgs hg))
    (launches?_of_isPlain (isPlain_of_tame (tame_of_easy hgs) hg))

theorem Backed.append {g : Frame} (hg : Backed log g) (ds : List Dealing) :
    Backed (log ++ ds) g := by
  cases g with
  | gotInstall s => exact List.mem_append_left _ hg
  | launch s m replay => exact Warrant.append hg ds
  | launched s m replay =>
    show m ∈ spawns s (log ++ ds)
    rw [spawns_append]
    exact List.mem_append_left _ hg
  | _ => trivial

/-- What is known when a worker may be started. -/
theorem Permits.warrant {s : Nat} (hp : Permits s f e) (hf : Backed log f) :
    Warrant (log ++ told h f below e) s .fast := by
  cases hp with
  | found => exact .inl (List.mem_append_right _ (List.mem_singleton.2 rfl))
  | installed =>
    exact .inr ⟨List.mem_append_left _ hf, List.mem_append_right _ (List.mem_singleton.2 rfl)⟩

/-- Each step that `Course` lists leaves frames that are there because of what was done. -/
theorem Course.backed {n : Next} {cores : Cores} (hc : Course h e f n cores) (hb : Accounts log h)
    (hf : Backed log f) {g : Frame} (hg : g ∈ n.push) :
    Backed (log ++ (told h f below e ++ calls h n.push)) g := by
  cases hc with
  | pass | make | giveUp | adopt | die | clear => cases hg
  | route _ _ hgs =>
    exact backed_of_stage? (stage?_of_not_call (isCall_of_isAside (hgs g hg).1))
      (kinds_of_isAside (hgs g hg).1).2.2.1
  | ask _ _ _ hgs hearly =>
    rcases List.mem_append.1 hg with hg | hg
    · exact backed_of_easy (easy_of_gentle hgs) hg
    · rw [List.mem_singleton.1 hg]
      obtain ⟨-, hl, -, -, -, -, -, -, hs, -⟩ := kinds_of_early hearly
      exact backed_of_stage? hs hl
  | @install gs s a ha hda hphase hgs hauto =>
    rcases List.mem_append.1 hg with hg | hg
    · exact backed_of_easy (easy_of_gentle hgs) hg
    · rw [List.mem_singleton.1 hg]
      have hcalls : calls h (gs ++ [.gotInstall s]) = [.install s true] := calls_install (easy_of_gentle hgs) hauto
      refine List.mem_append_right _ (List.mem_append_right _ ?_)
      show _ ∈ calls h (gs ++ [.gotInstall s])
      rw [hcalls]
      exact List.mem_singleton.2 rfl
  | proceed hpermits =>
    rw [List.mem_singleton.1 hg, ← List.append_assoc]
    exact (hpermits.warrant hf).append _
  | @launch s m replay script _ hpush =>
    rw [hpush] at hg ⊢
    rcases List.mem_cons.1 hg with rfl | hg
    · trivial
    · rw [List.mem_singleton.1 hg]
      refine mem_spawns_iff.2 (List.mem_append_right _ (List.mem_append_right _ ?_))
      exact List.mem_singleton.2 rfl
  | @escalate s p code replay a he ha hda hproc hfast hmissing hq =>
    rw [List.mem_singleton.1 hg]
    have htold : told h (.pumpEnd s p) below e = [.exit s p true] := by
      rw [he, ← hmissing]
      rfl
    refine ⟨p, log, [], ?_, (hb.due s a ha hda).process _ _ hfast hproc⟩
    rw [htold]
    rfl
  | tear hpush =>
    rw [hpush] at hg
    rw [List.mem_singleton.1 hg]
    trivial

section Step

variable (k : Steps h t e f below)
include k

theorem Steps.backed (hb : Accounts log h) {g : Frame} (hg : g ∈ (nextOf (resume f e) h).push) :
    Backed (log ++ (told h f below e ++ calls h (nextOf (resume f e) h).push)) g := by
  cases hord : f.isOrdinary with
  | true => exact backed_of_easy (easy_nextOf hord e h) hg
  | false =>
    cases hturn : f.isTurn with
    | true => exact backed_of_isQueued (queued_nextOf hturn e h g hg)
    | false => exact (k.course hord hturn).backed hb (hb.backed t _ f k.top List.mem_cons_self) hg

/-- The other tasks have the frames that they had, or are new. -/
theorem Steps.stack_after {u : Nat} {gs : List Frame} (hu : (Host.step t e h).loop.stack? u = some gs) :
    (u = t ∧ gs = (nextOf (resume f e) h).push ++ below) ∨
      u ≠ t ∧ (h.loop.stack? u = some gs ∨ Tame gs) := by
  rw [step_eq k.top] at hu
  refine (stack?_goOn hu).imp_right fun ⟨hut, hu⟩ => ⟨hut, ?_⟩
  cases hturn : f.isTurn with
  | true =>
    have hboard : (after (resume f e) h).board = h.board :=
      (board_resume_of_isTurn hturn e).rel_after h
    exact .inl ((congrFun (congrArg Board.tasks hboard) u).symm.trans hu)
  | false => exact (k.guards hturn {}).grows.fresh u gs hu

end Step

/-! ## Who is told -/

theorem heralded_of_none {gs : List Frame} (h : ∀ g ∈ gs, g.expects? = none)
    (told : Option Frame.Herald) : Heralded told gs := by
  induction gs generalizing told with
  | nil => trivial
  | cons g gs ih =>
    refine ⟨fun x hx => ?_, ih (fun g hg => h g (List.mem_cons_of_mem _ hg)) _⟩
    rw [h g List.mem_cons_self] at hx
    cases hx

theorem expects?_of_isQueued {g : Frame} (hg : isQueued g = true) : g.expects? = none := by
  cases g <;> first | rfl | cases hg

theorem expects?_of_early {g : Frame} {s : Nat} (hg : g.early? = some s) : g.expects? = none := by
  cases g <;> first | rfl | cases hg

/-- No step that `Course` lists leaves a frame that has to be told of something, but for one that
    is. -/
theorem Course.heralded {n : Next} {cores : Cores} (hc : Course h e f n cores) :
    Heralded none n.push := by
  have hone {g : Frame} (hg : g.expects? = none) : Heralded none [g] :=
    ⟨fun x hx => (nomatch hg.symm.trans hx), trivial⟩
  cases hc with
  | pass | make | giveUp | adopt | die | clear => trivial
  | route _ _ hgs => exact heralded_of_none (fun g hg => (hgs g hg).2.1) none
  | ask _ _ _ hgs hearly =>
    exact heralded_append (heralded_of_tame (tame_of_gentle hgs)) (hone (expects?_of_early hearly))
  | install _ _ _ hgs =>
    exact heralded_append (heralded_of_tame (tame_of_gentle hgs)) (hone rfl)
  | proceed | escalate => exact hone rfl
  | launch hpush =>
    rw [hpush]
    exact ⟨nofun, fun x hx => hx, trivial⟩
  | tear hpush =>
    rw [hpush]
    exact hone rfl

/-- A frame that waits for the end of a process waits on, or tells of its end. -/
theorem waitExit_nextOf (p : Nat) (h : Host) : (nextOf (waitExit p) h).push = [.waitExit p] ∨
    ∃ code, nextOf (waitExit p) h = .done (.code code) ∧ h.exitOf p = some code := by
  unfold nextOf waitExit
  rw [run_bind_ok (run_process p h)]
  cases hcode : (h.processOf p).exitCode with
  | some code => exact .inr ⟨code, rfl, (exitOf_eq h p).trans hcode⟩
  | none => exact .inl rfl

/-- A process is started, or it is not. -/
theorem spawnEnd_nextOf (script : SpawnScript) (h : Host) :
    (script.fault = none ∧ nextOf (spawnEnd script) h = .done (.process h.processes.size)) ∨
      ∃ x, nextOf (spawnEnd script) h = .pass (.failed x) := by
  unfold nextOf spawnEnd
  cases script.fault with
  | none => exact .inl ⟨rfl, rfl⟩
  | some fault => exact .inr ⟨_, rfl⟩

theorem push_spawnEnd (script : SpawnScript) (e : Ending) (h : Host) :
    (nextOf (resume (.spawnEnd script) e) h).push = [] := by
  cases e with
  | value v =>
    show (nextOf (spawnEnd script) h).push = []
    rcases spawnEnd_nextOf script h with ⟨-, hn⟩ | ⟨x, hn⟩
    · rw [hn]
      rfl
    · rw [hn]
      rfl
  | _ => rfl

/-- Who is told of a failure or of a cancellation is told nothing of a process. -/
theorem informed_failed (x : Failure) : Informed log h f (.failed x) := by
  cases f <;> trivial

@[inherit_doc informed_failed]
theorem informed_cancelled : Informed log h f .cancelled := by
  cases f <;> trivial

theorem expects?_of_heralds (hf : f.heralds?.isSome) : f.expects? = none := by
  cases f <;> first | rfl | cases hf

/-- A frame that tells of something waits on, or the frame below it is told what is so. -/
theorem heralds_nextOf (log : List Dealing) (below : List Frame) (h : Host) (e : Ending)
    (hf : f.heralds?.isSome) :
    (nextOf (resume f e) h).push = [f] ∨ ∃ e', nextOf (resume f e) h = .pass e' ∧
      ∀ f' rest, below = f' :: rest → f'.expects? = f.heralds? →
        Informed (log ++ told h f below e) (after (resume f e) h) f' e' := by
  cases f with
  | waitExit p =>
    cases e with
    | value v =>
      refine (waitExit_nextOf p h).imp_right fun ⟨code, hn, hcode⟩ => ⟨_, hn, fun f' _ _ hexp => ?_⟩
      have hstay := (ExitsStay.resume (.waitExit p) (.value v)).rel_after h p code hcode
      cases f' with
      | pumpEnd s q =>
        cases hexp
        exact Option.isSome_iff_exists.2 ⟨code, hstay⟩
      | launched => cases hexp
      | _ => trivial
    | failed x => exact .inr ⟨_, rfl, fun _ _ _ _ => informed_failed x⟩
    | cancelled => exact .inr ⟨_, rfl, fun _ _ _ _ => informed_cancelled⟩
  | spawnEnd script =>
    cases e with
    | value v =>
      rcases spawnEnd_nextOf script h with ⟨hfault, hn⟩ | ⟨x, hn⟩
      · refine .inr ⟨_, hn, fun f' rest hrest hexp => ?_⟩
        cases f' with
        | launched s m replay =>
          refine List.mem_append_right _ ?_
          rw [hrest, told]
          · exact List.mem_singleton.2 rfl
          · exact hfault
        | pumpEnd => cases hexp
        | _ => trivial
      · exact .inr ⟨_, hn, fun _ _ _ _ => informed_failed x⟩
    | failed x => exact .inr ⟨_, rfl, fun _ _ _ _ => informed_failed x⟩
    | cancelled => exact .inr ⟨_, rfl, fun _ _ _ _ => informed_cancelled⟩
  | _ => cases hf

section Step

variable (k : Steps h t e f below) (hb : Accounts log h)
include k hb

/-- A frame that the step leaves on top of the task is told what it has to be told. -/
theorem Steps.heralded {f' : Frame} {below' : List Frame}
    (hs : (nextOf (resume f e) h).push ++ below = f' :: below') : Heralded f'.heralds? below' ∧
      (f'.expects?.isSome → ∃ e', (Host.step t e h).loop.running = some (t, e') ∧
        Informed (log ++ (told h f below e ++ calls h (nextOf (resume f e) h).push))
          (Host.step t e h) f' e') := by
  have hbelow : Heralded f.heralds? below := (hb.heralded t f below k.top).1
  -- where a frame goes on, what it has to be told is what the one above it tells
  have hpass {e' : Ending} (hn : nextOf (resume f e) h = .pass e')
      (hinf : f'.expects? = f.heralds? → Informed (log ++ told h f below e)
        (after (resume f e) h) f' e') : Heralded f'.heralds? below' ∧
      (f'.expects?.isSome → ∃ e', (Host.step t e h).loop.running = some (t, e') ∧
        Informed (log ++ (told h f below e ++ calls h (nextOf (resume f e) h).push))
          (Host.step t e h) f' e') := by
    rw [hn] at hs ⊢
    obtain rfl : below = f' :: below' := hs
    refine ⟨hbelow.2, fun hexp => ⟨e', ?_, ?_⟩⟩
    · rw [step_eq k.top, hn]
      rfl
    · obtain ⟨x, hx⟩ := Option.isSome_iff_exists.1 hexp
      rw [step_eq k.top, show calls h (Next.pass e').push = [] from rfl, List.append_nil]
      exact hinf (hx.trans (hbelow.1 x hx).symm)
  -- where it does not, nobody has to be told of anything
  have hstay (hpush : Heralded none ((nextOf (resume f e) h).push ++ below)) :
      Heralded f'.heralds? below' ∧ (f'.expects?.isSome → ∃ e',
        (Host.step t e h).loop.running = some (t, e') ∧
          Informed (log ++ (told h f below e ++ calls h (nextOf (resume f e) h).push))
            (Host.step t e h) f' e') := by
    rw [hs] at hpush
    refine ⟨hpush.2, fun hexp => ?_⟩
    obtain ⟨x, hx⟩ := Option.isSome_iff_exists.1 hexp
    cases hpush.1 x hx
  cases hheralds : f.heralds? with
  | none =>
    rw [hheralds] at hbelow
    refine hstay (heralded_append ?_ hbelow)
    cases hord : f.isOrdinary with
    | true => exact heralded_of_tame (tame_of_easy (easy_nextOf hord e h))
    | false =>
      cases hturn : f.isTurn with
      | true =>
        exact heralded_of_none (fun g hg => expects?_of_isQueued (queued_nextOf hturn e h g hg)) none
      | false => exact (k.course hord hturn).heralded
  | some x =>
    rcases heralds_nextOf log below h e (by rw [hheralds]; rfl) with
      hpush | ⟨e', hn, hinf⟩
    · refine hstay ?_
      rw [hpush]
      refine ⟨fun y hy => ?_, hbelow⟩
      rw [expects?_of_heralds (by rw [hheralds]; rfl)] at hy
      cases hy
    · exact hpass hn fun hexp => hinf f' below' (by rw [hn] at hs; exact hs) hexp

omit k in
/-- Whoever stands for a project is in use. -/
theorem Accounts.stands_step {project : String × String} {s : Nat}
    (hs : Stands (log ++ (told h f below e ++ calls h (nextOf (resume f e) h).push)) project s) :
    (after (resume f e) h).registry.find? project = some s := by
  rcases hs.of_append with ⟨hlog, hdrop⟩ | ⟨pre, mid, hd, -⟩
  · refine (find?_resume f below e (hb.stands project s hlog)).resolve_right fun hd => ?_
    exact hdrop (List.mem_append_left _ hd)
  · have hfind : .find project s ∈ told h f below e ++ calls h (nextOf (resume f e) h).push := by
      rw [hd]
      exact List.mem_append_right _ List.mem_cons_self
    rcases List.mem_append.1 hfind with hfind | hfind
    · exact (find?_of_find hfind).1
    · rcases mem_calls hfind with ⟨s, -, e'⟩ | ⟨s, m, replay, -, e'⟩
      · cases e'
      · cases e'

/-- A process of which it is known that it has ended has. -/
theorem Steps.exits {s p : Nat} {missing : Bool} (hd : .exit s p missing ∈
    log ++ (told h f below e ++ calls h (nextOf (resume f e) h).push)) : (h.exitOf p).isSome := by
  rcases List.mem_append.1 hd with hd | hd
  · exact hb.exits s p missing hd
  rcases List.mem_append.1 hd with hd | hd
  · obtain ⟨rfl, code, rfl⟩ := exit_of_told hd
    exact k.informed hb rfl
  · rcases mem_calls hd with ⟨s, -, e'⟩ | ⟨s, m, replay, -, e'⟩
    · cases e'
    · cases e'

/-- What is done for each session. -/
theorem Steps.due (hn : h.board.Neat True) {s : Nat} {a : Session.Core}
    (ha : (after (resume f e) h).core? s = some a) (hd : a.destroyed = false) :
    Due (log ++ (told h f below e ++ calls h (nextOf (resume f e) h).push)) s a := by
  have hakin (hf : f.isOrdinary = true ∨ f.isTurn = true)
      (hpush : ∀ g ∈ (nextOf (resume f e) h).push, g.isCall = false) :
      Due (log ++ (told h f below e ++ calls h (nextOf (resume f e) h).push)) s a :=
    hb.due_akin (k.akin hn hf) (uncalled (calls_eq_nil hpush)) ha hd
  cases hord : f.isOrdinary with
  | true => exact hakin (.inl hord) fun g hg => isCall_of_easy (easy_nextOf hord e h) hg
  | false =>
    cases hturn : f.isTurn with
    | true => exact hakin (.inr hturn) fun g hg => isCall_of_isQueued (queued_nextOf hturn e h g hg)
    | false =>
      exact (k.course hord hturn).due hb (k.inOrder.stages.fits t _ f k.top List.mem_cons_self)
        (k.informed hb) ha hd

omit hb in
/-- Nobody is called for a session that there is not. -/
theorem Steps.uncalled_unborn {s : Nat} (hs : h.core? s = none) :
    spawns s (told h f below e ++ calls h (nextOf (resume f e) h).push) = [] ∧
      installs s (told h f below e ++ calls h (nextOf (resume f e) h).push) = [] := by
  rcases k.called.eq with hcalls | ⟨i, a, ha, -, -, hcalls⟩ | ⟨i, m, replay, rfl, hcalls⟩
  · exact uncalled hcalls s
  · refine uncalled_of_ne hcalls rfl (if_neg ?_)
    rintro rfl
    rw [hs] at ha
    cases ha
  · obtain ⟨a, ha, -⟩ := (k.inOrder.stages.fits t _ _ k.top List.mem_cons_self).launch _ _ rfl
    refine uncalled_of_ne hcalls (if_neg ?_) rfl
    rintro rfl
    rw [show h.core? i = some a from ha] at hs
    cases hs

/-- The launcher is called in a mode in which it was not called before. -/
theorem Steps.unspawned {s : Nat} {m : StartMode} {replay : List Request}
    (hg : .launched s m replay ∈ (nextOf (resume f e) h).push) : m ∉ spawns s log := by
  have hcalled := k.called
  generalize (nextOf (resume f e) h).push = push at hcalled hg
  cases hcalled with
  | nobody hpush => cases hpush _ hg
  | installer _ _ _ _ hgs =>
    rcases List.mem_append.1 hg with hg | hg
    · cases isCall_of_easy hgs hg
    · cases List.mem_singleton.1 hg
  | launcher =>
    obtain ⟨a, ha, hl⟩ := (k.inOrder.stages.fits t _ _ k.top List.mem_cons_self).launch _ _ rfl
    rcases List.mem_cons.1 hg with hg | hg
    · cases hg
    · cases List.mem_singleton.1 hg
      rw [(hb.due s a ha hl.alive).before hl]
      cases m <;> decide

/-- A frame that waits for the launcher, and that is not told next, was told of no process. -/
theorem Steps.unstarted {u s q : Nat} {m : StartMode} {replay : List Request} {gs : List Frame}
    (hu : (Host.step t e h).loop.stack? u = some gs) (hg : .launched s m replay ∈ gs.tail) :
    .start s m q ∉ log ++ (told h f below e ++ calls h (nextOf (resume f e) h).push) := by
  -- the launcher was not called for the mode before, or the frame stood there
  have hold : .start s m q ∉ log := by
    rcases k.stack_after hu with ⟨-, rfl⟩ | ⟨-, hu | hu⟩
    · rcases List.mem_append.1 (List.mem_of_mem_tail hg) with hg | hg
      · exact fun hq => k.unspawned hb hg (hb.proper.mem_spawns hq)
      · exact hb.unstarted t _ s m replay q k.top hg
    · exact hb.unstarted u gs s m replay q hu hg
    · cases isPlain_of_tame hu (List.mem_of_mem_tail hg)
  -- nobody else waits for the process that is started
  have htold : .start s m q ∉ told h f below e := by
    intro hd
    obtain ⟨script, replay', rest, rfl, rfl⟩ := start_of_told hd
    rcases k.stack_after hu with ⟨-, rfl⟩ | ⟨hut, hu | hu⟩
    · rw [push_spawnEnd] at hg
      have hnodup := k.inOrder.stages.staged_nodup t _ k.top
      rw [staged_cons, staged_cons] at hnodup
      exact (List.nodup_cons.1 hnodup).1 (View.Stages.mem_staged hg rfl)
    · refine hut (k.inOrder.stages.staged_one u t gs _ s hu k.top ?_ ?_)
      · exact View.Stages.mem_staged (List.mem_of_mem_tail hg) rfl
      · exact View.Stages.mem_staged (List.mem_cons_of_mem _ List.mem_cons_self) rfl
    · cases isPlain_of_tame hu (List.mem_of_mem_tail hg)
  have hcalls : .start s m q ∉ calls h (nextOf (resume f e) h).push := by
    intro hd
    rcases mem_calls hd with ⟨s, -, e'⟩ | ⟨s, m, replay, -, e'⟩
    · cases e'
    · cases e'
  intro hd
  rcases List.mem_append.1 hd with hd | hd
  · exact hold hd
  · exact (List.mem_append.1 hd).elim htold hcalls

end Step

/-- The log with what a step does accounts for the host after it. -/
theorem Accounts.step (k : Steps h t e f below) (hb : Accounts log h) (hn : h.board.Neat True) :
    Accounts (log ++ (told h f below e ++ calls h (nextOf (resume f e) h).push))
      (Host.step t e h) := by
  have hcore : (Host.step t e h).core? = (after (resume f e) h).core? := by
    rw [step_eq k.top]
    rfl
  have hknown (s : Nat) (hs : (h.core? s).isSome) : ((Host.step t e h).core? s).isSome := by
    rw [hcore]
    exact ((Listing.resume f e).rel_after h).known s hs
  have hexits : ExitsStay h (Host.step t e h) := by
    rw [step_eq k.top]
    exact (ExitsStay.resume f e).rel_after h
  have hregistry : (Host.step t e h).registry = (after (resume f e) h).registry := by
    rw [step_eq k.top]
  refine ⟨k.proper hb, fun project s hs => ?_, fun s hs => ?_, fun s a ha hd => ?_,
    fun u gs g hu hg => ?_, fun s p missing hd => ?_, fun u f' below' hu => ?_,
    fun u gs s m replay q hu hg => k.unstarted hb hu hg⟩
  · rw [hregistry]
    exact hb.stands_step hs
  · have hnone : h.core? s = none := by
      rw [← Option.not_isSome_iff_eq_none]
      exact fun hsome => absurd (hknown s hsome) (by rw [hs]; exact nofun)
    obtain ⟨hspawns, hinstalls⟩ := hb.unborn s hnone
    obtain ⟨hspawns', hinstalls'⟩ := k.uncalled_unborn hnone
    exact ⟨by rw [spawns_append, hspawns, hspawns']; rfl,
      by rw [installs_append, hinstalls, hinstalls']; rfl⟩
  · rw [hcore] at ha
    exact k.due hb hn ha hd
  · rcases k.stack_after hu with ⟨-, rfl⟩ | ⟨-, hu | hu⟩
    · rcases List.mem_append.1 hg with hg | hg
      · exact k.backed hb hg
      · exact (hb.backed t _ g k.top (List.mem_cons_of_mem _ hg)).append _
    · exact (hb.backed u gs g hu hg).append _
    · have hplain := isPlain_of_tame hu hg
      exact backed_of_stage? (stage?_of_isPlain hplain) (launches?_of_isPlain hplain)
  · obtain ⟨code, hcode⟩ := Option.isSome_iff_exists.1 (k.exits hb hd)
    exact Option.isSome_iff_exists.2 ⟨code, hexits p code hcode⟩
  · rcases k.stack_after hu with ⟨rfl, hs⟩ | ⟨hut, hu | hu⟩
    · exact k.heralded hb hs.symm
    · obtain ⟨hbelow, hexp⟩ := hb.heralded u f' below' hu
      refine ⟨hbelow, fun hf => ?_⟩
      obtain ⟨e', hrun, -⟩ := hexp hf
      rw [k.running] at hrun
      cases hrun
      exact absurd rfl hut
    · obtain ⟨hnone, hbelow⟩ := heralded_of_tame hu
      refine ⟨hbelow, fun hf => ?_⟩
      obtain ⟨x, hx⟩ := Option.isSome_iff_exists.1 hf
      cases hnone x hx

end GhciHost.Host
