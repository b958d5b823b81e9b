import GhciHost.Proofs.Session.Accounting

/-!
# How often a worker is started

In every run the log of what was done accounts for the host, and tells each call of the launcher
and each process.  So a session's worker is started at most twice, and never while another runs.

* `Steps.placed`, `Steps.tally`   what a step adds to the log is all that it does;
* `Accounts.still`   what happens while no frame goes on adds nothing;
* `balanced_of_run`   the log of a run accounts for the host;
* `numbered_of_run`, `start_inj`   each process has a number of its own;
* `session_startups`   what this says of the sessions of a run.
-/

namespace GhciHost

/-- The launcher is called. -/
def Dealing.isSpawn : Dealing → Bool
  | spawn .. => true
  | _ => false

/-- A process is started. -/
def Dealing.isStart : Dealing → Bool
  | start .. => true
  | _ => false

/-- The process that is started. -/
def Dealing.process? : Dealing → Option Nat
  | start _ _ p => some p
  | _ => none

/-- How often the launcher was called, and how many processes it started. -/
def tallied (log : List Dealing) : Nat × Nat := (log.countP (·.isSpawn), log.countP (·.isStart))

/-- Where a process is started, the frame below waits for it. -/
def Placed : List Frame → Prop
  | [] => True
  | f :: fs => (f.isSpawn = true → ∃ s m replay rest, fs = .launched s m replay :: rest) ∧ Placed fs

theorem tallied_append (log ds : List Dealing) : tallied (log ++ ds) =
    ((tallied log).1 + (tallied ds).1, (tallied log).2 + (tallied ds).2) := by
  simp only [tallied, List.countP_append]

theorem placed_append {fs gs : List Frame} (hf : ∀ f ∈ fs, f.isSpawn = false) (hg : Placed gs) :
    Placed (fs ++ gs) := by
  induction fs with
  | nil => exact hg
  | cons f fs ih =>
    refine ⟨fun hs => ?_, ih fun f hf' => hf f (List.mem_cons_of_mem _ hf')⟩
    rw [hf f List.mem_cons_self] at hs
    cases hs

theorem placed_of_tame {fs : List Frame} (h : Tame fs) : Placed fs := by
  rw [← List.append_nil fs]
  exact placed_append (fun _ hf => isSpawn_of_tame h hf) trivial

namespace Host

open Loop

variable {h h' : Host} {t : Nat} {e : Ending} {f : Frame} {below : List Frame} {log : List Dealing}

/-! ## All calls are told -/

theorem tallied_of_not {ds : List Dealing} (hs : ∀ d ∈ ds, d.isSpawn = false)
    (hp : ∀ d ∈ ds, d.isStart = false) : tallied ds = (0, 0) := by
  have hs : ds.countP (·.isSpawn) = 0 := List.countP_eq_zero.2 fun d hd => by rw [hs d hd]; decide
  have hp : ds.countP (·.isStart) = 0 := List.countP_eq_zero.2 fun d hd => by rw [hp d hd]; decide
  rw [tallied, hs, hp]

/-- Only the frame that starts a process tells of one. -/
theorem tallied_told (hf : f.isSpawn = false) : tallied (told h f below e) = (0, 0) := by
  refine tallied_of_not (fun d hd => ?_) fun d hd => ?_
  · cases d with
    | spawn s m => exact absurd (uncalled_told hd s).1 (by simp [Dealing.spawnOf?])
    | _ => rfl
  · cases d with
    | start s m p =>
      obtain ⟨script, -, -, rfl, -⟩ := start_of_told hd
      cases hf
    | _ => rfl

/-- A process is started if the log says so. -/
theorem tally_spawnEnd {s : Nat} {m : StartMode} {replay : List Request} {rest : List Frame}
    (script : SpawnScript) (e : Ending) (h : Host) :
    (after (resume (.spawnEnd script) e) h).tally =
      (h.tally.1 + (tallied (told h (.spawnEnd script) (.launched s m replay :: rest) e)).1,
        h.tally.2 + (tallied (told h (.spawnEnd script) (.launched s m replay :: rest) e)).2) := by
  cases e with
  | value v =>
    show (after (spawnEnd script) h).tally = _
    unfold spawnEnd
    cases hfault : script.fault with
    | some fault =>
      simp only [told, hfault]
      rfl
    | none =>
      simp only [told, hfault]
      show (h.journal.spawns.length, (h.processes.push script.process).size) = _
      rw [Table.size_push]
      rfl
  | failed x => rfl
  | cancelled => rfl

/-- The launcher is called if the log says so. -/
theorem tally_launch (s : Nat) (m : StartMode) (replay : List Request) (e : Ending) (h : Host) :
    (after (resume (.launch s m replay) e) h).tally =
      (h.tally.1 + (tallied (calls h (nextOf (resume (.launch s m replay) e) h).push)).1,
        h.tally.2 + (tallied (calls h (nextOf (resume (.launch s m replay) e) h).push)).2) := by
  cases e with
  | value v =>
    have hresume : resume (.launch s m replay) (.value v) = launch s m replay := rfl
    have hends := launch_tally s m replay h
    rw [hresume]
    rw [Ends] at hends
    cases e : (launch s m replay).run h with
    | ok n h' =>
      rw [e] at hends
      obtain ⟨⟨script, hn⟩, htally⟩ := hends
      rw [nextOf_of_ok e, after_of_ok e, htally, hn]
      rfl
    | error x h' =>
      rw [e] at hends
      rw [after_of_error e, nextOf, e]
      exact hends
  | failed x => rfl
  | cancelled => rfl

namespace Steps

variable (k : Steps h t e f below)
include k

theorem placed (hp : Placed (f :: below)) : Placed ((nextOf (resume f e) h).push ++ below) := by
  have hcalled := k.called
  generalize (nextOf (resume f e) h).push = push at hcalled
  cases hcalled with
  | nobody hpush => exact placed_append (fun g hg => isSpawn_of_not_call (hpush g hg)) hp.2
  | installer _ _ _ _ hgs =>
    refine placed_append (fun g hg => ?_) hp.2
    rcases List.mem_append.1 hg with hg | hg
    · exact isSpawn_of_tame (tame_of_easy hgs) hg
    · rw [List.mem_singleton.1 hg]
      rfl
  | launcher => exact ⟨fun _ => ⟨_, _, _, _, rfl⟩, nofun, hp.2⟩

/-- The log tells each call of the launcher and each process that is started. -/
theorem tally (hp : Placed (f :: below)) : (Host.step t e h).tally =
    (h.tally.1 + (tallied (told h f below e ++ calls h (nextOf (resume f e) h).push)).1,
      h.tally.2 + (tallied (told h f below e ++ calls h (nextOf (resume f e) h).push)).2) := by
  have hstep : (Host.step t e h).tally = (after (resume f e) h).tally := by
    rw [step_eq k.top]
    rfl
  rw [hstep, tallied_append]
  cases hspawn : f.isSpawn with
  | true =>
    cases f with
    | spawnEnd script =>
      obtain ⟨s, m, replay, rest, rfl⟩ := hp.1 rfl
      rw [push_spawnEnd]
      exact tally_spawnEnd script e h
    | _ => cases hspawn
  | false =>
    rw [tallied_told hspawn]
    simp only [Nat.zero_add]
    by_cases hl : ∃ s m replay, f = .launch s m replay
    · obtain ⟨s, m, replay, rfl⟩ := hl
      exact tally_launch s m replay e h
    · have hsame : (after (resume f e) h).tally = h.tally :=
        (SameTally.resume (fun s m replay hf => hl ⟨s, m, replay, hf⟩) hspawn e).rel_after h
      rw [hsame]
      rcases k.called.eq with hcalls | ⟨s, a, -, -, -, hcalls⟩ | ⟨s, m, replay, rfl, -⟩
      · rw [hcalls]
        rfl
      · rw [hcalls]
        rfl
      · exact absurd ⟨s, m, replay, rfl⟩ hl

end Steps

/-- What was told stays so. -/
theorem Informed.mono (hi : Informed log h f e) (hexits : ExitsStay h h') : Informed log h' f e := by
  unfold Informed at hi ⊢
  split at hi
  · obtain ⟨code, hcode⟩ := Option.isSome_iff_exists.1 hi
    exact Option.isSome_iff_exists.2 ⟨code, hexits _ code hcode⟩
  · exact hi
  · trivial

/-! ## Runs -/

/-- The log accounts for the host, and tells all calls of the launcher. -/
structure Balanced (log : List Dealing) (h : Host) : Prop where
  accounts : Accounts log h
  tally : h.tally = tallied log
  placed : ∀ t fs, h.loop.stack? t = some fs → Placed fs

namespace Balanced

/-- A step of a frame adds to the log what it does. -/
theorem step (k : Steps h t e f below) (hb : Balanced log h) (hn : h.board.Neat True) :
    Balanced (log ++ (told h f below e ++ calls h (nextOf (resume f e) h).push))
      (Host.step t e h) where
  accounts := hb.accounts.step k hn
  tally := by
    rw [k.tally (hb.placed t _ k.top), hb.tally, tallied_append log]
  placed u gs hu := by
    rcases k.stack_after hu with ⟨-, rfl⟩ | ⟨-, hu | hu⟩
    · exact k.placed (hb.placed t _ k.top)
    · exact hb.placed u gs hu
    · exact placed_of_tame hu

/-- Nothing is done, and who has to be told of something still is: sessions are as before, have become
    ready or are new, and new tasks have no part in a startup. -/
theorem still (hb : Balanced log h) (hk : Akin h h')
    (hknown : ∀ s, (h.core? s).isSome → (h'.core? s).isSome) (hregistry : h'.registry = h.registry)
    (hexits : ExitsStay h h') (htally : h'.tally = h.tally)
    (hstack : ∀ u gs, h'.loop.stack? u = some gs → h.loop.stack? u = some gs ∨ Tame gs)
    (hidle : ∀ u g gs, h.loop.stack? u = some (g :: gs) → g.expects? = none ∨
      h'.loop.running = h.loop.running) : Balanced log h' := by
  have hacc := hb.accounts
  refine ⟨⟨hacc.proper, fun project s hs => ?_, fun s hs => ?_, fun s b hs hd => ?_,
    fun u gs g hu hg => ?_, fun s p missing hp => ?_, fun u g gs hu => ?_,
    fun u gs s m replay q hu hg => ?_⟩, htally.trans hb.tally, fun u gs hu => ?_⟩
  · rw [hregistry]
    exact hacc.stands project s hs
  · have hnone : h.core? s = none := by
      rw [← Option.not_isSome_iff_eq_none]
      exact fun hsome => absurd (hknown s hsome) (by rw [hs]; exact nofun)
    exact hacc.unborn s hnone
  · have : Due (log ++ []) s b := hacc.due_akin hk (fun _ => ⟨rfl, rfl⟩) hs hd
    rwa [List.append_nil] at this
  · rcases hstack u gs hu with hu | hu
    · exact hacc.backed u gs g hu hg
    · have hplain := isPlain_of_tame hu hg
      exact backed_of_stage? (stage?_of_isPlain hplain) (launches?_of_isPlain hplain)
  · obtain ⟨code, hcode⟩ := Option.isSome_iff_exists.1 (hacc.exits s p missing hp)
    exact Option.isSome_iff_exists.2 ⟨code, hexits p code hcode⟩
  · rcases hstack u _ hu with hu | hu
    · refine ⟨(hacc.heralded u g gs hu).1, fun hg => ?_⟩
      obtain ⟨e, he, hinf⟩ := (hacc.heralded u g gs hu).2 hg
      rcases hidle u g gs hu with hnone | hrun
      · rw [hnone] at hg
        cases hg
      · exact ⟨e, hrun.trans he, hinf.mono hexits⟩
    · obtain ⟨hnone, hgs⟩ := heralded_of_tame hu
      refine ⟨hgs, fun hg => ?_⟩
      obtain ⟨x, hx⟩ := Option.isSome_iff_exists.1 hg
      cases hnone x hx
  · rcases hstack u gs hu with hu | hu
    · exact hacc.unstarted u gs s m replay q hu hg
    · cases isPlain_of_tame hu (List.mem_of_mem_tail hg)
  · rcases hstack u gs hu with hu | hu
    · exact hb.placed u gs hu
    · exact placed_of_tame hu

/-- While no task runs, nobody has to be told of anything. -/
theorem unheralded (hb : Balanced log h) (hidle : h.loop.running = none) {u : Nat} {g : Frame}
    {gs : List Frame} (hu : h.loop.stack? u = some (g :: gs)) : g.expects? = none := by
  by_contra hg
  obtain ⟨e, he, -⟩ := (hb.accounts.heralded u g gs hu).2 (Option.isSome_iff_ne_none.2 hg)
  rw [hidle] at he
  cases he

/-- Only the loop changes, and no task has other frames. -/
theorem ofLoop (hb : Balanced log h) {l : Loop Value Failure Frame}
    (hstack : ∀ u, l.stack? u = h.loop.stack? u)
    (hidle : ∀ u g gs, h.loop.stack? u = some (g :: gs) → g.expects? = none ∨
      l.running = h.loop.running) : Balanced log { h with loop := l } :=
  hb.still (.of_board (board_of_loop hstack)) (fun _ hs => hs) rfl (fun _ _ hp => hp) rfl
    (fun u _ hu => .inl ((hstack u).symm.trans hu)) hidle

/-- Something is done while no task runs, and neither to the registry nor to the launcher. -/
theorem idle (hb : Balanced log h) (hn : h.board.Neat True) (hidle : h.loop.running = none)
    (a : Action β) [Within (Guards {}) a] [Within Calm a] [Within Listing a]
    [Within (Keeps True) a] [Within ExitsStay a] [Within (Same Host.tally) a]
    [Within (Same Host.registry) a] : Balanced log (after a h) := by
  have hg : Guards {} h (after a h) := Within.rel_after h
  have hc : Calm h (after a h) := Within.rel_after h
  have hl : Listing h (after a h) := Within.rel_after h
  have hk : Keeps True h (after a h) := Within.rel_after h
  have hregistry : (after a h).registry = h.registry :=
    Within.rel_after (R := Same Host.registry) h
  have htally : (after a h).tally = h.tally := Within.rel_after (R := Same Host.tally) h
  exact hb.still (.of_calm hc (hk hn).2.modes) (fun s hs => hl.known s hs) hregistry
    (Within.rel_after h) htally (fun u gs hu => hg.grows.fresh u gs hu)
    fun _ _ _ hu => .inl (hb.unheralded hidle hu)

/-- A step of the loop adds to the log what it does. -/
theorem tick (hb : Balanced log h) (k : InOrder h) (hn : h.board.Neat True) :
    Balanced (log ++ dealings h) h.tick := by
  rcases tick_cases h with ⟨t, e, f, below, hrun, hs, e'⟩ | ⟨t, e, hrun, hend, e'⟩ | ⟨hrun, e'⟩ |
    ⟨j, jobs, hrun, hjobs, e'⟩
  · have hd : dealings h = told h f below e ++ calls h (nextOf (resume f e) h).push := by
      unfold dealings
      rw [hrun]
      dsimp only
      rw [hs]
    rw [e', hd]
    exact hb.step ⟨k, hrun, hs⟩ hn
  · have hd : dealings h = [] := by
      unfold dealings
      rw [hrun]
      dsimp only
      split
      · next f below hs => cases hend _ hs
      · rfl
    rw [e', hd, List.append_nil]
    refine hb.ofLoop (stack?_endTask h.loop t e) fun u g gs hu => ?_
    -- the task that runs has no frames left, so no frame has to be told of anything
    refine .inl ?_
    by_contra hg
    obtain ⟨x, hx, -⟩ := (hb.accounts.heralded u g gs hu).2 (Option.isSome_iff_ne_none.2 hg)
    rw [hrun] at hx
    cases hx
    cases hend _ hu
  all_goals
    have hd : dealings h = [] := by
      unfold dealings
      rw [hrun]
    rw [e', hd, List.append_nil]
  · exact hb
  · have hloop {l : Loop Value Failure Frame} (hl : ∀ u, l.stack? u = h.loop.stack? u) :
        Balanced log { h with loop := l } :=
      hb.ofLoop hl fun _ _ _ hu => .inl (hb.unheralded hrun hu)
    cases j with
    | start t => exact hloop (resume_spec ..).1
    | wake t c => exact hloop (resume_spec ..).1
    | release c => exact hloop fun u => stack?_finish { h.loop with jobs } c _ u
    | notify q =>
      have hboard : board { h with loop := { h.loop with jobs } } = h.board :=
        board_of_loop fun _ => rfl
      rw [beginJob_notify]
      exact (hloop (l := { h.loop with jobs }) fun _ => rfl).idle (by rwa [hboard]) hrun (queryEnded q)

theorem fire (hb : Balanced log h) (t : Timer) : Balanced log (h.fire t) :=
  hb.ofLoop (fun u =>
    stack?_finish { h.loop with now := t.due, timers := dropTimer t.cell h.loop.timers } t.cell _ u)
    fun _ _ _ _ => .inr (running_finish ..)

theorem outside (hb : Balanced log h) (hn : h.board.Neat True) (hidle : h.loop.running = none)
    (ho : Outside Reaction.isAsked h h') : Balanced log h' := by
  cases ho with
  | ask hfs =>
    have := Guards.newTask (W := {}) (tame_of_asked hfs)
    have : Within (Keeps True) (newTask _) := Keeps.newTask fun f hf => fair_of_asked hfs hf
    exact hb.idle hn hidle _
  | submit s command state reaction hr =>
    have : Within (Keeps True) (submit s command state reaction none) := Keeps.submit _ _ _ _ hr
    exact hb.idle hn hidle _
  | query s command state reaction hr =>
    have : Within (Keeps True) (startQuery s command state reaction none) :=
      Keeps.startQuery _ _ _ _ hr
    exact hb.idle hn hidle _
  | cancel c => exact hb.idle hn hidle _
  | act p line a => exact hb.idle hn hidle _
  | worker p responder writeFault =>
    have hm := margin_changeProcess h p (f := fun proc => { proc with responder, writeFault })
      (fun _ => rfl) fun _ => rfl
    exact hb.still (.of_board rfl) (fun _ hs => hs) rfl
      (fun q _ hq => (congrFun (congrArg Margin.exits hm) q).trans hq) (congrArg Margin.tally hm)
      (fun _ _ => .inl) fun _ _ _ _ => .inr rfl
  | world settings installer disk launcher connectionScripts bus =>
    exact hb.still (.of_board rfl) (fun _ hs => hs) rfl (fun _ _ hp => hp) rfl (fun _ _ => .inl)
      fun _ _ _ _ => .inr rfl
  | time now => exact hb.ofLoop (fun _ => rfl) fun _ _ _ _ => .inr rfl

end Balanced

theorem Fresh.balanced (hf : Fresh h) : Balanced [] h := by
  have hcore (s : Nat) : h.core? s = none := hf.core? s
  have hstack (t : Nat) (fs : List Frame) : h.loop.stack? t ≠ some fs := by
    rw [hf.loop]
    exact nofun
  refine ⟨⟨.nil, fun project s hs => ?_, fun _ _ => ⟨rfl, rfl⟩, fun s a ha => ?_,
    fun t fs f ht => (hstack t fs ht).elim, fun s p missing hp => ?_,
    fun t f below ht => (hstack t _ ht).elim, fun t fs s m replay q ht => (hstack t fs ht).elim⟩,
    ?_, fun t fs ht => (hstack t fs ht).elim⟩
  · obtain ⟨pre, mid, hlog, -⟩ := hs
    simp at hlog
  · rw [hcore] at ha
    cases ha
  · cases hp
  · rw [tally, hf.journal, hf.processes]
    rfl

/-- The log of a run accounts for the host that it leads to. -/
theorem balanced_of_run {ks : List Host} (hr : Run Fresh (Outside Reaction.isAsked) ks h) :
    Balanced (ks.flatMap dealings) h := by
  induction hr with
  | start hf => exact hf.balanced
  | @tick ks h hr ih =>
    have hlog : (ks ++ [h]).flatMap dealings = ks.flatMap dealings ++ dealings h := by
      rw [List.flatMap_append, List.flatMap_singleton]
    rw [hlog]
    exact ih.tick (inOrder_of_reachable hr.reachable) (neat_of_run hr (.inl trivial))
  | fire _ _ ih => exact ih.fire _
  | act hr hidle ho ih => exact ih.outside (neat_of_run hr (.inl trivial)) hidle ho

/-! ## The numbers of processes -/

/-- Nobody but the frame that starts a process tells of its number. -/
theorem process?_told (h : Host) (f : Frame) (below : List Frame) (e : Ending) :
    (told h f below e).filterMap Dealing.process? = [] ∨
      (told h f below e).filterMap Dealing.process? = [h.processes.size] := by
  have hnone {d : Dealing} (hd : d.isFree = true) : d.process? = none := by
    cases d <;> first | rfl | cases hd
  rcases told_cases h f below e with hfree | ⟨project, i, e'⟩ | ⟨_, _, _, _, _, -, -, e'⟩
  · exact .inl (List.filterMap_eq_nil_iff.2 fun d hd => hnone (hfree d hd))
  · exact .inl (by rw [e']; rfl)
  · exact .inr (by rw [e']; rfl)

theorem process?_calls (h : Host) (push : List Frame) :
    (calls h push).filterMap Dealing.process? = [] :=
  List.filterMap_eq_nil_iff.2 fun d hd => by
    rcases mem_calls hd with ⟨_, -, rfl⟩ | ⟨_, _, _, -, rfl⟩ <;> rfl

theorem process?_dealings (h : Host) : (dealings h).filterMap Dealing.process? = [] ∨
    (dealings h).filterMap Dealing.process? = [h.processes.size] := by
  unfold dealings
  split
  · exact .inl rfl
  · split
    · rw [List.filterMap_append, process?_calls, List.append_nil]
      exact process?_told ..
    · exact .inl rfl

theorem countP_isStart (log : List Dealing) :
    log.countP (·.isStart) = (log.filterMap Dealing.process?).length := by
  rw [List.length_filterMap_eq_countP]
  exact List.countP_congr fun d _ => by cases d <;> simp [Dealing.isStart, Dealing.process?]

/-- Processes have the numbers in which they are started. -/
theorem numbered_of_run {ks : List Host} (hr : Run Fresh (Outside Reaction.isAsked) ks h) :
    (ks.flatMap dealings).filterMap Dealing.process? = List.range h.processes.size := by
  have hsize {ks : List Host} {h : Host} (hr : Run Fresh (Outside Reaction.isAsked) ks h) :
      h.processes.size = ((ks.flatMap dealings).filterMap Dealing.process?).length := by
    rw [← countP_isStart]
    exact congrArg Prod.snd (balanced_of_run hr).tally
  induction hr with
  | start hf =>
    rw [hf.processes]
    rfl
  | @tick ks h hr ih =>
    have hn := hsize hr.tick
    rw [List.flatMap_append, List.flatMap_singleton, List.filterMap_append, ih, List.length_append,
      List.length_range] at hn
    rw [List.flatMap_append, List.flatMap_singleton, List.filterMap_append, ih]
    rcases process?_dealings h with e | e
    · rw [e] at hn ⊢
      rw [hn, List.length_nil, Nat.add_zero, List.append_nil]
    · rw [e] at hn ⊢
      rw [hn, List.length_singleton, List.range_succ]
  | @fire ks h t hr ht ih =>
    rw [hsize (hr.fire ht), ih, List.length_range]
  | act hr hidle ho ih =>
    rw [hsize (hr.act hidle ho), ih, List.length_range]

theorem eq_of_nodup_filterMap {log : List Dealing} (hn : (log.filterMap Dealing.process?).Nodup)
    {d d' : Dealing} {p : Nat} (hd : d ∈ log) (hd' : d' ∈ log) (hp : d.process? = some p)
    (hp' : d'.process? = some p) : d = d' := by
  induction log with
  | nil => cases hd
  | cons a log ih =>
    have hnot {b : Dealing} (ha : a.process? = some p) (hb : b ∈ log) : b.process? ≠ some p := fun hp => by
      rw [List.filterMap_cons_some ha] at hn
      exact (List.nodup_cons.1 hn).1 (List.mem_filterMap.2 ⟨b, hb, hp⟩)
    rcases List.mem_cons.1 hd with rfl | hlog <;> rcases List.mem_cons.1 hd' with rfl | hlog'
    · rfl
    · exact absurd hp' (hnot hp hlog')
    · exact absurd hp (hnot hp' hlog)
    · refine ih ?_ hlog hlog'
      cases ha : a.process? with
      | none => rwa [List.filterMap_cons_none ha] at hn
      | some q =>
        rw [List.filterMap_cons_some ha] at hn
        exact (List.nodup_cons.1 hn).2

/-- A process is started for one session. -/
theorem start_inj {ks : List Host} (hr : Run Fresh (Outside Reaction.isAsked) ks h) {s i p : Nat}
    {m n : StartMode} (hs : .start s m p ∈ ks.flatMap dealings) (hi : .start i n p ∈ ks.flatMap dealings) :
    s = i := by
  have hn : ((ks.flatMap dealings).filterMap Dealing.process?).Nodup := by
    rw [numbered_of_run hr]
    exact List.nodup_range
  cases eq_of_nodup_filterMap hn hs hi rfl rfl
  rfl

/-- A process that was started is there. -/
theorem lt_of_start {ks : List Host} (hr : Run Fresh (Outside Reaction.isAsked) ks h) {s p : Nat}
    {m : StartMode} (hs : .start s m p ∈ ks.flatMap dealings) : p < h.processes.size := by
  have hmem : p ∈ (ks.flatMap dealings).filterMap Dealing.process? :=
    List.mem_filterMap.2 ⟨_, hs, rfl⟩
  rw [numbered_of_run hr] at hmem
  exact List.mem_range.1 hmem

/-! ## The startups of a session -/

/-- How the worker of a session was started, told by a log that leads to a host. -/
structure StartedOnce (log : List Dealing) (h : Host) (s : Nat) : Prop where
  /-- The launcher was called for a worker that does not build dependencies, and then for one that
      does, and not again. -/
  spawns : spawns s log <+: [.fast, .withBuild]
  /-- Each call had its reason before. -/
  warranted : ∀ pre post m, log = pre ++ .spawn s m :: post → Warrant pre s m
  /-- The installer was called once at most, and only if it may be. -/
  installs : installs s log <+: [true]
  /-- One process of the session runs at most. -/
  alive : ∀ m n p q, .start s m p ∈ log → .start s n q ∈ log → h.exitOf p = none →
    h.exitOf q = none → p = q

theorem Balanced.startedOnce (hb : Balanced log h) (s : Nat) : StartedOnce log h s where
  spawns := hb.accounts.proper.spawns s
  warranted _ _ _ e := (hb.accounts.proper.allowed e).2
  installs := hb.accounts.proper.installs s
  alive m n p q hp hq hpx hqx := by
    have hended {a b : Nat} (ha : .start s .fast a ∈ log) (hb' : .start s .withBuild b ∈ log)
        (hax : h.exitOf a = none) : a = b := by
      have hexit := hb.accounts.exits s a true (hb.accounts.proper.exit_between ha hb')
      rw [hax] at hexit
      cases hexit
    cases m with
    | fast =>
      cases n with
      | fast => exact hb.accounts.proper.start_unique hp hq
      | withBuild => exact hended hp hq hpx
    | withBuild =>
      cases n with
      | fast => exact (hended hq hp hqx).symm
      | withBuild => exact hb.accounts.proper.start_unique hp hq

/-- In every run, whoever asks for the session of a project is given the same one until it is
    dropped, and each session's worker is started once, and once more if a dependency was missing.
    The log tells all calls of the launcher and all processes. -/
theorem started_once {ks : List Host} (hr : Run Fresh (Outside Reaction.isAsked) ks h) :
    (h.journal.spawns.length, h.processes.size) = tallied (ks.flatMap dealings) ∧
      (∀ project s s' pre mid post, ks.flatMap dealings =
        pre ++ .find project s :: mid ++ .find project s' :: post → .drop project ∉ mid → s = s') ∧
      ∀ s, StartedOnce (ks.flatMap dealings) h s :=
  have hb := balanced_of_run hr
  ⟨hb.tally, fun _ _ _ _ _ _ e hmid => hb.accounts.proper.shared e hmid, hb.startedOnce⟩

/-- A worker that misses a dependency, and one that builds it. -/
def dependent : Launcher :=
  { spawns := [{ output := [Text.Utf8.encode "cannot satisfy -package text\n".toList], exit := some 1 }] }

/-- A session whose worker was started twice. -/
theorem started_once_twice : ∃ ks : List Host,
    Run Fresh (Outside Reaction.isAsked) ks (settleWithin 60 (begun dependent)) ∧
    (settleWithin 60 (begun dependent)).processes.size = 2 ∧
    (settleWithin 60 (begun dependent)).journal.spawns.length = 2 ∧
      tallied (ks.flatMap dealings) = (2, 2) ∧
        StartedOnce (ks.flatMap dealings) (settleWithin 60 (begun dependent)) 0 := by
  have hrun := (run_begun (P := Reaction.isAsked) dependent).settleWithin 60
  obtain ⟨htally, -, hstarted⟩ := started_once hrun
  have hsize : (settleWithin 60 (begun dependent)).processes.size = 2 := by decide +kernel
  have hspawns : (settleWithin 60 (begun dependent)).journal.spawns.length = 2 := by decide +kernel
  rw [hsize, hspawns] at htally
  exact ⟨_, hrun, hsize, hspawns, htally.symm, hstarted 0⟩

end Host

end GhciHost
