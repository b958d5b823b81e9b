import GhciHost.Proofs.Session.Answers
import GhciHost.Proofs.Session.Relaunch

/-!
# The requests of a worker that ended

A worker that was started without building dependencies ends on a missing one while requests are
pending.  The next worker is written these requests when it is set up, and answers them.

* `Serving`   what was answered since a session had some requests pending;
* `Serving.quiet`, `Serving.idle`, `Serving.feed`   steps that take no output, and one that does;
* `serving_of_run`   the requests are answered first as long as the session keeps its worker;
* `replayed_in_order`   what the new worker is written, what is queued for it, and how it is answered.
-/

namespace GhciHost.Host

variable {h h' : Host} {s q : Nat} {a : Lane} {ks js : List Host}

/-! ## Steps of the loop -/

/-- The output of a session's worker that the next step takes. -/
def takenFrom (s q : Nat) (h : Host) : List UInt8 :=
  match h.loop.running with
  | some (t, .value (.piece bytes)) =>
    match h.loop.stack? t with
    | some (.pumped s' q' :: _) => if s' = s ∧ q' = q then bytes else []
    | _ => []
  | _ => []

/-- The answers that the next step gives. -/
def answersAt (s q : Nat) (h : Host) : List Answer :=
  let bytes := takenFrom s q h
  answersOf s (bodiesIn (h.laneOf s).marker ((h.laneOf s).buffer ++ bytes))
    (after (recordOutput s bytes) h)

theorem takenFrom_ne_nil (e : takenFrom s q h ≠ []) : ∃ t below,
    h.loop.running = some (t, .value (.piece (takenFrom s q h))) ∧
      h.loop.stack? t = some (.pumped s q :: below) := by
  unfold takenFrom at e ⊢
  split at e
  · next t bytes hrun =>
    split at e
    · next s' q' below htop =>
      split at e
      · next hsame =>
        obtain ⟨rfl, rfl⟩ := hsame
        refine ⟨t, below, ?_, htop⟩
        simp only [hrun, and_self, if_true]
      · exact absurd rfl e
    · exact absurd rfl e
  · exact absurd rfl e

/-- A step that takes output cuts it into responses, and reads on. -/
theorem tick_of_feed {t n : Nat} {bytes : List UInt8} {below : List Frame}
    (hrun : h.loop.running = some (t, .value (.piece bytes)))
    (htop : h.loop.stack? t = some (.pumped s q :: below)) (hout : bytes ≠ [])
    (hfeed : (feed s bytes).run (after (recordOutput s bytes) h) = .ok n h') :
    ∃ l, h.tick = { h' with loop := l } ∧
      ∀ c o, h'.loop.outcome? c = some o → l.outcome? c = some o := by
  obtain ⟨b, bs, rfl⟩ := List.exists_cons_of_ne_nil hout
  have hresume : (resume (.pumped s q) (.value (.piece (b :: bs)))).run h =
      .ok (.call [.pump s q]) h' := by
    show (pumped s q (.value (.piece (b :: bs)))).run h = _
    unfold pumped
    dsimp only
    rw [run_bind_ok (Succeeds.run_unit ..), run_bind_ok hfeed]
    rfl
  refine ⟨proceed t below (.call [.pump s q]) h'.loop, ?_, (lasts_proceed _).outcome⟩
  unfold Host.tick
  rw [hrun]
  dsimp only
  rw [step_eq htop, nextOf_of_ok hresume, after_of_ok hresume]

/-- What was answered since a session had some requests pending.  `js` are the steps since then. -/
structure Serving (start : Host) (s q : Nat) (asked : List Request) (js : List Host) (h : Host) :
    Prop where
  tidy : Tidy s h
  marker : (h.laneOf s).marker = (start.laneOf s).marker
  rest : (h.laneOf s).buffer = (Lane.frames (start.laneOf s).marker (js.flatMap (takenFrom s q))).2
  served : Served asked ((js.flatMap (answersAt s q)).map Answer.pair)
    (bodiesIn (start.laneOf s).marker (js.flatMap (takenFrom s q))) (h.laneOf s).queue
  told : ∀ x ∈ js.flatMap (answersAt s q), x.Told h

namespace Serving

variable {start : Host} {asked : List Request}

/-- Requests are queued at most, and what is known of cells stays known. -/
theorem quiet (k : Serving start s q asked js h) (hlong : Lengthens s h h')
    (hlasts : ∀ c o, h.loop.outcome? c = some o → h'.loop.outcome? c = some o) :
    Serving start s q asked js h' := by
  obtain ⟨a, ha⟩ := Table.exists_get? k.tidy.lt
  have hlane : h.laneOf s = a := laneOf_of_get? ha
  obtain ⟨rs, hrs⟩ := hlong a ha
  have hlane' : h'.laneOf s = { a with queue := a.queue ++ rs } := laneOf_of_get? hrs
  obtain ⟨⟨-, hsearched, hmem⟩, hmarker, hrest, hserved, htold⟩ := k
  rw [hlane] at hsearched hmem hmarker hrest hserved
  refine ⟨⟨Table.lt_size_of_get? hrs, ?_, ?_⟩, ?_, ?_, ?_, fun x hx => (htold x hx).lasts hlasts⟩
  · rw [hlane']
    exact hsearched
  · rw [hlane']
    exact hmem
  · rw [hlane']
    exact hmarker
  · rw [hlane']
    exact hrest
  · rw [hlane']
    exact hserved.lengthen rs

/-- A step that takes no output gives no answer. -/
theorem idle (k : Serving start s q asked js h) (hno : takenFrom s q h = []) :
    Serving start s q asked (js ++ [h]) h := by
  have hanswers : answersAt s q h = [] := by
    unfold answersAt
    dsimp only
    rw [hno, List.append_nil, bodiesIn, Lane.frames_of_not_mem k.tidy.not_mem]
    rfl
  obtain ⟨htidy, hmarker, hrest, hserved, htold⟩ := k
  refine ⟨htidy, hmarker, ?_, ?_, ?_⟩
  · rw [List.flatMap_append, List.flatMap_singleton, hno, List.append_nil]
    exact hrest
  · rw [List.flatMap_append, List.flatMap_append, List.flatMap_singleton, List.flatMap_singleton, hno,
      hanswers, List.append_nil, List.append_nil]
    exact hserved
  · rw [List.flatMap_append, List.flatMap_singleton, hanswers, List.append_nil]
    exact htold

/-- Output is about to be cut into responses. -/
theorem serves (k : Serving start s q asked js h) (r : Regular h) (bytes : List UInt8) :
    Serves s asked (js.flatMap (answersAt s q))
      (bodiesIn (start.laneOf s).marker (js.flatMap (takenFrom s q))) (h.laneOf s)
      (after (recordOutput s bytes) h) := by
  obtain ⟨a, ha⟩ := Table.exists_get? k.tidy.lt
  have hguards : Guards {} h (after (recordOutput s bytes) h) := Within.rel_after h
  have hboard : (after (recordOutput s bytes) h).board = h.board := Within.rel_after (R := Same board) h
  refine ⟨?_, hguards.toHanded.bounded r.inOrder.bounded, ?_, k.served, k.told⟩
  · rw [hboard]
    exact r.neat
  · rw [laneOf_of_get? ha]
    exact ha

/-- A step that takes output delivers the responses that it completes. -/
theorem feed (k : Serving start s q asked js h) (r : Regular h) (hout : takenFrom s q h ≠ []) :
    Serving start s q asked (js ++ [h]) h.tick ∧
      notesOf h.tick = notesOf h ++ (answersAt s q h).flatMap Answer.notes := by
  obtain ⟨t, below, hrun, htop⟩ := takenFrom_ne_nil hout
  have htidy : Tidy s (after (recordOutput s (takenFrom s q h)) h) :=
    ⟨k.tidy.lt, k.tidy.searched, k.tidy.not_mem⟩
  obtain ⟨n, g, queue, hfeed, hget, hserved, htold, hnotes⟩ :=
    (k.serves r _).feed htidy (takenFrom s q h)
  obtain ⟨l, htick, hlasts⟩ := tick_of_feed hrun htop hout hfeed
  have hlane : h.tick.laneOf s = (h.laneOf s).cut (takenFrom s q h) queue := by
    rw [htick]
    exact laneOf_of_get? hget
  have hoften {β : Type} (f : Host → List β) : (js ++ [h]).flatMap f = js.flatMap f ++ f h := by
    rw [List.flatMap_append, List.flatMap_singleton]
  obtain ⟨-, hmarker, hrest, -, -⟩ := k
  refine ⟨⟨⟨?_, ?_, ?_⟩, ?_, ?_, ?_, ?_⟩, ?_⟩
  · rw [htick]
    exact Table.lt_size_of_get? hget
  · rw [hlane]
    rfl
  · rw [hlane]
    exact (Lane.not_mem_frames _).2
  · rw [hlane]
    exact hmarker
  · rw [hlane, hoften, Lane.frames_append, ← hrest, ← hmarker]
    rfl
  · rw [hlane, hoften, hoften, bodiesIn_append _ (js.flatMap _) (takenFrom s q h), ← hrest, ← hmarker]
    rw [← hmarker] at hserved
    exact hserved
  · intro x hx
    rw [hoften] at hx
    rw [htick]
    exact (htold x hx).lasts hlasts
  · rw [htick]
    exact hnotes

end Serving

theorem takenFrom_of_running {t : Nat} {bytes : List UInt8} {below : List Frame}
    (hrun : h.loop.running = some (t, .value (.piece bytes)))
    (htop : h.loop.stack? t = some (.pumped s q :: below)) : takenFrom s q h = bytes := by
  unfold takenFrom
  rw [hrun]
  dsimp only
  rw [htop]
  exact if_pos ⟨rfl, rfl⟩

/-- A step of a frame that handles the lane of a session, which keeps its worker: it does nothing to
    the lane, unless it takes output. -/
theorem lengthens_of_handles (hr : Run Fresh (Outside Reaction.isAsked) ks h)
    (hq : (h.sessionOf s).process = some q) (hq' : (h.tick.sessionOf s).process = some q)
    (hno : takenFrom s q h = []) {t : Nat} {e : Ending} {f : Frame} {below : List Frame}
    (hrun : h.loop.running = some (t, e)) (htop : h.loop.stack? t = some (f :: below))
    (hf : f.handles? = some s) : Lengthens s h (after (resume f e) h) := by
  have r := regular_of_run hr
  obtain ⟨a, ha, hproc⟩ := core?_of_process hq
  obtain ⟨hworker, halive⟩ := manned_of_neat r.neat s a ha (by rw [hproc]; rfl)
  have hfits := r.inOrder.stages.fits t _ _ htop List.mem_cons_self
  -- so the step leaves it its worker, and is not of a task that starts one or destroys the session
  have hleft (hnone : ∃ b, (after (resume f e) h).core? s = some b ∧ b.process = none) : False := by
    obtain ⟨b, hb, hnone⟩ := hnone
    have hafter : ((after (resume f e) h).sessionOf s).process = some q := by
      rw [← hq']
      unfold Host.tick
      rw [hrun]
      dsimp only
      rw [step_eq htop]
      rfl
    rw [process_eq hb, hnone] at hafter
    cases hafter
  have hstaged {A : Session.Core → Prop} (hstage : ∃ b, h.core? s = some b ∧
      (b.destroyed = true ∨ A b ∧ b.process = none)) : False := by
    obtain ⟨b, hb, hstage⟩ := hstage
    cases ha.symm.trans hb
    rcases hstage with hd | ⟨-, hnone⟩
    · rw [halive] at hd
      cases hd
    · rw [hproc] at hnone
      cases hnone
  cases f with
  | pumped s' p =>
    cases hf
    have hp : p = q := follows_process hr ha hproc (Tracked.follows_self htop rfl)
    subst hp
    cases e with
    | value v =>
      cases v with
      | piece bytes =>
        rw [takenFrom_of_running hrun htop] at hno
        subst hno
        exact Std.Refl.refl h
      | _ => exact Std.Refl.refl h
    | failed x =>
      show Lengthens s h (after (pumped s p (.failed x)) h)
      unfold pumped
      dsimp only
      split <;> exact Std.Refl.refl h
    | cancelled => exact Std.Refl.refl h
  | gotStatus s' =>
    cases hf
    obtain ⟨b, hb, hearly⟩ := hfits.early s rfl
    cases ha.symm.trans hb
    rcases hearly with hd | hphase
    · rw [halive] at hd
      cases hd
    · rw [hphase] at hworker
      cases hworker
  | gotInstall s' =>
    cases hf
    exact (hstaged (hfits.stage s .installing rfl)).elim
  | launched s' m replay =>
    cases hf
    exact (hstaged (hfits.stage s (.starting m) rfl)).elim
  | queriesGone s' =>
    cases hf
    obtain ⟨b, hb, hd⟩ := hfits.gone s rfl
    cases ha.symm.trans hb
    rw [halive] at hd
    cases hd
  | pumpEnd s' p =>
    cases hf
    have hp : p = q := follows_process hr ha hproc (Tracked.follows_self htop rfl)
    subst hp
    cases e with
    | value v =>
      cases v with
      | code code =>
        obtain ⟨b, hb, hexited⟩ := pumpEnd_exited r.neat hq code
        have hcase := hexited.nextOf
        refine (hleft ?_).elim
        show ∃ c, (after (pumpEnd s p code) h).core? s = some c ∧ c.process = none
        generalize nextOf (pumpEnd s p code) h = n at hcase
        generalize core? (after (pumpEnd s p code) h) = cores at hcase
        cases hcase with
        | escalated => exact ⟨_, bump_self hb, rfl⟩
        | died => exact ⟨_, bump_self hb, rfl⟩
      | _ => exact Std.Refl.refl h
    | _ => exact Std.Refl.refl h
  | teardown s' =>
    cases hf
    cases e with
    | value v =>
      refine (hleft ⟨{ a with destroyed := true, process := none }, ?_, rfl⟩).elim
      show (after (teardown s) h).core? s = _
      rw [(teardown_spec (s := s) (h := h)).nextOf.2, bump_self ha]
    | _ => exact Std.Refl.refl h
  | _ => cases hf

/-- While a session keeps its worker requests are queued for it at most, but for the steps that take
    output. -/
theorem lengthens_tick (hr : Run Fresh (Outside Reaction.isAsked) ks h)
    (hq : (h.sessionOf s).process = some q) (hq' : (h.tick.sessionOf s).process = some q)
    (hno : takenFrom s q h = []) : Lengthens s h h.tick :=
  Postal.tick fun t e f below hrun htop => by
    by_cases hf : f.handles? = some s
    · exact lengthens_of_handles hr hq hq' hno hrun htop hf
    · have hother {l : Nat} (hl : f.handles? = some l) : l ≠ s := by
        rintro rfl
        exact hf hl
      refine Given.step (regular_of_run hr).neat f e
        (fun l hl => ⟨fun _ => Lengthens.other (hother hl) _, Lengthens.other (hother hl) _⟩) ?_
      rintro l m replay p rfl -
      exact Lengthens.other (hother rfl) _

/-- Whatever is done from outside, a session has the worker that it had. -/
theorem process_of_outside {P : Reaction → Prop} (ho : Outside P h h')
    (hq : (h'.sessionOf s).process = some q) : (h.sessionOf s).process = some q := by
  have hcalm : Calm h h' := by
    cases ho with
    | submit | query | act => exact Within.rel_after h
    | _ => exact .of_core? rfl
  obtain ⟨b, hb, hproc⟩ := core?_of_process hq
  cases ha : h.core? s with
  | none =>
    obtain ⟨key, rfl⟩ := hcalm.new s b hb ha
    cases hproc
  | some a =>
    obtain ⟨b', hb', hab⟩ := hcalm.old s a ha
    cases hb.symm.trans hb'
    rw [process_eq ha]
    rcases hab with rfl | ⟨m, m', port, p, -, hp, rfl⟩
    · exact hproc
    · exact hproc

/-- As long as a session keeps its worker, the requests that it had pending are answered first and
    in their order, with the responses that come. -/
theorem serving_of_run {start : Host} {asked : List Request}
    (hr : Run Fresh (Outside Reaction.isAsked) ks start)
    (hj : Run (· = start) (Outside Reaction.isAsked) js h) (k : Serving start s q asked [] start)
    (hq : ∀ j ∈ js ++ [h], (j.sessionOf s).process = some q) :
    Serving start s q asked js h ∧ ∀ j ∈ js, takenFrom s q j ≠ [] →
      notesOf j.tick = notesOf j ++ (answersAt s q j).flatMap Answer.notes := by
  induction hj with
  | start e => exact ⟨e ▸ k, fun j hj => (List.not_mem_nil hj).elim⟩
  | @tick js h hj ih =>
    obtain ⟨hserving, hnotes⟩ := ih fun j hj => hq j (List.mem_append_left _ hj)
    have hrun := hr.append hj
    have r := regular_of_run hrun
    by_cases hno : takenFrom s q h = []
    · have hm := Onward.tick r.inOrder r.filed
      have hlong : Lengthens s h h.tick := by
        refine lengthens_tick hrun (hq h ?_) (hq h.tick ?_) hno
        · exact List.mem_append_left _ (List.mem_append_right _ List.mem_cons_self)
        · exact List.mem_append_right _ List.mem_cons_self
      refine ⟨(hserving.idle hno).quiet hlong hm.moves.outcome, fun j hj hout => ?_⟩
      rcases List.mem_append.1 hj with hj | hj
      · exact hnotes j hj hout
      · rw [List.mem_singleton.1 hj] at hout
        exact absurd hno hout
    · obtain ⟨hserving', hnoted⟩ := hserving.feed r hno
      refine ⟨hserving', fun j hj hout => ?_⟩
      rcases List.mem_append.1 hj with hj | hj
      · exact hnotes j hj hout
      · rw [List.mem_singleton.1 hj]
        exact hnoted
  | @fire js h u hj hu ih =>
    have hm : Onward none h (h.fire u) := .fire (regular_of_run (hr.append hj)).filed hu
    have hlong : Lengthens s h (h.fire u) := Postal.fire u
    have hq' : ∀ j ∈ js ++ [h], (j.sessionOf s).process = some q := fun j hj => by
      rcases List.mem_append.1 hj with hj | hj
      · exact hq j (List.mem_append_left _ hj)
      · rw [List.mem_singleton.1 hj]
        exact hq (h.fire u) (List.mem_append_right _ List.mem_cons_self)
    obtain ⟨hserving, hnotes⟩ := ih hq'
    exact ⟨hserving.quiet hlong hm.moves.outcome, hnotes⟩
  | @act js h h' hj hidle ho ih =>
    have hm : Onward none h h' := .outside (regular_of_run (hr.append hj)).filed ho
    have hlong : Lengthens s h h' := Postal.outside ho
    have hq' : ∀ j ∈ js ++ [h], (j.sessionOf s).process = some q := fun j hj => by
      rcases List.mem_append.1 hj with hj | hj
      · exact hq j (List.mem_append_left _ hj)
      · rw [List.mem_singleton.1 hj]
        exact process_of_outside ho (hq h' (List.mem_append_right _ List.mem_cons_self))
    obtain ⟨hserving, hnotes⟩ := ih hq'
    exact ⟨hserving.quiet hlong hm.moves.outcome, hnotes⟩

/-! ## The requests of a worker that ended -/

/-- A new worker has answered nothing of what is queued for it. -/
theorem Launches.serving {t : Nat} {m : StartMode} {replay : List Request} {below : List Frame}
    (k : Launches h t s q m replay below) (hr : Run Fresh (Outside Reaction.isAsked) ks h) :
    Serving h.tick s q (h.tick.laneOf s).queue [] h.tick := by
  obtain ⟨-, hget, -⟩ := k.tick hr
  have hlane := laneOf_of_get? hget
  have hbuffer : (h.tick.laneOf s).buffer = [] := by
    rw [hlane]
    rfl
  have hnone : Lane.frames (h.tick.laneOf s).marker [] = ([], []) :=
    Lane.frames_of_not_mem List.not_mem_nil
  refine ⟨⟨Table.lt_size_of_get? hget, ?_, ?_⟩, rfl, ?_, ?_, fun x hx => (List.not_mem_nil hx).elim⟩
  · rw [hlane]
    rfl
  · rw [hbuffer]
    exact List.not_mem_nil
  · rw [hbuffer, List.flatMap_nil, hnone]
  · rw [List.flatMap_nil, List.flatMap_nil, bodiesIn, hnone]
    exact Served.nil _

/-- Requests are answered by a worker, in their order and with its responses.  `js` are the steps
    since they were queued. -/
structure Replays (start : Host) (s q : Nat) (asked : List Request) (js : List Host) (h : Host) :
    Prop where
  /-- Those that were not answered yet are still queued, before all that came later. -/
  order : ∃ newer, asked ++ newer = (js.flatMap (answersAt s q)).map Answer.request ++ (h.laneOf s).queue
  /-- Each was answered once, with the response in its place. -/
  answers : ((js.flatMap (answersAt s q)).map Answer.pair).take asked.length =
    asked.zip (bodiesIn (start.laneOf s).marker (js.flatMap (takenFrom s q)))
  /-- Whoever waited got the response. -/
  told : ∀ x ∈ js.flatMap (answersAt s q), x.Told h
  /-- Whoever asked to be told was told it. -/
  noted : ∀ j ∈ js, takenFrom s q j ≠ [] →
    notesOf j.tick = notesOf j ++ (answersAt s q j).flatMap Answer.notes

/-- What a task takes along is what it starts the worker with. -/
theorem replay_of_launches {t : Nat} {replay pending : List Request}
    {below : List Frame} (k : Relaunching t s pending below h)
    (hl : Launches h t s q .withBuild replay below) : replay = pending := by
  cases k with
  | launching htop => cases htop.symm.trans hl.top
  | spawning script htop => cases htop.symm.trans hl.top
  | spawned htop =>
    cases htop.symm.trans hl.top
    rfl
  | ended htop =>
    have hlength := congrArg (Option.map List.length) (htop.symm.trans hl.top)
    simp at hlength

/-- A worker that was started without building dependencies ends on a missing one, and the task that
    follows it starts one more, which can be written to, while the session is not destroyed.
    Meanwhile nothing is queued; the new worker is written the commands that set it up and then those of
    the requests that were pending, each once; these are queued again behind its startup, and as
    long as the session keeps it they are answered first, in their order, with its responses. -/
theorem replayed_in_order {k i : Host} {t p : Nat} {below : List Frame} {replay : List Request}
    (hr : Run Fresh (Outside Reaction.isAsked) ks k) (he : Escalates k t s p below)
    (hu : Underway k.tick t below js i) (hl : Launches i t s q .withBuild replay below) :
    (∀ j ∈ js ++ [i], (j.laneOf s).queue = []) ∧
      linesTo q i.tick = (i.settings.setupCommands ++ [i.settings.promptCommand] ++
        (pendingOf s k).map (·.command)).map Entry.line ∧
      (i.tick.laneOf s).queue = .startup s q .withBuild :: pendingOf s k ∧
      ∀ is h, Run (· = i.tick) (Outside Reaction.isAsked) is h →
        (∀ j ∈ is ++ [h], (j.sessionOf s).process = some q) →
        Replays i.tick s q (.startup s q .withBuild :: pendingOf s k) is h := by
  have hrun := hr.tick.append hu.run
  have r := regular_of_run hrun
  obtain ⟨hstage, hqueues⟩ :=
    relaunching_of_underway hr.tick hu (.launching (he.tick (regular_of_run hr)))
  obtain rfl := replay_of_launches hstage hl
  have hd : ¬ Doomed s i := fun ⟨a, ha, hdead⟩ => by
    have halive := hl.alive
    rw [destroyed_eq ha, hdead] at halive
    cases halive
  have hqueue : (i.laneOf s).queue = [] := by
    refine hstage.queue r hd ⟨_, hl.top, ?_⟩
    rw [List.length_cons]
    exact Nat.lt_succ_self _
  obtain ⟨hlines, hget, -⟩ := hl.tick hrun
  have hqueue' : (i.tick.laneOf s).queue = .startup s q .withBuild :: pendingOf s k := by
    rw [laneOf_of_get? hget, hqueue]
    rfl
  refine ⟨fun j hj => ?_, hlines, hqueue', fun is h hi hq => ?_⟩
  · rcases List.mem_append.1 hj with hj | hj
    · exact hqueues hd j hj
    · rw [List.mem_singleton.1 hj]
      exact hqueue
  · have hbegin := hl.serving hrun
    rw [hqueue'] at hbegin
    obtain ⟨hserving, hnoted⟩ := serving_of_run hrun.tick hi hbegin hq
    obtain ⟨⟨newer, horder⟩, -⟩ := hserving.served
    refine ⟨⟨newer, ?_⟩, ?_, hserving.told, hnoted⟩
    · rw [horder, List.map_map]
      rfl
    · have hzip := hserving.served.take_eq_zip
      exact hzip

/-! ## A worker that is replaced while requests are pending -/

/-- A worker is started that prints nothing. -/
def silent : Host := settleWithin 40 (begun { spawns := [{}] })

/-- Somebody asks to be told of a response, and somebody else waits for one. -/
def awaiting : Host :=
  settleWithin 10 (after (newTask [.callSession 0 "map" (some (.whole 1))])
    (after (submitSession 0 "id" (.str "x") (some .note)) silent))

/-- The timer that was set last. -/
def lastTimer (h : Host) : Timer := h.loop.timers.getLast?.getD ⟨h.loop.now, 0⟩

/-- The waiting is over. -/
def overdue : Host := settleWithin 20 (awaiting.fire (lastTimer awaiting))

/-- The worker tells of a missing dependency and ends. -/
def failing : Host :=
  settleWithin 7 (after (act 0 "" (.exit 1))
    (after (act 0 "" (.say "cannot satisfy -package text\n")) overdue))

/-- One more worker was started. -/
def relaunched : Host := settleWithin 2 failing.tick

/-- The exit code that is told of. -/
def exited? : Ending → Option Int
  | .value (.code code) => some code
  | _ => none

/-- The worker that is told of. -/
def started? : Ending → Option Nat
  | .value (.process p) => some p
  | _ => none

theorem eq_of_exited? {e : Ending} {code : Int} (he : exited? e = some code) :
    e = .value (.code code) := by
  unfold exited? at he
  split at he
  · cases he
    rfl
  · cases he

theorem eq_of_started? {e : Ending} {p : Nat} (he : started? e = some p) :
    e = .value (.process p) := by
  unfold started? at he
  split at he
  · cases he
    rfl
  · cases he

theorem running_of_map? {h : Host} {g : Ending → Option β} {t : Nat} {b : β}
    (he : (h.loop.running.bind fun x => (g x.2).map (x.1, ·)) = some (t, b)) :
    ∃ e, h.loop.running = some (t, e) ∧ g e = some b := by
  obtain ⟨⟨t', e⟩, hrun, he⟩ := Option.bind_eq_some_iff.1 he
  obtain ⟨b', hb, he⟩ := Option.map_eq_some_iff.1 he
  cases he
  exact ⟨e, hrun, hb⟩

theorem run_failing : ∃ ks, Run Fresh (Outside Reaction.isAsked) ks failing := by
  have hsilent : Run Fresh (Outside Reaction.isAsked) _ silent :=
    (run_begun { spawns := [{}] }).settleWithin 40
  have hidle : silent.loop.running.isNone = true ∧
      (after (submitSession 0 "id" (.str "x") (some .note)) silent).loop.running.isNone = true ∧
      overdue.loop.running.isNone = true ∧
      (after (act 0 "" (.say "cannot satisfy -package text\n")) overdue).loop.running.isNone = true := by
    decide +kernel
  obtain ⟨hsilent', hasked, hlate, hsaid⟩ := hidle
  have hnote : ∀ r ∈ some Reaction.note, r.isAsked := fun r hr => by
    cases hr
    trivial
  have hsubmitted : Run Fresh (Outside Reaction.isAsked) _
      (after (submitSession 0 "id" (.str "x") (some .note)) silent) :=
    .act hsilent (Option.isNone_iff_eq_none.1 hsilent') (.submit 0 "id" _ _ hnote)
  have hawaiting : Run Fresh (Outside Reaction.isAsked) _ awaiting :=
    (Run.act hsubmitted (Option.isNone_iff_eq_none.1 hasked)
      (.ask (.callSession 0 "map" (some (.whole 1))))).settleWithin 10
  have htimer : lastTimer awaiting ∈ awaiting.loop.timers := by
    have hsome : awaiting.loop.timers.getLast?.isSome = true := by decide +kernel
    obtain ⟨u, hu⟩ := Option.isSome_iff_exists.1 hsome
    rw [lastTimer, hu]
    exact List.mem_of_getLast? hu
  have hoverdue : Run Fresh (Outside Reaction.isAsked) _ overdue :=
    (hawaiting.fire htimer).settleWithin 20
  exact ⟨_, (Run.act (.act hoverdue (Option.isNone_iff_eq_none.1 hlate) (.act 0 "" _))
    (Option.isNone_iff_eq_none.1 hsaid) (.act 0 "" (.exit 1))).settleWithin 7⟩

theorem escalates_failing : Escalates failing 1 0 0 [] := by
  have hnext : (failing.loop.running.bind fun x => (exited? x.2).map (x.1, ·)) = some (1, 1) ∧
      ((failing.loop.stack? 1).map (·.map fun f => (f.expects?, f.follows?))) =
        some [(some (.exit 0), some (0, 0))] := by decide +kernel
  have hsession : (failing.sessionOf 0).process = some 0 ∧
      (failing.sessionOf 0).destroyed = false ∧ (failing.sessionOf 0).phase.mode? = some .fast ∧
      (failing.sessionOf 0).dependencyMissing = true := by decide +kernel
  obtain ⟨hrun, hstack⟩ := hnext
  obtain ⟨hprocess, halive, hfast, hmissing⟩ := hsession
  obtain ⟨e, hrun, he⟩ := running_of_map? hrun
  rw [eq_of_exited? he] at hrun
  refine ⟨⟨1, hrun⟩, ?_, hprocess, halive, hfast, hmissing⟩
  obtain ⟨fs, hfs, hframes⟩ := Option.map_eq_some_iff.1 hstack
  obtain ⟨f, fs, rfl, hf, hnil⟩ := List.map_eq_cons_iff.1 hframes
  cases List.map_eq_nil_iff.1 hnil
  rw [hfs]
  cases f <;> cases hf
  rfl

theorem underway_relaunched : Underway failing.tick 1 [] (Run.settling 2 failing.tick) relaunched := by
  have hdeep : (Run.settling 2 failing.tick).all
      (fun j => (j.loop.stack? 1).any (0 < ·.length)) = true := by decide +kernel
  refine ⟨Run.settled _ 2, fun j hj => ?_⟩
  obtain ⟨fs, hfs, hlt⟩ := (Option.any_eq_true _ _).1 (List.all_eq_true.1 hdeep j hj)
  exact ⟨fs, hfs, of_decide_eq_true hlt⟩

theorem launches_relaunched : Launches relaunched 1 0 1 .withBuild (pendingOf 0 failing) [] := by
  have hnext : (relaunched.loop.running.bind fun x => (started? x.2).map (x.1, ·)) = some (1, 1) ∧
      ((relaunched.loop.stack? 1).map (·.map Frame.expects?)) = some [some .start] := by
    decide +kernel
  have hwritten : (relaunched.sessionOf 0).destroyed = false ∧
      (failure? (setUp 0 (pendingOf 0 failing)) (manned 0 1 .withBuild relaunched)).isNone = true := by
    decide +kernel
  obtain ⟨hrun, hstack⟩ := hnext
  obtain ⟨halive, hwritten⟩ := hwritten
  obtain ⟨e, hrun, he⟩ := running_of_map? hrun
  rw [eq_of_started? he] at hrun
  refine ⟨hrun, ?_, halive, Option.isNone_iff_eq_none.1 hwritten⟩
  obtain ⟨ks, hr⟩ := run_failing
  obtain ⟨hstage, -⟩ := relaunching_of_underway hr.tick underway_relaunched
    (.launching (escalates_failing.tick (regular_of_run hr)))
  cases hstage with
  | launching htop | spawning _ htop =>
    rw [htop] at hstack
    cases hstack
  | spawned htop => exact htop
  | ended htop =>
    rw [htop] at hstack
    cases hstack

/-- The requests are answered by the new worker, the one that nobody waits for any longer too. -/
theorem replayed_in_order_late : ∃ ks js is h, Run Fresh (Outside Reaction.isAsked) ks failing ∧
    Escalates failing 1 0 0 [] ∧ Underway failing.tick 1 [] js relaunched ∧
    Launches relaunched 1 0 1 .withBuild (pendingOf 0 failing) [] ∧
    Run (· = relaunched.tick) (Outside Reaction.isAsked) is h ∧
    (pendingOf 0 failing).map (·.command) = ["id", "map"] ∧
    ((relaunched.tick.laneOf 0).queue.map (·.command)) = ["<startup>", "id", "map"] ∧
    Replays relaunched.tick 0 1 (.startup 0 1 .withBuild :: pendingOf 0 failing) is h ∧
    ((is.flatMap (answersAt 0 1)).map fun x => (x.request.command, x.body)) =
      [("<startup>", "GHCi, version 8.4.4\nPort-Announcement: 4000\n"), ("id", "ok: id\n"),
        ("map", "ok: map\n")] ∧ h.journal.notes.map (·.2) = ["ok: id\n"] := by
  obtain ⟨ks, hr⟩ := run_failing
  have he := escalates_failing
  have hu := underway_relaunched
  have hl := launches_relaunched
  obtain ⟨-, -, hqueue, hanswered⟩ := replayed_in_order hr he hu hl
  have his (h : Host) : Run (· = h) (Outside Reaction.isAsked) (Run.settling 20 h) (settleWithin 20 h) :=
    .settled h 20
  have hkeeps : (Run.settling 20 relaunched.tick ++ [settleWithin 20 relaunched.tick]).all
      (fun j => (j.sessionOf 0).process == some 1) = true := by decide +kernel
  have hpending : (pendingOf 0 failing).map (·.command) = ["id", "map"] := by decide +kernel
  have hend : (((Run.settling 20 relaunched.tick).flatMap (answersAt 0 1)).map fun x =>
        (x.request.command, x.body)) =
      [("<startup>", "GHCi, version 8.4.4\nPort-Announcement: 4000\n"), ("id", "ok: id\n"),
        ("map", "ok: map\n")] ∧
      (settleWithin 20 relaunched.tick).journal.notes.map (·.2) = ["ok: id\n"] := by decide +kernel
  have hreplays := hanswered _ _ (his _) fun j hj => eq_of_beq (List.all_eq_true.1 hkeeps j hj)
  have hqueued : (relaunched.tick.laneOf 0).queue.map (·.command) = ["<startup>", "id", "map"] := by
    rw [hqueue, List.map_cons, hpending]
    rfl
  exact ⟨_, _, _, _, hr, he, hu, hl, his _, hpending, hqueued, hreplays, hend⟩

end GhciHost.Host
