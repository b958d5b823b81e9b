import GhciHost.Proofs.Session.Kept
import GhciHost.Proofs.Session.Seating

/-!
# Sessions, lanes and channels agree

What a session, its lane and its query channel know of a worker agrees at all times: all seats are
good in every run, as long as the port in the first response of each worker can be read.

* `Course.fair`, `Steps.fair`   frames go on to frames that ask only for what callers may;
* `Neat.tick`, `Neat.outside`   whatever happens keeps the seats good;
* `neat_of_run`   all seats are good in every run;
* `Agrees`, `sessions_agree`   what this says of a session in each of its phases.
-/

namespace GhciHost.Host

open Loop

variable {garbled : Prop} {h h' : Host}

/-! ## Frames that are pushed -/

/-- A frame that neither submits requests again nor makes one asks for nothing. -/
theorem fair_of_mute {f : Frame} (hreact : f.reaction? = none) (hreplay : f.replay? = none) :
    f.Fair where
  reaction x hx := by
    rw [hreact] at hx
    cases hx
  replay s rs hs := by
    rw [hreplay] at hs
    cases hs

theorem fair_launch (s : Nat) (m : StartMode) {replay : List Request}
    (hr : ∀ r ∈ replay, r.IsAsked) : Frame.Fair (.launch s m replay) where
  reaction x hx := by cases hx
  replay _ _ e := by
    cases e
    exact hr

theorem reaction?_of_isAside {f : Frame} (hf : f.isAside = true) : f.reaction? = none := by
  cases f <;> first | rfl | cases hf

theorem reaction?_of_early {f : Frame} {s : Nat} (hf : f.early? = some s) : f.reaction? = none := by
  cases f <;> first | rfl | cases hf

/-- A request in the queue of a session that is not for a first response is one of a caller. -/
theorem isAsked_of_queue (hn : h.board.Neat garbled) {s : Nat} {c : Session.Core}
    (hc : h.core? s = some c) {r : Request} (hr : r ∈ h.queueOf s) (hint : r.internal = false) :
    r.IsAsked := by
  obtain ⟨a, ha, -⟩ := seat?_of_core? hc
  obtain ⟨first, ⟨rest, hq, hrest⟩, -⟩ := (hn.good s a ha).queue
  rw [queueOf_eq, ← (seat?_lane ha).2, hq] at hr
  rcases List.mem_append.1 hr with hr | hr
  · obtain ⟨x, -, rfl⟩ := List.mem_map.1 hr
    cases hint
  · exact hrest r hr

theorem Course.fair {e : Ending} {f : Frame} {n : Next} {cores : Cores} (hc : Course h e f n cores)
    (hn : h.board.Neat garbled) (hfair : f.Fair) : ∀ g ∈ n.push, g.Fair := by
  intro g hg
  cases hc with
  | pass | make | giveUp | adopt | die | clear => cases hg
  | route _ _ hgs =>
    obtain ⟨haside, -⟩ := hgs g hg
    exact fair_of_mute (reaction?_of_isAside haside) (kinds_of_isAside haside).2.2.2.2.2.2
  | ask _ _ _ hgs hearly =>
    rcases List.mem_append.1 hg with hg | hg
    · exact fair_of_easy (easy_of_gentle hgs) hg
    · rw [List.mem_singleton.1 hg]
      exact fair_of_mute (reaction?_of_early hearly) (kinds_of_early hearly).2.2.2.2.2.2.2.2.2
  | install _ _ _ hgs =>
    rcases List.mem_append.1 hg with hg | hg
    · exact fair_of_easy (easy_of_gentle hgs) hg
    · rw [List.mem_singleton.1 hg]
      exact fair_of_mute rfl rfl
  | proceed =>
    rw [List.mem_singleton.1 hg]
    exact fair_launch _ _ nofun
  | launch hpush =>
    rw [hpush] at hg
    rcases List.mem_cons.1 hg with rfl | hg
    · exact fair_of_mute rfl rfl
    · rw [List.mem_singleton.1 hg]
      exact ⟨nofun, hfair.replay⟩
  | escalate _ ha _ _ _ _ hq =>
    rw [List.mem_singleton.1 hg]
    exact fair_launch _ _ fun r hr => isAsked_of_queue hn ha (hq r hr).1 (hq r hr).2
  | tear hpush =>
    rw [hpush] at hg
    rw [List.mem_singleton.1 hg]
    exact fair_of_mute rfl rfl

/-- The frames of those who queue for a turn. -/
def isQueued : Frame → Bool
  | .startTurn .. | .startBody _ | .startEnd _ | .give _ => true
  | _ => false

/-- The task goes on with frames of those who queue for a turn. -/
def Next.Queued (n : Next) : Prop := ∀ g ∈ n.push, isQueued g = true

namespace Next.Queued

instance pass (e : Ending) : Orderly Next.Queued (pure (.pass e) : Action Next) :=
  .pure fun _ hg => absurd hg List.not_mem_nil

instance done (v : Value) : Orderly Next.Queued (pure (.done v) : Action Next) :=
  .pure fun _ hg => absurd hg List.not_mem_nil

theorem startFrames {s : Nat} {g : Frame} (hg : g ∈ Host.startFrames s) : isQueued g = true := by
  obtain rfl | rfl : g = .startBody s ∨ g = .startEnd s := by simpa [Host.startFrames] using hg
  all_goals rfl

instance startSession (s : Nat) : Orderly Next.Queued (Host.startSession s) := by
  have : Orderly Next.Queued
      (pure (.call (Host.startFrames s ++ [.give (.session s)])) : Action Next) := .pure fun g hg => by
    rcases List.mem_append.1 hg with hg | hg
    · exact startFrames hg
    · rw [List.mem_singleton.1 hg]
      rfl
  have (c : Nat) : Orderly Next.Queued
      (pure (.wait [.startTurn s c, .give (.session s)] c) : Action Next) := .pure fun g hg => by
    obtain rfl | rfl : g = .startTurn s c ∨ g = .give (.session s) := by
      simpa [Next.push] using hg
    all_goals rfl
  unfold Host.startSession
  infer_instance

instance startTurn (s c : Nat) (e : Ending) : Orderly Next.Queued (Host.startTurn s c e) := by
  have : Orderly Next.Queued (pure (.call (Host.startFrames s)) : Action Next) :=
    .pure fun g hg => startFrames hg
  unfold Host.startTurn
  refine @Orderly.bind _ _ _ _ _ _ fun _ => ?_
  split <;> infer_instance

instance startEnd (s : Nat) (e : Ending) : Orderly Next.Queued (Host.startEnd s e) := by
  unfold Host.startEnd
  infer_instance

end Next.Queued

/-- Those who queue for a turn go on to queue, or have it. -/
theorem orderly_of_isTurn {f : Frame} (hf : f.isTurn = true) (e : Ending) :
    Orderly Next.Queued (resume f e) := by
  cases f with
  | startSession =>
    have (v : Value) : Orderly Next.Queued (resumeWith .startSession v) := by
      cases v <;> first | exact Next.Queued.startSession _ | exact Next.Queued.done _
    cases e with
    | value v => exact this v
    | _ => exact Next.Queued.pass _
  | startTurn s c => exact Next.Queued.startTurn s c e
  | startEnd s => exact Next.Queued.startEnd s e
  | _ => cases hf

theorem queued_nextOf {f : Frame} (hf : f.isTurn = true) (e : Ending) (h : Host) :
    (nextOf (resume f e) h).Queued := by
  unfold nextOf
  cases hr : (resume f e).run h with
  | ok n h' => exact (orderly_of_isTurn hf e).ok hr
  | error x h' => exact fun g hg => absurd hg List.not_mem_nil

theorem fair_of_isQueued {f : Frame} (hf : isQueued f = true) : f.Fair := by
  cases f <;> first | exact fair_of_mute rfl rfl | cases hf

/-! ## Steps -/

/-- The first response of a worker that the next step of the loop is about to hear. -/
def announced? (h : Host) : Option String :=
  match h.loop.running with
  | some (t, .value (.piece bytes)) =>
    match h.loop.stack? t with
    | some (.pumped s _ :: _) => announcement? (h.laneOf s) bytes
    | _ => none
  | _ => none

/-- If the next step hears the first response of a worker, the port that it announces has no more
    digits than can be read. -/
def portReadable (h : Host) : Bool :=
  h.announced?.all fun body =>
    (Output.findAnnouncement true body.toList).all fun (_, digits, _) =>
      digits.length ≤ Text.maxDigits

theorem extractPort_of_portReadable (hp : h.portReadable = true) {body : String}
    (hb : h.announced? = some body) : ∃ x, Output.extractPort body.toList = .ok x := by
  unfold portReadable at hp
  rw [hb, Option.all_some] at hp
  unfold Output.extractPort
  cases hf : Output.findAnnouncement true body.toList with
  | none => exact ⟨_, rfl⟩
  | some x =>
    obtain ⟨front, digits, rest⟩ := x
    rw [hf, Option.all_some, decide_eq_true_eq] at hp
    refine ⟨(some (Text.readNat digits), front ++ rest), ?_⟩
    dsimp only
    rw [Text.readNat?, if_neg (Nat.not_lt.2 hp)]
    rfl

section Steps

variable {t : Nat} {e : Ending} {f : Frame} {below : List Frame}

/-- A step of a frame keeps all seats good. -/
theorem Steps.neat (k : Steps h t e f below) (hn : h.board.Neat garbled)
    (hport : garbled ∨ h.portReadable = true) : (after (resume f e) h).board.Neat garbled := by
  have hf : Fits h.core? f := k.inOrder.stages.fits t _ f k.top List.mem_cons_self
  have hfair : f.Fair := hn.fair t _ f k.top List.mem_cons_self
  cases hseat : f.reseats with
  | false => exact ((Keeps.resume hseat hfair e).rel_after h hn).1
  | true =>
    cases f <;> try (cases hseat; done)
    case pumped s p =>
      refine (neat_pumped hn p (hport.imp_right fun hp bytes he body hb => ?_)).1
      refine extractPort_of_portReadable hp ?_
      unfold announced?
      rw [k.running, he]
      dsimp only
      rw [k.top]
      exact hb
    case gotStatus s =>
      cases e with
      | value v =>
        cases v with
        | status status => exact (neat_gotStatus hn hf status).nextOf
        | _ => exact hn
      | _ => exact hn
    case gotInstall s => exact (neat_gotInstall hn hf e).nextOf
    case launch s m replay =>
      cases e with
      | value v => exact (neat_launch hn hf).nextOf
      | _ => exact hn
    case launched s m replay => exact (neat_launched hn hf hfair e).nextOf
    case pumpEnd s p =>
      cases e with
      | value v =>
        cases v with
        | code code => exact (neat_pumpEnd hn p code).nextOf
        | _ => exact hn
      | _ => exact hn
    case teardown s =>
      cases e with
      | value v => exact (neat_teardown hn).nextOf
      | _ => exact hn
    case queriesGone s =>
      cases e with
      | value v => exact (neat_queriesGone hn hf).nextOf
      | _ => exact hn

/-- A step pushes frames that ask only for what callers may. -/
theorem Steps.fair (k : Steps h t e f below) (hn : h.board.Neat garbled) :
    ∀ g ∈ (nextOf (resume f e) h).push, g.Fair := by
  cases hord : f.isOrdinary with
  | true => exact fun g hg => fair_of_easy (easy_nextOf hord e h) hg
  | false =>
    cases hturn : f.isTurn with
    | true => exact fun g hg => fair_of_isQueued (queued_nextOf hturn e h g hg)
    | false => exact (k.course hord hturn).fair hn (hn.fair t _ f k.top List.mem_cons_self)

/-- The task that runs has the frames that its top frame left it, and the others have theirs. -/
theorem stack?_goOn {n : Next} {u : Nat} {gs : List Frame}
    (hu : (goOn t below n h).loop.stack? u = some gs) :
    (u = t ∧ gs = n.push ++ below) ∨ u ≠ t ∧ h.loop.stack? u = some gs := by
  have hset (push : List Frame) {l : Loop Value Failure Frame}
      (hl : ∀ u, l.stack? u = (h.loop.setStack t (push ++ below)).stack? u)
      (hu : l.stack? u = some gs) :
      (u = t ∧ gs = push ++ below) ∨ u ≠ t ∧ h.loop.stack? u = some gs := by
    rw [hl, stack?, setStack, Table.get?_modify] at hu
    split at hu
    · next hut =>
      cases ht : h.loop.tasks.get? u with
      | none =>
        rw [ht] at hu
        cases hu
      | some task =>
        rw [ht] at hu
        cases hu
        exact .inl ⟨hut.symm, rfl⟩
    · next hut => exact .inr ⟨Ne.symm hut, hu⟩
  cases n with
  | go push e => exact hset push (fun _ => rfl) hu
  | wait push c =>
    rw [goOn] at hu
    dsimp only [proceed] at hu
    split at hu
    · exact hset push (fun _ => rfl) hu
    · exact hset push (suspend_spec ..).2.1 hu

theorem Board.Neat.goOn (hn : h.board.Neat garbled) {n : Next} (hbelow : ∀ g ∈ below, g.Fair)
    (hpush : ∀ g ∈ n.push, g.Fair) : (goOn t below n h).board.Neat garbled where
  lanes := hn.lanes
  channels := hn.channels
  good := hn.good
  queries := hn.queries
  fair u gs g hu hg := by
    rcases stack?_goOn hu with ⟨-, rfl⟩ | ⟨-, hu⟩
    · exact (List.mem_append.1 hg).elim (hpush g) (hbelow g)
    · exact hn.fair u gs g hu hg

end Steps

/-! ## All that can happen -/

/-- The loop changes, but no task has other frames. -/
theorem board_of_loop {l : Loop Value Failure Frame} (hl : ∀ u, l.stack? u = h.loop.stack? u) :
    board { h with loop := l } = h.board := by
  have : l.stack? = h.loop.stack? := funext hl
  rw [board, board]
  dsimp only
  rw [this]
  rfl

theorem stack?_finish (l : Loop Value Failure Frame) (c : Nat) (e : Ending) (u : Nat) :
    (l.finish c e).stack? u = l.stack? u := by
  rw [stack?, tasks_finish]
  rfl

theorem stack?_endTask (l : Loop Value Failure Frame) (t : Nat) (e : Ending) (u : Nat) :
    (l.endTask t e).stack? u = l.stack? u := by
  unfold endTask
  dsimp only
  split
  · rfl
  · rw [stack?_finish]
    rfl

instance Keeps.queryEnded (q : Nat) : Within (Keeps garbled) (Host.queryEnded q) := inferInstance

theorem Board.Neat.tick (k : InOrder h) (hn : h.board.Neat garbled)
    (hport : garbled ∨ h.portReadable = true) : h.tick.board.Neat garbled := by
  rcases tick_cases h with ⟨t, e, f, below, hrun, hs, e'⟩ | ⟨t, e, -, -, e'⟩ | ⟨-, e'⟩ |
    ⟨j, jobs, -, -, e'⟩
  · have hstep : Steps h t e f below := ⟨k, hrun, hs⟩
    rw [e', step_eq hs]
    exact (hstep.neat hn hport).goOn (fun g hg => hn.fair t _ g hs (List.mem_cons_of_mem _ hg))
      (hstep.fair hn)
  · rw [e', board_of_loop (stack?_endTask h.loop t e)]
    exact hn
  · rwa [e']
  · have hdrop : board { h with loop := { h.loop with jobs } } = h.board := board_of_loop fun _ => rfl
    have hjob (l : Loop Value Failure Frame) (hl : ∀ u, l.stack? u = h.loop.stack? u) :
        (board { h with loop := l }).Neat garbled := by rwa [board_of_loop hl]
    rw [e']
    cases j with
    | start t => exact hjob _ (resume_spec ..).1
    | wake t c => exact hjob _ (resume_spec ..).1
    | release c => exact hjob _ fun u => stack?_finish { h.loop with jobs } c _ u
    | notify q =>
      rw [beginJob_notify]
      exact ((Keeps.queryEnded q).rel_after _ (by rwa [hdrop])).1

theorem Board.Neat.fire (hn : h.board.Neat garbled) (t : Timer) : (h.fire t).board.Neat garbled := by
  have hfire : (h.fire t).board = h.board := board_of_loop fun u =>
    stack?_finish { h.loop with now := t.due, timers := dropTimer t.cell h.loop.timers } t.cell _ u
  rwa [hfire]

theorem fair_of_asked {fs : List Frame} (hfs : Asked Reaction.isAsked fs) {f : Frame}
    (hf : f ∈ fs) : f.Fair := by
  cases hfs with
  | submit _ _ _ _ _ hr | queryAsync _ _ _ _ _ hr =>
    simp only [List.mem_cons, List.not_mem_nil, or_false] at hf
    obtain rfl | rfl | rfl := hf
    · exact fair_of_mute rfl rfl
    · exact fair_of_mute rfl rfl
    · exact ⟨hr, fun _ _ e => by cases e⟩
  | _ => exact fair_of_easy rfl hf

theorem Board.Neat.outside (hn : h.board.Neat garbled) (ho : Outside Reaction.isAsked h h') :
    h'.board.Neat garbled := by
  cases ho with
  | ask hfs => exact ((Keeps.newTask fun _ => fair_of_asked hfs).rel_after h hn).1
  | submit s command state reaction hr =>
    have : Within (Keeps garbled) (submit s command state reaction none) := Keeps.submit _ _ _ _ hr
    exact (Within.rel_after (R := Keeps garbled) h hn).1
  | query s command state reaction hr =>
    have : Within (Keeps garbled) (startQuery s command state reaction none) :=
      Keeps.startQuery _ _ _ _ hr
    exact (Within.rel_after (R := Keeps garbled) h hn).1
  | cancel c => exact (Within.rel_after (R := Keeps garbled) h hn).1
  | act p line a => exact (Within.rel_after (R := Keeps garbled) h hn).1
  | worker p responder writeFault => exact hn
  | world settings installer disk launcher connectionScripts bus => exact hn
  | time now => exact hn

theorem Fresh.neat (hf : Fresh h) : h.board.Neat garbled where
  lanes := by
    show h.lanes.size = h.sessions.size
    rw [hf.lanes, hf.sessions]
    rfl
  channels := by
    show h.channels.size = h.sessions.size
    rw [hf.channels, hf.sessions]
    rfl
  good s a ha := by
    have := lt_of_seat? ha
    rw [hf.sessions] at this
    exact absurd this (Nat.not_lt_zero s)
  queries q x hx := by
    have hx : h.queries.get? q = some x := hx
    rw [hf.queries] at hx
    cases hx
  fair t fs f ht := by
    have ht : h.loop.stack? t = some fs := ht
    rw [hf.loop] at ht
    cases ht

/-- All seats are good in every run, but for first responses whose ports cannot be read. -/
theorem neat_of_run {ks : List Host} (hr : Run Fresh (Outside Reaction.isAsked) ks h)
    (hport : garbled ∨ ∀ k ∈ ks, k.portReadable = true) : h.board.Neat garbled := by
  induction hr with
  | start hf => exact hf.neat
  | tick hr ih =>
    refine (ih ?_).tick (inOrder_of_reachable hr.reachable) ?_
    · exact hport.imp_right fun h k hk => h k (List.mem_append_left _ hk)
    · exact hport.imp_right fun h => h _ (List.mem_append_right _ List.mem_cons_self)
  | fire _ _ ih => exact (ih hport).fire _
  | act _ _ ho ih => exact (ih hport).outside ho

/-! ## What the parts of a session say -/

/-- A session, its lane and its channel agree on the worker.  The requests of a session that is
    destroyed while a worker starts stay queued until they are told. -/
structure Agrees (h : Host) (s : Nat) (a : Session) : Prop where
  ready : ∀ m port, a.phase = .ready m port → a.destroyed = false →
    ∃ p, a.process = some p ∧ (h.laneOf s).process = some p ∧ h.portOf s = port ∧
      ∀ r ∈ (h.laneOf s).queue, r.internal = false
  starting : ∀ m, a.phase = .starting m → h.portOf s = none ∧
    ((a.process = none ∧ (h.laneOf s).process = none ∧
        (a.destroyed = false → (h.laneOf s).queue = [])) ∨
      ∃ p rest, a.process = some p ∧ (h.laneOf s).process = some p ∧
        (h.laneOf s).queue = .startup s p m :: rest ∧ ∀ r ∈ rest, r.internal = false)
  givenUp : ∀ reason transcript kind, a.phase = .givenUp reason transcript kind →
    a.process = none ∧ (h.laneOf s).process = none ∧ h.portOf s = none ∧ (h.laneOf s).queue = []
  idle : a.phase = .absent ∨ a.phase = .installing →
    a.process = none ∧ (h.laneOf s).process = none ∧ (h.laneOf s).queue = []
  destroyed : a.destroyed = true →
    a.process = none ∧ (h.laneOf s).process = none ∧ h.portOf s = none ∧ a.ready = true

theorem seat?_of_get? {s : Nat} {a : Session} (ha : h.sessions.get? s = some a) :
    h.seat? s = some ⟨a.phase, a.process, a.destroyed, a.ready, (h.laneOf s).process,
      (h.laneOf s).queue, h.portOf s⟩ := by
  have hlane : h.laneState s = ((h.laneOf s).process, (h.laneOf s).queue) := by
    unfold laneState laneOf
    cases h.lanes.get? s <;> rfl
  unfold seat? core? readyOf
  rw [ha, hlane]
  rfl

theorem agrees_of_good {s : Nat} {a : Session} (hgood : Seat.Good False s ⟨a.phase, a.process,
    a.destroyed, a.ready, (h.laneOf s).process, (h.laneOf s).queue, h.portOf s⟩) :
    Agrees h s a := by
  have hport : h.portOf s = if a.destroyed then none else a.phase.port? := hgood.port
  have hnone (hphase : a.phase.port? = none) : h.portOf s = none := by
    rw [hport, hphase, ite_self]
  refine ⟨fun m port hphase hd => ?_, fun m hphase => ?_, fun reason transcript kind hphase => ?_,
    fun hphase => ?_, fun hd => ?_⟩
  · obtain ⟨p, hp⟩ := Option.isSome_iff_exists.1 (hgood.held m port hphase hd)
    obtain ⟨rest, hq, hrest⟩ := hgood.awaited hd
    refine ⟨p, hp, hgood.attached.trans hp, by rw [hport, hd, hphase]; rfl, fun r hr => ?_⟩
    have hawaited : Seat.awaited? ⟨a.phase, a.process, a.destroyed, a.ready, (h.laneOf s).process,
        (h.laneOf s).queue, h.portOf s⟩ = none := by
      unfold Seat.awaited?
      dsimp only
      rw [hphase]
    rw [hawaited] at hq
    rw [show (h.laneOf s).queue = rest from hq] at hr
    exact (hrest r hr).external
  · refine ⟨hnone (by rw [hphase]; rfl), ?_⟩
    cases hp : a.process with
    | none =>
      exact .inl ⟨rfl, hgood.attached.trans hp, fun hd => hgood.empty (.inr ⟨hd, hp⟩)⟩
    | some p =>
      have hd : a.destroyed = false := (hgood.manned (by rw [show a.process = _ from hp]; rfl)).2
      obtain ⟨rest, hq, hrest⟩ := hgood.awaited hd
      refine .inr ⟨p, rest, rfl, hgood.attached.trans hp, ?_, fun r hr => (hrest r hr).external⟩
      have hawaited : Seat.awaited? ⟨a.phase, a.process, a.destroyed, a.ready, (h.laneOf s).process,
          (h.laneOf s).queue, h.portOf s⟩ = some (p, m) := by
        unfold Seat.awaited?
        dsimp only
        rw [hphase, hp]
      rw [hawaited] at hq
      exact hq
  · have hno : a.phase.hasWorker = false := by rw [hphase]; rfl
    obtain ⟨hp, hat⟩ := hgood.unmanned (.inl hno)
    exact ⟨hp, hat, hnone (by rw [hphase]; rfl), hgood.empty (.inl hno)⟩
  · have hno : a.phase.hasWorker = false := by
      rcases hphase with hphase | hphase <;> (rw [hphase]; rfl)
    obtain ⟨hp, hat⟩ := hgood.unmanned (.inl hno)
    exact ⟨hp, hat, hgood.empty (.inl hno)⟩
  · obtain ⟨hp, hat⟩ := hgood.unmanned (.inr hd)
    exact ⟨hp, hat, by rw [hport, if_pos hd], hgood.ready (.inl hd)⟩

/-- In every run all sessions agree with their lanes and channels, as long as the port in the first
    response of each worker can be read. -/
theorem sessions_agree {ks : List Host} (hr : Run Fresh (Outside Reaction.isAsked) ks h)
    (hport : ∀ k ∈ ks, k.portReadable = true) {s : Nat} {a : Session}
    (ha : h.sessions.get? s = some a) : Agrees h s a :=
  agrees_of_good ((neat_of_run hr (.inr hport)).good s _ (seat?_of_get? ha))

/-- A session whose worker is there and has announced its port. -/
theorem sessions_agree_ready : ∃ a p port, (settleWithin 30 begun).sessions.get? 0 = some a ∧
    a.phase = .ready .fast port ∧ a.process = some p ∧
      ((settleWithin 30 begun).laneOf 0).process = some p ∧
        (settleWithin 30 begun).portOf 0 = port := by
  have hport : ((Run.settling 2 asking ++ [asked]) ++ Run.settling 30 begun).all
      portReadable = true := by decide +kernel
  have hphase : ((settleWithin 30 begun).sessions.get? 0).map (fun a => (a.phase, a.destroyed)) =
      some (.ready .fast (some 4000), false) := by decide +kernel
  obtain ⟨a, ha, e⟩ := Option.map_eq_some_iff.1 hphase
  obtain ⟨hphase, hd⟩ := Prod.mk.inj e
  have hagrees := sessions_agree ((run_begun {}).settleWithin 30) (List.all_eq_true.1 hport) ha
  obtain ⟨p, hp, hlane, hport, -⟩ := hagrees.ready _ _ hphase hd
  exact ⟨a, p, _, ha, hphase, hp, hlane, hport⟩

/-- A session that is being destroyed while its worker, which prints nothing, starts. -/
def interrupted : Host :=
  settleWithin 4 (after (newTask [.cleanup]) (settleWithin 40 (begun { spawns := [{}] })))

/-- A session that starts, but has no worker, can still have a request in its queue: it is
    destroyed, and who waits has not been told yet. -/
theorem queue_of_interrupted : ¬ ∀ (ks : List Host) (h : Host) (s : Nat) (a : Session)
    (m : StartMode), Run Fresh (Outside Reaction.isAsked) ks h →
      (∀ k ∈ ks, k.portReadable = true) → h.loop.running = none → h.sessions.get? s = some a →
        a.phase = .starting m →
          (h.laneOf s).process = none ∧ (h.laneOf s).queue = [] ∨
            ∃ p rest, (h.laneOf s).process = some p ∧ (h.laneOf s).queue = .startup s p m :: rest ∧
              ∀ r ∈ rest, r.internal = false := by
  intro hall
  have hsettled := (run_begun (P := Reaction.isAsked) { spawns := [{}] }).settleWithin 40
  have hidle : (settleWithin 40 (begun { spawns := [{}] })).loop.running.isNone = true := by
    decide +kernel
  have hrun := (Run.act hsettled (Option.isNone_iff_eq_none.1 hidle)
    (.ask .cleanup)).settleWithin 4
  have hport : ((Run.settling 2 (asking { spawns := [{}] }) ++ [asked { spawns := [{}] }] ++
      Run.settling 40 (begun { spawns := [{}] })) ++ Run.settling 4 (after (newTask [.cleanup])
        (settleWithin 40 (begun { spawns := [{}] })))).all portReadable = true := by decide +kernel
  have hnone : interrupted.loop.running.isNone = true := by decide +kernel
  have hphase : (interrupted.sessions.get? 0).map (·.phase) = some (.starting .fast) := by
    decide +kernel
  have hlane : (interrupted.laneOf 0).process = none ∧ (interrupted.laneOf 0).queue.length = 1 := by
    decide +kernel
  obtain ⟨a, ha, hphase⟩ := Option.map_eq_some_iff.1 hphase
  rcases hall _ interrupted 0 a .fast hrun (List.all_eq_true.1 hport)
    (Option.isNone_iff_eq_none.1 hnone) ha hphase with ⟨-, hq⟩ | ⟨p, rest, hp, -⟩
  · rw [hq] at hlane
    exact absurd hlane.2 (by decide)
  · rw [hp] at hlane
    cases hlane.1

end GhciHost.Host
