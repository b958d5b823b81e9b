import GhciHost.Proofs.Host.Names
import GhciHost.Proofs.Session.Readers

/-!
# The cells that the host remembers

Who ends a session cancels the task that follows the session's worker, and the tasks of queries: the
host remembers the cells of both.  No other cell comes to be remembered but the one of a task that was
only just made, and so a step tells of no cell that was not known to its frame or remembered.

* `Recalls`   the cells that are remembered;
* `Retains.resume`, `recalls_tick`   which cells come to be remembered;
* `cells_resume`   the cells that a step tells of;
* `Named`, `named_of_reachable`   no cell is told of that there is not.
-/

namespace GhciHost.Host

open Loop

variable {h h' h'' : Host} {t c : Nat} {e : Ending} {f : Frame} {below : List Frame}

/-- The host remembers the cell, and may cancel it. -/
inductive Recalls (h : Host) (c : Nat) : Prop
  | reader {s : Nat} : h.readerOf s = some c → Recalls h c
  | query {q : Nat} {x : Query} : h.queries.get? q = some x → x.task = c → Recalls h c

theorem Recalls.of_loop {l : Loop Value Failure Frame} (hc : Recalls { h with loop := l } c) :
    h.Recalls c := by
  cases hc with
  | reader hs => exact .reader hs
  | query hx ht => exact .query hx ht

theorem readerOf_of_sessionOf {s : Nat} (hc : (h.sessionOf s).reader = some c) :
    h.readerOf s = some c := by
  unfold sessionOf at hc
  unfold readerOf
  cases hs : h.sessions.get? s with
  | none =>
    rw [hs] at hc
    cases hc
  | some a =>
    rw [hs] at hc
    exact hc

/-! ## Who follows a worker -/

/-- Workers are followed by whom they were, and by tasks that are new. -/
structure Retains (h h' : Host) : Prop where
  size_le : h.loop.cells.size ≤ h'.loop.cells.size
  reader : ∀ s c, h'.readerOf s = some c →
    h.readerOf s = some c ∨ h.loop.cells.size ≤ c ∧ c < h'.loop.cells.size

namespace Retains

instance : Std.Refl Retains := ⟨fun _ => ⟨Nat.le_refl _, fun _ _ hc => .inl hc⟩⟩

instance : IsTrans Host Retains where
  trans _ _ _ h k := by
    refine ⟨Nat.le_trans h.size_le k.size_le, fun s c hc => ?_⟩
    rcases k.reader s c hc with hc | ⟨hle, hlt⟩
    · exact (h.reader s c hc).imp_right fun hc => ⟨hc.1, Nat.lt_of_lt_of_le hc.2 k.size_le⟩
    · exact .inr ⟨Nat.le_trans h.size_le hle, hlt⟩

/-- Nobody else follows a worker then. -/
theorem of_readers (hsize : h.loop.cells.size ≤ h'.loop.cells.size)
    (hreader : ∀ s c, h'.readerOf s = some c → h.readerOf s = some c) : Retains h h' :=
  ⟨hsize, fun s c hc => .inl (hreader s c hc)⟩

instance : Blind Retains where
  of_view {h h'} hv hm := by
    have hloop : h'.loop = h.loop := congrArg View.loop hv
    have hreader : h'.readerOf = h.readerOf := congrArg Margin.readers hm
    exact of_readers (Nat.le_of_eq (by rw [hloop])) fun s c hc => by rwa [hreader] at hc

theorem of_modify {g : Host → Host} (hl : ∀ h, (g h).loop = h.loop)
    (hs : ∀ h, (g h).sessions = h.sessions) : Within Retains (modify g : Action Unit) :=
  Within.of_modify fun h => by
    refine of_readers (Nat.le_of_eq ?_) fun s c hc => ?_
    · rw [hl]
    · rwa [readerOf, hs] at hc

theorem changeLoop {g : Loop Value Failure Frame → Loop Value Failure Frame}
    (hg : ∀ l, Swells l (g l)) : Within Retains (Host.changeLoop g) :=
  ⟨fun h => of_readers (hg h.loop) fun _ _ hc => hc⟩

theorem ofLooped {a : Action α} (hw : Within (Looped Swells) a) (hs : Within (Same readerOf) a) :
    Within Retains a :=
  ⟨fun h => of_readers (hw.rel_after h) fun s c hc => by
    have e : (after a h).readerOf = h.readerOf := hs.rel_after h
    rwa [e] at hc⟩

instance (f : Loop Value Failure Frame → α × Loop Value Failure Frame) :
    Within (Same readerOf) (onLoop f) := ⟨fun _ => rfl⟩

instance (f : Loop Value Failure Frame → Loop Value Failure Frame) :
    Within (Same readerOf) (Host.changeLoop f) := ⟨fun _ => rfl⟩

instance finish (c : Nat) (e : Ending) : Within Retains (Host.finish c e) :=
  changeLoop fun l => Nat.le_of_eq (size_cells_finish l c e).symm

instance releaseAll (cells : List Nat) : Within Retains (Host.releaseAll cells) :=
  ofLooped inferInstance (inferInstanceAs (Within _ (Host.changeLoop _)))

instance hookRelease (c w : Nat) : Within Retains (Host.changeLoop (·.hook c (.release w))) :=
  changeLoop fun l => Nat.le_of_eq (size_cells_hook l c _).symm

instance hookNotify (c q : Nat) : Within Retains (Host.changeLoop (·.hook c (.notify q))) :=
  changeLoop fun l => Nat.le_of_eq (size_cells_hook l c _).symm

instance cancel (c : Nat) : Within Retains (Host.changeLoop (·.cancel c)) :=
  changeLoop fun l => Nat.le_of_eq (size_cells_cancelWithin l _ c).symm

instance cancelAll (cells : List Nat) :
    Within Retains (Host.changeLoop fun l => cells.foldl (fun l c => l.cancel c) l) :=
  ofLooped (Looped.cancelAll inferInstance cells) inferInstance

instance newCell : Within Retains Host.newCell :=
  ofLooped inferInstance (inferInstanceAs (Within _ (onLoop _)))

instance newTimer (d : Binary64) : Within Retains (onLoop (·.newTimer d)) :=
  ofLooped inferInstance inferInstance

instance newTask (fs : List Frame) : Within Retains (Host.newTask fs) :=
  ofLooped inferInstance (inferInstanceAs (Within _ (onLoop _)))

instance changeLane (l : Nat) (f : Lane → Lane) : Within Retains (Host.changeLane l f) :=
  of_modify (fun _ => rfl) fun _ => rfl

instance changeChannel (c : Nat) (f : QueryChannel → QueryChannel) :
    Within Retains (Host.changeChannel c f) := of_modify (fun _ => rfl) fun _ => rfl

instance changeProcess (p : Nat) (f : Process → Process) :
    Within Retains (Host.changeProcess p f) := of_modify (fun _ => rfl) fun _ => rfl

instance note (f : Journal → Journal) : Within Retains (Host.note f) :=
  of_modify (fun _ => rfl) fun _ => rfl

instance setRegistry (f : Host → Keyed (String × String) Nat) :
    Within Retains (modify fun h => { h with registry := f h } : Action Unit) :=
  of_modify (fun _ => rfl) fun _ => rfl

instance setRegistryMetrics (f : Host → Keyed (String × String) Nat) (g : Host → Option Metrics) :
    Within Retains (modify fun h => { h with registry := f h, metrics := g h } : Action Unit) :=
  of_modify (fun _ => rfl) fun _ => rfl

instance pushProcess (process : Process) :
    Within Retains (modify fun h => { h with processes := h.processes.push process } : Action Unit) :=
  of_modify (fun _ => rfl) fun _ => rfl

instance pushQuery (query : Query) :
    Within Retains (modify fun h => { h with queries := h.queries.push query } : Action Unit) :=
  of_modify (fun _ => rfl) fun _ => rfl

instance publish (e : Event) : Within Retains (Host.publish e) := by
  have : Within Retains (modify fun h : Host => { h with bus := h.bus.publish e } : Action Unit) :=
    of_modify (fun _ => rfl) fun _ => rfl
  unfold Host.publish
  infer_instance

/-- A session changes, and is followed by whom it was or by nobody. -/
theorem changeSession (s : Nat) {g : Session → Session}
    (hg : ∀ a c, (g a).reader = some c → a.reader = some c) :
    Within Retains (Host.changeSession s g) :=
  ⟨fun h => of_readers (Nat.le_refl _) fun i c hc => by
    replace hc := (readerOf_changeSession h s i g).symm.trans hc
    split at hc
    · obtain ⟨a, ha, hc⟩ := Option.bind_eq_some_iff.1 hc
      rw [readerOf, ha]
      exact hg a c hc
    · exact hc⟩

instance setStarting (s : Nat) (starting : Bool) :
    Within Retains (Host.changeSession s fun a => { a with starting }) := changeSession s fun _ _ => id

instance addStartWaiter (s c : Nat) : Within Retains (Host.changeSession s fun a =>
    { a with startWaiters := a.startWaiters ++ [c] }) := changeSession s fun _ _ => id

instance eraseStartWaiter (s c : Nat) : Within Retains (Host.changeSession s fun a =>
    { a with startWaiters := a.startWaiters.erase c }) := changeSession s fun _ _ => id

instance addReadyWaiter (s c : Nat) : Within Retains (Host.changeSession s fun a =>
    { a with readyWaiters := a.readyWaiters ++ [c] }) := changeSession s fun _ _ => id

instance clearReadyWaiters (s : Nat) :
    Within Retains (Host.changeSession s fun a => { a with readyWaiters := [] }) :=
  changeSession s fun _ _ => id

instance setPhase (s : Nat) (phase : Phase) (ready : Bool) :
    Within Retains (Host.changeSession s fun a => { a with phase, ready }) :=
  changeSession s fun _ _ => id

instance setProcess (s : Nat) (process : Option Nat) :
    Within Retains (Host.changeSession s fun a => { a with process }) := changeSession s fun _ _ => id

instance tear (s : Nat) : Within Retains (Host.changeSession s fun a =>
    { a with destroyed := true, ready := true, readyWaiters := [], process := none
             reader := none }) := changeSession s fun _ _ => nofun

instance newSession (kind root : String) (targets : List String) :
    Within Retains (Host.newSession kind root targets) := by
  refine ⟨fun h => of_readers (Within.rel_after (R := Looped Swells) h) fun s c hc => ?_⟩
  rcases newSession_spec kind root targets h with ⟨x, k, e, rfl⟩ | ⟨key, k, e, -⟩
  · rwa [after_of_error e] at hc
  · have hreader : k.readerOf = h.readerOf := congrArg Margin.readers (margin_newSession e)
    rwa [after_of_ok e, hreader] at hc

/-! ## Steps -/

instance write (p : Nat) (text : List Char) : Within Retains (Host.write p text) := by
  have (line : String) (a : WorkerAct) : Within Retains (Host.act p line a) := inferInstance
  have : Within Retains (Host.hear p text) := inferInstance
  infer_instance

instance submit (l : Nat) (command : String) (state : Json) (reaction : Option Reaction)
    (waiter : Option Nat) : Within Retains (Host.submit l command state reaction waiter) := by
  have : Within Retains (Host.writeRaw l command) := inferInstance
  infer_instance

instance setUp (s : Nat) (replay : List Request) : Within Retains (Host.setUp s replay) := by
  have (command : String) : Within Retains (Host.writeRaw s command) := inferInstance
  have (r : Request) : Within Retains (Host.requeue s r) := inferInstance
  infer_instance

instance kill (p : Nat) : Within Retains (Host.kill p) := by
  have (o : WorkerOutput) : Within Retains (Host.putOutput p o) := inferInstance
  infer_instance

/-- The worker is followed by a task that is new. -/
instance adopt (s p : Nat) (mode : StartMode) (replay : List Request) :
    Within Retains (Host.adopt s p mode replay) := by
  have hfollow : Within Retains (do
      let reader ← Host.newTask [.pump s p]
      Host.changeSession s fun a => { a with reader := some reader } : Action Unit) := by
    refine ⟨fun h => ⟨?_, fun i c hc => ?_⟩⟩
    · exact (Within.of_ok (R := Retains) (show (Host.newTask [.pump s p]).run h = .ok _ _ from
        rfl)).size_le
    · replace hc := (readerOf_changeSession _ s i _).symm.trans hc
      split at hc
      · obtain ⟨a, -, hc⟩ := Option.bind_eq_some_iff.1 hc
        cases hc
        refine .inr ⟨Nat.le_refl _, ?_⟩
        show h.loop.cells.size < (h.loop.newTask [.pump s p]).2.cells.size
        simp [Loop.newTask]
      · exact .inl hc
  have hrest : Within Retains (do
      (do
        let reader ← Host.newTask [.pump s p]
        Host.changeSession s fun a => { a with reader := some reader } : Action Unit)
      Host.publish ⟨.workerSpawned, (← session s).key,
        [("pid", .int (pid p)), ("mode", .str mode.name)]⟩
      return .done .unit : Action Next) := inferInstance
  simp only [bind_assoc] at hrest
  unfold Host.adopt
  refine @Within.bind _ _ _ _ _ _ _ fun _ => ?_
  refine @Within.bind _ _ _ _ _ _ _ fun _ => ?_
  refine @Within.bind _ _ _ _ _ _ _ fun _ => ?_
  refine @Within.bind _ _ _ _ _ _ _ fun _ => ?_
  exact hrest

instance giveUp (s : Nat) (reason : String) (kind : GiveUpKind) :
    Within Retains (Host.giveUp s reason kind) := by
  have (phase : Phase) : Within Retains (Host.transition s phase) := inferInstance
  infer_instance

instance deliverBy (l : Nat) (body : String) : Within Retains (Host.deliverBy Host.react l body) := by
  have (state : Json) (body : String) (r : Reaction) :
      Within Retains (Host.react l state body r) := inferInstance
  infer_instance

instance endExchange (q : Nat) (e : Ending) : Within Retains (Host.endExchange q e) := by
  have (l : Nat) (state : Json) (body : String) (r : Reaction) :
      Within Retains (Host.react l state body r) := inferInstance
  have (reason : String) : Within Retains (Host.fallBackAfterFailure q reason) := inferInstance
  infer_instance

theorem resumeWith (f : Frame) (v : Value) : Within Retains (Host.resumeWith f v) := by
  unfold Host.resumeWith
  split <;> infer_instance

/-- Whatever a frame does. -/
instance resume (f : Frame) (e : Ending) : Within Retains (Host.resume f e) := by
  unfold Host.resume
  split
  case h_17 => split <;> infer_instance
  case h_18 =>
    split
    · exact resumeWith _ _
    · infer_instance
  all_goals infer_instance

end Retains

/-! ## What is remembered after a step -/

/-- Queries keep their tasks, and the tasks of new ones are new. -/
def Enlists (h h' : Host) : Prop := ∀ q x, h'.queries.get? q = some x →
  h.queries.get? q = some x ∨ h.loop.cells.size ≤ x.task ∧ x.task < h'.loop.cells.size

theorem Enlists.of_eq (hq : h'.queries = h.queries) : Enlists h h' :=
  fun q x hx => .inl (by rwa [hq] at hx)

theorem Inquires.enlists (hi : Inquires h h') : Enlists h h' := fun q x hx => by
  rcases hi with hm | ⟨d, k, hm, -, hs⟩
  · exact .inl (by rwa [hm.queries] at hx)
  · refine (hs.get?_cases hx).imp (fun hx => by rwa [hm.queries] at hx) fun ⟨_, _, ht⟩ => ⟨?_, ?_⟩
    · rw [ht]
      exact hm.loop.size_le
    · rw [ht, hs.size_cells]
      exact Nat.lt_succ_self _

/-- A cell that comes to be remembered is a new one. -/
theorem Retains.recalls (hr : Retains h h') (he : Enlists h h') (hc : h'.Recalls c) :
    h.Recalls c ∨ h.loop.cells.size ≤ c ∧ c < h'.loop.cells.size := by
  cases hc with
  | @reader s hs => exact (hr.reader s c hs).imp_left .reader
  | @query q x hx ht =>
    subst ht
    exact (he q x hx).imp_left fun hx => .query hx rfl

theorem retains_tick (h : Host) : Retains h h.tick := by
  have hloop {k : Host} {l : Loop Value Failure Frame} (hsize : k.loop.cells.size ≤ l.cells.size) :
      Retains k { k with loop := l } := .of_readers hsize fun _ _ hc => hc
  rcases tick_cases h with ⟨t, e, f, below, -, hs, e'⟩ | ⟨t, e, -, -, e'⟩ | ⟨-, e'⟩ |
    ⟨j, jobs, -, -, e'⟩
  · rw [e', step_eq hs]
    exact trans_of Retains ((Retains.resume f e).rel_after h)
      (hloop (Nat.le_of_eq (size_cells_proceed _).symm))
  · exact e' ▸ hloop (Hushed.endTask h.loop t e).size_le
  · exact e'.symm ▸ Std.Refl.refl h
  · rw [e']
    cases j with
    | start t | wake t _ =>
      refine hloop (Nat.le_of_eq ?_)
      rw [(resume_spec { h.loop with jobs } t _).2.1]
    | release w => exact hloop (Nat.le_of_eq (size_cells_finish { h.loop with jobs } w _).symm)
    | notify q =>
      rw [beginJob_notify]
      have hended : Retains { h with loop := { h.loop with jobs } }
          (after (queryEnded q) { h with loop := { h.loop with jobs } }) := Within.rel_after _
      exact trans_of Retains (hloop (l := { h.loop with jobs }) (Nat.le_refl _)) hended

theorem enlists_tick (h : Host) : Enlists h h.tick := by
  rcases tick_inquires h with ⟨k, hi, hm⟩ | ⟨t, e, c, rest, n, below, -, -, hm⟩ | ⟨q, jobs, -, -, e⟩
  · intro q x hx
    rw [hm.queries] at hx
    exact (hi.enlists q x hx).imp_right fun ht => ⟨ht.1, Nat.lt_of_lt_of_le ht.2 hm.loop.size_le⟩
  · have hl : Listens h (after (queriesEnd c rest n e) h) := Within.rel_after h
    exact .of_eq (hm.queries.trans hl.queries)
  · have hl : Listens { h with loop := { h.loop with jobs } } h.tick := e ▸ Within.rel_after _
    exact .of_eq hl.queries

/-- A cell that comes to be remembered by a step of the loop is a new one. -/
theorem recalls_tick (hc : h.tick.Recalls c) :
    h.Recalls c ∨ h.loop.cells.size ≤ c ∧ c < h.tick.loop.cells.size :=
  (retains_tick h).recalls (enlists_tick h) hc

theorem retains_outside {P : Reaction → Prop} (ho : Outside P h h') : Retains h h' := by
  cases ho with
  | ask | submit | query | cancel | worker => exact Within.rel_after h
  | act p line a => exact Within.rel_after h
  | world => exact .of_readers (Nat.le_refl _) fun _ _ hc => hc
  | time => exact .of_readers (Nat.le_refl _) fun _ _ hc => hc

/-- A cell that comes to be remembered from outside is a new one. -/
theorem recalls_outside {P : Reaction → Prop} (ho : Outside P h h') (hc : h'.Recalls c) :
    h.Recalls c ∨ h.loop.cells.size ≤ c ∧ c < h'.loop.cells.size :=
  (retains_outside ho).recalls ho.inquires.enlists hc

/-! ## What a step tells of -/

variable {K : Nat → Prop}

/-- Whoever ends a session waits for the task that follows the worker. -/
theorem names_teardown {s : Nat} (hK : ∀ c, h.readerOf s = some c → K c) {n : Next}
    (e : (teardown s).run h = .ok n h') :
    ∀ c ∈ n.cells, K c ∨ h.loop.cells.size ≤ c ∧ c < h'.loop.cells.size := by
  unfold teardown at e
  rw [run_bind_ok (run_session s h)] at e
  refine @Names.names K _ ?_ _ _ _ e
  have hgone : Names K (Pure.pure (Next.call [.readerGone s (h.sessionOf s).process])) := .go rfl
  refine @Names.bind _ _ _ _ _ fun _ => ?_
  refine @Names.bind _ _ _ _ _ fun _ => ?_
  refine @Names.bind _ _ _ _ _ fun _ => ?_
  refine @Names.bind _ _ _ _ _ fun _ => ?_
  dsimp only
  split
  · next c hc =>
    have : Names K (Pure.pure (Next.wait [.readerGone s (h.sessionOf s).process] c)) :=
      .wait (hK c (readerOf_of_sessionOf hc)) fun _ hd => absurd hd List.not_mem_nil
    infer_instance
  · infer_instance

/-- The tasks of the queries under way are cancelled. -/
theorem cancelQueries_run (c : Nat) (h : Host) : ∃ tasks,
    (cancelQueries c).run h = .ok (.call [.queriesEnd c tasks tasks.length])
      { h with loop := tasks.foldl (fun l t => l.cancel t) h.loop } ∧
    ∀ task ∈ tasks, ∃ q ∈ h.activeOf c, ∀ x, h.queries.get? q = some x → x.task = task := by
  have hread (qs : List Nat) : ∃ tasks,
      (qs.mapM fun q => return (← query q).task : Action (List Nat)).run h = .ok tasks h ∧
        ∀ task ∈ tasks, ∃ q ∈ qs, ∀ x, h.queries.get? q = some x → x.task = task := by
    induction qs with
    | nil => exact ⟨[], by rw [List.mapM_nil]; rfl, fun q hq => by cases hq⟩
    | cons q qs ih =>
      obtain ⟨tasks, hrun, htasks⟩ := ih
      rw [List.mapM_cons]
      refine ⟨_, (run_bind_ok rfl).trans ((run_bind_ok hrun).trans rfl), fun task ht => ?_⟩
      rcases List.mem_cons.1 ht with rfl | ht
      · exact ⟨q, List.mem_cons_self, fun x hx => by rw [hx]; rfl⟩
      · obtain ⟨q', hq', hx⟩ := htasks task ht
        exact ⟨q', List.mem_cons_of_mem _ hq', hx⟩
  obtain ⟨tasks, hrun, htasks⟩ := hread (h.channelOf c).active
  refine ⟨tasks, ?_, fun task ht => ?_⟩
  · unfold cancelQueries
    rw [run_bind_ok (run_channel c h)]
    dsimp only
    rw [run_bind_ok hrun]
    rfl
  · obtain ⟨q, hq, hx⟩ := htasks task ht
    refine ⟨q, ?_, hx⟩
    unfold channelOf at hq
    unfold activeOf
    cases hc : h.channels.get? c with
    | none =>
      rw [hc] at hq
      cases hq
    | some ch =>
      rw [hc] at hq
      exact hq

/-- Queries under way are queries that there are. -/
def Tabled (h : Host) : Prop := ∀ c, ∀ q ∈ h.activeOf c, q < h.queries.size

/-- Who cancels queries cancels tasks that the host remembers. -/
theorem Tabled.recalls (hl : Tabled h) {q : Nat} {task : Nat} (hq : q ∈ h.activeOf c)
    (hx : ∀ x, h.queries.get? q = some x → x.task = task) : h.Recalls task := by
  obtain ⟨x, hq⟩ := Table.exists_get? (hl c q hq)
  exact .query hq (hx x hq)

/-- A step tells of cells that its frame knew, that are remembered, or that are new. -/
theorem cells_resume (hf : ∀ c ∈ f.cells, K c) (hr : ∀ c, h.Recalls c → K c) (hl : Tabled h)
    {n : Next} (e₁ : (resume f e).run h = .ok n h') :
    ∀ c ∈ n.cells, K c ∨ h.loop.cells.size ≤ c ∧ c < h'.loop.cells.size := by
  cases hcall : f.recalls with
  | false => exact (Names.resume hcall hf e).names e₁
  | true =>
    by_cases hv : ∃ v, e = .value v
    · obtain ⟨v, rfl⟩ := hv
      cases f with
      | teardown s => exact names_teardown (fun c hc => hr c (.reader hc)) e₁
      | cancelQueries d =>
        obtain ⟨tasks, e₂, htasks⟩ := cancelQueries_run d h
        cases e₂.symm.trans e₁
        refine fun c hc => .inl ?_
        rw [show (Next.call [.queriesEnd d tasks tasks.length]).cells = tasks from
          List.append_nil tasks] at hc
        obtain ⟨q, hq, hx⟩ := htasks c hc
        exact hr c (hl.recalls hq hx)
      | _ => cases hcall
    · have hpass : n = .pass e := by
        cases e with
        | value v => exact absurd ⟨v, rfl⟩ hv
        | _ => cases f <;> first | (cases e₁; rfl) | cases hcall
      rw [hpass]
      exact fun c hc => by cases hc

/-! ## The tasks that are begun -/

/-- New tasks know no cells. -/
abbrev Blank : Loop Value Failure Frame → Loop Value Failure Frame → Prop :=
  Hiring fun fs => cellsOf fs = []

namespace Blank

instance newReadyEvent (s : Nat) : Within (Looped Blank) (Host.newTask [.readyEvent s]) :=
  Hires.newTask rfl

instance newConnect (host : String) (port : Int) :
    Within (Looped Blank) (Host.newTask [.connect host port]) := Hires.newTask rfl

instance newExchange (q : Nat) : Within (Looped Blank) (Host.newTask [.exchange q]) :=
  Hires.newTask rfl

instance newPump (s p : Nat) : Within (Looped Blank) (Host.newTask [.pump s p]) :=
  Hires.newTask rfl

theorem resume (f : Frame) (e : Ending) : Within (Looped Blank) (Host.resume f e) :=
  Looped.resume (fun _ _ => inferInstance) fun _ _ _ _ _ _ => inferInstance

end Blank

theorem cellsOf_append (fs gs : List Frame) : cellsOf (fs ++ gs) = cellsOf fs ++ cellsOf gs :=
  List.flatMap_append

theorem cellsOf_of_asked {P : Reaction → Prop} {fs : List Frame} (hfs : Asked P fs) :
    cellsOf fs = [] := by
  cases hfs <;> rfl

/-- The cells of the frames that a step leaves to its task. -/
theorem Next.mem_cells {n : Next} (hc : c ∈ cellsOf n.push) : c ∈ n.cells := by
  cases n with
  | go push e => exact hc
  | wait push d => exact List.mem_cons_of_mem _ hc

/-- The frames that a task has after a step, and the cells that they know. -/
theorem Steps.cells (k : Steps h t e f below) (hf : ∀ c ∈ f.cells, K c) (hr : ∀ c, h.Recalls c → K c)
    (hl : Tabled h) : ∀ c ∈ (nextOf (resume f e) h).cells,
      K c ∨ h.loop.cells.size ≤ c ∧ c < (Host.step t e h).loop.cells.size := by
  intro c hc
  rw [nextOf] at hc
  cases e₁ : (resume f e).run h with
  | ok n h' =>
    rw [e₁] at hc
    refine (cells_resume hf hr hl e₁ c hc).imp_right fun hnew => ⟨hnew.1, ?_⟩
    rw [step_eq k.top, after_of_ok e₁]
    exact Nat.lt_of_lt_of_eq hnew.2 (size_cells_proceed _).symm
  | error x h' =>
    rw [e₁] at hc
    cases hc

/-- The frames of a task after a step of the same task, or of another one. -/
theorem Steps.frames (k : Steps h t e f below) {u : Nat} {fs : List Frame}
    (hu : (Host.step t e h).loop.stack? u = some fs) :
    u = t ∧ fs = (nextOf (resume f e) h).push ++ below ∨
      u ≠ t ∧ (h.loop.stack? u = some fs ∨ cellsOf fs = []) := by
  by_cases hut : u = t
  · subst hut
    rw [k.stack_self] at hu
    cases hu
    exact .inl ⟨rfl, rfl⟩
  · refine .inr ⟨hut, ?_⟩
    rw [step_eq k.top] at hu
    rw [stack?_proceed (k.runningOn (k.queueGuards fun _ _ => False)), if_neg hut] at hu
    exact (Blank.resume f e).rel_after h u fs hu

theorem endTask_rest (l : Loop Value Failure Frame) (t : Nat) (e : Ending) :
    (l.endTask t e).running = none ∧ ∀ u, (l.endTask t e).waiting u = l.waiting u := by
  rcases endTask_eq l t e with ⟨d, o, -, e₁⟩ | e₁ <;> rw [e₁]
  · exact ⟨running_finish _ d o, fun u => by rw [Loop.waiting, tasks_finish]; rfl⟩
  · exact ⟨rfl, fun _ => rfl⟩

/-- When no frame goes on, nobody begins to wait, and tasks have the frames that they had. -/
theorem tick_unstepped (hno : ∀ t e f below, ¬ (h.loop.running = some (t, e) ∧
      h.loop.stack? t = some (f :: below) ∧ h.tick = Host.step t e h)) :
    (∀ u fs, h.tick.loop.stack? u = some fs → h.loop.stack? u = some fs ∨ cellsOf fs = []) ∧
      ∀ u c, h.tick.loop.waiting u = some c → h.loop.waiting u = some c := by
  rcases tick_cases h with ⟨t, e, f, below, hrun, hs, e'⟩ | ⟨t, e, -, -, e'⟩ | ⟨-, e'⟩ |
    ⟨j, jobs, -, -, e'⟩
  · exact absurd ⟨hrun, hs, e'⟩ (hno t e f below)
  · rw [e']
    exact ⟨fun u fs hu => .inl ((stack?_endTask h.loop t e u).symm.trans hu),
      fun u c hu => ((endTask_rest h.loop t e).2 u).symm.trans hu⟩
  · rw [e']
    exact ⟨fun _ _ hu => .inl hu, fun _ _ hu => hu⟩
  · have hgo (t : Nat) (o : Ending) :
        (∀ u fs, (({ h.loop with jobs } : Loop Value Failure Frame).resume t o).stack? u = some fs →
          h.loop.stack? u = some fs ∨ cellsOf fs = []) ∧
        ∀ u c, (({ h.loop with jobs } : Loop Value Failure Frame).resume t o).waiting u = some c →
          h.loop.waiting u = some c := by
      refine ⟨fun u fs hu => .inl (((resume_spec { h.loop with jobs } t o).1 u).symm.trans hu),
        fun u c hu => ?_⟩
      rw [waiting_resume] at hu
      split at hu
      · cases hu
      · exact hu
    rw [e']
    cases j with
    | start t => exact hgo t _
    | wake t c => exact hgo t _
    | release w =>
      refine ⟨fun u fs hu => .inl ?_, fun u c hu => ?_⟩
      · exact (stack?_finish { h.loop with jobs } w _ u).symm.trans hu
      · exact (Grows.finish (P := fun _ => False) { h.loop with jobs } w _).waiting u ▸ hu
    | notify q =>
      rw [beginJob_notify]
      have hblank : Looped Blank { h with loop := { h.loop with jobs } }
          (after (queryEnded q) { h with loop := { h.loop with jobs } }) := Within.rel_after _
      have hg : Guards {} { h with loop := { h.loop with jobs } }
          (after (queryEnded q) { h with loop := { h.loop with jobs } }) := Within.rel_after _
      exact ⟨hblank, fun u c hu => (hg.grows.waiting u).symm.trans hu⟩

/-- Whatever is done from outside, new tasks know no cells. -/
theorem blank_outside {P : Reaction → Prop} (ho : Outside P h h') : Blank h.loop h'.loop := by
  cases ho with
  | ask hfs =>
    have := Hires.newTask (P := fun fs => cellsOf fs = []) (cellsOf_of_asked hfs)
    exact Within.rel_after (R := Looped Blank) h
  | submit | query | cancel | act => exact Within.rel_after (R := Looped Blank) h
  | worker | world | time => exact fun _ _ hu => .inl hu

/-! ## No cell is told of that there is not -/

/-- Whoever is told of a cell is told of one that there is. -/
structure Named (h : Host) : Prop where
  frames : ∀ u fs, h.loop.stack? u = some fs → ∀ c ∈ cellsOf fs, c < h.loop.cells.size
  recalled : ∀ c, h.Recalls c → c < h.loop.cells.size
  waiting : ∀ u c, h.loop.waiting u = some c → c < h.loop.cells.size
  tabled : Tabled h

theorem Tabled.minds (k : Tabled h) (hm : Minds h h') : Tabled h' := fun c q hq => by
  rw [hm.active] at hq
  rw [hm.queries]
  exact k c q hq

theorem Tabled.inquires (k : Tabled h) (hi : Inquires h h') : Tabled h' := by
  rcases hi with hm | ⟨d, k', hm, -, hs⟩
  · exact k.minds hm
  · intro c q hq
    obtain ⟨x, -, -, hqueries⟩ := hs.queries
    rw [hqueries, Table.size_push]
    have hold : ∀ c, ∀ q ∈ k'.activeOf c, q < k'.queries.size + 1 :=
      fun c q hq => Nat.lt_succ_of_lt (k.minds hm c q hq)
    rw [hs.active] at hq
    split at hq
    · rcases List.mem_append.1 hq with hq | hq
      · exact hold d q hq
      · rw [List.mem_singleton.1 hq]
        exact Nat.lt_succ_self _
    · exact hold c q hq

/-- Queries are taken off channels. -/
theorem Tabled.subset (k : Tabled h) (hq : h'.queries = h.queries)
    (ha : ∀ c, ∀ q ∈ h'.activeOf c, q ∈ h.activeOf c) : Tabled h' := fun c q hc => by
  rw [hq]
  exact k c q (ha c q hc)

theorem Tabled.tick (k : Tabled h) (hh : Heeded h) : Tabled h.tick := by
  rcases tick_inquires h with ⟨k', hi, hm⟩ | ⟨t, e, d, rest, n, below, -, -, hm⟩ |
    ⟨q, jobs, -, hjobs, e⟩
  · exact (k.inquires hi).minds hm
  · have hl : Listens h (after (queriesEnd d rest n e) h) := Within.rel_after h
    refine Tabled.minds (k.subset hl.queries fun c q hq => ?_) hm
    rcases activeOf_queriesEnd c d rest n e h with ha | ⟨-, ha⟩
    · rwa [ha] at hq
    · rw [ha] at hq
      cases hq
  · obtain ⟨x, hx, -⟩ := hh.told q (by rw [hjobs]; exact List.mem_cons_self)
    have hl : Listens { h with loop := { h.loop with jobs } }
        (after (queryEnded q) { h with loop := { h.loop with jobs } }) := Within.rel_after _
    rw [e]
    refine k.subset hl.queries fun c q' hq => ?_
    rw [activeOf_queryEnded (h := { h with loop := { h.loop with jobs } }) hx] at hq
    split at hq
    · exact (List.mem_filter.1 hq).1
    · exact hq

namespace Named

/-- Tasks have the frames that they had, or know no cells. -/
theorem keep (k : Named h) (hsize : h.loop.cells.size ≤ h'.loop.cells.size)
    (hframes : ∀ u fs, h'.loop.stack? u = some fs → h.loop.stack? u = some fs ∨ cellsOf fs = [])
    (hrecalls : ∀ c, h'.Recalls c → h.Recalls c ∨ c < h'.loop.cells.size)
    (hwaiting : ∀ u c, h'.loop.waiting u = some c → h.loop.waiting u = some c)
    (ht : Tabled h') : Named h' where
  frames u fs hu c hc := by
    rcases hframes u fs hu with hu | e
    · exact Nat.lt_of_lt_of_le (k.frames u fs hu c hc) hsize
    · rw [e] at hc
      cases hc
  recalled c hc := (hrecalls c hc).elim
    (fun hc => Nat.lt_of_lt_of_le (k.recalled c hc) hsize) id
  waiting u c hu := Nat.lt_of_lt_of_le (k.waiting u c (hwaiting u c hu)) hsize
  tabled := ht

theorem step (k : Named h) (ks : Steps h t e f below) (ht : Tabled (Host.step t e h)) :
    Named (Host.step t e h) := by
  have htick : h.tick = Host.step t e h := tick_of_running ks.running
  have hg := ks.queueGuards fun _ _ => False
  have hsize : h.loop.cells.size ≤ (Host.step t e h).loop.cells.size := ks.moves.size_le
  have hknown : ∀ c ∈ cellsOf (f :: below), c < h.loop.cells.size := k.frames t _ ks.top
  have hcells : ∀ c ∈ (nextOf (resume f e) h).cells, c < (Host.step t e h).loop.cells.size :=
    fun c hc => (ks.cells (K := (· < h.loop.cells.size))
      (fun c hc => hknown c (List.mem_append_left _ hc)) k.recalled k.tabled c hc).elim
      (fun hc => Nat.lt_of_lt_of_le hc hsize) (·.2)
  refine ⟨fun u fs hu c hc => ?_, fun c hc => ?_, fun u c hu => ?_, ht⟩
  · rcases ks.frames hu with ⟨rfl, rfl⟩ | ⟨-, hu | e⟩
    · rw [cellsOf_append] at hc
      rcases List.mem_append.1 hc with hc | hc
      · exact hcells c (Next.mem_cells hc)
      · exact Nat.lt_of_lt_of_le (hknown c (List.mem_append_right _ hc)) hsize
    · exact Nat.lt_of_lt_of_le (k.frames u fs hu c hc) hsize
    · rw [e] at hc
      cases hc
  · rw [← htick] at hc hsize ⊢
    exact (recalls_tick hc).elim (fun hc => Nat.lt_of_lt_of_le (k.recalled c hc) hsize) (·.2)
  · by_cases hut : u = t
    · subst hut
      rw [step_eq ks.top] at hu
      rcases proceed_cases (ks.runningOn hg) (nextOf (resume f e) h) with ⟨-, -, hno, -⟩ |
        ⟨d, hn, -, -, hd⟩
      · cases hu.symm.trans hno
      · cases hu.symm.trans hd
        refine hcells c ?_
        rw [hn]
        exact List.mem_cons_self
    · rw [ks.moves.waiting u fun e => hut (Option.some.inj e).symm] at hu
      exact Nat.lt_of_lt_of_le (k.waiting u c hu) hsize

theorem tick (k : Named h) (ko : InOrder h) (hh : Heeded h) : Named h.tick := by
  have ht := k.tabled.tick hh
  have hrecalls (c : Nat) (hc : h.tick.Recalls c) : h.Recalls c ∨ c < h.tick.loop.cells.size :=
    (recalls_tick hc).imp_right (·.2)
  have hsize := (retains_tick h).size_le
  by_cases hstep : ∃ t e f below, h.loop.running = some (t, e) ∧
      h.loop.stack? t = some (f :: below) ∧ h.tick = Host.step t e h
  · obtain ⟨t, e, f, below, hrun, hs, e'⟩ := hstep
    rw [e'] at ht ⊢
    exact k.step ⟨ko, hrun, hs⟩ ht
  · obtain ⟨hframes, hwaiting⟩ := tick_unstepped fun t e f below hk => hstep ⟨t, e, f, below, hk⟩
    exact k.keep hsize hframes hrecalls hwaiting ht

theorem fire (k : Named h) (v : Timer) : Named (h.fire v) := by
  refine k.keep (Nat.le_of_eq ?_) (fun u fs hu => .inl ?_) (fun c hc => .inl (.of_loop hc))
    (fun u c hu => ?_) k.tabled
  · exact (size_cells_finish
      { h.loop with now := v.due, timers := dropTimer v.cell h.loop.timers } v.cell _).symm
  · exact (stack?_finish
      { h.loop with now := v.due, timers := dropTimer v.cell h.loop.timers } v.cell _ u).symm.trans hu
  · exact (Grows.finish (P := fun _ => False)
      { h.loop with now := v.due, timers := dropTimer v.cell h.loop.timers } v.cell _).waiting u ▸ hu

theorem outside {P : Reaction → Prop} (k : Named h) (hf : h.loop.Filed) (ho : Outside P h h') :
    Named h' := by
  have o : Onward none h h' := .outside hf ho
  exact k.keep o.moves.size_le (blank_outside ho) (fun c hc => (recalls_outside ho hc).imp_right (·.2))
    (fun u c hu => (o.moves.waiting u nofun).symm.trans hu) (k.tabled.inquires ho.inquires)

end Named

theorem named_of_reachable {P : Reaction → Prop} (hr : Reachable Fresh (Outside P) h) : Named h := by
  induction hr with
  | start hf =>
    refine ⟨fun u fs hu => ?_, fun c hc => ?_, fun u c hu => ?_, fun c q hq => ?_⟩
    · rw [hf.loop] at hu
      cases hu
    · cases hc with
      | reader hs =>
        rw [readerOf, hf.sessions] at hs
        cases hs
      | query hx =>
        rw [hf.queries] at hx
        cases hx
    · rw [hf.loop] at hu
      cases hu
    · rw [activeOf, hf.channels] at hq
      cases hq
  | tick hr ih => exact ih.tick (inOrder_of_reachable hr) (heeded_of_reachable hr)
  | fire _ _ ih => exact ih.fire _
  | act hr _ ho ih => exact ih.outside (filed_of_reachable hr) ho

end GhciHost.Host
