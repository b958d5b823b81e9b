import GhciHost.Proofs.Host.Guard

/-!
# Every step answers only what is held

Each action answers and hands on only cells that the host holds: those that it reads off the host
itself, and those that it makes.  The exceptions are actions that are given cells; they need leave
for these.

* `Guards.deliverBy`, `Guards.abandon`   requests are answered out of the queue;
* `Guards.call`, `Guards.awaitQuery`   a new request has a new cell;
* `Guards.trySetUp`   requests that are submitted again keep their cells.
-/

namespace GhciHost.Host

/-- Leave to answer further cells. -/
def Leave.also (W : Leave) (P : Nat → Prop) : Leave :=
  { W with answer := fun c => W.answer c ∨ P c }

/-- Leave to hand further cells to places. -/
def Leave.lend (W : Leave) (Q : Place → Nat → Prop) : Leave :=
  { W with hold := fun p c => W.hold p c ∨ Q p c }

namespace Guards

variable {W : Leave}

theorem of_also {P : Nat → Prop} {h h' : Host} (g : Guards (W.also P) h h')
    (hP : ∀ c, P c → h.view.Owes c ∨ h.view.size ≤ c) : Guards W h h' := by
  refine Guarded.absorb g (fun c hc => ?_) fun p c hc => .inl hc
  rcases hc with hc | hc
  · exact .inl hc
  · exact .inr (hP c hc)

theorem of_lend {Q : Place → Nat → Prop} {h h' : Host} (g : Guards (W.lend Q) h h')
    (hQ : ∀ p c, Q p c →
      (∃ p', p'.flows p ∧ h.view.Holds p' c) ∨ h.view.size ≤ c ∧ c < h'.view.size) :
    Guards W h h' := by
  refine Guarded.absorb g (fun c hc => .inl hc) fun p c hc => ?_
  rcases hc with hc | hc
  · exact .inl hc
  · exact .inr (hQ p c hc)

/-! ## The loop -/

theorem changeLoop {f : Loop Value Failure Frame → Loop Value Failure Frame}
    (hg : ∀ l, Loop.Grows Tame l (f l)) (hh : ∀ l c, (f l).Holds c → l.Holds c ∨ W.hold .other c)
    (ha : ∀ l c, (f l).Answered c → l.Answered c ∨ W.answer c) :
    Within (Guards W) (changeLoop f) :=
  ⟨fun h => Guarded.of_loop (hg h.loop) (fun c hc => (hh h.loop c hc).imp_right .inl)
    fun c hc => (ha h.loop c hc).imp_right .inl⟩

theorem finish {c : Nat} {e : Ending} (hc : W.answer c) : Within (Guards W) (finish c e) :=
  changeLoop (fun l => .finish l c e) (fun _ _ hd => .inl (Loop.holds_finish hd)) fun _ d hd => by
    rcases Loop.answered_finish hd with hd | ⟨rfl, -⟩
    · exact .inl hd
    · exact .inr hc

theorem releaseAll {cells : List Nat} (hc : ∀ c ∈ cells, W.answer c) :
    Within (Guards W) (releaseAll cells) :=
  changeLoop (fun l => .foldl_release l cells) (fun _ _ hd => .inl (Loop.holds_foldl_release hd))
    fun _ d hd => (Loop.answered_foldl_release hd).imp_right (hc d)

theorem hookRelease {c w : Nat} (hw : W.hold .other w) :
    Within (Guards W) (Host.changeLoop (·.hook c (.release w))) :=
  changeLoop (fun l => .hook l c rfl)
    (fun _ d hd => (Loop.holds_hook hd).imp_right fun e => by cases e; exact hw)
    fun _ d hd => .inl (Loop.answered_hook hd)

instance hookNotify (c q : Nat) : Within (Guards W) (Host.changeLoop (·.hook c (.notify q))) :=
  changeLoop (fun l => .hook l c rfl)
    (fun _ d hd => .inl ((Loop.holds_hook hd).resolve_right fun e => by cases e))
    fun _ d hd => .inl (Loop.answered_hook hd)

instance cancel (c : Nat) : Within (Guards W) (Host.changeLoop (·.cancel c)) :=
  changeLoop (fun l => .cancelWithin l _ c) (fun _ _ hd => .inl (Loop.holds_cancelWithin hd))
    fun _ _ hd => .inl (Loop.answered_cancelWithin hd)

instance cancelAll (cells : List Nat) :
    Within (Guards W) (Host.changeLoop fun l => cells.foldl (fun l c => l.cancel c) l) :=
  changeLoop (fun l => .foldl_cancel l cells) (fun _ _ hd => .inl (Loop.holds_foldl_cancel hd))
    fun _ _ hd => .inl (Loop.answered_foldl_cancel hd)

instance newCell : Within (Guards W) newCell :=
  ⟨fun h => Guarded.of_loop (.newCell h.loop) (fun _ hc => .inl (Loop.holds_newCell hc))
    fun _ hc => .inl (Loop.answered_newCell hc)⟩

instance newTimer (d : Binary64) : Within (Guards W) (onLoop (·.newTimer d)) :=
  ⟨fun h => by
    refine Guarded.of_loop (.newTimer h.loop d) (fun c hc => ?_)
      fun _ hc => .inl (Loop.answered_newTimer hc)
    rcases Loop.holds_newTimer hc with hc | hc
    · exact .inl hc
    · refine .inr (.inr ⟨Nat.le_of_eq hc.symm, ?_⟩)
      show c < (h.loop.cells.push {}).size
      rw [Table.size_push, hc]
      exact Nat.lt_succ_self _⟩

theorem newTask {fs : List Frame} (hfs : Tame fs) : Within (Guards W) (newTask fs) :=
  ⟨fun h => Guarded.of_loop (.newTask h.loop hfs) (fun _ hc => .inl (Loop.holds_newTask hc))
    fun _ hc => .inl (Loop.answered_newTask hc)⟩

instance newPump (s p : Nat) : Within (Guards W) (Host.newTask [.pump s p]) := newTask rfl

instance newReadyEvent (s : Nat) : Within (Guards W) (Host.newTask [.readyEvent s]) := newTask rfl

instance newConnect (host : String) (port : Int) :
    Within (Guards W) (Host.newTask [.connect host port]) := newTask rfl

instance newExchange (q : Nat) : Within (Guards W) (Host.newTask [.exchange q]) := newTask rfl

/-! ## Sessions -/

instance changeChannel (c : Nat) (f : QueryChannel → QueryChannel) :
    Within (Guards W) (Host.changeChannel c f) := ⟨fun h => .refl h.view⟩

/-- A session that changes, but for those who begin to wait until it is ready. -/
theorem changeSession (s : Nat) {f : Session → Session}
    (hf : ∀ a c, c ∈ (f a).readyWaiters → c ∈ a.readyWaiters ∨ W.hold .other c) :
    Within (Guards W) (changeSession s f) :=
  ⟨fun h => by
    refine Guarded.of_readyWaiters (fun i c hc => ?_) _
    have hc : c ∈ readyWaiters { h with sessions := h.sessions.modify s f } i := hc
    rw [readyWaiters_changeSession] at hc
    show c ∈ h.readyWaiters i ∨ W.hold .other c
    split at hc
    · next e =>
      subst e
      unfold readyWaiters
      cases ha : h.sessions.get? s with
      | none =>
        rw [ha] at hc
        cases hc
      | some a =>
        rw [ha] at hc
        exact hf a c hc
    · exact .inl hc⟩

instance setPhase (s : Nat) (phase : Phase) (ready : Bool) :
    Within (Guards W) (Host.changeSession s fun a => { a with phase, ready }) :=
  changeSession s fun _ _ hc => .inl hc

instance dropReadyWaiters (s : Nat) :
    Within (Guards W) (Host.changeSession s fun a => { a with readyWaiters := [] }) :=
  changeSession s fun _ _ hc => by cases hc

instance setProcess (s : Nat) (process : Option Nat) :
    Within (Guards W) (Host.changeSession s fun a => { a with process }) :=
  changeSession s fun _ _ hc => .inl hc

instance setStarting (s : Nat) (starting : Bool) :
    Within (Guards W) (Host.changeSession s fun a => { a with starting }) :=
  changeSession s fun _ _ hc => .inl hc

instance setStartWaiters (s : Nat) (f : Session → List Nat) :
    Within (Guards W) (Host.changeSession s fun a => { a with startWaiters := f a }) :=
  changeSession s fun _ _ hc => .inl hc

instance tearDown (s : Nat) :
    Within (Guards W) (Host.changeSession s fun a =>
      { a with destroyed := true, ready := true, readyWaiters := [], process := none
               reader := none }) :=
  changeSession s fun _ _ hc => by cases hc

theorem addReadyWaiter {s c : Nat} (hc : W.hold .other c) :
    Within (Guards W)
      (Host.changeSession s fun a => { a with readyWaiters := a.readyWaiters ++ [c] }) :=
  changeSession s fun _ d hd => by
    rcases List.mem_append.1 hd with hd | hd
    · exact .inl hd
    · rw [List.mem_singleton.1 hd]
      exact .inr hc

instance newSession (kind root : String) (targets : List String) :
    Within (Guards W) (Host.newSession kind root targets) :=
  ⟨fun h => by
    rcases newSession_spec kind root targets h with ⟨f, h', e, rfl⟩ | ⟨key, h', e, hv⟩
    · rw [after_of_error e]
      exact Guarded.refl _
    · rw [after_of_ok e, Guards, hv]
      exact Guarded.of_readyWaiters (fun _ _ hc => .inl hc) _⟩

instance setRegistry (f : Host → Keyed (String × String) Nat) :
    Within (Guards W) (modify fun h => { h with registry := f h } : Action Unit) :=
  ⟨fun _ => Guarded.of_others _ _ _⟩

instance setRegistryMetrics (f : Host → Keyed (String × String) Nat) (g : Host → Option Metrics) :
    Within (Guards W) (modify fun h => { h with registry := f h, metrics := g h } : Action Unit) :=
  ⟨fun _ => Guarded.of_others _ _ _⟩

/-! ## Lanes and processes -/

/-- A lane that changes, but for requests that are added. -/
theorem changeLane (l : Nat) {f : Lane → Lane}
    (hf : ∀ a r c, r ∈ (f a).queue → r.waiter = some c → r ∈ a.queue ∨ W.hold (.lane l) c) :
    Within (Guards W) (changeLane l f) :=
  ⟨fun h => by
    refine Guarded.of_lanes fun i r c hr hc => ?_
    have hr : r ∈ (laneState { h with lanes := h.lanes.modify l f } i).2 := hr
    rw [laneState_changeLane] at hr
    show (∃ r' ∈ (h.laneState i).2, r'.waiter = some c) ∨ W.hold (.lane i) c
    split at hr
    · next e =>
      subst e
      unfold laneState
      cases ha : h.lanes.get? l with
      | none =>
        rw [ha] at hr
        cases hr
      | some a =>
        rw [ha] at hr
        exact (hf a r c hr hc).imp_left fun hr => ⟨r, hr, hc⟩
    · exact .inl ⟨r, hr, hc⟩⟩

theorem push {l : Nat} {r : Request} (hr : ∀ c, r.waiter = some c → W.hold (.lane l) c) :
    Within (Guards W) (Host.changeLane l (·.push r)) :=
  changeLane l fun _ q c hq hc => by
    rcases List.mem_append.1 hq with hq | hq
    · exact .inl hq
    · rw [List.mem_singleton.1 hq] at hc
      exact .inr (hr c hc)

instance pushUnawaited (l : Nat) (state : Json) (reaction : Option Reaction) (command : String)
    (internal : Bool) :
    Within (Guards W) (Host.changeLane l (·.push ⟨state, reaction, command, none, internal⟩)) :=
  push fun _ hc => by cases hc

instance clear (l : Nat) : Within (Guards W) (Host.changeLane l fun a => { a with queue := [] }) :=
  changeLane l fun _ _ _ hq => by cases hq

instance attach (l p : Nat) : Within (Guards W) (Host.changeLane l (·.attach p)) :=
  changeLane l fun _ _ _ hq _ => .inl hq

instance detach (l : Nat) : Within (Guards W) (Host.changeLane l (·.detach)) :=
  changeLane l fun _ _ _ hq _ => .inl hq

/-- A process that changes, but for those who begin to wait for it. -/
theorem changeProcess (p : Nat) {f : Process → Process}
    (hr : ∀ a c, (f a).reader = some c → a.reader = some c ∨ W.hold .other c)
    (he : ∀ a c, c ∈ (f a).exitWaiters → c ∈ a.exitWaiters ∨ W.hold .other c) :
    Within (Guards W) (changeProcess p f) :=
  ⟨fun h => by
    refine Guarded.of_processes (fun i c hc => ?_) fun i c hc => ?_
    · have hc : (processWaiters { h with processes := h.processes.modify p f } i).1 = some c := hc
      rw [processWaiters_changeProcess] at hc
      show (h.processWaiters i).1 = some c ∨ W.hold .other c
      split at hc
      · next e =>
        subst e
        unfold processWaiters
        cases ha : h.processes.get? p with
        | none =>
          rw [ha] at hc
          cases hc
        | some a =>
          rw [ha] at hc
          exact hr a c hc
      · exact .inl hc
    · have hc : c ∈ (processWaiters { h with processes := h.processes.modify p f } i).2 := hc
      rw [processWaiters_changeProcess] at hc
      show c ∈ (h.processWaiters i).2 ∨ W.hold .other c
      split at hc
      · next e =>
        subst e
        unfold processWaiters
        cases ha : h.processes.get? p with
        | none =>
          rw [ha] at hc
          cases hc
        | some a =>
          rw [ha] at hc
          exact he a c hc
      · exact .inl hc⟩

theorem holds_reader {h : Host} {p c : Nat} (e : (h.processOf p).reader = some c) :
    h.view.Holds .other c :=
  .reader (p := p) (by
    show (h.processWaiters p).1 = some c
    rw [processWaiters_eq, e])

theorem holds_exit {h : Host} {p c : Nat} (hc : c ∈ (h.processOf p).exitWaiters) :
    h.view.Holds .other c :=
  .exit (p := p) (by
    show c ∈ (h.processWaiters p).2
    rw [processWaiters_eq]
    exact hc)

theorem holds_ready {h : Host} {s c : Nat} (hc : c ∈ (h.sessionOf s).readyWaiters) :
    h.view.Holds .other c :=
  .ready (s := s) (by
    show c ∈ h.readyWaiters s
    rwa [readyWaiters_eq])

theorem holds_queue {h : Host} {l c : Nat} {r : Request} (hr : r ∈ (h.laneOf l).queue)
    (hc : r.waiter = some c) : h.view.Holds (.lane l) c :=
  .queue (r := r) (by
    show r ∈ h.queueOf l
    rwa [queueOf_eq]) hc

instance putOutput (p : Nat) (o : WorkerOutput) : Within (Guards W) (Host.putOutput p o) :=
  ⟨fun h => by
    unfold Host.putOutput
    rw [after_bind_ok (run_process p h)]
    have : Within (Guards (W.also fun c => (h.processOf p).reader = some c))
        (Host.releaseAll (h.processOf p).reader.toList) :=
      releaseAll fun c hc => .inr (Option.mem_toList.1 hc)
    have : Within (Guards (W.also fun c => (h.processOf p).reader = some c))
        (Host.changeProcess p fun proc =>
          { proc with output := proc.output ++ [o], reader := none }) :=
      changeProcess p (fun _ _ e => by cases e) fun _ _ hc => .inl hc
    refine of_also (P := fun c => (h.processOf p).reader = some c) (Within.rel_after h) fun c hc => ?_
    exact .inl (holds_reader hc).owed⟩

instance exit (p : Nat) (code : Int) : Within (Guards W) (Host.exit p code) :=
  ⟨fun h => by
    unfold Host.exit
    rw [after_bind_ok (run_process p h)]
    have : Within (Guards (W.also (· ∈ (h.processOf p).exitWaiters)))
        (Host.releaseAll (h.processOf p).exitWaiters) := releaseAll fun c hc => .inr hc
    have : Within (Guards (W.also (· ∈ (h.processOf p).exitWaiters)))
        (Host.changeProcess p fun proc =>
          { proc with exitCode := some code, exitWaiters := [] }) :=
      changeProcess p (fun _ _ e => .inl e) fun _ _ hc => by cases hc
    refine of_also (P := (· ∈ (h.processOf p).exitWaiters)) (Within.rel_after h) fun c hc => ?_
    exact .inl (holds_exit hc).owed⟩

/-! ## Phases -/

instance transition (s : Nat) (phase : Phase) : Within (Guards W) (Host.transition s phase) :=
  ⟨fun h => by
    unfold Host.transition
    rw [after_bind_ok (run_session s h)]
    have : Within (Guards (W.also (· ∈ (h.sessionOf s).readyWaiters)))
        (Host.releaseAll (h.sessionOf s).readyWaiters) := releaseAll fun c hc => .inr hc
    -- what comes before the event moves the host along; the event leaves the view's rest alone
    have (e : Event) : Within (Guards (W.also (· ∈ (h.sessionOf s).readyWaiters))) (publish e) :=
      ⟨fun _ => Guarded.of_others _ _ _⟩
    refine of_also (P := (· ∈ (h.sessionOf s).readyWaiters)) (Within.rel_after h) fun c hc => ?_
    exact .inl (holds_ready hc).owed⟩

instance teardown (s : Nat) : Within (Guards W) (Host.teardown s) :=
  ⟨fun h => by
    unfold Host.teardown
    rw [after_bind_ok (run_session s h)]
    have : Within (Guards (W.also (· ∈ (h.sessionOf s).readyWaiters)))
        (Host.releaseAll (h.sessionOf s).readyWaiters) := releaseAll fun c hc => .inr hc
    refine of_also (P := (· ∈ (h.sessionOf s).readyWaiters)) ?_ fun c hc => .inl (holds_ready hc).owed
    refine (@Within.bind _ _ _ _ _ _ _ fun _ => ?_).rel_after h
    refine @Within.bind _ _ _ _ _ _ _ fun _ => ?_
    refine @Within.bind _ _ _ _ _ _ _ fun _ => ?_
    refine @Within.bind _ _ _ _ _ _ _ fun _ => ?_
    dsimp only
    split <;> infer_instance⟩

/-- The next caller holds its cell itself, so this needs leave. -/
theorem callNext {s : Nat} {h : Host}
    (hc : ∀ c, (h.sessionOf s).startWaiters.head? = some c → W.answer c) :
    Guards W h (after (Host.callNext s) h) := by
  unfold Host.callNext
  rw [after_bind_ok (run_session s h)]
  split
  · next c cs e =>
    refine (releaseAll fun d hd => ?_).rel_after h
    rw [List.mem_singleton.1 hd]
    exact hc c (by rw [e]; rfl)
  · exact Guarded.refl _

/-! ## Responses -/

theorem failRequest {r : Request} {e : SessionError} (hr : ∀ c, r.waiter = some c → W.answer c) :
    Within (Guards W) (Host.failRequest r e) := by
  unfold Host.failRequest
  split
  · next c hc => exact finish (hr c hc)
  · infer_instance

instance abandon (l : Nat) (e : SessionError) : Within (Guards W) (Host.abandon l e) :=
  ⟨fun h => by
    unfold Host.abandon Host.takePending
    simp only [bind_assoc, pure_bind]
    rw [after_bind_ok (run_lane l h)]
    have hloop : Within (Guards (W.also fun c => ∃ r ∈ (h.laneOf l).queue, r.waiter = some c))
        (ForIn.forIn (h.laneOf l).queue PUnit.unit fun r _ => do
          Host.failRequest r e
          Pure.pure (ForInStep.yield PUnit.unit) : Action PUnit) :=
      Within.forIn_mem _ _ _ fun r hr _ =>
        have : Within (Guards (W.also fun c => ∃ r ∈ (h.laneOf l).queue, r.waiter = some c))
            (Host.failRequest r e) := failRequest fun c hc => .inr ⟨r, hr, hc⟩
        inferInstance
    refine of_also (P := fun c => ∃ r ∈ (h.laneOf l).queue, r.waiter = some c)
      (Within.rel_after h) fun c hc => ?_
    obtain ⟨r, hr, hc⟩ := hc
    exact .inl (holds_queue hr hc).owed⟩

instance becomeReady (s p : Nat) (mode : StartMode) (body : String) :
    Within (Guards W) (Host.becomeReady s p mode body) := inferInstance

instance react (l : Nat) (state : Json) (body : String) (r : Reaction) :
    Within (Guards W) (Host.react l state body r) := inferInstance

theorem answerBy {l : Nat} {state : Json} {reaction : Option Reaction} {waiter : Option Nat}
    {body : String} (hw : ∀ c, waiter = some c → W.answer c) :
    Within (Guards W) (Host.answerBy Host.react l state reaction waiter body) := by
  unfold Host.answerBy
  cases waiter with
  | none => cases reaction <;> (dsimp only; infer_instance)
  | some c =>
    have := finish (e := .value (.text body)) (hw c rfl)
    cases reaction <;> (dsimp only; infer_instance)

/-- The oldest request is answered, which the lane held until then. -/
instance deliverBy (l : Nat) (body : String) : Within (Guards W) (Host.deliverBy Host.react l body) :=
  ⟨fun h => by
    unfold Host.deliverBy
    rw [after_bind_ok (run_lane l h)]
    split
    · exact Within.rel_after h
    · next r queue e =>
      have hmem : r ∈ (h.laneOf l).queue := by
        rw [e]
        exact List.mem_cons_self
      refine of_also (P := fun c => r.waiter = some c) ?_ fun c hc => .inl (holds_queue hmem hc).owed
      refine Within.rel_after_bind ?_ fun _ h' _ => ?_
      -- the queue without its first request
      · refine Guarded.of_lanes fun i q c hq hc => ?_
        have hq : q ∈ (laneState { h with lanes := h.lanes.modify l fun a => { a with queue } } i).2 := hq
        rw [laneState_changeLane] at hq
        show (∃ q' ∈ h.queueOf i, q'.waiter = some c) ∨ _
        split at hq
        · next hi =>
          subst hi
          rw [queueOf_eq, e]
          cases ha : h.lanes.get? l with
          | none =>
            rw [ha] at hq
            cases hq
          | some a =>
            rw [ha] at hq
            exact .inl ⟨q, List.mem_cons_of_mem _ hq, hc⟩
        · exact .inl ⟨q, hq, hc⟩
      · have : Within (Guards (W.also fun c => r.waiter = some c))
            (Host.answerBy Host.react l r.state r.reaction r.waiter body) :=
          answerBy fun c hc => .inr hc
        exact Within.rel_after h'⟩

/-! ## Queries -/

theorem run_query (q : Nat) (h : Host) :
    (Host.query q).run h = .ok ((h.queries.get? q).getD
      { channel := 0, command := "", state := .null, reaction := none, waiter := none, port := 0
        task := 0 }) h := rfl

/-- The waiter of a query is held by it. -/
theorem holds_query {h : Host} {q c : Nat} {x : Query} (hx : (h.queries.get? q).getD
      { channel := 0, command := "", state := .null, reaction := none, waiter := none, port := 0
        task := 0 } = x) (hc : x.waiter = some c) : h.view.Holds .query c := by
  cases hq : h.queries.get? q with
  | none =>
    rw [hq] at hx
    cases hx
    cases hc
  | some y =>
    rw [hq] at hx
    cases hx
    exact .query hq hc

instance queryEnded (q : Nat) : Within (Guards W) (Host.queryEnded q) :=
  ⟨fun h => by
    unfold Host.queryEnded
    rw [after_bind_ok (run_query q h)]
    generalize hx : (h.queries.get? q).getD _ = x
    refine of_also (P := fun c => x.waiter = some c) ?_ fun c hc => .inl (holds_query hx hc).owed
    have (w : Nat) (hw : x.waiter = some w) (e : Ending) :
        Within (Guards (W.also fun c => x.waiter = some c)) (Host.finish w e) := finish (.inr hw)
    refine (@Within.bind _ _ _ _ _ _ _ fun _ => ?_).rel_after h
    refine @Within.bind _ _ _ _ _ _ _ fun h' => ?_
    split
    · next w _ hw =>
      have := this w hw
      infer_instance
    · infer_instance⟩

theorem submit (l : Nat) (command : String) (state : Json) (reaction : Option Reaction)
    {waiter : Option Nat} (hw : ∀ c, waiter = some c → W.hold (.lane l) c) :
    Within (Guards W) (Host.submit l command state reaction waiter) :=
  have : Within (Guards W) (Host.changeLane l (·.push ⟨state, reaction, command, waiter, false⟩)) :=
    push hw
  inferInstance

theorem fallBack (l : Nat) (command : String) (state : Json) (reaction : Option Reaction)
    {waiter : Option Nat} (reason : String) (hw : ∀ c, waiter = some c → W.hold (.lane l) c) :
    Within (Guards W) (Host.fallBack l command state reaction waiter reason) :=
  have := submit l command state reaction hw
  Within.fallBack l command state reaction waiter reason

instance fallBackAfterFailure (q : Nat) (reason : String) :
    Within (Guards W) (Host.fallBackAfterFailure q reason) :=
  ⟨fun h => by
    unfold Host.fallBackAfterFailure
    rw [after_bind_ok (run_query q h)]
    generalize hx : (h.queries.get? q).getD _ = x
    let W' : Leave := (W.also fun c => x.waiter = some c).lend fun p c =>
      p = .lane x.channel ∧ x.waiter = some c
    have : Within (Guards W')
        (Host.fallBack x.channel x.command x.state x.reaction x.waiter reason) :=
      fallBack _ _ _ _ _ fun c hc => .inr ⟨rfl, hc⟩
    have (f : Failure) : Within (Guards W') (match x.waiter with
        | some w => Host.finish w (.failed f)
        | none => Pure.pure () : Action Unit) := by
      split
      · next w hw => exact finish (.inr hw)
      · infer_instance
    have g : Guards W' h (after (do
        try Host.fallBack x.channel x.command x.state x.reaction x.waiter reason
        catch f =>
          match x.waiter with
          | some w => Host.finish w (.failed f)
          | none => Pure.pure ()
        return Next.done .unit) h) := Within.rel_after h
    refine of_also (P := fun c => x.waiter = some c) (of_lend g fun p c hc => ?_) fun c hc => ?_
    · obtain ⟨rfl, hc⟩ := hc
      exact .inl ⟨_, Place.query_flows _, holds_query hx hc⟩
    · exact .inl (holds_query hx hc).owed⟩

instance endExchange (q : Nat) (e : Ending) : Within (Guards W) (Host.endExchange q e) := by
  unfold Host.endExchange
  split
  · infer_instance
  · refine ⟨fun h => ?_⟩
    rw [after_bind_ok (run_query q h)]
    generalize hx : (h.queries.get? q).getD _ = x
    refine of_also (P := fun c => x.waiter = some c) ?_ fun c hc => .inl (holds_query hx hc).owed
    have (body : String) : Within (Guards (W.also fun c => x.waiter = some c))
        (Host.answer x.channel x.state x.reaction x.waiter body) := answerBy fun c hc => .inr hc
    exact Within.rel_after h
  · infer_instance
  · infer_instance

/-! ## New cells -/

/-- An action that begins with a new cell has leave for it. -/
theorem newCell_bind {f : Nat → Action α} (hf : ∀ w, Within (Guards
      ((W.also (· = w)).lend fun _ c => c = w)) (f w)) :
    Within (Guards W) (Host.newCell >>= f) :=
  ⟨fun h => by
    have hw : h.loop.cells.size < (after (Host.newCell >>= f) h).view.size := by
      have := ((hf h.loop.cells.size).rel_after { h with loop := h.loop.newCell.2 }).size_le
      exact Nat.lt_of_lt_of_le (by simp [view, View.size, Loop.newCell]) this
    have g : Guards ((W.also (· = h.loop.cells.size)).lend fun _ c => c = h.loop.cells.size) h
        (after (Host.newCell >>= f) h) :=
      Within.rel_after_bind (Within.rel_after h) fun w h' e => by
        cases e
        exact Within.rel_after _
    refine of_also (P := (· = h.loop.cells.size)) (of_lend g fun p c hc => ?_) fun c hc => ?_
    · subst hc
      exact .inr ⟨Nat.le_refl _, hw⟩
    · subst hc
      exact .inr (Nat.le_refl _)⟩

instance cancelAndReap (cell : Nat) (timeUp : Bool) :
    Within (Guards W) (Host.cancelAndReap cell timeUp) := by
  unfold Host.cancelAndReap
  refine newCell_bind fun w => ?_
  have := hookRelease (W := (W.also (· = w)).lend fun _ c => c = w) (c := cell) (w := w) (.inr rfl)
  infer_instance

instance waitFor (cell : Nat) (limit : Option Seconds) : Within (Guards W) (Host.waitFor cell limit) := by
  unfold Host.waitFor
  split
  · infer_instance
  · next limit =>
    split
    · refine @Within.bind _ _ _ _ _ _ _ fun h => ?_
      split <;> infer_instance
    · refine ⟨fun h => ?_⟩
      have hlt (h : Host) : h.loop.cells.size <
          (after (onLoop (·.newTimer limit.value)) h).view.size := by
        show h.loop.cells.size < (h.loop.cells.push {}).size
        rw [Table.size_push]
        exact Nat.lt_succ_self _
      have g : Guards (W.lend fun _ c => c = h.loop.cells.size) h (after (do
          let w ← onLoop (·.newTimer limit.value)
          Host.changeLoop (·.hook cell (.release w))
          return Next.wait [.race cell] w) h) :=
        Within.rel_after_bind (Within.rel_after h) fun w h' e => by
          cases e
          have := hookRelease (W := W.lend fun _ c => c = h.loop.cells.size) (c := cell)
            (w := h.loop.cells.size) (.inr rfl)
          exact Within.rel_after _
      refine of_lend g fun p c hc => ?_
      subst hc
      refine .inr ⟨Nat.le_refl _, Nat.lt_of_lt_of_le (hlt h) ?_⟩
      have hook := hookRelease (W := ({} : Leave).lend fun _ c => c = h.loop.cells.size)
        (c := cell) (w := h.loop.cells.size) (.inr rfl)
      exact (hook.rel_after (after (onLoop (·.newTimer limit.value)) h)).size_le

instance call (l : Nat) (command : String) (timeout : Option Seconds) :
    Within (Guards W) (Host.call l command timeout) := by
  unfold Host.call
  refine newCell_bind fun w => ?_
  have := submit (W := (W.also (· = w)).lend fun _ c => c = w) l command .null none
    fun c (hc : some w = some c) => .inr (Option.some.inj hc).symm
  infer_instance

theorem startQuery (l : Nat) (command : String) (state : Json) (reaction : Option Reaction)
    {waiter : Option Nat} (hw : ∀ p c, waiter = some c → W.hold p c) :
    Within (Guards W) (Host.startQuery l command state reaction waiter) := by
  have (task : Nat) (port : Int) : Within (Guards W) (modify fun h =>
      { h with queries := h.queries.push ⟨l, command, state, reaction, waiter, port, task⟩ } :
        Action Unit) :=
    ⟨fun h => Guarded.of_queries _ fun c hc => hw _ c hc⟩
  have (reason : String) := fallBack l command state reaction reason (hw (.lane l))
  infer_instance

instance startQueryUnawaited (l : Nat) (command : String) (state : Json)
    (reaction : Option Reaction) :
    Within (Guards W) (Host.startQuery l command state reaction none) :=
  startQuery _ _ _ _ fun _ _ hc => by cases hc

instance awaitQuery (l : Nat) (command : String) :
    Within (Guards W) (Host.awaitQuery l command) := by
  unfold Host.awaitQuery
  refine newCell_bind fun w => ?_
  have := startQuery (W := (W.also (· = w)).lend fun _ c => c = w) l command .null none
    fun _ c (hc : some w = some c) => .inr (Option.some.inj hc).symm
  infer_instance

/-- Nobody waits for a process that was only just made. -/
instance pushProcess (script : SpawnScript) :
    Within (Guards W) (modify fun h => { h with processes := h.processes.push script.process } :
      Action Unit) :=
  Within.of_modify fun h => by
    rw [Guards, view_pushProcess h rfl rfl]
    exact .refl _

instance readWorker (p : Nat) : Within (Guards W) (Host.readWorker p) := by
  unfold Host.readWorker
  refine @Within.bind _ _ _ _ _ _ _ fun proc => ?_
  refine @Within.ite _ _ _ _ _ _ _ ?_
  split
  · refine newCell_bind fun w => ?_
    have : Within (Guards ((W.also (· = w)).lend fun _ c => c = w))
        (Host.changeProcess p fun proc => { proc with reader := some w }) :=
      changeProcess p (fun _ c hc => .inr (.inr (Option.some.inj hc).symm)) fun _ _ hc => .inl hc
    infer_instance
  · infer_instance
  · infer_instance

instance waitExit (p : Nat) : Within (Guards W) (Host.waitExit p) := by
  unfold Host.waitExit
  refine @Within.bind _ _ _ _ _ _ _ fun proc => ?_
  split
  · infer_instance
  · refine newCell_bind fun w => ?_
    have : Within (Guards ((W.also (· = w)).lend fun _ c => c = w))
        (Host.changeProcess p fun proc =>
          { proc with exitWaiters := proc.exitWaiters ++ [w] }) :=
      changeProcess p (fun _ _ hc => .inl hc) fun _ c hc => by
        rcases List.mem_append.1 hc with hc | hc
        · exact .inl hc
        · exact .inr (.inr (List.mem_singleton.1 hc))
    infer_instance

instance readyEvent (s : Nat) : Within (Guards W) (Host.readyEvent s) := by
  unfold Host.readyEvent
  refine @Within.bind _ _ _ _ _ _ _ fun session => ?_
  refine @Within.ite _ _ _ _ _ _ _ ?_
  refine newCell_bind fun w => ?_
  have := addReadyWaiter (W := (W.also (· = w)).lend fun _ c => c = w) (s := s) (c := w) (.inr rfl)
  infer_instance

/-! ## Requests that are submitted again -/

theorem setUp {s : Nat} {replay : List Request}
    (hr : ∀ r ∈ replay, ∀ c, r.waiter = some c → W.hold (.lane s) c) :
    Within (Guards W) (Host.setUp s replay) := by
  unfold Host.setUp
  refine @Within.bind _ _ _ _ _ _ _ fun h => ?_
  dsimp only
  refine @Within.bind _ _ _ _ _ _ _ fun _ => ?_
  have hloop : Within (Guards W) (ForIn.forIn replay PUnit.unit fun r _ => do
      Host.requeue s r
      Pure.pure (ForInStep.yield PUnit.unit) : Action PUnit) :=
    Within.forIn_mem _ _ _ fun r hmem _ =>
      have := push (hr r hmem)
      inferInstance
  infer_instance

theorem adopt {s : Nat} (p : Nat) (mode : StartMode) {replay : List Request}
    (hr : ∀ r ∈ replay, ∀ c, r.waiter = some c → W.hold (.lane s) c) :
    Within (Guards W) (Host.adopt s p mode replay) := by
  have := setUp hr
  unfold Host.adopt
  refine @Within.bind _ _ _ _ _ _ _ fun _ => ?_
  refine @Within.bind _ _ _ _ _ _ _ fun _ => ?_
  refine @Within.bind _ _ _ _ _ _ _ fun _ => ?_
  infer_instance

/-- The requests that are submitted again were held by the frame. -/
theorem launched {s : Nat} {mode : StartMode} {replay : List Request} {e : Ending} {h : Host}
    {t : Nat} {below : List Frame}
    (ht : h.loop.stack? t = some (.launched s mode replay :: below)) :
    Guards W h (after (Host.launched s mode replay e) h) := by
  have hr (r : Request) (hmem : r ∈ replay) (c : Nat) (hc : r.waiter = some c) :
      (W.lend fun p c => p = .lane s ∧ ∃ r ∈ replay, r.waiter = some c).hold (.lane s) c :=
    .inr ⟨rfl, r, hmem, hc⟩
  have (p : Nat) := adopt p mode hr
  refine of_lend (Q := fun p c => p = .lane s ∧ ∃ r ∈ replay, r.waiter = some c)
    (Within.rel_after h) fun p c hc => ?_
  obtain ⟨rfl, r, hmem, hc⟩ := hc
  exact .inl ⟨_, Place.replay_flows s, .replay ht List.mem_cons_self rfl hmem hc⟩

/-! ## All steps -/

/-- The frames that answer more than what is held, or hand on what they hold themselves. -/
def special : Frame → Bool
  | .startTurn .. | .startEnd _ | .launched .. => true
  | _ => false

instance resumeWith (f : Frame) (v : Value) : Within (Guards W) (Host.resumeWith f v) := by
  unfold Host.resumeWith
  split <;> infer_instance

instance dropReader (p : Nat) :
    Within (Guards W) (Host.changeProcess p fun a => { a with reader := none }) :=
  changeProcess p (fun _ _ hc => by cases hc) fun _ _ hc => .inl hc

theorem resume {f : Frame} (hf : special f = false) (e : Ending) :
    Within (Guards W) (Host.resume f e) := by
  unfold Host.resume
  split
  case h_11 | h_12 | h_14 => cases hf
  case h_17 | h_18 => split <;> infer_instance
  all_goals infer_instance

end Guards

end GhciHost.Host
