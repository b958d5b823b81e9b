import GhciHost.Proofs.Loop.Notices
import GhciHost.Proofs.Session.Kept

/-!
# Queries under way

A query is under way on its channel until its task has ended and the host was told so.  Few steps
begin a query or take one off its channel; all others move a host along `Minds`.

* `Minds.resume`   the steps of all frames that have nothing to do with queries;
* `Inquires.resume`   a step begins one query at most;
* `heeded_of_reachable`   the host is told of the end of a query when the query's task has ended;
* `AttendedAt.tick`, `Tends.tick`   what becomes of the queries of a channel;
* `KilledStay.tick`   who was killed stays so.
-/

namespace GhciHost

/-- The frames that begin a query, and the one that clears a channel. -/
def Frame.inquires : Frame → Bool
  | query .. | querySession .. | queryOn .. | queriesEnd .. => true
  | _ => false

namespace Host

open Loop

variable {h h' h'' : Host} {c : Nat}

/-- No query is begun or taken off its channel, and who was killed stays so. -/
structure Minds (h h' : Host) : Prop where
  loop : Hushed h.loop h'.loop
  queries : h'.queries = h.queries
  active : h'.activeOf = h.activeOf
  killed : ∀ p, h.killedOf p = true → h'.killedOf p = true

instance : Std.Refl Minds := ⟨fun _ => ⟨.refl _, rfl, rfl, fun _ hp => hp⟩⟩

instance : IsTrans Host Minds :=
  ⟨fun _ _ _ h k => ⟨h.loop.trans k.loop, k.queries.trans h.queries, k.active.trans h.active,
    fun p hp => k.killed p (h.killed p hp)⟩⟩

instance : Blind Minds where
  of_view {h h'} hv hm := by
    refine ⟨?_, congrArg View.queries hv, congrArg Margin.active hm, fun p hp => ?_⟩
    · rw [show h'.loop = h.loop from congrArg View.loop hv]
      exact .refl _
    · exact (congrFun (congrArg Margin.killed hm) p).trans hp

namespace Minds

/-- The loop changes, and nobody begins to listen. -/
theorem ofLoop {l : Loop Value Failure Frame} (hl : Hushed h.loop l) :
    Minds h { h with loop := l } := ⟨hl, rfl, rfl, fun _ hp => hp⟩

theorem changeLoop {f : Loop Value Failure Frame → Loop Value Failure Frame}
    (hf : ∀ l, Hushed l (f l)) : Within Minds (Host.changeLoop f) := ⟨fun h => ofLoop (hf h.loop)⟩

instance finish (c : Nat) (e : Ending) : Within Minds (Host.finish c e) :=
  changeLoop fun l => .finish l c e

instance releaseAll (cells : List Nat) : Within Minds (Host.releaseAll cells) :=
  changeLoop fun l => .foldl_release l cells

instance hookRelease (c w : Nat) : Within Minds (Host.changeLoop (·.hook c (.release w))) :=
  changeLoop fun l => .hook l c fun _ e => by cases e

instance cancel (c : Nat) : Within Minds (Host.changeLoop (·.cancel c)) :=
  changeLoop fun l => .cancelWithin l _ c

instance cancelAll (cells : List Nat) :
    Within Minds (Host.changeLoop fun l => cells.foldl (fun l c => l.cancel c) l) :=
  changeLoop fun l => .foldl_cancel l cells

instance newCell : Within Minds Host.newCell := ⟨fun h => ofLoop (.newCell h.loop)⟩

instance newTimer (d : Binary64) : Within Minds (onLoop (·.newTimer d)) :=
  ⟨fun h => ofLoop (.newTimer h.loop d)⟩

instance newTask (fs : List Frame) : Within Minds (Host.newTask fs) :=
  ⟨fun h => ofLoop (.newTask h.loop fs)⟩

/-- What is neither the loop nor about queries, channels or processes can change. -/
theorem of_modify {g : Host → Host} (hl : ∀ h, (g h).loop = h.loop)
    (hq : ∀ h, (g h).queries = h.queries) (hc : ∀ h, (g h).channels = h.channels)
    (hp : ∀ h, (g h).processes = h.processes) : Within Minds (modify g : Action Unit) :=
  Within.of_modify fun h => by
    refine ⟨?_, hq h, ?_, fun p hk => ?_⟩
    · rw [hl]
      exact .refl _
    · unfold activeOf
      rw [hc]
    · rwa [killedOf, hp]

instance changeSession (s : Nat) (f : Session → Session) : Within Minds (Host.changeSession s f) :=
  of_modify (fun _ => rfl) (fun _ => rfl) (fun _ => rfl) fun _ => rfl

instance changeLane (l : Nat) (f : Lane → Lane) : Within Minds (Host.changeLane l f) :=
  of_modify (fun _ => rfl) (fun _ => rfl) (fun _ => rfl) fun _ => rfl

instance note (f : Journal → Journal) : Within Minds (Host.note f) :=
  of_modify (fun _ => rfl) (fun _ => rfl) (fun _ => rfl) fun _ => rfl

instance setRegistry (f : Host → Keyed (String × String) Nat) :
    Within Minds (modify fun h => { h with registry := f h } : Action Unit) :=
  of_modify (fun _ => rfl) (fun _ => rfl) (fun _ => rfl) fun _ => rfl

instance setRegistryMetrics (f : Host → Keyed (String × String) Nat) (g : Host → Option Metrics) :
    Within Minds (modify fun h => { h with registry := f h, metrics := g h } : Action Unit) :=
  of_modify (fun _ => rfl) (fun _ => rfl) (fun _ => rfl) fun _ => rfl

instance publish (e : Event) : Within Minds (Host.publish e) := by
  have : Within Minds (modify fun h : Host => { h with bus := h.bus.publish e } : Action Unit) :=
    of_modify (fun _ => rfl) (fun _ => rfl) (fun _ => rfl) fun _ => rfl
  unfold Host.publish
  infer_instance

instance setPort (c : Nat) (port : Option Int) :
    Within Minds (changeChannel c fun ch => { ch with port }) :=
  ⟨fun h => ⟨.refl _, rfl, by
    funext i
    refine (activeOf_changeChannel h c i _).trans ?_
    split <;> rfl, fun _ hp => hp⟩⟩

/-- A process changes, and is not brought back to life. -/
theorem changeProcess (p : Nat) {f : Process → Process}
    (hf : ∀ a : Process, a.killed = true → (f a).killed = true) :
    Within Minds (Host.changeProcess p f) :=
  ⟨fun h => ⟨.refl _, rfl, rfl, fun q hq => by
    refine (killedOf_changeProcess h p q f).trans ?_
    split
    · unfold killedOf at hq
      cases ha : h.processes.get? q with
      | none =>
        rw [ha] at hq
        cases hq
      | some a =>
        rw [ha] at hq
        exact hf a hq
    · exact hq⟩⟩

instance setKilled (p : Nat) :
    Within Minds (Host.changeProcess p fun a => { a with killed := true }) :=
  changeProcess p fun _ _ => rfl

instance setReader (p : Nat) (reader : Option Nat) :
    Within Minds (Host.changeProcess p fun a => { a with reader }) := changeProcess p fun _ ha => ha

instance appendOutput (p : Nat) (o : WorkerOutput) : Within Minds (Host.changeProcess p fun a =>
    { a with output := a.output ++ [o], reader := none }) := changeProcess p fun _ ha => ha

instance setExitCode (p : Nat) (code : Int) : Within Minds (Host.changeProcess p fun a =>
    { a with exitCode := some code, exitWaiters := [] }) := changeProcess p fun _ ha => ha

instance addExitWaiter (p c : Nat) : Within Minds (Host.changeProcess p fun a =>
    { a with exitWaiters := a.exitWaiters ++ [c] }) := changeProcess p fun _ ha => ha

instance pushProcess (process : Process) :
    Within Minds (modify fun h => { h with processes := h.processes.push process } : Action Unit) :=
  ⟨fun h => ⟨.refl _, rfl, rfl, fun p hp => by
    have hlt : p < h.processes.size := Nat.lt_of_not_le fun hle => by
      unfold killedOf at hp
      rw [Table.get?_eq_none hle] at hp
      cases hp
    show (((h.processes.push process).get? p).map (·.killed)).getD false = true
    rw [Table.get?_push, if_neg (Nat.ne_of_lt hlt)]
    exact hp⟩⟩

instance newSession (kind root : String) (targets : List String) :
    Within Minds (Host.newSession kind root targets) := by
  refine ⟨fun h => ?_⟩
  unfold Host.newSession
  rw [after_bind_ok (run_get h)]
  split
  · refine ⟨.refl _, rfl, ?_, fun _ hp => hp⟩
    funext i
    show (((h.channels.push _).get? i).map (·.active)).getD [] = h.activeOf i
    rw [Table.get?_push, activeOf]
    split
    · next e => rw [e, Table.get?_eq_none (Nat.le_refl _)]; rfl
    · rfl
  · exact Std.Refl.refl _

/-! ## Steps -/

instance write (p : Nat) (text : List Char) : Within Minds (Host.write p text) := by
  have (line : String) (a : WorkerAct) : Within Minds (Host.act p line a) := inferInstance
  have : Within Minds (Host.hear p text) := inferInstance
  infer_instance

instance submit (l : Nat) (command : String) (state : Json) (reaction : Option Reaction)
    (waiter : Option Nat) : Within Minds (Host.submit l command state reaction waiter) := by
  have : Within Minds (Host.writeRaw l command) := inferInstance
  infer_instance

instance setUp (s : Nat) (replay : List Request) : Within Minds (Host.setUp s replay) := by
  have (command : String) : Within Minds (Host.writeRaw s command) := inferInstance
  have (r : Request) : Within Minds (Host.requeue s r) := inferInstance
  infer_instance

instance deliverBy (l : Nat) (body : String) : Within Minds (Host.deliverBy Host.react l body) := by
  have (state : Json) (body : String) (r : Reaction) :
      Within Minds (Host.react l state body r) := inferInstance
  infer_instance

instance endExchange (q : Nat) (e : Ending) : Within Minds (Host.endExchange q e) := by
  have (l : Nat) (state : Json) (body : String) (r : Reaction) :
      Within Minds (Host.react l state body r) := inferInstance
  have (reason : String) : Within Minds (Host.fallBackAfterFailure q reason) := inferInstance
  infer_instance

theorem resumeWith {f : Frame} (hf : f.inquires = false) (v : Value) :
    Within Minds (Host.resumeWith f v) := by
  unfold Host.resumeWith
  split <;> first | infer_instance | cases hf

/-- Whatever a frame does that has nothing to do with queries. -/
theorem resume {f : Frame} (hf : f.inquires = false) (e : Ending) :
    Within Minds (Host.resume f e) := by
  unfold Host.resume
  split
  case h_9 => cases hf
  case h_17 => split <;> infer_instance
  case h_18 =>
    split
    · exact resumeWith hf _
    · infer_instance
  all_goals infer_instance

end Minds

/-! ## A query begins -/

/-- A query is begun on a channel, and the host listens for its end. -/
structure Starts (c : Nat) (h h' : Host) : Prop where
  loop : h'.loop = (h.loop.newTask [.exchange h.queries.size]).2.hook h.loop.cells.size
    (.notify h.queries.size)
  queries : ∃ x, x.channel = c ∧ x.task = h.loop.cells.size ∧ h'.queries = h.queries.push x
  active : ∀ i, h'.activeOf i = if i = c then h.activeOf c ++ [h.queries.size] else h.activeOf i
  killed : h'.killedOf = h.killedOf

/-- One query is begun at most, on a channel whose port is known. -/
def Inquires (h h' : Host) : Prop :=
  Minds h h' ∨ ∃ c k, Minds h k ∧ (h.portOf c).isSome ∧ Starts c k h'

/-- The channel of a number. -/
def channelOf (h : Host) (c : Nat) : QueryChannel :=
  (h.channels.get? c).getD { host := "", enabled := false, connectTimeout := none }

theorem run_channel (c : Nat) (h : Host) : (channel c).run h = .ok (h.channelOf c) h := rfl

/-- A channel that has a port is one that there is. -/
theorem get?_channel {port : Int} (hport : (h.channelOf c).port = some port) :
    h.channels.get? c = some (h.channelOf c) := by
  unfold channelOf at hport ⊢
  cases hch : h.channels.get? c with
  | none =>
    rw [hch] at hport
    cases hport
  | some ch => rfl

theorem Starts.startQuery (command : String) (state : Json) (reaction : Option Reaction)
    (waiter : Option Nat) (h : Host) : Minds h (after (startQuery c command state reaction waiter) h) ∨
      (h.portOf c).isSome ∧ Starts c h (after (startQuery c command state reaction waiter) h) := by
  let P (k : Host) : Prop := Minds h k ∨ (h.portOf c).isSome ∧ Starts c h k
  have hsame : P h := .inl (Std.Refl.refl h)
  unfold Host.startQuery
  split
  · exact hsame
  refine after_bind_still (P := P) hsame fun _ => ?_
  rw [after_bind_ok (run_channel c h)]
  split
  · next port _ hport =>
    have hch := get?_channel hport
    refine .inr ⟨?_, rfl, ⟨_, rfl, rfl, rfl⟩, fun i => ?_, rfl⟩
    · rw [portOf, hch]
      exact Option.isSome_iff_exists.2 ⟨port, hport⟩
    · refine (activeOf_changeChannel h c i fun ch =>
        { ch with active := ch.active ++ [h.queries.size] }).trans ?_
      by_cases hi : i = c
      · subst hi
        rw [if_pos rfl, if_pos rfl, activeOf, hch]
        rfl
      · rw [if_neg (Ne.symm hi), if_neg hi]
  · exact .inl (Within.rel_after h)

namespace Inquires

theorem refl (h : Host) : Inquires h h := .inl (Std.Refl.refl h)

/-- The last thing that is done is that a query is begun. -/
theorem startQuery (hm : Minds h h') (hport : h'.portOf = h.portOf) (command : String) (state : Json)
    (reaction : Option Reaction) (waiter : Option Nat) (g : Option Nat → α) :
    Inquires h (after (do return g (← Host.startQuery c command state reaction waiter)) h') := by
  rw [← map_eq_pure_bind, after_map]
  rcases Starts.startQuery command state reaction waiter h' with hs | ⟨hsome, hs⟩
  · exact .inl (trans_of Minds hm hs)
  · exact .inr ⟨c, h', hm, by rwa [hport] at hsome, hs⟩

theorem awaitQuery (command : String) (h : Host) : Inquires h (after (Host.awaitQuery c command) h) := by
  have hcell : Minds h (after newCell h) := Within.rel_after h
  unfold Host.awaitQuery
  exact startQuery hcell rfl command .null none (some h.loop.newCell.1) _

theorem queryOn (s : Nat) (command : String) (state : Json) (reaction : Option Reaction)
    (g : Option Nat → α) (h : Host) :
    Inquires h (after (do return g (← Host.queryOn s command state reaction)) h) := by
  unfold Host.queryOn
  rw [← map_eq_pure_bind, after_map]
  refine after_bind_still (refl h) fun _ => ?_
  have := startQuery (c := s) (Std.Refl.refl h) rfl command state reaction none id
  rwa [← map_eq_pure_bind, id_map] at this

/-- A step that clears no channel begins one query at most. -/
theorem resume {f : Frame} (hf : ∀ c rest n, f ≠ .queriesEnd c rest n) (e : Ending) (h : Host) :
    Inquires h (after (Host.resume f e) h) := by
  cases hq : f.inquires with
  | false => exact .inl ((Minds.resume hq e).rel_after h)
  | true =>
    cases f with
    | query c command =>
      cases e with
      | value v => exact awaitQuery command h
      | _ => exact refl h
    | querySession s command =>
      cases e with
      | value v => exact after_bind_still (refl h) fun _ => awaitQuery command h
      | _ => exact refl h
    | queryOn command state reaction =>
      cases e with
      | value v =>
        cases v with
        | session s => exact queryOn s command state reaction _ h
        | _ => exact refl h
      | _ => exact refl h
    | queriesEnd c rest n => exact absurd rfl (hf c rest n)
    | _ => cases hq

end Inquires

/-! ## Whom the host listens to -/

/-- Nobody begins to listen, and no query is begun. -/
structure Listens (h h' : Host) : Prop where
  loop : Hushed h.loop h'.loop
  queries : h'.queries = h.queries

instance : Std.Refl Listens := ⟨fun _ => ⟨.refl _, rfl⟩⟩

instance : IsTrans Host Listens :=
  ⟨fun _ _ _ h k => ⟨h.loop.trans k.loop, k.queries.trans h.queries⟩⟩

instance : Blind Listens where
  of_view {h h'} hv _ := by
    refine ⟨?_, congrArg View.queries hv⟩
    rw [show h'.loop = h.loop from congrArg View.loop hv]
    exact .refl _

instance : Tacit Listens where
  of_spawns _ := ⟨.refl _, rfl⟩
  of_active _ _ := ⟨.refl _, rfl⟩
  of_killed _ := ⟨.refl _, rfl⟩
  of_reader _ _ := ⟨.refl _, rfl⟩

instance (c : Nat) (e : Ending) : Within Listens (finish c e) := ⟨fun h => ⟨.finish h.loop c e, rfl⟩⟩

theorem Minds.listens (hm : Minds h h') : Listens h h' := ⟨hm.loop, hm.queries⟩

/-- The host listens for the ends of queries, and is told of one when the query's task has ended.
    Tasks are woken by cells that are done. -/
structure Heeded (h : Host) : Prop where
  filed : ∀ q x, h.queries.get? q = some x → x.task < h.loop.cells.size
  hooked : ∀ c q, .notify q ∈ h.loop.hooks c → ∃ x, h.queries.get? q = some x ∧ x.task = c
  told : ∀ q, .notify q ∈ h.loop.jobs →
    ∃ x, h.queries.get? q = some x ∧ h.loop.isDone x.task = true
  woken : ∀ t c, .wake t c ∈ h.loop.jobs → h.loop.isDone c = true

namespace Starts

variable (hs : Starts c h h')
include hs

theorem isDone {d : Nat} (hd : h.loop.isDone d = true) : h'.loop.isDone d = true := by
  rw [Loop.isDone, hs.loop, outcome?_hook, outcome?_newTask]
  exact hd

theorem size_cells : h'.loop.cells.size = h.loop.cells.size + 1 := by
  rw [hs.loop, size_cells_hook]
  simp [Loop.newTask]

theorem get? {q : Nat} {x : Query} (hx : h.queries.get? q = some x) : h'.queries.get? q = some x := by
  obtain ⟨y, -, -, hq⟩ := hs.queries
  rw [hq, Table.get?_push, if_neg (Nat.ne_of_lt (Table.lt_size_of_get? hx)), hx]

/-- Every other query was begun before. -/
theorem get?_cases {q : Nat} {x : Query} (hx : h'.queries.get? q = some x) :
    h.queries.get? q = some x ∨
      q = h.queries.size ∧ x.channel = c ∧ x.task = h.loop.cells.size := by
  obtain ⟨y, hc, ht, hq⟩ := hs.queries
  rw [hq, Table.get?_push] at hx
  split at hx
  · next e =>
    cases hx
    exact .inr ⟨e, hc, ht⟩
  · exact .inl hx

/-- The task of a new query has only begun. -/
theorem mem_jobs {j : Job} (hj : j ∈ h'.loop.jobs) :
    j ∈ h.loop.jobs ∨ j = .start h.loop.tasks.size := by
  have hdone : (h.loop.newTask [.exchange h.queries.size]).2.isDone h.loop.cells.size = false := by
    rw [Loop.isDone, outcome?_newTask, outcome?_of_size_le (Nat.le_refl _)]
    rfl
  rw [hs.loop, Loop.hook, hdone] at hj
  exact (List.mem_append.1 hj).imp_right List.mem_singleton.1

end Starts

namespace Heeded

theorem listens (k : Heeded h) (hl : Listens h h') : Heeded h' where
  filed q x hx := by
    rw [hl.queries] at hx
    exact Nat.lt_of_lt_of_le (k.filed q x hx) hl.loop.size_le
  hooked c q hq := by
    rw [hl.queries]
    exact k.hooked c q (hl.loop.hooked c q hq)
  told q hq := by
    rw [hl.queries]
    rcases hl.loop.told q hq with hq | ⟨c, hc, hd⟩
    · obtain ⟨x, hx, hd⟩ := k.told q hq
      exact ⟨x, hx, hl.loop.done _ hd⟩
    · obtain ⟨x, hx, rfl⟩ := k.hooked c q hc
      exact ⟨x, hx, hd⟩
  woken t c hw := (hl.loop.woken t c hw).elim (fun hw => hl.loop.done c (k.woken t c hw)) id

theorem starts (k : Heeded h) (hs : Starts c h h') : Heeded h' where
  filed q x hx := by
    rw [hs.size_cells]
    rcases hs.get?_cases hx with hx | ⟨-, -, ht⟩
    · exact Nat.lt_succ_of_lt (k.filed q x hx)
    · omega
  hooked d q hq := by
    rw [hs.loop] at hq
    rcases mem_hooks_hook hq with hq | ⟨rfl, e⟩
    · rw [hooks_newTask] at hq
      obtain ⟨x, hx, rfl⟩ := k.hooked d q hq
      exact ⟨x, hs.get? hx, rfl⟩
    · cases e
      obtain ⟨x, -, ht, hq⟩ := hs.queries
      exact ⟨x, by rw [hq, Table.get?_push, if_pos rfl], ht⟩
  told q hq := by
    obtain ⟨x, hx, hd⟩ := k.told q ((hs.mem_jobs hq).resolve_right fun e => by cases e)
    exact ⟨x, hs.get? hx, hs.isDone hd⟩
  woken t d hw :=
    hs.isDone (k.woken t d ((hs.mem_jobs hw).resolve_right fun e => by cases e))

theorem inquires (k : Heeded h) (hi : Inquires h h') : Heeded h' := by
  rcases hi with hm | ⟨c, k', hm, -, hs⟩
  · exact k.listens hm.listens
  · exact (k.listens hm.listens).starts hs

end Heeded

/-! ## The queries of a channel -/

/-- Every query of a channel has ended or is known to be under way. -/
def AttendedAt (c : Nat) (h : Host) : Prop :=
  ∀ q x, h.queries.get? q = some x → x.channel = c →
    h.loop.isDone x.task = true ∨ q ∈ h.activeOf c

/-- Every query of a channel has ended, or its task is among those that are left. -/
def Owed (c : Nat) (left : Nat → Prop) (h : Host) : Prop :=
  ∀ q x, h.queries.get? q = some x → x.channel = c → h.loop.isDone x.task = true ∨ left x.task

/-- No query of a channel is under way. -/
structure Silent (c : Nat) (h : Host) : Prop where
  active : h.activeOf c = []
  ended : ∀ q x, h.queries.get? q = some x → x.channel = c → h.loop.isDone x.task = true

/-- No query is begun on a channel whose port is not known. -/
structure Tends (c : Nat) (h h' : Host) : Prop where
  owed : h.portOf c = none → ∀ left, Owed c left h → Owed c left h'
  active : h.portOf c = none → h.activeOf c = [] → h'.activeOf c = []

theorem Silent.tends (k : Silent c h) (ht : Tends c h h') (hport : h.portOf c = none) :
    Silent c h' where
  active := ht.active hport k.active
  ended q x hx hc := (ht.owed hport (fun _ => False)
    (fun q x hx hc => .inl (k.ended q x hx hc)) q x hx hc).resolve_right id

theorem Listens.owed (hl : Listens h h') {left : Nat → Prop} (k : Owed c left h) :
    Owed c left h' := fun q x hx hc => by
  rw [hl.queries] at hx
  exact (k q x hx hc).imp_left (hl.loop.done _)

theorem Minds.attended (hm : Minds h h') (k : AttendedAt c h) : AttendedAt c h' :=
  fun q x hx hc => by
    rw [hm.queries] at hx
    rw [hm.active]
    exact (k q x hx hc).imp_left (hm.loop.done _)

theorem Starts.attended {d : Nat} (hs : Starts d h h') (k : AttendedAt c h) : AttendedAt c h' :=
  fun q x hx hc => by
    rw [hs.active]
    rcases hs.get?_cases hx with hx | ⟨rfl, hd, -⟩
    · refine (k q x hx hc).imp hs.isDone fun hq => ?_
      split
      · next e =>
        subst e
        exact List.mem_append_left _ hq
      · exact hq
    · rw [if_pos (hc.symm.trans hd)]
      exact .inr (List.mem_append_right _ List.mem_cons_self)

theorem Inquires.attended (hi : Inquires h h') (k : AttendedAt c h) : AttendedAt c h' := by
  rcases hi with hm | ⟨d, k', hm, -, hs⟩
  · exact hm.attended k
  · exact hs.attended (hm.attended k)

namespace Tends

theorem of_listens (hl : Listens h h') (hactive : h'.activeOf c = h.activeOf c ∨ h'.activeOf c = []) :
    Tends c h h' :=
  ⟨fun _ _ => hl.owed, fun _ ha => hactive.elim (fun e => e.trans ha) id⟩

theorem minds (ht : Tends c h h') (hm : Minds h' h'') : Tends c h h'' where
  owed hport left k := hm.listens.owed (ht.owed hport left k)
  active hport k := by rw [hm.active, ht.active hport k]

theorem of_minds (hm : Minds h h') : Tends c h h' :=
  of_listens hm.listens (.inl (congrFun hm.active c))

theorem of_inquires (hi : Inquires h h') : Tends c h h' := by
  rcases hi with hm | ⟨d, k, hm, hport, hs⟩
  · exact of_minds hm
  have hd (hnone : h.portOf c = none) : c ≠ d := by
    rintro rfl
    rw [hnone] at hport
    cases hport
  refine ⟨fun hnone left hk q x hx hc => ?_, fun hnone hk => ?_⟩
  · rcases hs.get?_cases hx with hx | ⟨-, e, -⟩
    · exact (hm.listens.owed hk q x hx hc).imp_left hs.isDone
    · exact absurd (hc.symm.trans e) (hd hnone)
  · rw [hs.active, if_neg (hd hnone), hm.active, hk]

end Tends

/-- The host is told that a query has ended, and takes it off its channel. -/
theorem activeOf_queryEnded {q : Nat} {x : Query} (hx : h.queries.get? q = some x) (c : Nat) :
    (after (queryEnded q) h).activeOf c =
      if x.channel = c then (h.activeOf c).filter (· ≠ q) else h.activeOf c := by
  unfold queryEnded
  have hquery : (query q).run h = .ok x h := by
    rw [Guards.run_query, hx]
    rfl
  rw [after_bind_ok hquery]
  refine (congrFun (same_after_bind (fun _ => ?_) h) c).trans
    ((activeOf_changeChannel h _ c _).trans ?_)
  · refine Within.mono (fun hm => hm.active) (R := Minds) ?_
    refine @Within.bind _ _ _ _ _ _ _ fun k => ?_
    split <;> infer_instance
  split
  · rw [activeOf]
    cases h.channels.get? c <;> rfl
  · rfl

theorem Tends.queryEnded {q : Nat} {x : Query} (hx : h.queries.get? q = some x) :
    Tends c h (after (queryEnded q) h) := by
  refine ⟨fun _ _ => Listens.owed (Within.rel_after h), fun _ ha => ?_⟩
  rw [activeOf_queryEnded hx, ha]
  split <;> rfl

theorem AttendedAt.queryEnded (k : AttendedAt c h) {q : Nat} {x : Query}
    (hx : h.queries.get? q = some x) (hdone : h.loop.isDone x.task = true) :
    AttendedAt c (after (queryEnded q) h) := fun i y hy hc => by
  have hl : Listens h (after (Host.queryEnded q) h) := Within.rel_after h
  rw [hl.queries] at hy
  by_cases hi : i = q
  · subst hi
    cases hx.symm.trans hy
    exact .inl (hl.loop.done _ hdone)
  · refine (k i y hy hc).imp (hl.loop.done _) fun hmem => ?_
    rw [activeOf_queryEnded hx]
    split
    · exact List.mem_filter.2 ⟨hmem, decide_eq_true hi⟩
    · exact hmem

/-- A channel is cleared, and no other. -/
theorem activeOf_queriesEnd (c d : Nat) (rest : List Nat) (n : Nat) (e : Ending) (h : Host) :
    (after (queriesEnd d rest n e) h).activeOf c = h.activeOf c ∨
      c = d ∧ (after (queriesEnd d rest n e) h).activeOf c = [] := by
  unfold queriesEnd
  split
  · exact .inl rfl
  · exact .inl rfl
  · refine (Decidable.em (c = d)).symm.imp (fun hc => ?_) fun hc => ⟨hc, ?_⟩
    · exact (activeOf_changeChannel h d c _).trans (if_neg (Ne.symm hc))
    · subst hc
      refine (activeOf_changeChannel h c c _).trans ((if_pos rfl).trans ?_)
      cases h.channels.get? c <;> rfl

theorem Tends.queriesEnd (c d : Nat) (rest : List Nat) (n : Nat) (e : Ending) (h : Host) :
    Tends c h (after (queriesEnd d rest n e) h) :=
  of_listens (Within.rel_after h) ((activeOf_queriesEnd c d rest n e h).imp_right (·.2))

theorem AttendedAt.queriesEnd (k : AttendedAt c h) {d : Nat} (hd : c ≠ d) (rest : List Nat) (n : Nat)
    (e : Ending) : AttendedAt c (after (queriesEnd d rest n e) h) := fun q x hx hc => by
  have hl : Listens h (after (Host.queriesEnd d rest n e) h) := Within.rel_after h
  rw [hl.queries] at hx
  rw [(activeOf_queriesEnd c d rest n e h).resolve_right fun h => hd h.1]
  exact (k q x hx hc).imp_left (hl.loop.done _)

/-! ## Steps -/

/-- What the next step of the loop does to queries. -/
theorem tick_inquires (h : Host) :
    (∃ k, Inquires h k ∧ Minds k h.tick) ∨
      (∃ t e c rest n below, h.loop.running = some (t, e) ∧
        h.loop.stack? t = some (.queriesEnd c rest n :: below) ∧
        Minds (after (queriesEnd c rest n e) h) h.tick) ∨
      ∃ q jobs, h.loop.running = none ∧ h.loop.jobs = .notify q :: jobs ∧
        h.tick = after (queryEnded q) { h with loop := { h.loop with jobs } } := by
  have hstill {k : Host} (hm : Minds h k) : ∃ k', Inquires h k' ∧ Minds k' k :=
    ⟨h, .refl h, hm⟩
  rcases tick_cases h with ⟨t, e, f, below, hrun, hs, e'⟩ | ⟨t, e, -, -, e'⟩ | ⟨-, e'⟩ |
    ⟨j, jobs, hidle, hjobs, e'⟩
  · have hgo : Minds (after (resume f e) h) (step t e h) := by
      rw [step_eq hs]
      exact .ofLoop (hushed_proceed t below _ _)
    rw [e']
    by_cases hf : ∃ c rest n, f = .queriesEnd c rest n
    · obtain ⟨c, rest, n, rfl⟩ := hf
      exact .inr (.inl ⟨t, e, c, rest, n, below, hrun, hs, hgo⟩)
    · refine .inl ⟨_, Inquires.resume (fun c rest n hc => hf ⟨c, rest, n, hc⟩) e h, hgo⟩
  · exact .inl (hstill (e' ▸ .ofLoop (.endTask h.loop t e)))
  · exact .inl (hstill (e'.symm ▸ Std.Refl.refl h))
  · have hdrop : Hushed h.loop { h.loop with jobs } := .drop hjobs
    cases j with
    | start t => exact .inl (hstill (e' ▸ .ofLoop (hdrop.trans (.resume _ t _))))
    | wake t c => exact .inl (hstill (e' ▸ .ofLoop (hdrop.trans (.resume _ t _))))
    | release w => exact .inl (hstill (e' ▸ .ofLoop (hdrop.trans (.finish _ w _))))
    | notify q => exact .inr (.inr ⟨q, jobs, hidle, hjobs, e'.trans (beginJob_notify q _)⟩)

/-- Whatever is done from outside. -/
theorem Outside.inquires {P : Reaction → Prop} (ho : Outside P h h') : Inquires h h' := by
  cases ho with
  | query s command state reaction _ =>
    have := Inquires.queryOn s command state reaction id h
    rwa [← map_eq_pure_bind, id_map] at this
  | worker p responder writeFault =>
    exact .inl ((Minds.changeProcess p
      (f := fun proc => { proc with responder, writeFault }) fun _ ha => ha).rel_after h)
  | world => exact .inl ⟨.refl _, rfl, rfl, fun _ hp => hp⟩
  | time now => exact .inl (.ofLoop (.of_eq rfl fun _ hj => hj))
  | _ => exact .inl (Within.rel_after h)

/-- A timer fires. -/
theorem Minds.fire (h : Host) (t : Timer) : Minds h (h.fire t) := by
  have hdrop : Hushed h.loop { h.loop with
      now := t.due, timers := dropTimer t.cell h.loop.timers } := .of_eq rfl fun _ hj => hj
  exact .ofLoop (hdrop.trans (.finish _ t.cell _))

/-- A task has been told of the end of a query by a job that the host was told of before. -/
theorem Heeded.drop (k : Heeded h) {j : Job} {jobs : List Job} (hjobs : h.loop.jobs = j :: jobs) :
    Heeded { h with loop := { h.loop with jobs } } :=
  k.listens ⟨.drop hjobs, rfl⟩

theorem Heeded.tick (k : Heeded h) : Heeded h.tick := by
  rcases tick_inquires h with ⟨k', hi, hm⟩ | ⟨t, e, c, rest, n, below, -, -, hm⟩ |
    ⟨q, jobs, -, hjobs, e⟩
  · exact (k.inquires hi).listens hm.listens
  · exact (k.listens (Within.rel_after h)).listens hm.listens
  · exact e ▸ (k.drop hjobs).listens (Within.rel_after _)

theorem heeded_of_reachable {P : Reaction → Prop} (hr : Reachable Fresh (Outside P) h) :
    Heeded h := by
  induction hr with
  | start hf =>
    refine ⟨fun q x hx => ?_, fun c q hq => ?_, fun q hq => ?_, fun t c hw => ?_⟩
    · rw [hf.queries] at hx
      cases hx
    all_goals
      rw [hf.loop] at *
      contradiction
  | tick _ ih => exact ih.tick
  | @fire h t _ _ ih => exact ih.listens (Minds.fire h t).listens
  | act _ _ ho ih => exact ih.inquires ho.inquires

/-- The next step does not forget a query, unless it clears the channel. -/
theorem AttendedAt.tick (k : Heeded h) (ha : AttendedAt c h)
    (hno : ∀ t e rest n below, h.loop.running = some (t, e) →
      h.loop.stack? t ≠ some (.queriesEnd c rest n :: below)) : AttendedAt c h.tick := by
  rcases tick_inquires h with ⟨k', hi, hm⟩ | ⟨t, e, d, rest, n, below, hrun, hs, hm⟩ |
    ⟨q, jobs, -, hjobs, e⟩
  · exact hm.attended (hi.attended ha)
  · refine hm.attended (ha.queriesEnd ?_ rest n e)
    rintro rfl
    exact hno t e rest n below hrun hs
  · obtain ⟨x, hx, hdone⟩ := k.told q (by rw [hjobs]; exact List.mem_cons_self)
    rw [e]
    exact AttendedAt.queryEnded (h := { h with loop := { h.loop with jobs } }) ha hx hdone

theorem Tends.tick (k : Heeded h) (c : Nat) : Tends c h h.tick := by
  rcases tick_inquires h with ⟨k', hi, hm⟩ | ⟨t, e, d, rest, n, below, -, -, hm⟩ |
    ⟨q, jobs, -, hjobs, e⟩
  · exact (of_inquires hi).minds hm
  · exact (queriesEnd c d rest n e h).minds hm
  · obtain ⟨x, hx, -⟩ := k.told q (by rw [hjobs]; exact List.mem_cons_self)
    have ht := Tends.queryEnded (h := { h with loop := { h.loop with jobs } }) (c := c) hx
    rw [e]
    exact ⟨ht.owed, ht.active⟩

/-! ## Who was killed -/

/-- Who was killed stays so. -/
def KilledStay (h h' : Host) : Prop := ∀ p, h.killedOf p = true → h'.killedOf p = true

theorem Inquires.killed (hi : Inquires h h') : KilledStay h h' := by
  rcases hi with hm | ⟨d, k, hm, -, hs⟩
  · exact hm.killed
  · exact fun p hp => by rw [hs.killed]; exact hm.killed p hp

instance : Blind (Same killedOf) := ⟨fun _ hm => congrArg Margin.killed hm⟩

theorem KilledStay.tick (h : Host) : KilledStay h h.tick := by
  have (c : Nat) (f : QueryChannel → QueryChannel) : Within (Same killedOf) (changeChannel c f) :=
    ⟨fun _ => rfl⟩
  have (c : Nat) (e : Ending) : Within (Same killedOf) (finish c e) := ⟨fun _ => rfl⟩
  have hsame {k k' : Host} (e : k'.killedOf = k.killedOf) : KilledStay k k' := fun p hp => by rwa [e]
  rcases tick_inquires h with ⟨k', hi, hm⟩ | ⟨t, e, d, rest, n, below, -, -, hm⟩ |
    ⟨q, jobs, -, -, e⟩
  · exact fun p hp => hm.killed p (hi.killed p hp)
  · refine fun p hp => hm.killed p ?_
    exact hsame (Within.rel_after (R := Same killedOf) h) p hp
  · rw [e]
    exact hsame (Within.rel_after (R := Same killedOf) { h with loop := { h.loop with jobs } })

end Host

end GhciHost
