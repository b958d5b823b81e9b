import GhciHost.Proofs.Output.Announced
import GhciHost.Proofs.Session.Agreement

/-!
# First responses

While the first response of a worker is awaited, the request for it stands at the head of the queue.
The response makes the session ready, with the port that it announces and with what is left of it.
If the number announced is too long, the failure is forgotten and the request is gone, but the
session is not ready.

* `greetingOf`   what is left of a first response;
* `ready_of_first`, `ready_of_unannounced`, `ready_of_line`   the session is ready;
* `starting_of_first`   the session is not.
-/

namespace GhciHost.Host

open Output Text

/-- What was left of the first response to the session of a number. -/
def greetingOf (h : Host) (s : Nat) : Option String := (h.sessions.get? s).map (·.startupOutput)

theorem greetingOf_changeSession (h : Host) (s i : Nat) (f : Session → Session) :
    greetingOf { h with sessions := h.sessions.modify s f } i =
      if s = i then (h.sessions.get? i).map fun a => (f a).startupOutput else h.greetingOf i := by
  simp only [greetingOf, Table.get?_modify]
  split
  · rw [Option.map_map]
    rfl
  · rfl

theorem same_greetingOf {f : Session → Session} (hf : ∀ a, (f a).startupOutput = a.startupOutput)
    (s : Nat) : Within (Same greetingOf) (changeSession s f) :=
  ⟨fun h => funext fun i => by
    show greetingOf { h with sessions := h.sessions.modify s f } i = _
    rw [greetingOf_changeSession]
    split
    · exact congrFun (congrArg Option.map (funext hf)) _
    · rfl⟩

/-- What a session said at first stays while it goes on to a phase. -/
instance (s : Nat) (phase : Phase) : Within (Same greetingOf) (transition s phase) := by
  have hsession : Within (Same greetingOf) (session s) := ⟨fun _ => rfl⟩
  have hpublish (e : Event) : Within (Same greetingOf) (publish e) := ⟨fun _ => rfl⟩
  have hrelease (cells : List Nat) : Within (Same greetingOf) (releaseAll cells) := ⟨fun _ => rfl⟩
  have hphase (ready : Bool) : Within (Same greetingOf)
      (changeSession s fun session => { session with phase, ready }) := by
    refine same_greetingOf (fun a => ?_) s
    rfl
  have hwaiters : Within (Same greetingOf)
      (changeSession s fun session => { session with readyWaiters := [] }) := by
    refine same_greetingOf (fun a => ?_) s
    rfl
  unfold transition
  infer_instance

variable {h : Host} {s p : Nat} {m : StartMode} {queue : List Request} {body : String}

theorem get?_of_seat? {a : Seat} (ha : h.seat? s = some a) :
    h.sessions.get? s = some (h.sessionOf s) := by
  obtain ⟨b, hb⟩ : ∃ b, h.sessions.get? s = some b :=
    ⟨_, Array.getElem?_eq_getElem (lt_of_seat? ha)⟩
  rw [sessionOf, hb, Option.getD_some]

/-- What is left of a first response that can be read. -/
theorem greetingOf_becomeReady {a : Seat} (ha : h.seat? s = some a) {m' : StartMode}
    (hm : a.phase = .starting m') (hp : a.process = some p) (m : StartMode) {port : Option Nat}
    {rest : List Char} (hread : extractPort body.toList = .ok (port, rest)) :
    (after (becomeReady s p m body) h).greetingOf s = some (String.ofList rest) := by
  obtain ⟨hphase, hproc, -⟩ := seat?_session ha
  have hchannel (f : QueryChannel → QueryChannel) : Within (Same greetingOf) (changeChannel s f) :=
    ⟨fun _ => rfl⟩
  have hpublish (e : Event) : Within (Same greetingOf) (publish e) := ⟨fun _ => rfl⟩
  unfold becomeReady
  rw [after_bind_ok (run_session s h), ← hphase, hm, ← hproc, if_pos hp, hread]
  dsimp only
  -- what comes behind the change of the text leaves it alone
  rw [congrFun (same_after_bind (π := greetingOf) (fun _ => inferInstance) h) s]
  show greetingOf { h with sessions := h.sessions.modify s _ } s = _
  rw [greetingOf_changeSession, if_pos rfl, get?_of_seat? ha]
  rfl

/-! ## A first response is delivered -/

/-- The first response of a worker is awaited. -/
structure AwaitsFirst (h : Host) (s p : Nat) (m : StartMode) (queue : List Request) : Prop where
  exists_session : ∃ a, h.sessions.get? s = some a ∧ a.destroyed = false
  queue_eq : (h.laneOf s).queue = .startup s p m :: queue

/-- A worker's first response is awaited by a session that starts this worker. -/
theorem AwaitsFirst.seat {garbled : Prop} (hn : h.board.Neat garbled)
    (k : AwaitsFirst h s p m queue) :
    ∃ a, h.seat? s = some a ∧ a.phase = .starting m ∧ a.process = some p := by
  obtain ⟨b, hb, hd⟩ := k.exists_session
  have ha := seat?_of_get? hb
  refine ⟨_, ha, ?_⟩
  rcases ((hn.good s _ ha).head_cases k.queue_eq).2 with ⟨hr, -⟩ | ⟨q, n, hr, hawaited⟩
  · cases hr.external
  · obtain ⟨rfl, rfl⟩ := Request.startup_inj hr
    exact hawaited hd

/-- The first response is taken from the queue and given to the session. -/
theorem AwaitsFirst.deliver {garbled : Prop} (hn : h.board.Neat garbled)
    (k : AwaitsFirst h s p m queue) (body : String) : ∃ (k : Host) (a : Seat),
      k.board.Even ∧ k.seat? s = some a ∧ a.phase = .starting m ∧ a.process = some p ∧
        a.queue = queue ∧
          (deliverBy react s body).run h = .ok () (after (becomeReady s p m body) k) := by
  obtain ⟨a, ha, hm, hp⟩ := k.seat hn
  obtain ⟨h₁, hboard, hrun⟩ := run_deliverBy_startup hn.toEven k.queue_eq body
  refine ⟨h₁, { a with queue }, by rw [hboard]; exact hn.toEven.change, ?_, hm, hp, rfl, hrun⟩
  rw [show h₁.seat? = bump s _ h.seat? from congrArg Board.seats hboard]
  exact bump_self ha

/-- How a session stands behind its worker's first response. -/
structure ReadyWith (h : Host) (s : Nat) (m : StartMode) (port : Option Nat) (rest : List Char)
    (queue : List Request) : Prop where
  phase : (h.sessionOf s).phase = .ready m (port.map Int.ofNat)
  text : (h.sessionOf s).startupOutput = String.ofList rest
  port : h.portOf s = port.map Int.ofNat
  queue : (h.laneOf s).queue = queue

/-- A first response that can be read makes the session ready. -/
theorem ready_of_first {ks : List Host} (hr : Run Fresh (Outside Reaction.isAsked) ks h)
    (k : AwaitsFirst h s p m queue) {port : Option Nat} {rest : List Char}
    (hread : extractPort body.toList = .ok (port, rest)) :
    ∃ h', (deliverBy react s body).run h = .ok () h' ∧ ReadyWith h' s m port rest queue := by
  have hn : h.board.Neat True := neat_of_run hr (.inl trivial)
  obtain ⟨h₁, a, heven, ha, hm, hp, hq, hrun⟩ := k.deliver hn body
  obtain ⟨h', hready, hboard⟩ := run_becomeReady heven ha hm hp m hread
  have htext : h'.greetingOf s = some (String.ofList rest) := by
    rw [← after_of_ok hready]
    exact greetingOf_becomeReady ha hm hp m hread
  have ha' : h'.seat? s = some { a with
      phase := .ready m (port.map Int.ofNat), ready := true, port := port.map Int.ofNat } := by
    rw [show h'.seat? = bump s _ h₁.seat? from congrArg Board.seats hboard]
    exact bump_self ha
  refine ⟨h', by rw [hrun, after_of_ok hready], (seat?_session ha').1.symm, ?_, ?_, ?_⟩
  · rw [greetingOf, get?_of_seat? ha'] at htext
    exact Option.some.inj htext
  · obtain ⟨c, -, e⟩ := Option.map_eq_some_iff.1 ha'
    exact congrArg Seat.port e
  · exact (seat?_lane ha').2.symm.trans hq

/-- One that announces a number which is too long is lost, and the session starts on. -/
theorem starting_of_first {ks : List Host} (hr : Run Fresh (Outside Reaction.isAsked) ks h)
    (k : AwaitsFirst h s p m queue) {ls : List (List Char)} {a : Announcement} {rest : List Char}
    (hfirst : FirstAt ls a rest body.toList) (hlong : maxDigits < a.digits.length) :
    ∃ h', (deliverBy react s body).run h = .ok () h' ∧ (h'.sessionOf s).phase = .starting m ∧
      (h'.sessionOf s).process = some p ∧ (h'.laneOf s).queue = queue := by
  have hn : h.board.Neat True := neat_of_run hr (.inl trivial)
  obtain ⟨h₁, b, -, hb, hm, hp, hq, hrun⟩ := k.deliver hn body
  have hread := extractPort_eq_error_iff.2 ⟨ls, a, rest, hfirst, hlong, rfl⟩
  rw [after_of_error (run_becomeReady_error hb hm hp m hread)] at hrun
  obtain ⟨hphase, hproc, -⟩ := seat?_session hb
  exact ⟨h₁, hrun, hphase.symm.trans hm, hproc.symm.trans hp, (seat?_lane hb).2.symm.trans hq⟩

/-- Where no line announces a port, the whole response is kept. -/
theorem ready_of_unannounced {ks : List Host} (hr : Run Fresh (Outside Reaction.isAsked) ks h)
    (k : AwaitsFirst h s p m queue) (hnone : ∀ l ∈ segments '\n' body.toList, ¬ Announces l) :
    ∃ h', (deliverBy react s body).run h = .ok () h' ∧ ReadyWith h' s m none body.toList queue :=
  ready_of_first hr k (extractPort_of_not_announces hnone)

/-- A line that announces a port, and nothing else, is taken out of the response. -/
theorem ready_of_line {ks : List Host} (hr : Run Fresh (Outside Reaction.isAsked) ks h)
    (k : AwaitsFirst h s p m queue) {ls : List (List Char)}
    (hls : ∀ l ∈ ls, '\n' ∉ l ∧ ¬ Announces l) (a : Announcement)
    (hshort : a.digits.length ≤ maxDigits) {rest : List Char}
    (hbody : body.toList = fed ls ++ (a.text ++ '\n' :: rest)) :
    ∃ h', (deliverBy react s body).run h = .ok () h' ∧
      ReadyWith h' s m (some (readNat a.digits)) (fed ls ++ rest) queue :=
  ready_of_first hr k (by rw [hbody, extractPort_line hls a hshort])

end GhciHost.Host
