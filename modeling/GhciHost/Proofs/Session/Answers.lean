import GhciHost.Proofs.Lane.Chunks
import GhciHost.Proofs.Session.Traffic

/-!
# Requests that are answered in their order

The output that comes to a lane is cut into responses, and each answers the oldest request.  Those
who asked may submit more when they are told, but this comes behind what is pending.  So the
requests that were pending at some time are the first that are answered from then on, and each is
given the response that comes in its place.

* `Served`   requests, the answers that were given, and what is queued;
* `Served.take_eq_zip`   each request that was asked gets its response;
* `Serves.deliverBy`, `Serves.feed`   one response, and all that some output completes;
* `notes_deliverEach`   what is noted of the responses.
-/

namespace GhciHost

/-- Requests that were asked are answered in their order, and then those that came behind them.
    `answers` are the requests that were answered, with their responses. -/
structure Served (asked : List Request) (answers : List (Request × String)) (bodies : List String)
    (queue : List Request) : Prop where
  order : ∃ newer, asked ++ newer = answers.map (·.1) ++ queue
  bodies : (answers.map (·.2)).take asked.length = bodies.take asked.length

namespace Served

variable {asked : List Request} {answers : List (Request × String)} {bodies : List String}
  {queue : List Request}

theorem nil (asked : List Request) : Served asked [] [] asked := ⟨⟨[], List.append_nil _⟩, rfl⟩

/-- Requests are queued behind the others. -/
theorem lengthen (k : Served asked answers bodies queue) (rs : List Request) :
    Served asked answers bodies (queue ++ rs) := by
  obtain ⟨newer, h⟩ := k.order
  refine ⟨⟨newer ++ rs, ?_⟩, k.bodies⟩
  rw [← List.append_assoc, h, List.append_assoc]

/-- Until all that were asked are answered there was one response for each answer. -/
theorem length_bodies (k : Served asked answers bodies queue) :
    bodies.length = answers.length ∨
      asked.length ≤ answers.length ∧ asked.length ≤ bodies.length := by
  have hlength := congrArg List.length k.bodies
  simp only [List.length_take, List.length_map] at hlength
  omega

/-- The oldest request is answered. -/
theorem answer {r : Request} (k : Served asked answers bodies (r :: queue)) (body : String) :
    Served asked (answers ++ [(r, body)]) (bodies ++ [body]) queue := by
  obtain ⟨newer, h⟩ := k.order
  refine ⟨⟨newer, ?_⟩, ?_⟩
  · rw [h, List.map_append, List.append_assoc]
    rfl
  · have hbodies := k.bodies
    rw [List.map_append, List.take_append, List.take_append, hbodies, List.length_map]
    rcases k.length_bodies with hlength | ⟨hanswers, hbodies⟩
    · rw [hlength]
      rfl
    · rw [Nat.sub_eq_zero_of_le hanswers, Nat.sub_eq_zero_of_le hbodies, List.take_zero,
        List.take_zero]

/-- A response comes that nobody asked for. -/
theorem reject (k : Served asked answers bodies []) (body : String) :
    Served asked answers (bodies ++ [body]) [] := by
  obtain ⟨newer, h⟩ := k.order
  refine ⟨⟨newer, h⟩, ?_⟩
  have hlength := congrArg List.length h
  simp only [List.length_append, List.length_map, List.length_nil] at hlength
  have hle : asked.length ≤ bodies.length := by
    rcases k.length_bodies with hlength | ⟨-, hle⟩
    · omega
    · exact hle
  rw [List.take_append_of_le_length hle]
  exact k.bodies

/-- The requests that were answered first are those that were asked. -/
theorem requests (k : Served asked answers bodies queue) :
    (answers.map (·.1)).take asked.length = asked.take answers.length := by
  obtain ⟨newer, h⟩ := k.order
  rcases Nat.le_total asked.length answers.length with hle | hle
  · have htake := congrArg (List.take asked.length) h
    rw [List.take_left, List.take_append_of_le_length (by rwa [List.length_map])] at htake
    rw [← htake, List.take_of_length_le hle]
  · have htake := congrArg (List.take (answers.map (·.1)).length) h
    rw [List.take_left, List.length_map, List.take_append_of_le_length hle] at htake
    rw [htake, List.take_of_length_le (by rwa [List.length_map])]

/-- Each request that was asked gets the response that comes in its place. -/
theorem take_eq_zip (k : Served asked answers bodies queue) :
    answers.take asked.length = asked.zip bodies := by
  have hzip : answers.take asked.length =
      (asked.take answers.length).zip (bodies.take asked.length) := by
    refine List.zip_of_prod ?_ ?_
    · rw [List.map_take]
      exact k.requests
    · rw [List.map_take]
      exact k.bodies
  have hcount := k.length_bodies
  have hmin : asked.zip bodies = (asked.take (min asked.length bodies.length)).zip
      (bodies.take (min asked.length bodies.length)) := List.zip_eq_zip_take_min
  rw [hzip, hmin]
  congr 1 <;> refine List.take_eq_take_iff.2 ?_ <;> omega

end Served

/-- A lane when it was given output and has some requests pending. -/
def Lane.cut (a : Lane) (bytes : List UInt8) (queue : List Request) : Lane :=
  let rest := (Lane.frames a.marker (a.buffer ++ bytes)).2
  { a with queue, buffer := rest, scanned := rest.length }

namespace Host

variable {h h' : Host} {l s q : Nat} {a : Lane} {ks js : List Host}

/-! ## One response -/

/-- Do what the asker of a request wants done with the response. -/
def consult (l : Nat) (r : Request) (body : String) : Action Unit :=
  match r.reaction with
  | some x => try react l r.state body x catch _ => pure ()
  | none => pure ()

/-- Give the response to whoever waits for it. -/
def tell (r : Request) (body : String) : Action Unit :=
  match r.waiter with
  | some c => finish c (.value (.text body))
  | none => pure ()

/-- The host when the oldest request has left a lane. -/
def popped (l : Nat) (queue : List Request) (h : Host) : Host :=
  after (count (h.laneOf l).key .frame) (after (changeLane l fun a => { a with queue }) h)

/-- The host when the asker of a request has been given the response. -/
def consulted (l : Nat) (r : Request) (queue : List Request) (body : String) (h : Host) : Host :=
  after (consult l r body) (popped l queue h)

instance (l : Nat) (r : Request) (body : String) : Succeeds (consult l r body) := by
  unfold consult
  split
  · exact ⟨fun h => ⟨(), by rw [run_attempt, after_of_ok (run_attempt ..)]⟩⟩
  · infer_instance

theorem after_deliverBy_nil (hq : (h.laneOf l).queue = []) (body : String) :
    after (deliverBy react l body) h = after (reject l body) h := by
  unfold deliverBy
  rw [after_bind_ok (run_lane l h), hq]

theorem after_deliverBy_cons {r : Request} {queue : List Request}
    (hq : (h.laneOf l).queue = r :: queue) (body : String) :
    after (deliverBy react l body) h = after (tell r body) (consulted l r queue body h) := by
  have hanswer : answerBy react l r.state r.reaction r.waiter body =
      (do consult l r body; tell r body) := by
    unfold answerBy consult tell
    cases r.reaction <;> rfl
  unfold deliverBy
  rw [after_bind_ok (run_lane l h), hq]
  dsimp only
  rw [after_bind_ok (Succeeds.run_unit ..), after_bind_ok (Succeeds.run_unit ..), hanswer,
    after_bind_ok (Succeeds.run_unit ..)]
  rfl

/-- A response that a request got. -/
structure Answer where
  /-- The host when the asker has had it, and whoever waits is about to get it. -/
  host : Host
  request : Request
  body : String

namespace Answer

/-- The request and its response. -/
def pair (x : Answer) : Request × String := (x.request, x.body)

/-- Whoever waited got the response, unless the waiting was over. -/
def Told (x : Answer) (h : Host) : Prop :=
  ∀ c, x.request.waiter = some c →
    h.loop.outcome? c = some ((x.host.loop.outcome? c).getD (.value (.text x.body)))

theorem Told.lasts {x : Answer} (k : x.Told h)
    (hl : ∀ c o, h.loop.outcome? c = some o → h'.loop.outcome? c = some o) : x.Told h' :=
  fun c hc => hl c _ (k c hc)

end Answer

/-- The answer that a text is, if there is a request that it answers. -/
def answerOf (l : Nat) (body : String) (h : Host) : List Answer :=
  match (h.laneOf l).queue with
  | [] => []
  | r :: queue => [⟨consulted l r queue body h, r, body⟩]

/-- The answers that texts are, one after the other. -/
def answersOf (l : Nat) : List String → Host → List Answer
  | [], _ => []
  | body :: bodies, h => answerOf l body h ++ answersOf l bodies (after (deliverBy react l body) h)

/-- What was answered since a lane had some requests pending. -/
structure Serves (l : Nat) (asked : List Request) (xs : List Answer) (bodies : List String) (a : Lane)
    (h : Host) : Prop where
  neat : h.board.Neat True
  bounded : h.view.Bounded
  lane : h.lanes.get? l = some a
  served : Served asked (xs.map Answer.pair) bodies a.queue
  told : ∀ x ∈ xs, x.Told h

/-- Whatever an asker does with a response, requests are queued behind the others at most. -/
theorem Lengthens.consult {r : Request} (hr : r.IsAsked ∨ ∃ s p m, r = .startup s p m)
    (body : String) : Within (Lengthens l) (Host.consult l r body) := by
  unfold Host.consult
  rcases hr with hr | ⟨s, p, m, rfl⟩
  · cases hx : r.reaction with
    | none => exact Within.pure ()
    | some x =>
      have : Within (Lengthens l) (react l r.state body x) := Postal.react l r.state body (hr.asked x hx)
      dsimp only
      infer_instance
  · have : Within (Lengthens l) (becomeReady s p m body) := inferInstance
    show Within (Lengthens l) (tryCatch (becomeReady s p m body) fun _ => pure ())
    infer_instance

theorem lanes_reject (l : Nat) (body : String) (h : Host) :
    (after (reject l body) h).lanes = h.lanes := by
  unfold reject announce
  rw [after_bind_ok (run_lane l h), after_bind_ok (Succeeds.run_unit ..), after_bind_ok (run_lane ..)]
  split <;> rfl

theorem Answer.told_of_waiter {x : Answer}
    (hx : ∀ c, x.request.waiter = some c → c < (after (tell x.request x.body) x.host).loop.cells.size) :
    x.Told (after (tell x.request x.body) x.host) := by
  intro c hc
  have hlt := hx c hc
  unfold tell at hlt ⊢
  rw [hc] at hlt ⊢
  exact Loop.outcome?_finish_self _ (Nat.lt_of_lt_of_eq hlt (Loop.size_cells_finish ..))

theorem Serves.deliverBy {asked : List Request} {xs : List Answer} {bodies : List String}
    (k : Serves l asked xs bodies a h) (body : String) :
    ∃ queue, Serves l asked (xs ++ answerOf l body h) (bodies ++ [body]) { a with queue }
      (after (deliverBy react l body) h) := by
  have hneat : (after (Host.deliverBy react l body) h).board.Neat True :=
    (neat_deliverBy k.neat (.inl trivial)).1
  have hguards : Guards {} h (after (Host.deliverBy react l body) h) := Within.rel_after h
  have hbounded := hguards.toHanded.bounded k.bounded
  have hlane : h.laneOf l = a := laneOf_of_get? k.lane
  have hlasts (x : Answer) (hx : x ∈ xs) : x.Told (after (Host.deliverBy react l body) h) :=
    (k.told x hx).lasts hguards.grows.lasts.outcome
  cases hq : a.queue with
  | nil =>
    have hanswer : answerOf l body h = [] := by
      unfold answerOf
      rw [hlane, hq]
    have hlanes : (after (Host.deliverBy react l body) h).lanes = h.lanes := by
      rw [after_deliverBy_nil (by rw [hlane, hq]), lanes_reject]
    refine ⟨a.queue, hneat, hbounded, ?_, ?_, ?_⟩
    · rw [hlanes, k.lane]
    · have hserved := k.served
      rw [hq] at hserved
      rw [hanswer, List.append_nil, hq]
      exact hserved.reject body
    · rw [hanswer, List.append_nil]
      exact hlasts
  | cons r queue =>
    have hqueue : (h.laneOf l).queue = r :: queue := by rw [hlane, hq]
    have hanswer : answerOf l body h = [⟨consulted l r queue body h, r, body⟩] := by
      unfold answerOf
      rw [hqueue]
    obtain ⟨x, hx, hxq⟩ := seat?_of_queue k.neat hqueue
    have hr : r.IsAsked ∨ ∃ s p m, r = .startup s p m :=
      ((k.neat.good l x hx).head_cases hxq).2.imp And.left fun ⟨p, m, e, _⟩ => ⟨l, p, m, e⟩
    have hpopped : (popped l queue h).lanes.get? l = some { a with queue } := by
      show (h.lanes.modify l _).get? l = _
      rw [Table.get?_modify, if_pos rfl, k.lane]
      rfl
    have hlong : Lengthens l (popped l queue h) (consulted l r queue body h) :=
      (Lengthens.consult hr body).rel_after _
    obtain ⟨rs, hrs⟩ := hlong _ hpopped
    have hafter := after_deliverBy_cons hqueue body
    have hlanes : (after (tell r body) (consulted l r queue body h)).lanes =
        (consulted l r queue body h).lanes := by
      unfold tell
      split <;> rfl
    refine ⟨queue ++ rs, hneat, hbounded, ?_, ?_, ?_⟩
    · rw [hafter, hlanes, hrs]
    · have hserved := k.served
      rw [hq] at hserved
      rw [hanswer, List.map_append]
      exact (hserved.answer body).lengthen rs
    · intro y hy
      rw [hanswer] at hy
      rcases List.mem_append.1 hy with hy | hy
      · exact hlasts y hy
      · rw [List.mem_singleton.1 hy, hafter]
        refine Answer.told_of_waiter fun c hc => ?_
        have hheld : h.view.Holds (.lane l) c := .queue (r := r) (by
          rw [show (h.view.lanes l).2 = (h.laneOf l).queue from queueOf_eq h l, hqueue]
          exact List.mem_cons_self) hc
        rw [← hafter]
        exact Nat.lt_of_lt_of_le (k.bounded _ c hheld) hguards.grows.size_le

theorem Serves.deliverEach {asked : List Request} {xs : List Answer} {bs : List String}
    (k : Serves l asked xs bs a h) (bodies : List String) :
    ∃ queue, Serves l asked (xs ++ answersOf l bodies h) (bs ++ bodies) { a with queue }
      (after (deliverEach react l bodies) h) := by
  induction bodies generalizing xs bs a h with
  | nil =>
    refine ⟨a.queue, ?_⟩
    rw [answersOf, List.append_nil, List.append_nil]
    exact k
  | cons body bodies ih =>
    obtain ⟨queue, k₁⟩ := k.deliverBy body
    obtain ⟨queue', k₂⟩ := ih k₁
    rw [List.append_assoc, List.append_assoc, ← after_deliverEach_cons] at k₂
    exact ⟨queue', k₂⟩

/-! ## What is noted -/

/-- What was noted of responses. -/
def notesOf (h : Host) : List (Json × String) := h.journal.notes

instance (s : Nat) (f : Session → Session) : Within (Same notesOf) (changeSession s f) :=
  ⟨fun _ => rfl⟩

instance (l : Nat) (f : Lane → Lane) : Within (Same notesOf) (changeLane l f) := ⟨fun _ => rfl⟩

instance (c : Nat) (f : QueryChannel → QueryChannel) : Within (Same notesOf) (changeChannel c f) :=
  ⟨fun _ => rfl⟩

instance (key : String) (what : Counted) : Within (Same notesOf) (count key what) := ⟨fun _ => rfl⟩

instance (e : Event) : Within (Same notesOf) (publish e) := ⟨fun _ => rfl⟩

instance (c : Nat) (e : Ending) : Within (Same notesOf) (finish c e) := ⟨fun _ => rfl⟩

instance (cells : List Nat) : Within (Same notesOf) (releaseAll cells) := ⟨fun _ => rfl⟩

instance (l : Nat) (command : String) : Within (Same notesOf) (writeLine l command) := ⟨fun h => by
  obtain ⟨p, h', -, e, hw⟩ | ⟨x, e⟩ := writeLine_spec l command h
  · rw [after_of_ok e, show h' = _ from hw]
    rfl
  · rw [after_of_error e]
    rfl⟩

instance (s p : Nat) (m : StartMode) (body : String) :
    Within (Same notesOf) (becomeReady s p m body) := by
  unfold becomeReady
  refine @Within.bind _ _ _ _ _ _ _ fun session => ?_
  split
  · refine @Within.ite _ _ _ _ _ _ ?_ _
    split
    · infer_instance
    · dsimp only
      infer_instance
  · infer_instance

/-- What is noted of a response: all but the first of a worker is, if it was asked for. -/
def Answer.notes (x : Answer) : List (Json × String) :=
  match x.request.reaction with
  | none | some (.ready ..) => []
  | some _ => [(x.request.state, x.body)]

theorem notes_consult (l : Nat) (r : Request) (body : String) (h g : Host) :
    notesOf (after (consult l r body) h) = notesOf h ++ Answer.notes ⟨g, r, body⟩ := by
  have hreact (x : Reaction) : after (tryCatch (react l r.state body x) fun _ => pure ()) h =
      after (react l r.state body x) h := after_of_ok (run_attempt ..)
  have hsame (b : Action Unit) [Within (Same notesOf) b] (k : Host) : notesOf (after b k) = notesOf k :=
    Within.rel_after (R := Same notesOf) k
  unfold consult Answer.notes
  cases r.reaction with
  | none => exact (List.append_nil _).symm
  | some x =>
    dsimp only
    rw [hreact]
    cases x with
    | note | fail | attach => rfl
    | submit command state =>
      unfold react
      dsimp only
      rw [after_bind_ok (Succeeds.run_unit (note _) h), hsame]
      rfl
    | ready s p m =>
      show notesOf (after (becomeReady s p m body) h) = _
      rw [hsame, List.append_nil]

theorem notes_deliverBy (l : Nat) (body : String) (h : Host) :
    notesOf (after (deliverBy react l body) h) =
      notesOf h ++ (answerOf l body h).flatMap Answer.notes := by
  unfold answerOf
  cases hq : (h.laneOf l).queue with
  | nil =>
    rw [after_deliverBy_nil hq]
    have hreject : Within (Same notesOf) (reject l body) := by
      unfold reject announce
      infer_instance
    exact (hreject.rel_after h).trans (List.append_nil _).symm
  | cons r queue =>
    rw [after_deliverBy_cons hq]
    have htell : Within (Same notesOf) (tell r body) := by
      unfold tell
      split <;> infer_instance
    dsimp only
    rw [show notesOf (after (tell r body) (consulted l r queue body h)) = _ from htell.rel_after _,
      List.flatMap_singleton]
    exact notes_consult l r body (popped l queue h) _

/-- All responses are noted that are to be, in their order. -/
theorem notes_deliverEach (l : Nat) (bodies : List String) (h : Host) :
    notesOf (after (deliverEach react l bodies) h) =
      notesOf h ++ (answersOf l bodies h).flatMap Answer.notes := by
  induction bodies generalizing h with
  | nil => exact (List.append_nil _).symm
  | cons body bodies ih =>
    rw [after_deliverEach_cons, ih, notes_deliverBy, answersOf, List.flatMap_append, List.append_assoc]

/-! ## Output is taken -/

/-- Output that comes to a lane is cut into responses, and these are delivered. -/
theorem Serves.feed {asked : List Request} {xs : List Answer} {bs : List String}
    (k : Serves l asked xs bs a h) (ht : Tidy l h) (bytes : List UInt8) :
    let bodies := bodiesIn a.marker (a.buffer ++ bytes)
    let ys := answersOf l bodies h
    ∃ n h' queue, (Host.feed l bytes).run h = .ok n h' ∧
      h'.lanes.get? l = some (a.cut bytes queue) ∧
      Served asked ((xs ++ ys).map Answer.pair) (bs ++ bodies) queue ∧
      (∀ x ∈ xs ++ ys, x.Told h') ∧ notesOf h' = notesOf h ++ ys.flatMap Answer.notes := by
  intro bodies ys
  have hlane : h.laneOf l = a := laneOf_of_get? k.lane
  obtain ⟨n, h', hrun, ha, ht', hend⟩ := run_feedBy Policy.usual.ask (uncut_refl l _ h) ht rfl bytes
  rw [← react_eq_usual] at hrun ha
  rw [hlane] at ha hend
  obtain ⟨queue, k₁⟩ := k.deliverEach (bodies.take n)
  have hlane' : ∃ buffer scanned, h'.laneOf l = { a with queue, buffer, scanned } ∧
      h'.lanes.get? l = some (h'.laneOf l) := by
    obtain ⟨e, -⟩ | ⟨b, b', e, e', ⟨⟨buffer, scanned, hb⟩, -⟩⟩ := ha.get? l
    · rw [show (after (Host.deliverEach react l (bodies.take n)) h).lanes.get? l = _ from k₁.lane] at e
      cases e
    · cases k₁.lane.symm.trans e
      rw [laneOf_of_get? e']
      exact ⟨buffer, scanned, hb, e'⟩
  obtain ⟨buffer, scanned, hb, hget⟩ := hlane'
  -- nobody attached a process, so all responses were delivered
  obtain ⟨hn, hrest⟩ := hend.kept (by rw [hb])
  have hall : bodies.take n = bodies := by rw [hn, List.take_length]
  rw [hall] at k₁
  have hall' : (bodiesIn a.marker (a.buffer ++ bytes)).take n = bodies := hall
  rw [hall'] at ha
  have hloop : h'.loop = (after (Host.deliverEach react l bodies) h).loop := Eq.symm ha.loop
  refine ⟨n, h', queue, hrun, ?_, k₁.served, fun x hx => ?_, ?_⟩
  · have hscanned := ht'.searched
    rw [hget, hb]
    rw [hb] at hrest hscanned
    dsimp only at hrest hscanned
    rw [hscanned, hrest]
    rfl
  · exact (k₁.told x hx).lasts fun c o hc => by rw [hloop]; exact hc
  · have hjournal : notesOf h' = notesOf (after (Host.deliverEach react l bodies) h) := by
      rw [ha.rest]
      rfl
    rw [hjournal]
    exact notes_deliverEach l bodies h

end Host

end GhciHost
