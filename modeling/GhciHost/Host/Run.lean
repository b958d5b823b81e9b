import GhciHost.Host.Resume

/-! # Runs of the host

`tick` is one step of the loop: the top frame of the task that runs goes on, or the next job
begins.  `settle` takes steps until nothing can happen before time passes, and `advance`
lets time pass. -/

namespace GhciHost.Host

/-- Replace the top frame of the task that runs, and go on as it says. -/
def proceed (t : Nat) (below : List Frame) (next : Next) (l : Loop Value Failure Frame) :
    Loop Value Failure Frame :=
  match next with
  | .go push e => { l.setStack t (push ++ below) with running := some (t, e) }
  | .wait push c =>
    let l := l.setStack t (push ++ below)
    match l.outcome? c with
    | some e => { l with running := some (t, e) }
    | none => l.suspend t c

/-- Let the task that runs take a step. -/
def step (t : Nat) (e : Ending) (h : Host) : Host :=
  match (h.loop.tasks.get? t).map (·.stack) with
  | some (f :: below) =>
    match (resume f e).run h with
    | .ok next h => { h with loop := proceed t below next h.loop }
    | .error failure h => { h with loop := proceed t below (.pass (.failed failure)) h.loop }
  | _ => { h with loop := h.loop.endTask t e }

/-- Begin a job. -/
def beginJob (j : Job) (h : Host) : Host :=
  match j with
  | .start t => { h with loop := h.loop.resume t (.value .unit) }
  | .wake t c => { h with loop := h.loop.resume t ((h.loop.outcome? c).getD .cancelled) }
  | .release c => { h with loop := h.loop.release c }
  | .notify q =>
    match (queryEnded q).run h with
    | .ok _ h => h
    | .error _ h => h

/-- One step of the loop. -/
def tick (h : Host) : Host :=
  match h.loop.running with
  | some (t, e) => step t e h
  | none =>
    match h.loop.jobs with
    | [] => h
    | j :: jobs => beginJob j { h with loop := { h.loop with jobs } }

/-- Steps until nothing can happen before time passes, at most `fuel` of them. -/
def settleWithin : Nat → Host → Host
  | 0, h => h
  | fuel + 1, h => if h.loop.isIdle then h else settleWithin fuel h.tick

/-- More steps than any run takes that ends. -/
def patience : Nat := 1000000000

/-- Steps until nothing can happen before time passes. -/
def settle (h : Host) : Host := settleWithin patience h

/-- Let a timer fire. -/
def fire (t : Timer) (h : Host) : Host :=
  { h with loop :=
      ({ h.loop with now := t.due, timers := Loop.dropTimer t.cell h.loop.timers }).release t.cell }

/-- Let the timers fire that are due until a time, one after the other, at most `fuel` of
    them. -/
def fireWithin (until_ : Binary64) : Nat → Host → Host
  | 0, h => h
  | fuel + 1, h =>
    match Loop.nextTimer? until_ h.loop.timers with
    | none => h
    | some t => fireWithin until_ fuel (h.fire t).settle

/-- Let time pass. -/
def advance (seconds : Binary64) (h : Host) : Host :=
  let target := h.loop.now.add seconds
  let h := fireWithin target patience h
  { h with loop := { h.loop with now := target } }

/-- Do something at once; what it came to. -/
def perform (a : Action α) (h : Host) : Except Failure α × Host :=
  match a.run h with
  | .ok v h => (.ok v, h)
  | .error e h => (.error e, h)

/-- Let timers fire until something is known, at most `fuel` of them. -/
def awaitWithin (c : Nat) : Nat → Host → Host
  | 0, h => h
  | fuel + 1, h =>
    if h.loop.isDone c then h
    else match Loop.nextTimer? (.infinite false) h.loop.timers with
      | none => h
      | some t => awaitWithin c fuel (h.fire t).settle

/-- Run a task to its end, however long it takes. -/
def runTask (fs : List Frame) (h : Host) : Ending × Host :=
  match perform (newTask fs) h with
  | (.ok c, h) =>
    let h := awaitWithin c patience h.settle
    ((h.loop.outcome? c).getD .cancelled, h)
  | (.error e, h) => (.failed e, h)

/-- The states that can be reached: by steps of the loop, by timers that fire when nothing
    else can happen, and by whatever is done from outside between steps. -/
inductive Reachable (start : Host → Prop) (act : Host → Host → Prop) : Host → Prop
  | start {h : Host} : start h → Reachable start act h
  | tick {h : Host} : Reachable start act h → Reachable start act h.tick
  | fire {h : Host} {t : Timer} :
      Reachable start act h → t ∈ h.loop.timers → Reachable start act (h.fire t)
  | act {h h' : Host} : Reachable start act h → h.loop.running = none → act h h' →
      Reachable start act h'

theorem reachable_settleWithin {start : Host → Prop} {act : Host → Host → Prop} {h : Host}
    (hr : Reachable start act h) (fuel : Nat) : Reachable start act (settleWithin fuel h) := by
  induction fuel generalizing h with
  | zero => exact hr
  | succ fuel ih =>
    rw [settleWithin]
    split
    · exact hr
    · exact ih hr.tick

end GhciHost.Host
