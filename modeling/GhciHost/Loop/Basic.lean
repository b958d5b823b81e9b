import GhciHost.Data.Table
import GhciHost.Number.Binary64

/-! # The event loop

Tasks take turns.  A task runs until it has to wait for a cell that is not done; it goes on
when the cell is, after all jobs that were due before.  A cell is done once, with a value, a
failure or a cancellation.  Nothing else makes a task wait, and a task cannot be interrupted.

A task is a stack of frames: what remains to be done when the thing on top has ended.  The
type `φ` of frames, what they do, `ν` of values and `ε` of failures are left open.

* `outcome?_finish_self`   a cell keeps its first outcome;
* `outcome?_finish_of_ne`   finishing a cell leaves the others alone;
* `outcome?_newCell`   a new cell is not done. -/

namespace GhciHost

/-- How something ended that could be waited for. -/
inductive Outcome (ν ε : Type)
  | value (v : ν)
  | failed (e : ε)
  | cancelled
deriving Repr

/-- What a cell does when it is done. -/
inductive Hook
  /-- Let a task go on. -/
  | wake (task : Nat)
  /-- Finish another cell, if it is not done. -/
  | release (cell : Nat)
  /-- Tell a listener. -/
  | notify (listener : Nat)
deriving DecidableEq, Repr

/-- Something that is done once. -/
structure Cell (ν ε : Type) where
  outcome : Option (Outcome ν ε) := none
  /-- What is to happen then, in order. -/
  hooks : List Hook := []
  /-- The task whose end is the outcome. -/
  owner : Option Nat := none

/-- A task that runs or waits, or has ended. -/
structure Task (φ : Type) where
  /-- What remains to be done, next things first. -/
  stack : List φ
  /-- The cell of the task's end. -/
  result : Nat
  /-- The cell that the task waits for. -/
  waitingOn : Option Nat := none
  /-- Whether the task is to be cancelled when it goes on. -/
  cancelAsked : Bool := false

/-- What the loop does next. -/
inductive Job
  | start (task : Nat)
  | wake (task cell : Nat)
  | release (cell : Nat)
  | notify (listener : Nat)
deriving DecidableEq, Repr

/-- A cell that is released at a time. -/
structure Timer where
  due : Binary64
  cell : Nat
deriving Repr

/-- The state of the loop. -/
structure Loop (ν ε φ : Type) where
  now : Binary64 := .ofInt 0
  cells : Table (Cell ν ε) := {}
  tasks : Table (Task φ) := {}
  /-- What can happen now, in order. -/
  jobs : List Job := []
  /-- What happens later, in order of creation. -/
  timers : List Timer := []
  /-- The task that runs, with what its top frame waited for. -/
  running : Option (Nat × Outcome ν ε) := none

/-- The job of a hook of a cell. -/
def Hook.job (cell : Nat) : Hook → Job
  | .wake task => .wake task cell
  | .release c => .release c
  | .notify listener => .notify listener

namespace Loop

variable {ν ε φ : Type}

/-! ## Cells -/

/-- The outcome of a cell that is done. -/
def outcome? (l : Loop ν ε φ) (c : Nat) : Option (Outcome ν ε) :=
  (l.cells.get? c).bind (·.outcome)

/-- Whether a cell is done. -/
def isDone (l : Loop ν ε φ) (c : Nat) : Bool := (l.outcome? c).isSome

/-- A new cell, not done. -/
def newCell (l : Loop ν ε φ) : Nat × Loop ν ε φ :=
  (l.cells.size, { l with cells := l.cells.push {} })

/-- Finish a cell; one that is done stays as it is. -/
def finish (l : Loop ν ε φ) (c : Nat) (o : Outcome ν ε) : Loop ν ε φ :=
  match l.cells.get? c with
  | none => l
  | some cell =>
    if cell.outcome.isSome then l
    else
      { l with
        cells := l.cells.modify c fun cell => { cell with outcome := some o, hooks := [] }
        jobs := l.jobs ++ cell.hooks.map (Hook.job c) }

/-- Finish a cell with nothing to say. -/
def release [Inhabited ν] (l : Loop ν ε φ) (c : Nat) : Loop ν ε φ := l.finish c (.value default)

/-- Let a hook run when a cell is done; a job if it is. -/
def hook (l : Loop ν ε φ) (c : Nat) (h : Hook) : Loop ν ε φ :=
  if l.isDone c then { l with jobs := l.jobs ++ [h.job c] }
  else { l with cells := l.cells.modify c fun cell => { cell with hooks := cell.hooks ++ [h] } }

/-- A cell that is released after a time. -/
def newTimer (l : Loop ν ε φ) (delay : Binary64) : Nat × Loop ν ε φ :=
  let (c, l) := l.newCell
  (c, { l with timers := l.timers ++ [⟨l.now.add delay, c⟩] })

/-! ## Tasks -/

/-- A new task, which starts after the jobs at hand; the cell of its end. -/
def newTask (l : Loop ν ε φ) (stack : List φ) : Nat × Loop ν ε φ :=
  let c := l.cells.size
  let t := l.tasks.size
  (c, { l with
    cells := l.cells.push { owner := some t }
    tasks := l.tasks.push { stack, result := c }
    jobs := l.jobs ++ [.start t] })

/-- Note that a task is to be cancelled when it goes on. -/
def askCancel (l : Loop ν ε φ) (t : Nat) : Loop ν ε φ :=
  { l with tasks := l.tasks.modify t fun task => { task with cancelAsked := true } }

/-- Cancel what a cell stands for: the task that owns it, and what that task waits for, or
    the cell itself.  The answer is whether there was something to cancel.  `fuel` bounds
    the chain of tasks that wait for each other. -/
def cancelWithin (l : Loop ν ε φ) : Nat → Nat → Bool × Loop ν ε φ
  | 0, _ => (false, l)
  | fuel + 1, c =>
    match l.cells.get? c with
    | none => (false, l)
    | some cell =>
      if cell.outcome.isSome then (false, l)
      else match cell.owner with
        | none => (true, l.finish c .cancelled)
        | some t =>
          match (l.tasks.get? t).bind (·.waitingOn) with
          -- the task has not begun, or is about to go on
          | none => (true, l.askCancel t)
          | some d =>
            match cancelWithin l fuel d with
            -- what the task waits for ends as cancelled, and the task learns of it from there
            | (true, l) => (true, l)
            -- what it waits for is done, and the task has still to be woken
            | (false, l) => (true, l.askCancel t)

/-- Cancel what a cell stands for. -/
def cancel (l : Loop ν ε φ) (c : Nat) : Loop ν ε φ := (l.cancelWithin (l.tasks.size + 1) c).2

/-- Let a task wait for a cell.  A task that was to be cancelled cancels the cell. -/
def suspend (l : Loop ν ε φ) (t c : Nat) : Loop ν ε φ :=
  let l := { l with
    tasks := l.tasks.modify t fun task => { task with waitingOn := some c }
    running := none }
  let l := l.hook c (.wake t)
  match l.tasks.get? t with
  | some task =>
    -- the task was cancelled while it ran, and this is the first wait since
    if task.cancelAsked then
      match l.cancelWithin (l.tasks.size + 1) c with
      | (true, l) =>
        { l with tasks := l.tasks.modify t fun task => { task with cancelAsked := false } }
      | (false, l) => l
    else l
  | none => l

/-- Let a task go on with the outcome of what it waited for, or with its cancellation. -/
def resume (l : Loop ν ε φ) (t : Nat) (o : Outcome ν ε) : Loop ν ε φ :=
  match l.tasks.get? t with
  | none => l
  | some task =>
    { l with
      running := some (t, if task.cancelAsked then .cancelled else o)
      tasks := l.tasks.modify t fun task =>
        { task with waitingOn := none, cancelAsked := false } }

/-- End the task that runs. -/
def endTask (l : Loop ν ε φ) (t : Nat) (o : Outcome ν ε) : Loop ν ε φ :=
  let l := { l with running := none }
  match l.tasks.get? t with
  | none => l
  | some task =>
    l.finish task.result (match task.cancelAsked, o with
      -- the task was cancelled while it ran, and never waited again
      | true, .value _ => .cancelled
      | _, o => o)

/-- Replace what remains to be done by a task. -/
def setStack (l : Loop ν ε φ) (t : Nat) (stack : List φ) : Loop ν ε φ :=
  { l with tasks := l.tasks.modify t fun task => { task with stack } }

/-! ## Timers -/

/-- The timer that fires first among those due at a time: the earliest, and of those the
    oldest. -/
def nextTimer? (until_ : Binary64) : List Timer → Option Timer
  | [] => none
  | t :: ts =>
    let later := nextTimer? until_ ts
    if t.due.le until_ then
      match later with
      -- of two timers that are due at one time the older fires first
      | some u => if u.due.lt t.due then some u else some t
      | none => some t
    else later

/-- Leave out the first timer of a cell. -/
def dropTimer (c : Nat) : List Timer → List Timer
  | [] => []
  | t :: ts => if t.cell = c then ts else t :: dropTimer c ts

/-- Whether nothing can happen before time passes. -/
def isIdle (l : Loop ν ε φ) : Bool := l.running.isNone && l.jobs.isEmpty

/-! ## What is known of a cell -/

@[simp] theorem outcome?_newCell (l : Loop ν ε φ) : l.newCell.2.outcome? l.newCell.1 = none := by
  simp [newCell, outcome?, Table.get?_push]

theorem outcome?_finish_self {l : Loop ν ε φ} {c : Nat} (o : Outcome ν ε) (h : c < l.cells.size) :
    (l.finish c o).outcome? c = some ((l.outcome? c).getD o) := by
  unfold finish
  split
  -- There is such a cell.
  · next hc =>
    simp [Table.get?, Table.size] at hc h
    omega
  · next cell hc =>
    split
    -- The cell is done and keeps its outcome.
    · next hs =>
      obtain ⟨o', ho'⟩ := Option.isSome_iff_exists.1 hs
      simp [outcome?, hc, ho']
    -- The cell was not done and takes the new outcome.
    · next hs =>
      have : cell.outcome = none := by simpa using hs
      simp [outcome?, hc, this, Table.get?_modify]

theorem outcome?_finish_of_ne {l : Loop ν ε φ} {c d : Nat} (o : Outcome ν ε) (h : d ≠ c) :
    (l.finish c o).outcome? d = l.outcome? d := by
  unfold finish
  split
  · rfl
  · split
    · rfl
    · simp [outcome?, Table.get?_modify, h.symm]

end Loop

end GhciHost
