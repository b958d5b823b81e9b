import GhciHost.Text.Digit

/-! # Phases of a session

A session is in one of six phases.  `Phase.allows` says which phase may follow which; a
session that gave up stays so until it is destroyed.

* `allows_irrefl`        no phase follows a phase of its own state;
* `allows_absent_iff`    every phase but `absent` may be followed by `absent`. -/

namespace GhciHost

/-- How a worker is started. -/
inductive StartMode
  /-- Dependencies are not built. -/
  | fast
  /-- Dependencies are built first. -/
  | withBuild
deriving DecidableEq, Repr

/-- The name of a start mode. -/
def StartMode.name : StartMode → String
  | .fast => "fast"
  | .withBuild => "with-build"

/-- The start mode of a name. -/
def StartMode.ofName? (name : String) : Option StartMode :=
  [StartMode.fast, .withBuild].find? (·.name == name)

theorem StartMode.ofName?_name (m : StartMode) : ofName? m.name = some m := by
  cases m <;> decide

/-- The states of a session. -/
inductive State
  | absent
  | installing
  | starting
  | ready
  | restarting
  | givenUp
deriving DecidableEq, Repr

namespace State

/-- The name of a state. -/
def name : State → String
  | absent => "absent"
  | installing => "installing"
  | starting => "starting"
  | ready => "ready"
  | restarting => "restarting"
  | givenUp => "given-up"

/-- All states. -/
def all : List State := [absent, installing, starting, ready, restarting, givenUp]

/-- The state of a name. -/
def ofName? (name : String) : Option State := all.find? (·.name == name)

theorem ofName?_name (s : State) : ofName? s.name = some s := by cases s <;> decide

/-- The states that may follow a state. -/
def next : State → List State
  | absent => [installing, starting]
  | installing => [starting, givenUp, absent]
  | starting => [ready, restarting, givenUp, absent]
  | ready => [restarting, givenUp, absent]
  | restarting => [starting, absent]
  | givenUp => [absent]

/-- Whether a state may follow another. -/
def allows (s t : State) : Bool := (next s).contains t

theorem allows_irrefl (s : State) : s.allows s = false := by cases s <;> decide

theorem allows_absent_iff (s : State) : s.allows absent = true ↔ s ≠ absent := by
  cases s <;> decide

/-- Whether nobody has to wait in a state for the worker to become ready. -/
def settled : State → Bool
  | absent | ready | givenUp => true
  | _ => false

end State

/-- Why a session gave up. -/
inductive GiveUpKind
  /-- The worker could not be installed or started. -/
  | installFailure
  /-- The worker kept missing a dependency after dependencies were built. -/
  | unsatisfiedDependency
deriving DecidableEq, Repr

/-- The name of a kind. -/
def GiveUpKind.name : GiveUpKind → String
  | .installFailure => "install_failure"
  | .unsatisfiedDependency => "unsatisfied_dependency"

/-- A phase: a state and what belongs to it. -/
inductive Phase
  | absent
  | installing
  | starting (mode : StartMode)
  | ready (mode : StartMode) (port : Option Int)
  /-- The worker ended on a missing dependency; `mode` is that of the next attempt. -/
  | restarting (mode : StartMode) (reason : String)
  | givenUp (reason transcript : String) (kind : GiveUpKind)
deriving DecidableEq, Repr

namespace Phase

/-- The state of a phase. -/
def state : Phase → State
  | absent => .absent
  | installing => .installing
  | starting _ => .starting
  | ready .. => .ready
  | restarting .. => .restarting
  | givenUp .. => .givenUp

/-- The start mode of a phase that has one. -/
def mode? : Phase → Option StartMode
  | starting m | ready m _ | restarting m _ => some m
  | _ => none

/-- The reason of a session that gave up. -/
def givenUpReason? : Phase → Option String
  | givenUp reason .. => some reason
  | _ => none

/-- Whether a phase may follow another. -/
def allows (p q : Phase) : Bool := p.state.allows q.state

end Phase

end GhciHost
