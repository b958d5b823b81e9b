import GhciHost.Channel.Lane
import GhciHost.Host.Fault
import GhciHost.Settings.Basic

/-! # Queries over connections of their own

A query that changes nothing need not wait behind other commands: it may use a connection of
its own to the port that the worker announced.  Where that does not work it goes to the
lane. -/

namespace GhciHost

/-- Where queries of a session go. -/
structure QueryChannel where
  port : Option Int := none
  host : String
  enabled : Bool
  connectTimeout : Option Seconds
  /-- The queries under way, oldest first. -/
  active : List Nat := []

/-- A query under way. -/
structure Query where
  /-- The channel, and the lane to which the query goes if all else fails. -/
  channel : Nat
  command : String
  state : Json
  reaction : Option Reaction
  waiter : Option Nat
  port : Int
  /-- The cell of the task of the query. -/
  task : Nat

/-- How a connection goes. -/
structure ConnectionScript where
  reply : List UInt8 := []
  connectDelay : Option Binary64 := none
  readDelay : Option Binary64 := none
  connectFault : Option Fault := none
  writeFault : Option Fault := none
  drainFault : Option Fault := none
  readFault : Option Fault := none
  closeFault : Option Fault := none
  canWriteEof : Bool := true

/-- How a connection goes after the last script. -/
def ConnectionScript.usual : ConnectionScript :=
  { connectFault := some (.os .connectionRefused "refused") }

/-- A connection that was asked for. -/
structure Connection where
  host : String
  port : Int
  script : ConnectionScript
  written : List UInt8 := []
  eof : Bool := false
  closed : Bool := false

end GhciHost
