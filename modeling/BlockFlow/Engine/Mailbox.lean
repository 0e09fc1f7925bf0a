import BlockFlow.SortedMap
import BlockFlow.Graph.Basic

/-! # Collecting failures

Failures are sent through any number of sinks to one collector, which takes them in the order in
which they were sent.  The collector is finished once every sink is closed and nothing is left to
take; what it has then is a map from nodes to the output of their commands. -/

namespace BlockFlow

/-- The command of a node has failed. -/
structure Failure where
  node : NodeId
  /-- What the command wrote. -/
  output : String
  deriving DecidableEq, Inhabited, Repr

/-- The failed nodes with the output of their commands. -/
abbrev FailureMap := NameMap String

/-- Failures on their way and failures taken. -/
structure Mailbox where
  /-- Sent and not taken yet, the oldest first. -/
  queue : List Failure := []
  /-- Taken by the collector. -/
  collected : FailureMap := ∅
  /-- How many sinks are open. -/
  sinks : Nat := 1
  deriving Inhabited

namespace Mailbox

/-- Sends a failure. -/
def emit (m : Mailbox) (f : Failure) : Mailbox := { m with queue := m.queue ++ [f] }

/-- Opens another sink. -/
def openSink (m : Mailbox) : Mailbox := { m with sinks := m.sinks + 1 }

/-- Closes a sink. -/
def closeSink (m : Mailbox) : Mailbox := { m with sinks := m.sinks - 1 }

/-- The collector takes the oldest failure, if there is one. -/
def receive (m : Mailbox) : Mailbox :=
  match m.queue with
  | [] => m
  | f :: queue => { m with queue, collected := m.collected.insert f.node f.output }

/-- What the collector has when it has taken everything. -/
def drain (m : Mailbox) : FailureMap :=
  m.queue.foldl (fun c f => c.insert f.node f.output) m.collected

/-- What the collector ends with, once all sinks are closed. -/
def finish? (m : Mailbox) : Option FailureMap := if m.sinks = 0 then some m.drain else none

end Mailbox

end BlockFlow
