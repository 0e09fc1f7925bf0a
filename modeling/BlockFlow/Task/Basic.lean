import BlockFlow.SortedMap
import BlockFlow.Mode
import BlockFlow.Path
import BlockFlow.Graph.Basic

/-! # Tasks

A task is a unit of work whose input ports refer to output ports of other tasks and whose output
ports are published as files.  What a task does is a value of a type of the caller's choice: `Work`
for compiled graphs, anything else for an engine that runs other tasks. -/

namespace BlockFlow

/-- An output port of a task. -/
structure PortRef where
  task : String
  port : String
  deriving DecidableEq, Inhabited, Repr

/-- What a task is there for. -/
inductive TaskRole where
  /-- Writes the state of its node. -/
  | state
  /-- Runs the block program of its node. -/
  | process
  deriving DecidableEq, Inhabited, Repr

/-- The name of a role. -/
def TaskRole.name : TaskRole → String
  | .state => "state"
  | .process => "process"

/-- How far a task has come. -/
inductive TaskState where
  | pending
  | runnable
  | running
  | skipped
  | succeeded
  | failed
  deriving DecidableEq, Inhabited, Repr

namespace TaskState

/-- The name of a state. -/
def name : TaskState → String
  | .pending => "pending"
  | .runnable => "runnable"
  | .running => "running"
  | .skipped => "skipped"
  | .succeeded => "succeeded"
  | .failed => "failed"

/-- All states, in the order of a task's life. -/
def all : List TaskState := [.pending, .runnable, .running, .skipped, .succeeded, .failed]

/-- The states with their names. -/
def variants : List (String × TaskState) := all.map (fun s => (s.name, s))

/-- Reads a state by its name. -/
def decoder : Decoder TaskState := Decoder.variant variants

/-- The state that a value names. -/
def ofJson (v : Json) : Except JsonError TaskState := Decoder.variantOfJson variants v

/-- Whether a task in this state is done. -/
def isFinal : TaskState → Bool
  | .skipped | .succeeded | .failed => true
  | _ => false

end TaskState

/-- What a compiled task does. -/
inductive Work where
  /-- Writes a text to every output. -/
  | emit (content : String)
  /-- Runs the command, on behalf of a node. -/
  | block (node : NodeId)
  deriving DecidableEq, Inhabited, Repr

/-- A unit of work. -/
structure Task (β : Type) where
  name : String
  node : NodeId
  role : TaskRole
  /-- A command with placeholders for the files at the ports. -/
  command : String
  /-- The output port that each input port reads; `none` for a port that nothing feeds. -/
  inputPorts : NameMap (Option PortRef)
  /-- The file that each output port is published as. -/
  outputPorts : NameMap Path
  work : β

/-- The input ports that are fed, with what feeds them. -/
def Task.producers {β : Type} (t : Task β) : List (String × PortRef) :=
  t.inputPorts.toList.filterMap (fun e => e.2.map (e.1, ·))

/-- The tasks of a run. -/
structure TaskGraph (β : Type) where
  name : String
  mode : Mode
  maxConcurrency : Nat
  tasks : List (Task β)

namespace TaskGraph

variable {β : Type}

/-- The first task of this name. -/
def task? (g : TaskGraph β) (name : String) : Option (Task β) :=
  g.tasks.find? (fun t => t.name = name)

/-- The tasks with this role. -/
def tasksWithRole (g : TaskGraph β) (role : TaskRole) : List (Task β) :=
  g.tasks.filter (fun t => t.role = role)

end TaskGraph

end BlockFlow
