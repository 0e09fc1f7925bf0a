import BlockFlow.Engine.Fiber
import BlockFlow.Engine.Mailbox
import BlockFlow.Files.Tree
import BlockFlow.Task.Basic

/-! # What the tasks of a run share -/

namespace BlockFlow

/-- What a task saw at one of its input ports: nothing bound, or a path with the text of its file,
if it could be read. -/
structure SeenInput where
  port : String
  file : Option (Path × Option String)

/-- What a task that keeps notes saw when it was started. -/
structure Sighting where
  task : String
  inputs : List SeenInput
  /-- Where each output port is staged, seen from the scratch directory. -/
  staged : List (String × Path)
  /-- Whether the tasks that it waited for had started, if it waited. -/
  met : Option Bool

/-- A note in the journal of a run. -/
inductive Note where
  /-- A task that keeps notes has started. -/
  | entered (task : String)
  | saw (sighting : Sighting)
  | left (task : String)

/-- Files, task states, failures and notes. -/
structure World where
  files : FileTree := {}
  states : NameMap TaskState := ∅
  failures : Mailbox := {}
  /-- The newest note first. -/
  journal : List Note := []
  deriving Inhabited

namespace World

/-- Records the state of a task. -/
def setState (w : World) (task : String) (s : TaskState) : World :=
  { w with states := w.states.insert task s }

/-- Records the same state for several tasks. -/
def setStates (w : World) (tasks : List String) (s : TaskState) : World :=
  tasks.foldl (fun w t => w.setState t s) w

/-- Sends a failure to the collector. -/
def emit (w : World) (f : Failure) : World := { w with failures := w.failures.emit f }

/-- Adds a note. -/
def note (w : World) (n : Note) : World := { w with journal := n :: w.journal }

end World

/-- A fiber on the files of a world. -/
def Fiber.onFiles {α : Type} (p : Fiber FileTree α) : Fiber World α :=
  p.onPart World.files (fun w files => { w with files })

end BlockFlow
