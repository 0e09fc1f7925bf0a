import BlockFlow.Task.Run

/-! # What the engine does for one task

A task runs in a directory of its own below the scratch root.  Its output ports are bound to files
in that directory, and these are moved to their published paths only if the task succeeds; an output
that is not there, or cannot be moved, stays absent.  The directory is removed at the end, however
the task ends. -/

namespace BlockFlow

/-- Does the work of a task. -/
abbrev Performer (β : Type) := β → TaskRun → TaskFiber TaskState

/-- Where the tasks of a run work, and with which shell. -/
structure RunContext where
  /-- The parent of the scratch directories. -/
  scratchRoot : Path
  shell : String
  deriving DecidableEq, Inhabited

namespace Execution

variable {β : Type}

/-- Whether a character may stand in the name of a scratch directory. -/
def isScratchChar (c : Char) : Bool := c.isAlphanum || c = '-' || c = '_'

/-- What the name of a task's scratch directory begins with. -/
def scratchStem (task : String) : String :=
  String.ofList (task.toList.map (fun c => if isScratchChar c then c else '_')) ++ "-"

/-- Where an output is staged: in the scratch directory, under the name of its published file, or
of its port if that has none. -/
def stagingPath (scratch : Path) (port : String) (published : Path) : Path :=
  Path.join scratch ((Path.fileName? published).getD port)

/-- A task bound to its input files and to staging paths in its scratch directory. -/
def bindRun (task : Task β) (inputs : NameMap (Option Path)) (scratch : Path)
    (context : RunContext) : TaskRun where
  name := task.name
  command := task.command
  inputs := inputs
  outputs := task.outputPorts.mapWithKey (stagingPath scratch)
  scratch := scratch
  shell := context.shell

/-- Moves one staged output to its published path, if it is there and can be moved. -/
def publishOne (staged published : Path) : Fiber FileTree Unit := do
  match ← Fiber.look (fun files => files.stat staged) with
  | .error .notFound => return
  -- What cannot be moved stays, and goes with the scratch directory.
  | _ => Fiber.change (fun files => (files.rename staged published).toOption.getD files)

/-- Moves the staged outputs of a task to their published paths, one after the other. -/
def publishAll (scratch : Path) : List (String × Path) → Fiber FileTree Unit
  | [] => pure ()
  | (port, published) :: rest => do
    publishOne (stagingPath scratch port published) published
    publishAll scratch rest

/-- The work of a task in its scratch directory, with the publication of its outputs. -/
def workIn (perform : Performer β) (context : RunContext) (task : Task β)
    (inputs : NameMap (Option Path)) (scratch : Path) :
    Fiber World (Except ExecutionError TaskState) := do
  let outcome ← (perform task.work (bindRun task inputs scratch context)).run
  if outcome.toOption = some .succeeded then
    (publishAll scratch task.outputPorts.toList).onFiles
  return outcome

/-- Everything the engine does for one task, from its start to the closing of its failure sink. -/
def execute (perform : Performer β) (context : RunContext) (task : Task β)
    (inputs : NameMap (Option Path)) : Fiber World (Except ExecutionError TaskState) := do
  Fiber.change (·.setState task.name .running)
  let made ← (Fiber.attempt (fun files : FileTree =>
    files.mkdirFresh context.scratchRoot (scratchStem task.name))).onFiles
  let outcome ← match made with
    | .error cause => pure (Except.error (.setup context.scratchRoot cause))
    | .ok scratch => do
      let outcome ← workIn perform context task inputs scratch
      (Fiber.change (fun files : FileTree => files.removeAll scratch)).onFiles
      pure outcome
  -- The sink closes last, after all that the task may have sent.
  Fiber.change (fun w => { w with failures := w.failures.closeSink })
  return outcome

end Execution

end BlockFlow
