import BlockFlow.Engine.World
import BlockFlow.Task.Error
import BlockFlow.Task.Template
import BlockFlow.Text.Utf8

/-! # Running one task

A `TaskRun` is a task whose ports are bound to files.  A compiled task either emits a text to all
its outputs, or runs its command through a shell.  A command is run only if a regular file stands
at every input port; otherwise the task is skipped.  A command that does not succeed is reported as
a failure of the node. -/

namespace BlockFlow

/-- A task with every port bound to a path. -/
structure TaskRun where
  name : String
  command : String
  /-- The published file at each input port; `none` for a port that nothing feeds. -/
  inputs : NameMap (Option Path)
  /-- The staging path of each output port. -/
  outputs : NameMap Path
  /-- A private directory, removed when the task ends. -/
  scratch : Path
  shell : String

/-- A computation on files that can abort the run. -/
abbrev FileFiber := ExceptT ExecutionError (Fiber FileTree)

/-- A computation of a task, which can abort the run. -/
abbrev TaskFiber := ExceptT ExecutionError (Fiber World)

/-- A computation on files as part of a task. -/
def FileFiber.onWorld {α : Type} (p : FileFiber α) : TaskFiber α := ExceptT.mk p.run.onFiles

/-- A command to be run in a directory by a shell. -/
structure Launch where
  shell : String
  command : String
  directory : Path

/-- How a command has ended. -/
structure CommandResult where
  /-- Whether its exit status was zero. -/
  succeeded : Bool
  /-- What it wrote. -/
  output : ByteArray

/-- Runs commands.  The error is that of a shell that cannot be started. -/
abbrev Launcher := Launch → Fiber FileTree (Except FileError CommandResult)

namespace TaskRun

/-- The input ports, of those listed, at which no regular file stands.  A path that cannot be
looked at aborts the run, unless it just does not exist. -/
def missingFrom (task : String) : List (String × Option Path) → FileFiber (List String)
  | [] => pure []
  | (port, none) :: rest => do return port :: (← missingFrom task rest)
  | (port, some path) :: rest => do
    match ← ExceptT.lift (Fiber.look (fun files => files.stat path)) with
    | .ok (.file _) => missingFrom task rest
    | .ok _ | .error .notFound => return port :: (← missingFrom task rest)
    | .error e => throw (.io task e)

/-- The input ports at which no regular file stands. -/
def missingInputs (run : TaskRun) : FileFiber (List String) :=
  missingFrom run.name run.inputs.toList

/-- The files that the command is filled with. -/
def binding (run : TaskRun) : Template.Binding := { inputs := run.inputs, outputs := run.outputs }

/-- The command with every placeholder filled. -/
def renderCommand (run : TaskRun) : Except ExecutionError String :=
  match Template.render run.binding run.command with
  | .ok command => .ok command
  | .error placeholder => .error (.unresolvedPlaceholder run.name placeholder)

/-- Writes a text to each of these paths. -/
def writeAll (task : String) (content : ByteArray) : List Path → FileFiber Unit
  | [] => pure ()
  | p :: ps => do
    let write (files : FileTree) := (files.write p content).map (·, ())
    match ← ExceptT.lift (Fiber.attempt write) with
    | .ok () => writeAll task content ps
    | .error e => throw (.io task e)

/-- Writes a text to every output. -/
def emitText (run : TaskRun) (content : String) : TaskFiber TaskState := do
  (writeAll run.name content.toUTF8 run.outputs.values).onWorld
  return .succeeded

/-- Runs the command on behalf of a node. -/
def runBlock (launcher : Launcher) (run : TaskRun) (node : NodeId) : TaskFiber TaskState := do
  if !(← run.missingInputs.onWorld).isEmpty then
    return .skipped
  let command ← run.renderCommand
  match ← ExceptT.lift (launcher ⟨run.shell, command, run.scratch⟩).onFiles with
  | .error e => throw (.spawn run.name e)
  | .ok result =>
    if result.succeeded then
      return .succeeded
    else
      ExceptT.lift (Fiber.change (·.emit ⟨node, Text.lossy result.output⟩))
      return .failed

end TaskRun

/-- Does the work of a compiled task. -/
def Work.perform (launcher : Launcher) (work : Work) (run : TaskRun) : TaskFiber TaskState :=
  match work with
  | .emit content => run.emitText content
  | .block node => run.runBlock launcher node

end BlockFlow
