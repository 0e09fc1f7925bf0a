import BlockFlow.Engine.Basic
import BlockFlow.Task.Compile

/-! # Workflows

A workflow runs graphs: it compiles a graph into tasks below an output directory, makes that
directory, hands the tasks to a scheduler, and reports which nodes have failed and how every task
has ended.

`Job.ofGraph` is the part that looks at the graph alone, `Job.run` the part that touches files. -/

namespace BlockFlow

/-- Why a run gives no report. -/
inductive WorkflowError where
  /-- The graph violates a rule; nothing has been touched. -/
  | graph (cause : GraphError)
  /-- The run was aborted. -/
  | execution (cause : ExecutionError)
  deriving DecidableEq

/-- What precedes the wording of the cause. -/
def WorkflowError.lead : WorkflowError → String
  | .graph _ => "invalid graph: "
  | .execution _ => "run aborted: "

/-- The wording of the cause. -/
def WorkflowError.causeMessage : WorkflowError → String
  | .graph cause => cause.message
  | .execution cause => cause.message

/-- The wording of an error. -/
def WorkflowError.message (e : WorkflowError) : String := e.lead ++ e.causeMessage

/-- What has come out of a run. -/
structure Report where
  mode : Mode
  /-- The nodes whose commands have failed, with the output of the commands. -/
  failures : FailureMap
  /-- How every task has ended. -/
  tasks : NameMap TaskState

/-- The tasks that were skipped. -/
def Report.skipped (r : Report) : List String :=
  (r.tasks.filter (fun _ s => s = .skipped)).keys

/-- A compiled graph and where it is to run. -/
structure Job where
  tasks : TaskGraph Work
  /-- The directory of the published files. -/
  out : Path
  context : RunContext

namespace Job

/-- The name of the scratch root in an output directory. -/
def scratchName : String := ".scratch"

/-- The job of running a graph; the output directory is seen from `directory`. -/
def ofGraph (config : Config) (directory : Path) (mode : Mode) (g : Graph) (out : Path) :
    Except WorkflowError Job :=
  match Path.absolute? directory out with
  | none => .error (.execution (.setup out .emptyPath))
  | some out =>
    match g.compile mode config out with
    | .error e => .error (.graph e)
    | .ok tasks => .ok { tasks, out, context := ⟨Path.join out scratchName, config.shell⟩ }

/-- The report on a world that a scheduler has left. -/
def report (job : Job) (w : World) : Report where
  mode := job.tasks.mode
  -- The sink that was open from the beginning is that of the run itself.
  failures := w.failures.closeSink.drain
  tasks := w.states

/-- Makes the output directory and runs the tasks. -/
def run (job : Job) (scheduler : Scheduler Work) (files : FileTree) :
    FileTree × Except WorkflowError Report :=
  match files.createDirectories job.out with
  | (files, .error cause) => (files, .error (.execution (.setup job.out cause)))
  | (files, .ok ()) =>
    match scheduler job.tasks job.context { files } with
    | (w, .error e) => (w.files, .error (.execution e))
    | (w, .ok ()) => (w.files, .ok (job.report w))

end Job

/-- Runs graphs on a scheduler. -/
structure Workflow where
  config : Config
  scheduler : Scheduler Work

namespace Workflow

/-- The workflow that carries tasks out, with the commands run by `launcher`. -/
def ofLauncher (config : Config) (launcher : Launcher) : Workflow where
  config := config
  scheduler := Engine.scheduler (Work.perform launcher)

/-- Runs a graph, with the output directory seen from `directory`. -/
def run (w : Workflow) (directory : Path) (mode : Mode) (g : Graph) (out : Path)
    (files : FileTree) : FileTree × Except WorkflowError Report :=
  match Job.ofGraph w.config directory mode g out with
  | .error e => (files, .error e)
  | .ok job => job.run w.scheduler files

/-- Runs a graph on schemas; the nodes that have failed. -/
def validate (w : Workflow) (directory : Path) (g : Graph) (out : Path) (files : FileTree) :
    FileTree × Except WorkflowError FailureMap :=
  let r := w.run directory .validate g out files
  (r.1, r.2.map (·.failures))

/-- Runs a graph on schemas and instances; the nodes that have failed. -/
def evaluate (w : Workflow) (directory : Path) (g : Graph) (out : Path) (files : FileTree) :
    FileTree × Except WorkflowError FailureMap :=
  let r := w.run directory .evaluate g out files
  (r.1, r.2.map (·.failures))

end Workflow

end BlockFlow
