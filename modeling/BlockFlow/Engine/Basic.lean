import BlockFlow.Engine.Run

/-! # Running a task graph

A run is planned, gets its scratch root, and is scheduled; at the end the scratch root is removed if
nothing is left in it.  A `Scheduler` is anything that runs a task graph in a world;
`Engine.scheduler` is the one that carries the tasks out. -/

namespace BlockFlow

/-- How a run of a task graph ends. -/
abbrev RunResult := Except ExecutionError Unit

/-- Runs a task graph in a world. -/
abbrev Scheduler (β : Type) := TaskGraph β → RunContext → World → World × RunResult

namespace Engine

variable {β : Type}

/-- The number of tasks that may be in flight, which is at least one. -/
def limitOf (g : TaskGraph β) : Nat := max g.maxConcurrency 1

/-- The schedule of a task graph with its plan. -/
def schedule (perform : Performer β) (g : TaskGraph β) (context : RunContext) (plan : Plan) :
    Schedule β where
  tasks := g.tasks
  plan := plan
  limit := limitOf g
  context := context
  perform := perform

/-- Makes the scratch root. -/
def prepare (context : RunContext) (w : World) : World × RunResult :=
  match w.files.createDirectories context.scratchRoot with
  | (files, .ok ()) => ({ w with files }, .ok ())
  | (files, .error cause) => ({ w with files }, .error (.setup context.scratchRoot cause))

/-- Removes the scratch root, if it is empty. -/
def cleanUp (context : RunContext) (w : World) : World :=
  { w with files := (w.files.rmdir context.scratchRoot).toOption.getD w.files }

/-- What follows from how far a run has come when it is over. -/
def conclude (context : RunContext) (p : Progress) : World × RunResult :=
  match p.fault with
  | some e => (p.world, .error e)
  | none => (cleanUp context p.world, .ok ())

/-- Plans a task graph and carries its tasks out. -/
def scheduler (perform : Performer β) : Scheduler β := fun g context w =>
  match g.plan with
  | .error e => (w, .error e)
  | .ok plan =>
    match prepare context w with
    | (w, .error e) => (w, .error e)
    | (w, .ok ()) =>
      let s := schedule perform g context plan
      conclude context (s.run (Schedule.fairPolicy s.limit) 0 (s.begin w))

end Engine

end BlockFlow
