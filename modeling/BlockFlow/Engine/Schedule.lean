import BlockFlow.Engine.Execution
import BlockFlow.Task.Plan

/-! # Scheduling a task graph

The engine keeps the tasks that are ready, in a queue, and the tasks in flight, each with the fiber
that is left of it.  It moves in four ways:

* `start`      the next ready task goes into flight, if fewer than the limit are there;
* `advance`    a task in flight takes one step;
* `join`       a task in flight that is done leaves; only if none can be started.  Its state is
               recorded and the tasks that waited for it alone become ready.  If it ended with an
               error, the run is over and everything in flight is abandoned;
* `receive`    the collector takes a failure, if one is on its way.

Any sequence of possible moves is a run; `BlockFlow.Engine.Run` shows that each one ends. -/

namespace BlockFlow

/-- A task in flight. -/
structure Flight where
  /-- The position of the task. -/
  index : Nat
  fiber : Fiber World (Except ExecutionError TaskState)

/-- How far a run has come. -/
structure Progress where
  /-- For every task, how many tasks it still waits for. -/
  remaining : List Nat
  /-- Tasks that can be started, the first one first. -/
  ready : List Nat
  inFlight : List Flight := []
  /-- The tasks that have been started, in order. -/
  started : List Nat := []
  /-- The tasks that have been joined, in order, with the states that they returned. -/
  completed : List (Nat × TaskState) := []
  /-- The error that has ended the run. -/
  fault : Option ExecutionError := none
  world : World

/-- A move of the engine. -/
inductive Move where
  | start
  | advance (slot : Nat)
  | join (slot : Nat)
  | receive
  deriving DecidableEq, Inhabited, Repr

/-- What does not change during a run. -/
structure Schedule (β : Type) where
  tasks : List (Task β)
  plan : Plan
  /-- How many tasks may be in flight. -/
  limit : Nat
  context : RunContext
  perform : Performer β

namespace Schedule

variable {β : Type}

/-- The name of the task at a position. -/
def taskName (s : Schedule β) (i : Nat) : String := (s.tasks[i]?.map (·.name)).getD ""

/-- The fiber of the task at a position. -/
def fiberOf? (s : Schedule β) (i : Nat) :
    Option (Fiber World (Except ExecutionError TaskState)) :=
  s.tasks[i]?.map fun task =>
    Execution.execute s.perform s.context task (s.plan.inputs[i]?.getD ∅)

/-- Whether a task can be started. -/
def canStart (s : Schedule β) (p : Progress) : Bool :=
  p.inFlight.length < s.limit && !p.ready.isEmpty

/-- The next ready task goes into flight. -/
def start? (s : Schedule β) (p : Progress) : Option Progress :=
  match p.ready with
  | [] => none
  | i :: ready =>
    if p.inFlight.length < s.limit then
      (s.fiberOf? i).map fun fiber =>
        { p with
          ready
          inFlight := p.inFlight ++ [⟨i, fiber⟩]
          started := p.started ++ [i]
          -- The sink is open from the start on, so that no failure of the task can come too late.
          world := { p.world with failures := p.world.failures.openSink } }
    else none

/-- A task in flight takes a step. -/
def advance? (p : Progress) (slot : Nat) : Option Progress :=
  match p.inFlight[slot]? with
  | some ⟨i, .step act next⟩ =>
    let r := act p.world
    some { p with inFlight := p.inFlight.set slot ⟨i, next r.2⟩, world := r.1 }
  | _ => none

/-- Records the end of the task at a position, and what it makes ready. -/
def complete (s : Schedule β) (p : Progress) (i : Nat) (state : TaskState) : Progress :=
  let (remaining, ready) := Plan.release p.remaining (s.plan.dependents[i]?.getD [])
  { p with
    remaining
    ready := p.ready ++ ready
    completed := p.completed ++ [(i, state)]
    world := (p.world.setState (s.taskName i) state).setStates (ready.map s.taskName) .runnable }

/-- Gives up everything in flight: the sinks of the tasks that are not done close. -/
def abandon (p : Progress) (e : ExecutionError) : Progress :=
  let open_ := (p.inFlight.filter (fun f => !f.fiber.isDone)).length
  let failures := p.world.failures
  { p with
    inFlight := []
    fault := some e
    world := { p.world with failures := { failures with sinks := failures.sinks - open_ } } }

/-- A task in flight that is done leaves. -/
def join? (s : Schedule β) (p : Progress) (slot : Nat) : Option Progress :=
  -- What can be started goes first.
  if s.canStart p then none
  else
    match p.inFlight[slot]? with
    | some ⟨i, .done (.ok state)⟩ =>
      some (s.complete { p with inFlight := p.inFlight.eraseIdx slot } i state)
    | some ⟨_, .done (.error e)⟩ => some (abandon p e)
    | _ => none

/-- The collector takes a failure, if there is one. -/
def receive? (p : Progress) : Option Progress :=
  if p.world.failures.queue.isEmpty then none
  else some { p with world := { p.world with failures := p.world.failures.receive } }

/-- Makes a move, if it is possible. -/
def move? (s : Schedule β) (p : Progress) (m : Move) : Option Progress :=
  if p.fault.isSome then none
  else
    match m with
    | .start => s.start? p
    | .advance slot => advance? p slot
    | .join slot => s.join? p slot
    | .receive => receive? p

/-- Whether everything has been done. -/
def isFinished (p : Progress) : Bool := p.fault.isNone && p.ready.isEmpty && p.inFlight.isEmpty

/-- Whether a run is over. -/
def isOver (p : Progress) : Bool := p.fault.isSome || isFinished p

/-- The beginning of a run: every task is pending, and those that wait for nothing are ready. -/
def begin (s : Schedule β) (w : World) : Progress :=
  let ready := Plan.readyAt s.plan.remaining
  { remaining := s.plan.remaining
    ready
    world := (w.setStates (s.tasks.map (·.name)) .pending).setStates (ready.map s.taskName)
      .runnable }

end Schedule

end BlockFlow
