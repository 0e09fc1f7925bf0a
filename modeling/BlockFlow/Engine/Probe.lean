import BlockFlow.Engine.Basic

/-! # Tasks that keep notes

A probe is a task for trying out an engine.  It notes what it sees at its ports, may wait until some
number of probes has started or for some time, writes a text to its outputs, may send a failure, and
ends in the way it was told to.  Time is counted in rounds, in each of which it takes one step. -/

namespace BlockFlow

/-- What a probe does. -/
structure Probe where
  node : NodeId
  /-- How many probes must have started before it goes on. -/
  peers : Option Nat := none
  /-- How many rounds it waits then. -/
  delay : Nat := 0
  content : String
  /-- The output ports that it writes to; all of them if `none`. -/
  ports : Option (List String) := none
  /-- The failure that it sends. -/
  failure : Option String := none
  /-- The state that it ends in; it aborts the run if `none`. -/
  outcome : Option TaskState := some .succeeded

namespace Probe

/-- How many rounds a probe waits for others. -/
def patience : Nat := 3000

/-- How many probes have started. -/
def entered (w : World) : Nat :=
  (w.journal.filter (fun n => match n with | .entered _ => true | _ => false)).length

/-- Waits until `n` probes have started, for at most so many rounds; whether they have. -/
def await (n : Nat) : Nat → Fiber World Bool
  | 0 => Fiber.look (fun w => n ≤ entered w)
  | rounds + 1 => do
    if ← Fiber.look (fun w => decide (n ≤ entered w)) then return true
    await n rounds

/-- Waits for so many rounds. -/
def wait : Nat → Fiber World Unit
  | 0 => pure ()
  | rounds + 1 => do
    Fiber.idle
    wait rounds

/-- What is at the input ports. -/
def seenInputs (run : TaskRun) (w : World) : List SeenInput :=
  run.inputs.toList.map fun (port, path) =>
    ⟨port, path.map (fun p => (p, (w.files.readText p).toOption))⟩

/-- A path seen from a directory above it. -/
def relative (directory p : Path) : Path :=
  let stem := directory ++ "/"
  if stem.toList.isPrefixOf p.toList then String.ofList (p.toList.drop stem.length) else p

/-- Writes a text to each of these paths, as far as that is possible. -/
def writeEach (content : ByteArray) : List Path → Fiber World Unit
  | [] => pure ()
  | p :: ps => do
    Fiber.change (fun w => { w with files := (w.files.write p content).toOption.getD w.files })
    writeEach content ps

/-- The staging paths that a probe writes to. -/
def targets (probe : Probe) (run : TaskRun) : List Path :=
  match probe.ports with
  | none => run.outputs.values
  | some ports => ports.filterMap (fun port => run.outputs.get? port)

/-- Carries a probe out. -/
def perform (probe : Probe) (run : TaskRun) : TaskFiber TaskState := ExceptT.mk do
  Fiber.change (·.note (.entered run.name))
  let inputs ← Fiber.look (seenInputs run)
  let met ← match probe.peers with
    | none => pure none
    | some n => do
      let met ← await n patience
      pure (some met)
  Fiber.change (·.note (.saw {
    task := run.name
    inputs
    staged := run.outputs.toList.map (fun e => (e.1, relative run.scratch e.2))
    met }))
  wait probe.delay
  writeEach probe.content.toUTF8 (probe.targets run)
  match probe.failure with
  | none => pure ()
  | some text => Fiber.change (·.emit ⟨probe.node, text⟩)
  Fiber.change (·.note (.left run.name))
  match probe.outcome with
  | some s => return .ok s
  | none => return .error (.io run.name .invalidData)

end Probe

/-- The greatest number of probes that were started and had not ended, in the order of notes. -/
def Note.peak (notes : List Note) : Nat :=
  (notes.foldl (fun (now, most) n =>
    match n with
    | .entered _ => (now + 1, max most (now + 1))
    | .left _ => (now - 1, most)
    | .saw _ => (now, most)) (0, 0)).2

/-- What the tasks that kept notes saw, in the order in which they noted it. -/
def World.sightings (w : World) : List Sighting :=
  w.journal.reverse.filterMap (fun n => match n with | .saw s => some s | _ => none)

/-- A task of an engine run: compiled work, or a probe. -/
inductive TrialWork where
  | work (w : Work)
  | probe (p : Probe)

/-- Does the work of a task or carries its probe out. -/
def TrialWork.perform (launcher : Launcher) : Performer TrialWork
  | .work w, run => w.perform launcher run
  | .probe p, run => p.perform run

/-- A scheduler that carries no task out: it marks the last task as runnable and sends a failure
for its node. -/
def Scheduler.rehearsal (text : String) {β : Type} : Scheduler β := fun g _ w =>
  match g.tasks.getLast? with
  | none => (w, .ok ())
  | some t => ((w.setState t.name .runnable).emit ⟨t.node, text⟩, .ok ())

end BlockFlow
