import BlockFlow.Task.Basic
import BlockFlow.Task.Error

/-! # The plan of a run

Before anything starts, every input port is resolved to the task that produces it and to the file
that this task publishes.  From this follow, for every task, how many tasks it waits for and which
tasks wait for it.  `traverse` then takes the tasks in an order in which each comes after the tasks
that it waits for; tasks that it cannot take wait for each other, or for tasks that do.

Tasks are given by their positions in the task graph.  If several tasks have one name, the name
means the last of them. -/

namespace BlockFlow

namespace TaskGraph

variable {β : Type}

/-- The position of the last task of this name, in a list of tasks that starts at a position. -/
def lastIndexFrom? (name : String) : Nat → List (Task β) → Option Nat
  | _, [] => none
  | i, t :: ts => (lastIndexFrom? name (i + 1) ts).or (if t.name = name then some i else none)

/-- The position of the last task of this name. -/
def lastIndex? (g : TaskGraph β) (name : String) : Option Nat := lastIndexFrom? name 0 g.tasks

/-- The task that produces a port, and the file that the port is published as. -/
def resolve? (g : TaskGraph β) (ref : PortRef) : Option (Nat × Path) := do
  let i ← g.lastIndex? ref.task
  let t ← g.tasks[i]?
  let path ← t.outputPorts.get? ref.port
  return (i, path)

/-- An input port with its producer and the file that it reads, if something feeds it. -/
structure BoundPort where
  port : String
  source : Option (Nat × Path)
  deriving DecidableEq, Inhabited

/-- Resolves one input port of a task. -/
def bindPort (g : TaskGraph β) (task : String) (port : String) :
    Option PortRef → Except ExecutionError BoundPort
  | none => .ok ⟨port, none⟩
  | some ref =>
    match g.resolve? ref with
    | some source => .ok ⟨port, some source⟩
    | none => .error (.unresolvedPort task port)

/-- Resolves the input ports of a task. -/
def bindTask (g : TaskGraph β) (t : Task β) : Except ExecutionError (List BoundPort) :=
  t.inputPorts.toList.mapM (fun e => g.bindPort t.name e.1 e.2)

/-- Resolves the input ports of all tasks. -/
def bindAll (g : TaskGraph β) : Except ExecutionError (List (List BoundPort)) :=
  g.tasks.mapM g.bindTask

end TaskGraph

open TaskGraph (BoundPort)

/-- How the tasks of a graph depend on each other.  The lists have one element per task. -/
structure Plan where
  /-- The tasks that wait for a task, in ascending order. -/
  dependents : List (List Nat)
  /-- How many tasks a task waits for. -/
  remaining : List Nat
  /-- The file at each input port. -/
  inputs : List (NameMap (Option Path))
  /-- The tasks in an order in which each comes after those that it waits for. -/
  order : List Nat
  deriving DecidableEq, Inhabited

namespace Plan

/-- The tasks that the ports of a task are produced by, each once. -/
def producersOf (ports : List BoundPort) : List Nat :=
  (ports.filterMap (fun p => p.source.map (·.1))).eraseDups

/-- The tasks that wait for the task at a position, given the producers of every task. -/
def dependentsOf (producers : List (List Nat)) (i : Nat) : List Nat :=
  (List.range producers.length).filter (fun j => (producers[j]?.getD []).contains i)

/-- The files at the ports of a task. -/
def inputsOf (ports : List BoundPort) : NameMap (Option Path) :=
  SortedMap.ofList (ports.map (fun p => (p.port, p.source.map (·.2))))

/-- The sum of counts. -/
def total : List Nat → Nat
  | [] => 0
  | c :: cs => c + total cs

theorem total_set_pred_le (counts : List Nat) (d : Nat) :
    total (counts.set d (counts[d]?.getD 0 - 1)) + (if counts[d]?.getD 0 = 1 then 1 else 0) ≤
      total counts := by
  induction counts generalizing d with
  | nil => simp
  | cons c cs ih =>
    cases d with
    | zero => simp [total]; split <;> omega
    | succ d => have := ih d; simp [total] at this ⊢; omega

/-- Counts a finished producer down for each task of a list.  Returns the new counts and the tasks
whose count has come to zero, in the order of the list. -/
def release : List Nat → List Nat → List Nat × List Nat
  | counts, [] => (counts, [])
  | counts, d :: ds =>
    let left := counts[d]?.getD 0
    let (final, ready) := release (counts.set d (left - 1)) ds
    (final, if left = 1 then d :: ready else ready)

/-- What is counted down covers what becomes ready. -/
theorem total_release_le (counts ds : List Nat) :
    total (release counts ds).1 + (release counts ds).2.length ≤ total counts := by
  induction ds generalizing counts with
  | nil => simp [release]
  | cons d ds ih =>
    have h := ih (counts.set d (counts[d]?.getD 0 - 1))
    have hset := total_set_pred_le counts d
    simp only [release]
    split
    · next hone => simp only [hone] at hset h ⊢; simp at hset h ⊢; omega
    · omega

/-- The positions whose count is zero. -/
def readyAt (counts : List Nat) : List Nat :=
  (List.range counts.length).filter (fun i => counts[i]? = some 0)

/-- Takes tasks from a queue, at most so many, and queues those that then wait for nothing more.
Returns the tasks in the order in which they were taken, and the counts at the end. -/
def traverse (dependents : List (List Nat)) : Nat → List Nat → List Nat → List Nat × List Nat
  | 0, counts, _ => ([], counts)
  | _ + 1, counts, [] => ([], counts)
  | fuel + 1, counts, i :: queue =>
    let (counts, ready) := release counts (dependents[i]?.getD [])
    let (order, final) := traverse dependents fuel counts (queue ++ ready)
    (i :: order, final)

/-- The positions whose count is not zero. -/
def stuckAt (counts : List Nat) : List Nat :=
  (List.range counts.length).filter (fun i => counts[i]? ≠ some 0)

end Plan

/-- The plan of a task graph. -/
def TaskGraph.plan {β : Type} (g : TaskGraph β) : Except ExecutionError Plan := do
  let bound ← g.bindAll
  let producers := bound.map Plan.producersOf
  let dependents := (List.range bound.length).map (Plan.dependentsOf producers)
  let remaining := producers.map List.length
  let (order, final) :=
    Plan.traverse dependents bound.length remaining (Plan.readyAt remaining)
  -- What has not been taken waits for itself, or for a task that does.
  if order.length < bound.length then
    throw (.cycle ((Plan.stuckAt final).filterMap (fun i => g.tasks[i]?.map (·.name))))
  return { dependents, remaining, inputs := bound.map Plan.inputsOf, order }

end BlockFlow
