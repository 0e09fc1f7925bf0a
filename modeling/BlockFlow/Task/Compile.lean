import BlockFlow.Graph.Validation
import BlockFlow.Task.Basic
import BlockFlow.Task.Invocation

/-! # From a graph to its tasks

Every node becomes a state task and a process task.  The process task reads the state and, for each
input, the schema (in evaluating runs also the instance) that the edge into that input brings; it
writes a schema, and in evaluating runs an instance, for each output.  An input without an edge
stays a port that nothing feeds.  A graph that violates a rule is refused first.

`tasks` says so of each task by itself.  `compile` starts from tasks whose inputs nothing feeds and
wires one edge after the other; `BlockFlow.Proofs.Graph.Wiring` shows that this gives `tasks`. -/

namespace BlockFlow

namespace Graph

/-- The edge into an input. -/
def edgeInto? (g : Graph) (id : NodeId) (input : String) : Option Edge :=
  g.edges.find? (fun e => e.target = id && e.input = input)

/-- The output port, of those named by `port`, that an edge reads. -/
def sourcePort? (g : Graph) (port : String → String → String) (e : Edge) : Option PortRef :=
  (g.node? e.source).map fun source =>
    ⟨Naming.processTask e.source source.kind, port e.source e.output⟩

/-- What feeds the port of an input: the port that the edge into it reads. -/
def feed? (g : Graph) (port : String → String → String) (id : NodeId) (input : String) :
    Option PortRef :=
  (g.edgeInto? id input).bind (g.sourcePort? port)

/-- The ports of schemas, and those of instances if the mode moves them. -/
def portsFor {α : Type} (mode : Mode) (names : List String) (schema : String → α)
    (inst : String → α) : List α :=
  names.flatMap fun n => schema n :: if mode.withInstances then [inst n] else []

/-- The task that writes a node's state. -/
def stateTask (out : Path) (id : NodeId) (node : Node) : Task Work :=
  let port := Naming.stateOut id
  { name := Naming.stateTask id node.kind
    node := id
    role := .state
    command := Naming.outputPlaceholder port
    inputPorts := ∅
    outputPorts := SortedMap.ofList [(port, Naming.statePath out id node.kind)]
    work := .emit node.state }

/-- The task that runs a node's block program. -/
def processTask (g : Graph) (mode : Mode) (modules : BlockModules) (out : Path) (id : NodeId)
    (node : Node) : Task Work :=
  let statePort : PortRef := ⟨Naming.stateTask id node.kind, Naming.stateOut id⟩
  { name := Naming.processTask id node.kind
    node := id
    role := .process
    command := Invocation.command modules id node mode
    inputPorts := SortedMap.ofList ((Naming.stateIn id, some statePort) ::
      portsFor mode node.inputNames
        (fun i => (Naming.schemaIn id i, g.feed? Naming.schemaOut id i))
        (fun i => (Naming.instanceIn id i, g.feed? Naming.instanceOut id i)))
    outputPorts := SortedMap.ofList (portsFor mode node.outputNames
      (fun o => (Naming.schemaOut id o, Naming.schemaPath out id node.kind o))
      (fun o => (Naming.instanceOut id o, Naming.instancePath out id node.kind o)))
    work := .block id }

/-- The tasks of a graph, in the order of the ids. -/
def tasks (g : Graph) (mode : Mode) (modules : BlockModules) (out : Path) : List (Task Work) :=
  g.ofNodes fun id node => [stateTask out id node, g.processTask mode modules out id node]

/-! ## Wiring -/

/-- A graph with these edges in place of its own. -/
def withEdges (g : Graph) (es : List Edge) : Graph := { g with edges := es }

/-- The position of the task that runs the block program of a node. -/
def processIndex? (tasks : List (Task Work)) (id : NodeId) : Option Nat :=
  tasks.findIdx? (fun t => t.role = .process && t.node = id)

/-- What an edge from a node of this kind does to the process task of its target: the ports of the
input now read those of the output. -/
def wireTask (mode : Mode) (kind : String) (e : Edge) (t : Task Work) : Task Work :=
  let ref (port : String → String → String) : PortRef :=
    ⟨Naming.processTask e.source kind, port e.source e.output⟩
  let ports := t.inputPorts.insert (Naming.schemaIn e.target e.input) (some (ref Naming.schemaOut))
  { t with
    inputPorts :=
      if mode.withInstances then
        ports.insert (Naming.instanceIn e.target e.input) (some (ref Naming.instanceOut))
      else ports }

/-- Wires the edge at `index` into the tasks. -/
def wire (g : Graph) (mode : Mode) (tasks : List (Task Work)) (index : Nat) (e : Edge) :
    Except GraphError (List (Task Work)) :=
  match g.node? e.source, processIndex? tasks e.target with
  | none, _ => .error (.unknownNode index .source e.source)
  | some _, none => .error (.unknownNode index .target e.target)
  | some source, some i => .ok (tasks.modify i (wireTask mode source.kind e))

/-- Wires the edges from `index` on, one after the other. -/
def wireFrom (g : Graph) (mode : Mode) :
    Nat → List Edge → List (Task Work) → Except GraphError (List (Task Work))
  | _, [], tasks => .ok tasks
  | index, e :: es, tasks => do
    let tasks ← g.wire mode tasks index e
    wireFrom g mode (index + 1) es tasks

/-- The task graph of a graph, published below the directory `out`: the tasks that the graph would
have without its edges, with the edges wired in. -/
def compile (g : Graph) (mode : Mode) (config : Config) (out : Path) :
    Except GraphError (TaskGraph Work) := do
  g.validate
  -- After the check both ends of every edge are there to be wired.
  let tasks ← g.wireFrom mode 0 g.edges ((g.withEdges []).tasks mode config.modules out)
  return {
    name := mode.name
    mode
    maxConcurrency := config.maxConcurrency
    tasks }

end Graph

end BlockFlow
