import BlockFlow.Graph.Basic
import BlockFlow.Json.Decoder

/-! # Graphs built step by step

A graph grows by nodes and connections.  A node put in again replaces the earlier one; a connection
adds an edge and lists the target under the source's output, if the source is there.  A node that is
put in is itself made by calls, of which only a raw state can fail. -/

namespace BlockFlow

namespace Node

/-- A node of this kind with the state `null` and no inputs or outputs. -/
def ofKind (kind : String) : Node := { kind }

/-- Sets the state to the compact text of a value. -/
def withState (n : Node) (v : Json) : Node := { n with state := v.compact }

/-- Sets the state to a JSON text, without the blanks around it. -/
def withRawState (n : Node) (text : String) : Except JsonError Node := do
  return { n with state := ← Decoder.run Decoder.raw text }

/-- Declares an input. -/
def withInput (n : Node) (name : String) : Node :=
  { n with inputs := n.inputs.insert name .null }

/-- Declares an output; one that is declared already stays as it is. -/
def withOutput (n : Node) (name : String) : Node :=
  { n with outputs := n.outputs.insert name ((n.outputs.get? name).getD []) }

/-- Lists a node that an output goes to, once. -/
def withTarget (n : Node) (output : String) (target : NodeId) : Node :=
  let targets := (n.outputs.get? output).getD []
  let targets := if targets.contains target then targets else targets ++ [target]
  { n with outputs := n.outputs.insert output targets }

/-- A call on a node that is being made. -/
inductive Call where
  /-- Sets the state to a value. -/
  | state (v : Json)
  /-- Sets the state to a JSON text. -/
  | rawState (text : String)
  /-- Declares an input. -/
  | input (name : String)
  /-- Declares an output. -/
  | output (name : String)

/-- Carries out a call. -/
def call (n : Node) : Call → Except JsonError Node
  | .state v => .ok (n.withState v)
  | .rawState text => n.withRawState text
  | .input name => .ok (n.withInput name)
  | .output name => .ok (n.withOutput name)

/-- The node of a kind that calls make, in order. -/
def made (kind : String) (calls : List Call) : Except JsonError Node :=
  calls.foldlM call (ofKind kind)

end Node

namespace Graph

/-- A step of building a graph. -/
inductive Step where
  /-- Puts in a node. -/
  | node (id : NodeId) (n : Node)
  /-- Connects two nodes. -/
  | connect (e : Edge)

/-- Puts in a node, in place of an earlier one of this id. -/
def addNode (g : Graph) (id : NodeId) (n : Node) : Graph :=
  { g with nodes := g.nodes.insert id n }

/-- Adds an edge and lists its target under the source's output. -/
def connect (g : Graph) (e : Edge) : Graph :=
  let nodes :=
    match g.nodes.get? e.source with
    | some n => g.nodes.insert e.source (n.withTarget e.output e.target)
    | none => g.nodes
  { nodes, edges := g.edges ++ [e] }

/-- Applies a step. -/
def apply (g : Graph) : Step → Graph
  | .node id n => g.addNode id n
  | .connect e => g.connect e

/-- The graph that a list of steps builds. -/
def build (steps : List Step) : Graph := steps.foldl apply {}

/-- A call on a graph that is being made. -/
inductive Call where
  /-- Makes a node of a kind by calls, and puts it in. -/
  | node (id : NodeId) (kind : String) (calls : List Node.Call)
  /-- Connects two nodes. -/
  | connect (e : Edge)

/-- The step that a call comes to. -/
def Call.step : Call → Except JsonError Step
  | .node id kind calls => do return .node id (← Node.made kind calls)
  | .connect e => return .connect e

/-- The graph that calls make, in order. -/
def made (calls : List Call) : Except JsonError Graph := do
  return build (← calls.mapM Call.step)

end Graph

end BlockFlow
