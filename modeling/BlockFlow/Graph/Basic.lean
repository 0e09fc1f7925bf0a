import BlockFlow.SortedMap
import BlockFlow.Json.Basic

/-! # Graphs of blocks -/

namespace BlockFlow

/-- The name of a node within its graph. -/
abbrev NodeId := String

/-- One instance of a block. -/
structure Node where
  /-- Selects the block program. -/
  kind : String
  /-- A JSON text, kept as it was written. -/
  state : String := "null"
  /-- Only the names matter. -/
  inputs : NameMap Json := ∅
  /-- The names, with the nodes that an output goes to; these only describe. -/
  outputs : NameMap (List NodeId) := ∅
  deriving Inhabited

namespace Node

/-- The names of the inputs, in order. -/
def inputNames (n : Node) : List String := n.inputs.keys

/-- The names of the outputs, in order. -/
def outputNames (n : Node) : List String := n.outputs.keys

/-- Whether an input of this name is declared. -/
def hasInput (n : Node) (name : String) : Bool := n.inputs.contains name

/-- Whether an output of this name is declared. -/
def hasOutput (n : Node) (name : String) : Bool := n.outputs.contains name

end Node

/-- Data flows from an output of one node to an input of another. -/
structure Edge where
  source : NodeId
  output : String
  target : NodeId
  input : String
  deriving DecidableEq, Inhabited, Repr

/-- Nodes by id, and the edges between them. -/
structure Graph where
  nodes : NameMap Node := ∅
  edges : List Edge := []
  deriving Inhabited

namespace Graph

/-- The node of this id. -/
def node? (g : Graph) (id : NodeId) : Option Node := g.nodes.get? id

end Graph

end BlockFlow
