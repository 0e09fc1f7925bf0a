import BlockFlow.Graph.Basic
import BlockFlow.Naming

/-! # Checking a graph before it is compiled

The rules, in the order in which they are checked:

1. no id, kind, input or output name contains a reserved character;
2. both ends of every edge exist, the source declares the edge's output, the target declares the
   edge's input, and no input has two edges;
3. no task name, no port name and no file name is made twice.

`Graph.fault?` is the first violation, and `Graph.validate` turns it into an error. -/

namespace BlockFlow

/-- One end of an edge. -/
inductive Side where
  | source
  | target
  deriving DecidableEq, Inhabited, Repr

/-- What a name is the name of. -/
inductive NameRole where
  | nodeId
  | nodeKind
  | input
  | output
  deriving DecidableEq, Inhabited, Repr

/-- Why a graph is refused. -/
inductive GraphError where
  | unknownNode (edge : Nat) (side : Side) (id : NodeId)
  | unknownOutput (edge : Nat) (id : NodeId) (output : String)
  | unknownInput (edge : Nat) (id : NodeId) (input : String)
  | duplicateInput (id : NodeId) (input : String)
  | taskNameCollision (name : String)
  | portCollision (port : String)
  | outputCollision (file : String)
  | reservedCharacter (role : NameRole) (name : String)
  deriving DecidableEq, Inhabited, Repr

/-- The name of a side. -/
def Side.name : Side → String
  | .source => "source"
  | .target => "target"

/-- What a name is called in messages. -/
def NameRole.name : NameRole → String
  | .nodeId => "node id"
  | .nodeKind => "node kind"
  | .input => "input name"
  | .output => "output name"

/-- The wording of an error. -/
def GraphError.message : GraphError → String
  | .unknownNode edge side id =>
    "edge " ++ toString edge ++ ": " ++ side.name ++ " node '" ++ id ++ "' does not exist"
  | .unknownOutput edge id output =>
    "edge " ++ toString edge ++ ": node '" ++ id ++ "' has no output named '" ++ output ++ "'"
  | .unknownInput edge id input =>
    "edge " ++ toString edge ++ ": node '" ++ id ++ "' has no input named '" ++ input ++ "'"
  | .duplicateInput id input =>
    "input '" ++ input ++ "' of node '" ++ id ++ "' has more than one incoming edge"
  | .taskNameCollision name => "task name '" ++ name ++ "' is produced by more than one node"
  | .portCollision port => "port name '" ++ port ++ "' is produced by more than one node"
  | .outputCollision file => "output file '" ++ file ++ "' is published by more than one node"
  | .reservedCharacter role name =>
    role.name ++ " '" ++ name ++ "' contains a reserved character ('/', '\x7d' or NUL)"

/-! ## Names -/

/-- Characters that cannot stand in a file name or in a placeholder. -/
def isReserved (c : Char) : Bool := c = '/' || c = '}' || c = '\x00'

/-- Whether a name contains a reserved character. -/
def hasReserved (name : String) : Bool := name.toList.any isReserved

/-- The names that a node brings with it. -/
def Node.givenNames (id : NodeId) (n : Node) : List (NameRole × String) :=
  (.nodeId, id) :: (.nodeKind, n.kind) ::
    (n.inputNames.map (NameRole.input, ·) ++ n.outputNames.map (NameRole.output, ·))

/-- The names of a node's tasks. -/
def Node.taskNames (id : NodeId) (n : Node) : List String :=
  [Naming.processTask id n.kind, Naming.stateTask id n.kind]

/-- The names of a node's ports, in either mode. -/
def Node.portNames (id : NodeId) (n : Node) : List String :=
  Naming.stateIn id :: Naming.stateOut id ::
    (n.inputNames.flatMap (fun i => [Naming.schemaIn id i, Naming.instanceIn id i]) ++
      n.outputNames.flatMap (fun o => [Naming.schemaOut id o, Naming.instanceOut id o]))

/-- The names of the files that a node publishes, in either mode. -/
def Node.fileNames (id : NodeId) (n : Node) : List String :=
  Naming.stateFile id n.kind ::
    n.outputNames.flatMap
      (fun o => [Naming.schemaFile id n.kind o, Naming.instanceFile id n.kind o])

namespace Graph

/-- Something of every node, in the order of the ids. -/
def ofNodes {α : Type} (g : Graph) (f : NodeId → Node → List α) : List α :=
  g.nodes.toList.flatMap (fun e => f e.1 e.2)

/-- The first name with a reserved character. -/
def nameFault? (g : Graph) : Option GraphError :=
  (g.ofNodes Node.givenNames).findSome? fun (role, name) =>
    if hasReserved name then some (.reservedCharacter role name) else none

/-! ## Edges -/

/-- What is wrong with the edge at `index`, after the edges `earlier`. -/
def faultOfEdge? (g : Graph) (earlier : List Edge) (index : Nat) (e : Edge) : Option GraphError :=
  match g.node? e.source, g.node? e.target with
  | none, _ => some (.unknownNode index .source e.source)
  | some _, none => some (.unknownNode index .target e.target)
  | some source, some target =>
    if !source.hasOutput e.output then some (.unknownOutput index e.source e.output)
    else if !target.hasInput e.input then some (.unknownInput index e.target e.input)
    else if earlier.any (fun d => d.target = e.target && d.input = e.input) then
      some (.duplicateInput e.target e.input)
    else none

/-- The first fault of the edges from `index` on, after the edges `earlier`. -/
def edgeFaultFrom? (g : Graph) : List Edge → Nat → List Edge → Option GraphError
  | _, _, [] => none
  | earlier, index, e :: es =>
    match g.faultOfEdge? earlier index e with
    | some fault => some fault
    | none => edgeFaultFrom? g (e :: earlier) (index + 1) es

/-- The first fault of an edge. -/
def edgeFault? (g : Graph) : Option GraphError := g.edgeFaultFrom? [] 0 g.edges

/-! ## Collisions -/

/-- The first element that is equal to an earlier one or to one of `seen`. -/
def firstRepeat? (seen : List String) : List String → Option String
  | [] => none
  | x :: xs => if seen.contains x then some x else firstRepeat? (x :: seen) xs

/-- The first name of a task, port or file that is made twice. -/
def collision? (g : Graph) : Option GraphError :=
  ((firstRepeat? [] (g.ofNodes Node.taskNames)).map GraphError.taskNameCollision).or
    (((firstRepeat? [] (g.ofNodes Node.portNames)).map GraphError.portCollision).or
      ((firstRepeat? [] (g.ofNodes Node.fileNames)).map GraphError.outputCollision))

/-! ## The whole check -/

/-- The first violation of a rule. -/
def fault? (g : Graph) : Option GraphError :=
  g.nameFault?.or (g.edgeFault?.or g.collision?)

/-- Refuses a graph that violates a rule. -/
def validate (g : Graph) : Except GraphError Unit :=
  match g.fault? with
  | some fault => .error fault
  | none => .ok ()

end Graph

end BlockFlow
