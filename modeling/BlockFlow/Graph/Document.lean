import BlockFlow.Graph.Basic
import BlockFlow.Json.Decoder

/-! # Graph documents

A graph is read from JSON in the conventions that documents have used over time: ids are strings or
unsigned integers, and edges are a list or an object whose names order them.  States are not
decoded; ids and edges are decoded whole before they are judged, so within them any fault of shape
is the same error. -/

namespace BlockFlow

open Decoder (Field Record)

/-! ## Ids -/

/-- The id that a value names. -/
def NodeId.ofJson? : Json → Option NodeId
  | .str s => some s
  | .num (.int n) => if 0 ≤ n then some (toString n) else none
  | _ => none

/-- Reads an id. -/
def NodeId.decoder : Decoder NodeId :=
  Decoder.refine Decoder.verbatim fun v =>
    match NodeId.ofJson? v with
    | some id => .ok id
    | none => .error (.noMatchingVariant "RawId")

/-! ## Edges -/

/-- One end of an edge as far as it is read. -/
structure Edge.PartialEnd where
  id : Option NodeId := none
  port : Option String := none

/-- Reads one end of an edge, in which the output or input is called `port`. -/
def Edge.endRecord (title port : String) : Record Edge.PartialEnd (NodeId × String) where
  title := title
  fields := [
    ⟨"ID", true, (·.id.isSome),
      fun p d cs => do
        let (x, rest) ← NodeId.decoder d cs
        return ({ p with id := some x }, rest)⟩,
    ⟨port, true, (·.port.isSome),
      fun p d cs => do
        let (x, rest) ← Decoder.string d cs
        return ({ p with port := some x }, rest)⟩]
  start := {}
  finish p := do
    let some id := p.id | throw (.missingField "ID")
    let some name := p.port | throw (.missingField port)
    return (id, name)

/-- An edge as far as it is read. -/
structure Edge.Partial where
  source : Option (NodeId × String) := none
  target : Option (NodeId × String) := none

/-- Reads an edge. -/
def Edge.record : Record Edge.Partial Edge where
  title := "struct Edge"
  fields := [
    ⟨"Source", true, (·.source.isSome),
      fun p d cs => do
        let (x, rest) ← (Edge.endRecord "struct EdgeSource" "Output").decoder d cs
        return ({ p with source := some x }, rest)⟩,
    ⟨"Target", true, (·.target.isSome),
      fun p d cs => do
        let (x, rest) ← (Edge.endRecord "struct EdgeTarget" "Input").decoder d cs
        return ({ p with target := some x }, rest)⟩]
  start := {}
  finish p := do
    let some (source, output) := p.source | throw (.missingField "Source")
    let some (target, input) := p.target | throw (.missingField "Target")
    return { source, output, target, input }

/-- The values of the fields of a record that is decoded already: an object that has each of the
names once, or a list with as many items. -/
def Json.fields? (names : List String) : Json → Option (List Json)
  | .arr items => if items.length = names.length then some items else none
  | .obj members =>
    names.mapM fun name =>
      match members.filter (fun m => m.1 = name) with
      | [m] => some m.2
      | _ => none
  | _ => none

/-- The end of an edge that a value describes. -/
def Edge.endOfJson? (port : String) (v : Json) : Option (NodeId × String) :=
  match v.fields? ["ID", port] with
  | some [id, .str name] => (NodeId.ofJson? id).map (·, name)
  | _ => none

/-- The edge that a value describes. -/
def Edge.ofJson? (v : Json) : Option Edge :=
  match v.fields? ["Source", "Target"] with
  | some [source, target] => do
    let (source, output) ← endOfJson? "Output" source
    let (target, input) ← endOfJson? "Input" target
    return { source, output, target, input }
  | _ => none

/-- The edges that a value describes: a list, or an object in the order of its names. -/
def Edge.listOfJson? : Json → Option (List Edge)
  | .arr items => items.mapM Edge.ofJson?
  | .obj members => do
    let edges ← members.mapM fun m => (Edge.ofJson? m.2).map (m.1, ·)
    -- The names order the edges, and of two edges with one name the last counts.
    return (SortedMap.ofList edges).values
  | _ => none

/-- Reads the edges of a graph. -/
def Edge.listDecoder : Decoder (List Edge) :=
  Decoder.refine Decoder.verbatim fun v =>
    match Edge.listOfJson? v with
    | some edges => .ok edges
    | none => .error (.noMatchingVariant "EdgeSet")

/-! ## Nodes and graphs -/

/-- A node as far as it is read. -/
structure Node.Partial where
  kind : Option String := none
  state : Option String := none
  inputs : Option (NameMap Json) := none
  outputs : Option (NameMap (List NodeId)) := none

/-- Reads a node. -/
def Node.record : Record Node.Partial Node where
  title := "struct Node"
  fields := [
    ⟨"Kind", true, (·.kind.isSome),
      fun p d cs => do
        let (x, rest) ← Decoder.string d cs
        return ({ p with kind := some x }, rest)⟩,
    ⟨"State", false, (·.state.isSome),
      fun p d cs => do
        let (x, rest) ← Decoder.raw d cs
        return ({ p with state := some x }, rest)⟩,
    ⟨"Inputs", false, (·.inputs.isSome),
      fun p d cs => do
        let (ms, rest) ← Decoder.object Decoder.value d cs
        -- Of members with one name the last counts, also within the values.
        let inputs := SortedMap.ofList (ms.map (fun m => (m.1, m.2.canonical)))
        return ({ p with inputs := some inputs }, rest)⟩,
    ⟨"Outputs", false, (·.outputs.isSome),
      fun p d cs => do
        let (ms, rest) ← Decoder.object (Decoder.list NodeId.decoder) d cs
        return ({ p with outputs := some (SortedMap.ofList ms) }, rest)⟩]
  start := {}
  finish p := do
    let some kind := p.kind | throw (.missingField "Kind")
    return {
      kind
      state := p.state.getD "null"
      inputs := p.inputs.getD ∅
      outputs := p.outputs.getD ∅ }

/-- A graph as far as it is read. -/
structure Graph.Partial where
  nodes : Option (NameMap Node) := none
  edges : Option (List Edge) := none

/-- Reads a graph. -/
def Graph.record : Record Graph.Partial Graph where
  title := "struct Graph"
  fields := [
    ⟨"Nodes", false, (·.nodes.isSome),
      fun p d cs => do
        let (ms, rest) ← Decoder.object Node.record.decoder d cs
        return ({ p with nodes := some (SortedMap.ofList ms) }, rest)⟩,
    ⟨"Edges", false, (·.edges.isSome),
      fun p d cs => do
        let (x, rest) ← Edge.listDecoder d cs
        return ({ p with edges := some x }, rest)⟩]
  start := {}
  finish p := .ok { nodes := p.nodes.getD ∅, edges := p.edges.getD [] }

/-- The graph in a JSON text. -/
def Graph.parse (text : String) : Except JsonError Graph := Decoder.run Graph.record.decoder text

/-! ## Writing -/

/-- The compact text of an edge. -/
def Edge.chars (e : Edge) : List Char :=
  Json.chars (.obj [
    ("Source", .obj [("ID", .str e.source), ("Output", .str e.output)]),
    ("Target", .obj [("ID", .str e.target), ("Input", .str e.input)])])

/-- The compact text of a node, its state as it stands. -/
def Node.chars (n : Node) : List Char :=
  Json.objectChars [
    ("Kind", Json.quoteChars n.kind),
    ("State", n.state.toList),
    ("Inputs", Json.objectChars (n.inputs.toList.map (fun e => (e.1, e.2.chars)))),
    ("Outputs", Json.objectChars
      (n.outputs.toList.map (fun e => (e.1, Json.arrayChars (e.2.map Json.quoteChars)))))]

/-- The compact text of a graph, its edges as a list. -/
def Graph.chars (g : Graph) : List Char :=
  Json.objectChars [
    ("Nodes", Json.objectChars (g.nodes.toList.map (fun e => (e.1, e.2.chars)))),
    ("Edges", Json.arrayChars (g.edges.map Edge.chars))]

/-- The compact text of an edge. -/
def Edge.compact (e : Edge) : String := String.ofList e.chars

/-- The compact text of a node. -/
def Node.compact (n : Node) : String := String.ofList n.chars

/-- The compact text of a graph. -/
def Graph.compact (g : Graph) : String := String.ofList g.chars

end BlockFlow
