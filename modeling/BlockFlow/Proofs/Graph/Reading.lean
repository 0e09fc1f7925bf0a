import BlockFlow.Graph.Document
import BlockFlow.Proofs.Json.Accepted
import BlockFlow.Proofs.Json.Fields

/-!
# How graphs are read from trees

The records of nodes and of graphs read each of their fields by a decoder that judges a value by
itself, and put what they have read into a place of its own. So what they read does not depend on
the blanks between the parts of a text (`Node.judged`, `Graph.judged`), nor on the order of the
members (`Node.independent`, `Graph.independent`).

## Key results

- `Node.judged`, `Graph.judged`: nodes and graphs are read part by part
- `Node.independent`, `Graph.independent`: their fields may be read in any order
- `Graph.exists_tree_of_parse`: a document is the text of a tree
-/

namespace BlockFlow

open Decoder (Local TakesTrees maxDepth)
open Json (Blanks Tree)

namespace NodeId

theorem local_decoder : Local NodeId.decoder := (Decoder.local_valueWith none).refine _

theorem takesTrees (depth : Nat) : TakesTrees (NodeId.decoder depth) :=
  (Decoder.takesTrees_valueWith none depth).refine _

end NodeId

namespace Edge

theorem local_listDecoder : Local Edge.listDecoder := (Decoder.local_valueWith none).refine _

theorem takesTrees_list (depth : Nat) : TakesTrees (Edge.listDecoder depth) :=
  (Decoder.takesTrees_valueWith none depth).refine _

end Edge

/-! ## Nodes -/

namespace Node

def kindField : Decoder.Field Node.Partial := Node.record.fields[0]

def stateField : Decoder.Field Node.Partial := Node.record.fields[1]

def inputsField : Decoder.Field Node.Partial := Node.record.fields[2]

def outputsField : Decoder.Field Node.Partial := Node.record.fields[3]

theorem fields_eq : Node.record.fields = [kindField, stateField, inputsField, outputsField] := rfl

theorem puts_kind : kindField.Puts Decoder.string fun p x => { p with kind := some x } :=
  ⟨Decoder.local_string, fun _ => rfl⟩

theorem puts_state : stateField.Puts Decoder.raw fun p x => { p with state := some x } :=
  ⟨Decoder.local_raw, fun _ => rfl⟩

theorem puts_inputs : inputsField.Puts (Decoder.object Decoder.value) fun p ms =>
    { p with inputs := some (SortedMap.ofList (ms.map fun m => (m.1, m.2.canonical))) } :=
  ⟨Decoder.local_object (Decoder.local_valueWith _), fun _ => rfl⟩

theorem puts_outputs : outputsField.Puts (Decoder.object (Decoder.list NodeId.decoder)) fun p ms =>
    { p with outputs := some (SortedMap.ofList ms) } :=
  ⟨Decoder.local_object (Decoder.local_list NodeId.local_decoder), fun _ => rfl⟩

/-- A node is read part by part. -/
theorem judged : Node.record.Judged := by
  simp only [Decoder.Record.Judged, fields_eq, List.forall_mem_cons]
  exact ⟨puts_kind.local_read, puts_state.local_read, puts_inputs.local_read,
    puts_outputs.local_read, by simp⟩

/-- The fields of a node may be read in any order. -/
theorem independent : Node.record.Independent := by
  apply Decoder.Record.independent_of_pairwise
  simp only [fields_eq, List.pairwise_cons, List.forall_mem_cons]
  have hkind : kindField.Apart stateField ∧ kindField.Apart inputsField ∧
      kindField.Apart outputsField := by
    refine ⟨puts_kind.apart puts_state ?_ ?_ ?_, puts_kind.apart puts_inputs ?_ ?_ ?_,
      puts_kind.apart puts_outputs ?_ ?_ ?_⟩ <;> intros <;> rfl
  have hstate : stateField.Apart inputsField ∧ stateField.Apart outputsField := by
    refine ⟨puts_state.apart puts_inputs ?_ ?_ ?_, puts_state.apart puts_outputs ?_ ?_ ?_⟩ <;>
      intros <;> rfl
  have hinputs : inputsField.Apart outputsField := by
    refine puts_inputs.apart puts_outputs ?_ ?_ ?_ <;> intros <;> rfl
  simp [hkind, hstate, hinputs]

theorem takesTrees (depth : Nat) : TakesTrees (Node.record.decoder depth) := by
  apply TakesTrees.record
  simp only [fields_eq, List.forall_mem_cons, List.not_mem_nil, false_implies, implies_true]
  exact ⟨puts_kind.takesTrees (Decoder.takesTrees_text _), puts_state.takesTrees
    Decoder.takesTrees_raw, puts_inputs.takesTrees (TakesTrees.object
    (Decoder.takesTrees_valueWith _)), puts_outputs.takesTrees (TakesTrees.object
    (TakesTrees.list NodeId.takesTrees)), trivial⟩

end Node

/-! ## Graphs -/

namespace Graph

def nodesField : Decoder.Field Graph.Partial := Graph.record.fields[0]

def edgesField : Decoder.Field Graph.Partial := Graph.record.fields[1]

theorem fields_eq : Graph.record.fields = [nodesField, edgesField] := rfl

theorem puts_nodes : nodesField.Puts (Decoder.object Node.record.decoder) fun p ms =>
    { p with nodes := some (SortedMap.ofList ms) } :=
  ⟨Decoder.local_object (Decoder.local_record Node.judged), fun _ => rfl⟩

theorem puts_edges : edgesField.Puts Edge.listDecoder fun p x => { p with edges := some x } :=
  ⟨Edge.local_listDecoder, fun _ => rfl⟩

/-- A graph is read part by part. -/
theorem judged : Graph.record.Judged := by
  simp only [Decoder.Record.Judged, fields_eq, List.forall_mem_cons]
  exact ⟨puts_nodes.local_read, puts_edges.local_read, by simp⟩

/-- The fields of a graph may be read in any order. -/
theorem independent : Graph.record.Independent := by
  apply Decoder.Record.independent_of_pairwise
  simp only [fields_eq, List.pairwise_cons, List.forall_mem_cons]
  exact ⟨⟨puts_nodes.apart puts_edges (fun _ _ => rfl) (fun _ _ => rfl) fun _ _ _ => rfl, by simp⟩,
    by simp⟩

theorem takesTrees (depth : Nat) : TakesTrees (Graph.record.decoder depth) := by
  apply TakesTrees.record
  simp only [fields_eq, List.forall_mem_cons, List.not_mem_nil, false_implies, implies_true]
  exact ⟨puts_nodes.takesTrees (TakesTrees.object Node.takesTrees),
    puts_edges.takesTrees Edge.takesTrees_list, trivial⟩

/-- A document in which a graph is read is the text of a tree between blanks. -/
theorem exists_tree_of_parse {s : String} {g : Graph} (h : Graph.parse s = .ok g) :
    ∃ (before : Blanks) (w : Tree) (after : Blanks),
      s = String.ofList (before.chars ++ (w.chars ++ after.chars)) :=
  (Graph.takesTrees maxDepth).exists_tree h

end Graph

end BlockFlow
