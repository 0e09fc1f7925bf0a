import BlockFlow.Proofs.Graph.Reading

/-!
# States are kept as they are written

The state of a node is the text of its `State` value in the document, from the first character to
the last. The value may nest as deep as it likes, since it is passed over and not decoded.

## Key results

- `Graph.state_of_parse`: the states of a graph are texts of its document
-/

namespace BlockFlow

open Decoder (maxDepth)
open Json (Blanks Tree)

/-- The state of a node is the text that was read for it. -/
theorem Node.holds_state :
    Node.record.Holds "State" 1 (·.state) fun _ v => some (String.ofList v.chars) where
  start := rfl
  names := by decide
  named := rfl
  read := by
    simp only [Node.fields_eq, List.forall_mem_cons]
    refine ⟨fun h => absurd h (by decide), fun _ s s' depth v hread => ?_,
      fun h => absurd h (by decide), fun h => absurd h (by decide), by simp⟩
    rw [puts_state.tree_read, Decoder.read_raw] at hread
    obtain rfl := Option.some.inj hread
    exact ⟨_, rfl, rfl⟩
  others := by
    simp only [Node.fields_eq, List.forall_mem_cons]
    exact ⟨fun _ _ _ _ _ => puts_kind.keeps fun _ _ => rfl, fun h => absurd rfl h,
      fun _ _ _ _ _ => puts_inputs.keeps fun _ _ => rfl,
      fun _ _ _ _ _ => puts_outputs.keeps fun _ _ => rfl, by simp⟩

/-- The state of a node is the text of its `State` value. -/
theorem Node.state_of_read {w : Tree} {depth : Nat} {n : Node}
    (h : w.read Node.record.decoder (depth + 1) = some n) :
    n.state = ((w.field? "State" 1).map fun v => String.ofList v.chars).getD "null" := by
  obtain ⟨p, hfinish, hstate⟩ := Node.holds_state.of_read Node.judged h
  have hn : n.state = p.state.getD "null" := by
    simp only [Node.record] at hfinish
    cases hkind : p.kind with
    | none => rw [hkind] at hfinish; cases hfinish
    | some kind =>
      rw [hkind] at hfinish
      obtain rfl := Except.ok.inj hfinish
      rfl
  rw [hn]
  -- Without a field the state is null; else it is the text of the field as it stands.
  cases hfield : w.field? "State" 1 with
  | none =>
    rw [hfield] at hstate
    rw [show p.state = none from hstate]
    rfl
  | some v =>
    rw [hfield] at hstate
    obtain ⟨text, htext, hstate⟩ := hstate
    rw [show p.state = some text from hstate, ← htext]
    rfl

/-- The nodes of a graph are those of the object that was read for them. -/
theorem Graph.holds_nodes : Graph.record.Holds "Nodes" 0 (·.nodes) fun depth v =>
    (v.read (Decoder.object Node.record.decoder) depth).map SortedMap.ofList where
  start := rfl
  names := by decide
  named := rfl
  read := by
    simp only [Graph.fields_eq, List.forall_mem_cons]
    refine ⟨fun _ s s' depth v hread => ?_, fun h => absurd h (by decide), by simp⟩
    rw [puts_nodes.tree_read] at hread
    obtain ⟨ms, hms, rfl⟩ := Option.map_eq_some_iff.1 hread
    exact ⟨_, by rw [hms]; rfl, rfl⟩
  others := by
    simp only [Graph.fields_eq, List.forall_mem_cons]
    exact ⟨fun h => absurd rfl h, fun _ _ _ _ _ => puts_edges.keeps fun _ _ => rfl, by simp⟩

namespace Graph

/-- The `State` value of a node in a document: that of the last node of this id. -/
def stateTree? (w : Tree) (id : NodeId) : Option Tree := do
  let nodes ← w.field? "Nodes" 0
  let node ← nodes.member? id
  node.field? "State" 1

/-- The text of the `State` value of a node in a document, `null` if it has none. -/
def stateText (w : Tree) (id : NodeId) : String :=
  ((stateTree? w id).map fun v => String.ofList v.chars).getD "null"

theorem infix_of_stateTree? {w v : Tree} {id : NodeId} (h : stateTree? w id = some v) :
    v.chars <:+: w.chars := by
  obtain ⟨nodes, hnodes, h⟩ := Option.bind_eq_some_iff.1 h
  obtain ⟨node, hnode, h⟩ := Option.bind_eq_some_iff.1 h
  exact ((Tree.infix_of_field? h).trans (Tree.infix_of_member? hnode)).trans
    (Tree.infix_of_field? hnodes)

/-- The states of a graph are texts of the tree that it was read from. -/
theorem state_of_read {w : Tree} {depth : Nat} {g : Graph}
    (h : w.read Graph.record.decoder (depth + 3) = some g) {id : NodeId} {n : Node}
    (hn : g.node? id = some n) : n.state = stateText w id := by
  obtain ⟨p, hp, hnodes⟩ := Graph.holds_nodes.of_read Graph.judged h
  obtain rfl := Except.ok.inj hp
  cases hfield : w.field? "Nodes" 0 with
  | none =>
    rw [hfield] at hnodes
    simp [Graph.node?, show p.nodes = none from hnodes] at hn
  -- The text is looked up in the member that the node has been read from.
  | some nodes =>
    rw [hfield] at hnodes
    obtain ⟨m, hm, hnodes⟩ := hnodes
    obtain ⟨ms, hms, rfl⟩ := Option.map_eq_some_iff.1 hm
    simp only [Graph.node?, show p.nodes = _ from hnodes, Option.getD_some] at hn
    obtain ⟨node, hnode, hread⟩ := Decoder.get?_of_read (Decoder.local_record Node.judged) hms hn
    rw [Node.state_of_read hread, stateText, stateTree?, hfield, Option.bind_eq_bind,
      Option.bind_some, hnode]
    rfl

/-- The states of a graph are texts of its document. -/
theorem state_of_parse {s : String} {g : Graph} (h : parse s = .ok g) {before after : Blanks}
    {w : Tree} (hs : s = String.ofList (before.chars ++ (w.chars ++ after.chars))) {id : NodeId}
    {n : Node} (hn : g.node? id = some n) : n.state = stateText w id := by
  have hread := Decoder.run_tree (Decoder.local_record Graph.judged) before w after
  rw [← hs, show Decoder.run Graph.record.decoder s = .ok g from h] at hread
  exact state_of_read hread.symm hn

end Graph

end BlockFlow
