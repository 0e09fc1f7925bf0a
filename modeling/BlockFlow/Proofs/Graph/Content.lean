import BlockFlow.Graph.Builder
import BlockFlow.Proofs.Graph.Rules
import BlockFlow.Proofs.Graph.Wiring

/-!
# What the tasks of a graph depend on

Of a node only its id, kind and state count, and the names of its inputs and outputs; the values
of the inputs and the targets of the outputs describe and decide nothing. Of the edges only counts
which ones there are. In a graph that keeps to the rules an input has one edge at most, so a search
for the edge into it finds the same one wherever the edge stands in the list.

## Key results

- `Graph.SameContent.lawful`: the rules look at nothing else
- `Graph.SameContent.edgeInto?_eq`: the order of the edges does not decide which edge feeds an input
- `Graph.compile_of_sameContent`: graphs of the same content are compiled to the same task graph,
  or are both refused
-/

namespace BlockFlow

/-! ## What counts of a node -/

/-- What counts of a node: the names of its inputs and outputs are there, but not what stands
behind these names. -/
structure Node.Content where
  kind : String
  state : String
  inputNames : List String
  outputNames : List String
  deriving DecidableEq

/-- The part of a node that counts. -/
def Node.content (n : Node) : Node.Content where
  kind := n.kind
  state := n.state
  inputNames := n.inputNames
  outputNames := n.outputNames

namespace Node

variable {n n' : Node} {id : NodeId}

theorem content_eq_iff : n.content = n'.content ↔ n.kind = n'.kind ∧ n.state = n'.state ∧
    n.inputNames = n'.inputNames ∧ n.outputNames = n'.outputNames := by
  simp only [content, Content.mk.injEq]

theorem givenNames_congr (h : n.content = n'.content) : n.givenNames id = n'.givenNames id := by
  obtain ⟨hkind, -, hin, hout⟩ := content_eq_iff.1 h
  rw [givenNames, givenNames, hkind, hin, hout]

theorem taskNames_congr (h : n.content = n'.content) : n.taskNames id = n'.taskNames id := by
  obtain ⟨hkind, -⟩ := content_eq_iff.1 h
  rw [taskNames, taskNames, hkind]

theorem portNames_congr (h : n.content = n'.content) : n.portNames id = n'.portNames id := by
  obtain ⟨-, -, hin, hout⟩ := content_eq_iff.1 h
  rw [portNames, portNames, hin, hout]

theorem fileNames_congr (h : n.content = n'.content) : n.fileNames id = n'.fileNames id := by
  obtain ⟨hkind, -, -, hout⟩ := content_eq_iff.1 h
  rw [fileNames, fileNames, hkind, hout]

theorem unreserved_congr (h : n.content = n'.content) : n.Unreserved id ↔ n'.Unreserved id := by
  rw [← findSome?_givenNames_eq_none, ← findSome?_givenNames_eq_none, givenNames_congr h]

end Node

theorem Invocation.command_congr {n n' : Node} (h : n.content = n'.content)
    (modules : BlockModules) (id : NodeId) (mode : Mode) :
    command modules id n mode = command modules id n' mode := by
  obtain ⟨hkind, -, hin, hout⟩ := Node.content_eq_iff.1 h
  rw [command, command, parts, parts, hkind, hin, hout]

namespace Graph

/-! ## What counts of a graph -/

/-- The same ids with nodes of the same content, and the same edges in some order. -/
structure SameContent (g g' : Graph) : Prop where
  nodes : g.nodes.mapValues Node.content = g'.nodes.mapValues Node.content
  edges : g.edges.Perm g'.edges

namespace SameContent

variable {g g' : Graph} {mode : Mode} {modules : BlockModules} {out : Path} {id : NodeId}
  {n n' : Node}

theorem symm (h : g.SameContent g') : g'.SameContent g := ⟨h.nodes.symm, h.edges.symm⟩

theorem map_node? (h : g.SameContent g') (id : NodeId) :
    (g.node? id).map Node.content = (g'.node? id).map Node.content := by
  rw [node?, node?, ← SortedMap.get?_mapValues, ← SortedMap.get?_mapValues, h.nodes]

/-- Each node of one graph has a counterpart in the other. -/
theorem exists_node? (h : g.SameContent g') (hnode : g.node? id = some n) :
    ∃ n', g'.node? id = some n' ∧ n.content = n'.content := by
  have hmap := h.map_node? id
  rw [hnode, Option.map_some, eq_comm, Option.map_eq_some_iff] at hmap
  obtain ⟨n', hn', hcontent⟩ := hmap
  exact ⟨n', hn', hcontent.symm⟩

/-- What is gathered from the content of the nodes is gathered alike, and in the same order. -/
theorem ofNodes_eq {α : Type} (h : g.SameContent g') {f f' : NodeId → Node → List α}
    (hf : ∀ id n n', n.content = n'.content → f id n = f' id n') :
    g.ofNodes f = g'.ofNodes f' := by
  have hnodes : g.nodes.toList.map (fun e => (e.1, e.2.content)) =
      g'.nodes.toList.map (fun e => (e.1, e.2.content)) := congrArg SortedMap.toList h.nodes
  unfold ofNodes
  -- Both graphs list their nodes by id, so the lists are walked together.
  generalize g.nodes.toList = es, g'.nodes.toList = es' at hnodes ⊢
  induction es generalizing es' with
  | nil => rw [List.map_eq_nil_iff.1 hnodes.symm]; rfl
  | cons e es ih =>
    cases es' with
    | nil => cases hnodes
    | cons e' es' =>
      obtain ⟨hhead, htail⟩ := List.cons.inj hnodes
      obtain ⟨hid, hcontent⟩ := Prod.mk.inj hhead
      rw [List.flatMap_cons, List.flatMap_cons, hid, hf e'.1 e.2 e'.2 hcontent, ih _ htail]

/-! ## The rules -/

theorem unreserved (h : g.SameContent g') (hg : g.Unreserved) : g'.Unreserved := by
  intro id n' hnode'
  obtain ⟨n, hnode, hcontent⟩ := h.symm.exists_node? hnode'
  exact (Node.unreserved_congr hcontent).2 (hg id n hnode)

theorem edgesSound (h : g.SameContent g') (hg : g.EdgesSound) : g'.EdgesSound where
  sources e he := by
    obtain ⟨n, hnode, hout⟩ := hg.sources e (h.edges.mem_iff.2 he)
    obtain ⟨n', hnode', hcontent⟩ := h.exists_node? hnode
    exact ⟨n', hnode', (Node.content_eq_iff.1 hcontent).2.2.2 ▸ hout⟩
  targets e he := by
    obtain ⟨n, hnode, hin⟩ := hg.targets e (h.edges.mem_iff.2 he)
    obtain ⟨n', hnode', hcontent⟩ := h.exists_node? hnode
    exact ⟨n', hnode', (Node.content_eq_iff.1 hcontent).2.2.1 ▸ hin⟩
  inputs := (h.edges.map _).nodup_iff.1 hg.inputs

theorem lawful (h : g.SameContent g') (hg : g.Lawful) : g'.Lawful := by
  have htasks : g.ofNodes Node.taskNames = g'.ofNodes Node.taskNames :=
    h.ofNodes_eq fun _ _ _ => Node.taskNames_congr
  have hports : g.ofNodes Node.portNames = g'.ofNodes Node.portNames :=
    h.ofNodes_eq fun _ _ _ => Node.portNames_congr
  have hfiles : g.ofNodes Node.fileNames = g'.ofNodes Node.fileNames :=
    h.ofNodes_eq fun _ _ _ => Node.fileNames_congr
  exact ⟨h.unreserved hg.names, h.edgesSound hg.edges, htasks ▸ hg.tasks, hports ▸ hg.ports,
    hfiles ▸ hg.files⟩

theorem validate_iff (h : g.SameContent g') : g.validate = .ok () ↔ g'.validate = .ok () := by
  rw [(validate_decides g).1, (validate_decides g').1]
  exact ⟨h.lawful, h.symm.lawful⟩

/-! ## The tasks -/

/-- An input has the same edge, since there is no other one that could come first. -/
theorem edgeInto?_eq (h : g.SameContent g') (hg' : g'.Accepted) (id : NodeId) (input : String) :
    g.edgeInto? id input = g'.edgeInto? id input := by
  cases hedge : g.edgeInto? id input with
  | none =>
    have hnone := List.find?_eq_none.1 hedge
    exact (List.find?_eq_none.2 fun e he => hnone e (h.edges.mem_iff.2 he)).symm
  | some e =>
    have he : e ∈ g'.edges := h.edges.mem_iff.1 (List.mem_of_find?_eq_some hedge)
    have hend := List.find?_some hedge
    simp only [Bool.and_eq_true, decide_eq_true_eq] at hend
    rw [← hend.1, ← hend.2, hg'.edgeInto?_of_mem he]

theorem sourcePort?_eq (h : g.SameContent g') (port : String → String → String) (e : Edge) :
    g.sourcePort? port e = g'.sourcePort? port e := by
  have hkind := congrArg (Option.map Node.Content.kind) (h.map_node? e.source)
  rw [Option.map_map, Option.map_map] at hkind
  have hport := congrArg (Option.map fun kind =>
    (⟨Naming.processTask e.source kind, port e.source e.output⟩ : PortRef)) hkind
  rwa [Option.map_map, Option.map_map] at hport

theorem feed?_eq (h : g.SameContent g') (hg' : g'.Accepted) (port : String → String → String) :
    g.feed? port = g'.feed? port := by
  funext id input
  rw [feed?, feed?, h.edgeInto?_eq hg', funext (h.sourcePort?_eq port)]

theorem stateTask_congr (hcontent : n.content = n'.content) :
    stateTask out id n = stateTask out id n' := by
  obtain ⟨hkind, hstate, -⟩ := Node.content_eq_iff.1 hcontent
  rw [stateTask, stateTask, hkind, hstate]

theorem processTask_eq (h : g.SameContent g') (hg' : g'.Accepted)
    (hcontent : n.content = n'.content) :
    g.processTask mode modules out id n = g'.processTask mode modules out id n' := by
  obtain ⟨hkind, -, hin, hout⟩ := Node.content_eq_iff.1 hcontent
  rw [processTask, processTask, Invocation.command_congr hcontent, h.feed?_eq hg',
    h.feed?_eq hg', hkind, hin, hout]

theorem tasks_eq (h : g.SameContent g') (hg' : g'.Accepted) :
    g.tasks mode modules out = g'.tasks mode modules out :=
  h.ofNodes_eq fun _ _ _ hcontent => by
    rw [stateTask_congr hcontent, h.processTask_eq hg' hcontent]

end SameContent

/-- Graphs of the same content are compiled to the same task graph, or both of them are refused:
neither the order of the edges nor the values of the inputs nor the targets of the outputs matter.
A refusal tells the first violation, so there the order of the edges shows. -/
theorem compile_of_sameContent {g g' : Graph} (h : g.SameContent g') (mode : Mode)
    (config : Config) (out : Path) :
    (∃ tasks, g.compile mode config out = .ok tasks ∧ g'.compile mode config out = .ok tasks) ∨
      ∃ fault fault', g.compile mode config out = .error fault ∧
        g'.compile mode config out = .error fault' := by
  cases hvalid : g.validate with
  | ok _ =>
    have hvalid' := h.validate_iff.1 hvalid
    refine .inl ⟨_, compile_eq_ok hvalid, ?_⟩
    rw [compile_eq_ok hvalid', h.tasks_eq (accepted_of_validate hvalid')]
  | error fault =>
    cases hvalid' : g'.validate with
    | ok _ => cases hvalid.symm.trans (h.validate_iff.2 hvalid')
    | error fault' => exact .inr ⟨fault, fault', compile_eq_error hvalid, compile_eq_error hvalid'⟩

/-! ## Two sources and a sink -/

namespace Junction

/-- Two sources feed a sink. -/
def bare : Graph where
  nodes := .ofList [
    ("a", (Node.ofKind "source").withOutput "x"),
    ("b", (Node.ofKind "source").withOutput "x"),
    ("c", ((Node.ofKind "sink").withInput "l").withInput "r")]
  edges := [⟨"a", "x", "c", "l"⟩, ⟨"b", "x", "c", "r"⟩]

/-- The same, with the edges in the other order, a target that is listed and one that does not
exist, and a value at an input. -/
def described : Graph where
  nodes := .ofList [
    ("a", (Node.ofKind "source").withTarget "x" "c"),
    ("b", (Node.ofKind "source").withTarget "x" "nowhere"),
    ("c", { kind := "sink", inputs := .ofList [("r", .bool true), ("l", .null)] })]
  edges := [⟨"b", "x", "c", "r"⟩, ⟨"a", "x", "c", "l"⟩]

end Junction

/-- Both graphs are accepted, and so they are compiled to the same task graph. -/
theorem junctions_compile_alike :
    Junction.bare.SameContent Junction.described ∧ Junction.bare.validate = .ok () ∧
      ∃ tasks, Junction.bare.compile .evaluate {} "out" = .ok tasks ∧
        Junction.described.compile .evaluate {} "out" = .ok tasks := by
  have hsame : Junction.bare.SameContent Junction.described := ⟨by decide, by decide⟩
  have hvalid : Junction.bare.validate = .ok () := by decide +kernel
  refine ⟨hsame, hvalid, ?_⟩
  rcases compile_of_sameContent hsame .evaluate {} "out" with h | ⟨fault, -, hfault, -⟩
  · exact h
  · cases (compile_eq_ok hvalid).symm.trans hfault

end Graph

end BlockFlow
