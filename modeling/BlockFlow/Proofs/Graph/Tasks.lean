import Mathlib.Data.List.Flatten
import Mathlib.Data.List.Perm.Basic
import BlockFlow.Proofs.Files.Paths
import BlockFlow.Proofs.Graph.Families
import BlockFlow.Proofs.List
import BlockFlow.Workflow

/-!
# The tasks of an accepted graph

In an accepted graph no two tasks have one name and no two ports of a task have one name, so
the maps of a task's ports say what the graph says. Every task publishes files of its own in
the output directory, under names that belong to its node.

## Key results

- `Graph.Accepted.nodup_taskNames`: tasks have names of their own
- `Graph.Accepted.files_processTask_perm`: which files a process task publishes
- `Graph.get?_inputPorts`: what feeds the ports of a process task
- `Graph.Accepted.exists_port_of_mem_moved`, `Graph.Accepted.port_cases`: what edges move
-/

namespace BlockFlow

/-- The names of the files that a task publishes. -/
def Task.files {β : Type} (t : Task β) : List String :=
  t.outputPorts.values.filterMap Path.fileName?

/-- A task that publishes in one directory publishes the files with these names there. -/
theorem Task.map_join_files {β : Type} {t : Task β} {out : Path}
    (h : ∀ p ∈ t.outputPorts.values, ∃ f, Path.Plain f ∧ p = Path.join out f) :
    t.files.map (Path.join out) = t.outputPorts.values := by
  unfold Task.files
  generalize t.outputPorts.values = ps at h ⊢
  induction ps with
  | nil => rfl
  | cons p ps ih =>
    obtain ⟨f, hf, rfl⟩ := h p List.mem_cons_self
    rw [List.filterMap_cons_some (Path.fileName?_join hf out), List.map_cons,
      ih (fun p hp => h p (List.mem_cons_of_mem _ hp))]

namespace Graph

variable {g : Graph} {mode : Mode} {modules : BlockModules} {out : Path} {id id' : NodeId}
  {node node' : Node}

/-! ## Ports of a mode -/

theorem portsFor_sublist {α : Type} (mode : Mode) (names : List String)
    (schema inst : String → α) :
    (portsFor mode names schema inst).Sublist (names.flatMap (fun n => [schema n, inst n])) := by
  refine List.Sublist.flatMap_right names (fun n _ => ?_)
  cases mode.withInstances
  · exact .cons_cons _ (List.nil_sublist _)
  · exact .refl _

theorem portsFor_validate {α : Type} (names : List String) (schema inst : String → α) :
    portsFor .validate names schema inst = names.map schema :=
  List.map_eq_flatMap.symm

theorem map_portsFor {α β : Type} (f : α → β) (names : List String) (schema inst : String → α) :
    (portsFor mode names schema inst).map f =
      portsFor mode names (fun n => f (schema n)) (fun n => f (inst n)) := by
  unfold portsFor
  rw [List.map_flatMap]
  cases mode.withInstances <;> rfl

/-- The names of the files that an edge moves: the schema of its output, and the instance if
the mode moves instances. -/
def moved (g : Graph) (mode : Mode) (e : Edge) : List String :=
  ((g.node? e.source).map fun source =>
    portsFor mode [e.output] (Naming.schemaFile e.source source.kind)
      (Naming.instanceFile e.source source.kind)).getD []

/-! ## Ports and files of a process task -/

private theorem nodup_inputs (g : Graph) (mode : Mode) (id : NodeId) (node : Node) :
    (((Naming.stateIn id, some ⟨Naming.stateTask id node.kind, Naming.stateOut id⟩) ::
      portsFor mode node.inputNames
        (fun i => (Naming.schemaIn id i, g.feed? Naming.schemaOut id i))
        (fun i => (Naming.instanceIn id i, g.feed? Naming.instanceOut id i))).map
          (·.1)).Nodup := by
  rw [List.map_cons, map_portsFor]
  refine (node.nodup_portNames id).sublist (.cons_cons _ (.cons _ ?_))
  exact (portsFor_sublist _ _ _ _).trans (List.sublist_append_left _ _)

private theorem nodup_outputs (mode : Mode) (out : Path) (id : NodeId) (node : Node) :
    ((portsFor mode node.outputNames
      (fun o => (Naming.schemaOut id o, Naming.schemaPath out id node.kind o))
      (fun o => (Naming.instanceOut id o, Naming.instancePath out id node.kind o))).map
        (·.1)).Nodup := by
  rw [map_portsFor]
  refine (node.nodup_portNames id).sublist (.cons _ (.cons _ ?_))
  exact (portsFor_sublist _ _ _ _).trans (List.sublist_append_right _ _)

/-- Which ports a process task reads at. -/
theorem keys_inputPorts_perm (g : Graph) (mode : Mode) (modules : BlockModules) (out : Path)
    (id : NodeId) (node : Node) :
    (g.processTask mode modules out id node).inputPorts.keys.Perm (Naming.stateIn id ::
      portsFor mode node.inputNames (Naming.schemaIn id) (Naming.instanceIn id)) := by
  refine ((SortedMap.toList_ofList_perm (nodup_inputs g mode id node)).map (·.1)).trans (.of_eq ?_)
  rw [List.map_cons, map_portsFor]

/-- Which ports a process task publishes at. -/
theorem keys_outputPorts_perm (g : Graph) (mode : Mode) (modules : BlockModules) (out : Path)
    (id : NodeId) (node : Node) :
    (g.processTask mode modules out id node).outputPorts.keys.Perm
      (portsFor mode node.outputNames (Naming.schemaOut id) (Naming.instanceOut id)) := by
  refine ((SortedMap.toList_ofList_perm (nodup_outputs mode out id node)).map (·.1)).trans
    (.of_eq ?_)
  rw [map_portsFor]

/-- Where a process task publishes. -/
theorem values_outputPorts_perm (g : Graph) (mode : Mode) (modules : BlockModules) (out : Path)
    (id : NodeId) (node : Node) :
    (g.processTask mode modules out id node).outputPorts.values.Perm
      ((portsFor mode node.outputNames (Naming.schemaFile id node.kind)
        (Naming.instanceFile id node.kind)).map (Path.join out)) := by
  refine ((SortedMap.toList_ofList_perm (nodup_outputs mode out id node)).map (·.2)).trans
    (.of_eq ?_)
  rw [map_portsFor, map_portsFor]
  rfl

/-- What feeds the ports of a process task. -/
theorem get?_inputPorts {port : String} {ref? : Option PortRef} :
    (g.processTask mode modules out id node).inputPorts.get? port = some ref? ↔
      (port, ref?) = (Naming.stateIn id,
          some ⟨Naming.stateTask id node.kind, Naming.stateOut id⟩) ∨
        ∃ i ∈ node.inputNames,
          (port, ref?) = (Naming.schemaIn id i, g.feed? Naming.schemaOut id i) ∨
            mode.withInstances = true ∧
              (port, ref?) = (Naming.instanceIn id i, g.feed? Naming.instanceOut id i) := by
  rw [processTask, SortedMap.get?_ofList_eq_some_iff (nodup_inputs g mode id node), List.mem_cons,
    mem_portsFor]

/-- Which output ports a process task has, and what it publishes there. -/
theorem get?_outputPorts {port : String} {path : Path} :
    (g.processTask mode modules out id node).outputPorts.get? port = some path ↔
      ∃ o ∈ node.outputNames,
        (port, path) = (Naming.schemaOut id o, Naming.schemaPath out id node.kind o) ∨
          mode.withInstances = true ∧
            (port, path) = (Naming.instanceOut id o, Naming.instancePath out id node.kind o) := by
  rw [processTask, SortedMap.get?_ofList_eq_some_iff (nodup_outputs mode out id node), mem_portsFor]

/-! ## Names of one node only -/

/-- What two nodes bring with them is different, or they are one node. -/
theorem eq_of_nodup_ofNodes {α : Type} {f : NodeId → Node → List α} (h : (g.ofNodes f).Nodup)
    (hnode : g.node? id = some node) (hnode' : g.node? id' = some node') {a : α}
    (ha : a ∈ f id node) (ha' : a ∈ f id' node') : id = id' ∧ node = node' :=
  Prod.mk.inj (List.eq_of_nodup_flatMap h (SortedMap.mem_toList.2 hnode)
    (SortedMap.mem_toList.2 hnode') ha ha')

namespace Accepted

/-! ## Tasks -/

/-- No two tasks have one name. -/
theorem nodup_taskNames (h : g.Accepted) (mode : Mode) (modules : BlockModules) (out : Path) :
    ((g.tasks mode modules out).map (·.name)).Nodup := by
  refine (List.Perm.nodup_iff ?_).1 h.taskNames
  unfold tasks ofNodes
  rw [List.map_flatMap]
  exact List.Perm.flatMap_left _ (fun e _ => List.Perm.swap _ _ _)

/-! ## Files -/

private theorem plain_of_mem {f : String} (hdash : '-' ∈ f.toList) (hslash : '/' ∉ f.toList) :
    Path.Plain f ∧ f ≠ Job.scratchName := by
  have hne : ∀ s : String, '-' ∉ s.toList → f ≠ s := fun s hs hfs => hs (hfs ▸ hdash)
  exact ⟨⟨hne _ (by decide), hne _ (by decide), hne _ (by decide), hslash⟩, hne _ (by decide)⟩

/-- The name of a published file can stand in a directory, next to the scratch root. -/
theorem plain_of_mem_fileNames (h : g.Accepted) (hnode : g.node? id = some node) {f : String}
    (hf : f ∈ node.fileNames id) : Path.Plain f ∧ f ≠ Job.scratchName := by
  have hno : ∀ role name, (role, name) ∈ node.givenNames id → '/' ∉ name.toList :=
    fun role name hmem => not_mem_of_unreserved (h.unreserved id node hnode role name hmem) rfl
  have hid := hno .nodeId id (by simp [Node.givenNames])
  have hkind := hno .nodeKind node.kind (by simp [Node.givenNames])
  rcases List.mem_cons.1 hf with rfl | hf
  · refine plain_of_mem ?_ ?_ <;> simp [Naming.stateFile, hid, hkind]
  · obtain ⟨o, ho, hf⟩ := List.mem_flatMap.1 hf
    have hoslash := hno .output o (by simp [Node.givenNames, ho])
    simp only [List.mem_cons, List.not_mem_nil, or_false] at hf
    rcases hf with rfl | rfl
    · refine plain_of_mem ?_ ?_ <;> simp [Naming.schemaFile, hid, hkind, hoslash]
    · refine plain_of_mem ?_ ?_ <;> simp [Naming.instanceFile, hid, hkind, hoslash]

theorem files_stateTask (h : g.Accepted) (hnode : g.node? id = some node) :
    (stateTask out id node).files = [Naming.stateFile id node.kind] := by
  have hplain := (h.plain_of_mem_fileNames hnode List.mem_cons_self).1
  show [Path.join out (Naming.stateFile id node.kind)].filterMap Path.fileName? = _
  rw [List.filterMap_cons_some (Path.fileName?_join hplain out)]
  rfl

theorem mem_fileNames {f : String} (hf : f ∈ portsFor mode node.outputNames
    (Naming.schemaFile id node.kind) (Naming.instanceFile id node.kind)) :
    f ∈ node.fileNames id :=
  List.mem_cons_of_mem _ ((portsFor_sublist _ _ _ _).subset hf)

/-- Which files a process task publishes. -/
theorem files_processTask_perm (h : g.Accepted) (hnode : g.node? id = some node) :
    (g.processTask mode modules out id node).files.Perm
      (portsFor mode node.outputNames (Naming.schemaFile id node.kind)
        (Naming.instanceFile id node.kind)) := by
  have hplain : ∀ f ∈ portsFor mode node.outputNames (Naming.schemaFile id node.kind)
      (Naming.instanceFile id node.kind), Path.Plain f :=
    fun f hf => (h.plain_of_mem_fileNames hnode (mem_fileNames hf)).1
  refine ((values_outputPorts_perm g mode modules out id node).filterMap _).trans ?_
  generalize portsFor mode node.outputNames (Naming.schemaFile id node.kind)
    (Naming.instanceFile id node.kind) = fs at hplain ⊢
  rw [List.filterMap_map]
  refine List.Perm.of_eq ((List.filterMap_congr fun f hf => ?_).trans List.filterMap_some)
  exact Path.fileName?_join (hplain f hf) out

/-- The files of a node's tasks have the names that belong to the node. -/
theorem mem_fileNames_of_task (h : g.Accepted) (hnode : g.node? id = some node)
    {t : Task Work} (ht : t = stateTask out id node ∨ t = g.processTask mode modules out id node)
    {f : String} (hf : f ∈ t.files) : f ∈ node.fileNames id := by
  rcases ht with rfl | rfl
  · rw [h.files_stateTask hnode, List.mem_singleton] at hf
    exact hf ▸ List.mem_cons_self
  · exact mem_fileNames ((h.files_processTask_perm hnode).mem_iff.1 hf)

theorem nodup_files_processTask (h : g.Accepted) (hnode : g.node? id = some node) :
    (g.processTask mode modules out id node).files.Nodup := by
  have hfiles := node.nodup_fileNames id
  unfold Node.fileNames at hfiles
  rw [List.nodup_cons] at hfiles
  exact (h.files_processTask_perm hnode).nodup_iff.2
    (hfiles.2.sublist (portsFor_sublist _ _ _ _))

theorem values_processTask (h : g.Accepted) (hnode : g.node? id = some node) :
    ∀ p ∈ (g.processTask mode modules out id node).outputPorts.values,
      ∃ f, Path.Plain f ∧ p = Path.join out f := by
  intro p hp
  obtain ⟨f, hf, rfl⟩ := List.mem_map.1 ((values_outputPorts_perm _ _ _ _ _ _).mem_iff.1 hp)
  exact ⟨f, (h.plain_of_mem_fileNames hnode (mem_fileNames hf)).1, rfl⟩

/-! ## Edges -/

/-- An edge is the only one into its input. -/
theorem edgeInto?_of_mem (h : g.Accepted) {e : Edge} (he : e ∈ g.edges) :
    g.edgeInto? e.target e.input = some e := by
  unfold edgeInto?
  cases hfind : g.edges.find? (fun d => d.target = e.target && d.input = e.input) with
  | none =>
    have hnone := List.find?_eq_none.1 hfind e he
    simp at hnone
  | some d =>
    have hd := List.find?_some hfind
    simp only [Bool.and_eq_true, decide_eq_true_eq] at hd
    exact congrArg some (List.inj_on_of_nodup_map h.inputs (List.mem_of_find?_eq_some hfind) he
      (Prod.ext hd.1 hd.2))

/-- What an edge brings feeds its input. -/
theorem feed?_of_mem (h : g.Accepted) {e : Edge} (he : e ∈ g.edges) {source : Node}
    (hsource : g.node? e.source = some source) (port : String → String → String) :
    g.feed? port e.target e.input =
      some ⟨Naming.processTask e.source source.kind, port e.source e.output⟩ := by
  rw [feed?, h.edgeInto?_of_mem he, Option.bind_some, sourcePort?, hsource, Option.map_some]

/-! ## What edges move -/

/-- An edge feeds a port of its target with every file that it moves. -/
theorem exists_port_of_mem_moved (h : g.Accepted) {e : Edge} (he : e ∈ g.edges)
    {source target : Node} (hsource : g.node? e.source = some source)
    (htarget : g.node? e.target = some target) {f : String} (hf : f ∈ g.moved mode e) :
    ∃ port ref,
      (g.processTask mode modules out e.target target).inputPorts.get? port = some (some ref) ∧
      ref.task = Naming.processTask e.source source.kind ∧
      (g.processTask mode modules out e.source source).outputPorts.get? ref.port =
        some (Path.join out f) := by
  obtain ⟨source', target', hsource', htarget', houtput, hinput⟩ := h.ends e he
  obtain rfl := Option.some.inj (hsource.symm.trans hsource')
  obtain rfl := Option.some.inj (htarget.symm.trans htarget')
  have ho : e.output ∈ source.outputNames := SortedMap.mem_keys.2 houtput
  have hi : e.input ∈ target.inputNames := SortedMap.mem_keys.2 hinput
  have hfeed := h.feed?_of_mem he hsource
  rw [moved, hsource, Option.map_some, Option.getD_some, mem_portsFor] at hf
  obtain ⟨o, hmem, hf⟩ := hf
  obtain rfl := List.mem_singleton.1 hmem
  rcases hf with rfl | ⟨hmode, rfl⟩
  · exact ⟨_, _, get?_inputPorts.2 (.inr ⟨_, hi, .inl (by rw [hfeed])⟩), rfl,
      get?_outputPorts.2 ⟨_, ho, .inl rfl⟩⟩
  · exact ⟨_, _, get?_inputPorts.2 (.inr ⟨_, hi, .inr ⟨hmode, by rw [hfeed]⟩⟩), rfl,
      get?_outputPorts.2 ⟨_, ho, .inr ⟨hmode, rfl⟩⟩⟩

/-- An edge moves a file, whatever the mode is. -/
theorem exists_mem_moved (h : g.Accepted) {e : Edge} (he : e ∈ g.edges) (mode : Mode) :
    ∃ f, f ∈ g.moved mode e := by
  obtain ⟨source, -, hsource, -⟩ := h.ends e he
  refine ⟨Naming.schemaFile e.source source.kind e.output, ?_⟩
  rw [moved, hsource, Option.map_some, Option.getD_some, mem_portsFor]
  exact ⟨_, List.mem_singleton_self _, .inl rfl⟩

/-- What an edge moves is published by its source. -/
theorem mem_files_of_mem_moved (h : g.Accepted) {e : Edge} (he : e ∈ g.edges) {source : Node}
    (hsource : g.node? e.source = some source) {f : String}
    (hf : f ∈ g.moved mode e) : f ∈ (g.processTask mode modules out e.source source).files := by
  obtain ⟨source', -, hsource', -, houtput, -⟩ := h.ends e he
  obtain rfl := Option.some.inj (hsource.symm.trans hsource')
  rw [moved, hsource, Option.map_some, Option.getD_some, mem_portsFor] at hf
  obtain ⟨o, hmem, hf⟩ := hf
  obtain rfl := List.mem_singleton.1 hmem
  exact (h.files_processTask_perm hsource).mem_iff.2
    (mem_portsFor.2 ⟨_, SortedMap.mem_keys.2 houtput, hf⟩)

/-- A port reads the node's state, or belongs to an input into which no edge leads, or reads a
file that an edge moves. -/
theorem port_cases (h : g.Accepted) {port : String}
    {ref? : Option PortRef}
    (hport : (g.processTask mode modules out id node).inputPorts.get? port = some ref?) :
    ref? = some ⟨Naming.stateTask id node.kind, Naming.stateOut id⟩ ∨
      (ref? = none ∧ ∃ i ∈ node.inputNames, g.edgeInto? id i = none) ∨
      ∃ e ∈ g.edges, e.target = id ∧ ∃ source ref f, g.node? e.source = some source ∧
        ref? = some ref ∧ f ∈ g.moved mode e ∧
        ref.task = Naming.processTask e.source source.kind ∧
        (g.processTask mode modules out e.source source).outputPorts.get? ref.port =
          some (Path.join out f) := by
  -- Schemas and instances are fed alike.
  have hfed : ∀ i ∈ node.inputNames, ∀ name : String → String → String, ref? = g.feed? name id i →
      (ref? = none ∧ ∃ i ∈ node.inputNames, g.edgeInto? id i = none) ∨
      ∃ e ∈ g.edges, e.target = id ∧ ∃ source, g.node? e.source = some source ∧
        e.output ∈ source.outputNames ∧
        ref? = some ⟨Naming.processTask e.source source.kind, name e.source e.output⟩ := by
    intro i hi name href
    cases hedge : g.edgeInto? id i with
    | none => exact .inl ⟨by rw [href, feed?, hedge, Option.bind_none], i, hi, hedge⟩
    | some e =>
      have he := List.mem_of_find?_eq_some hedge
      have htarget := List.find?_some hedge
      simp only [Bool.and_eq_true, decide_eq_true_eq] at htarget
      obtain ⟨source, target, hsource, -, houtput, -⟩ := h.ends e he
      refine .inr ⟨e, he, htarget.1, source, hsource, SortedMap.mem_keys.2 houtput, ?_⟩
      rw [href, feed?, hedge, Option.bind_some, sourcePort?, hsource, Option.map_some]
  have hmoved : ∀ e source f, g.node? e.source = some source →
      (f = Naming.schemaFile e.source source.kind e.output ∨ mode.withInstances = true ∧
        f = Naming.instanceFile e.source source.kind e.output) → f ∈ g.moved mode e := by
    intro e source f hsource hf
    rw [moved, hsource, Option.map_some, Option.getD_some, mem_portsFor]
    exact ⟨_, List.mem_singleton_self _, hf⟩
  rcases get?_inputPorts.1 hport with heq | ⟨i, hi, heq | ⟨hmode, heq⟩⟩
  · exact .inl (Prod.mk.inj heq).2
  · refine .inr ((hfed i hi _ (Prod.mk.inj heq).2).imp_right ?_)
    rintro ⟨e, he, htarget, source, hsource, ho, rfl⟩
    exact ⟨e, he, htarget, source, _, _, hsource, rfl, hmoved e source _ hsource (.inl rfl), rfl,
      get?_outputPorts.2 ⟨_, ho, .inl rfl⟩⟩
  · refine .inr ((hfed i hi _ (Prod.mk.inj heq).2).imp_right ?_)
    rintro ⟨e, he, htarget, source, hsource, ho, rfl⟩
    exact ⟨e, he, htarget, source, _, _, hsource, rfl,
      hmoved e source _ hsource (.inr ⟨hmode, rfl⟩), rfl,
      get?_outputPorts.2 ⟨_, ho, .inr ⟨hmode, rfl⟩⟩⟩

end Accepted

end Graph

end BlockFlow
