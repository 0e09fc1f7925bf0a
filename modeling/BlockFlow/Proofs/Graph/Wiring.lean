import BlockFlow.Proofs.Graph.Tasks
import BlockFlow.Proofs.Naming

/-!
# Wiring the edges

A graph is compiled by wiring its edges into the tasks that it would have without them, one edge
after the other. The tasks that have come about on the way are those of the graph with the edges
wired so far (`Graph.Accepted.wire_eq`), so in the end they are the tasks of the graph, and the
errors of the wiring do not occur.

## Key results

- `Graph.Accepted.wireFrom_eq`: wiring all edges gives the tasks of the graph
- `Graph.of_compile`: a graph that can be compiled is accepted, and has these tasks
- `Graph.compile_faithful`: the tasks of a compiled graph say what the graph says
-/

namespace BlockFlow

namespace Graph

variable {g : Graph} {mode : Mode} {modules : BlockModules} {out : Path} {id : NodeId}
  {node source target : Node} {e : Edge} {es done : List Edge}

/-! ## Some of the edges -/

@[simp] theorem node?_withEdges (id : NodeId) : (g.withEdges es).node? id = g.node? id := rfl

/-- Nothing is wrong with a graph that lacks some edges of an accepted one. -/
theorem Accepted.withEdges (h : g.Accepted) (hes : es.Sublist g.edges) :
    (g.withEdges es).Accepted where
  unreserved := h.unreserved
  ends e he := h.ends e (hes.subset he)
  inputs := h.inputs.sublist (hes.map _)
  taskNames := h.taskNames
  portNames := h.portNames
  fileNames := h.fileNames

/-- An edge feeds no input but its own. -/
theorem feed?_withEdges_concat {input : String} (hne : ¬(e.target = id ∧ e.input = input))
    (port : String → String → String) :
    (g.withEdges (done ++ [e])).feed? port id input = (g.withEdges done).feed? port id input := by
  have hedge : (g.withEdges (done ++ [e])).edgeInto? id input =
      (g.withEdges done).edgeInto? id input := by
    show (done ++ [e]).find? _ = done.find? _
    rw [List.find?_append, List.find?_singleton, if_neg (by simpa using hne), Option.or_none]
  rw [feed?, hedge]
  rfl

/-- An edge changes no process task but that of its target. -/
theorem processTask_withEdges_concat (hne : e.target ≠ id) (node : Node) :
    (g.withEdges (done ++ [e])).processTask mode modules out id node =
      (g.withEdges done).processTask mode modules out id node := by
  simp only [processTask, feed?_withEdges_concat fun h => hne h.1]

/-! ## The ports of a node's tasks -/

theorem get?_stateOut :
    (stateTask out id node).outputPorts.get? (Naming.stateOut id) =
      some (Naming.statePath out id node.kind) := by
  rw [stateTask, SortedMap.get?_ofList_eq_some_iff (by simp)]
  exact List.mem_singleton_self _

theorem get?_stateIn :
    (g.processTask mode modules out id node).inputPorts.get? (Naming.stateIn id) =
      some (some ⟨Naming.stateTask id node.kind, Naming.stateOut id⟩) :=
  get?_inputPorts.2 (.inl rfl)

theorem get?_schemaIn {input : String} (hinput : input ∈ node.inputNames) :
    (g.processTask mode modules out id node).inputPorts.get? (Naming.schemaIn id input) =
      some (g.feed? Naming.schemaOut id input) :=
  get?_inputPorts.2 (.inr ⟨input, hinput, .inl rfl⟩)

theorem get?_instanceIn {input : String} (hinput : input ∈ node.inputNames)
    (hmode : mode.withInstances = true) :
    (g.processTask mode modules out id node).inputPorts.get? (Naming.instanceIn id input) =
      some (g.feed? Naming.instanceOut id input) :=
  get?_inputPorts.2 (.inr ⟨input, hinput, .inr ⟨hmode, rfl⟩⟩)

/-- A process task reads at no other ports. -/
theorem get?_inputPorts_eq_none {port : String} (hstate : port ≠ Naming.stateIn id)
    (hport : port ∉ portsFor mode node.inputNames (Naming.schemaIn id) (Naming.instanceIn id)) :
    (g.processTask mode modules out id node).inputPorts.get? port = none := by
  refine Option.eq_none_iff_forall_ne_some.2 (fun ref? hget => ?_)
  rcases get?_inputPorts.1 hget with heq | ⟨i, hi, hcase⟩
  · exact hstate (Prod.mk.inj heq).1
  · exact hport (mem_portsFor.2 ⟨i, hi, hcase.imp (fun heq => (Prod.mk.inj heq).1)
      (fun hinst => ⟨hinst.1, (Prod.mk.inj hinst.2).1⟩)⟩)

/-! ## One edge -/

/-- What is read at a port after an edge has been wired in. -/
theorem get?_wireTask (kind : String) (e : Edge) (t : Task Work) (port : String) :
    (wireTask mode kind e t).inputPorts.get? port =
      if mode.withInstances = true ∧ Naming.instanceIn e.target e.input = port then
        some (some ⟨Naming.processTask e.source kind, Naming.instanceOut e.source e.output⟩)
      else if Naming.schemaIn e.target e.input = port then
        some (some ⟨Naming.processTask e.source kind, Naming.schemaOut e.source e.output⟩)
      else t.inputPorts.get? port := by
  unfold wireTask
  cases mode.withInstances
  · simp [SortedMap.get?_insert]
  · simp [SortedMap.get?_insert]

/-- Wiring an edge into the process task of its target gives the process task of the graph that
has the edge. -/
theorem Accepted.wireTask_processTask (h : (g.withEdges (done ++ [e])).Accepted)
    (hsource : g.node? e.source = some source) (htarget : g.node? e.target = some target) :
    wireTask mode source.kind e ((g.withEdges done).processTask mode modules out e.target target) =
      (g.withEdges (done ++ [e])).processTask mode modules out e.target target := by
  have hmem : e ∈ (g.withEdges (done ++ [e])).edges := List.mem_append_right _ List.mem_cons_self
  obtain ⟨-, target', -, htarget', -, hinput⟩ := h.ends e hmem
  obtain rfl := Option.some.inj (htarget.symm.trans htarget')
  have hi : e.input ∈ target.inputNames := SortedMap.mem_keys.2 hinput
  have hports : (wireTask mode source.kind e
      ((g.withEdges done).processTask mode modules out e.target target)).inputPorts =
        ((g.withEdges (done ++ [e])).processTask mode modules out e.target target).inputPorts := by
    refine SortedMap.ext (fun port => ?_)
    rw [get?_wireTask]
    split
    · next hport =>
      rw [← hport.2, get?_instanceIn hi hport.1, h.feed?_of_mem hmem hsource]
    · next hinst =>
      split
      · next hport => rw [← hport, get?_schemaIn hi, h.feed?_of_mem hmem hsource]
      · next hschema =>
        -- The port is not one of the edge's input, and any other is fed as before.
        by_cases hstate : port = Naming.stateIn e.target
        · rw [hstate, get?_stateIn, get?_stateIn]
        · by_cases hport : port ∈ portsFor mode target.inputNames (Naming.schemaIn e.target)
              (Naming.instanceIn e.target)
          · obtain ⟨i, hi', rfl | ⟨hmode, rfl⟩⟩ := mem_portsFor.1 hport
            · rw [get?_schemaIn hi', get?_schemaIn hi',
                feed?_withEdges_concat (by simpa using hschema)]
            · rw [get?_instanceIn hi' hmode, get?_instanceIn hi' hmode,
                feed?_withEdges_concat (by simpa [hmode] using hinst)]
          · rw [get?_inputPorts_eq_none hstate hport, get?_inputPorts_eq_none hstate hport]
  exact congrArg (fun ports => { (g.withEdges done).processTask mode modules out e.target target
    with inputPorts := ports }) hports

/-! ## The place of a task -/

theorem processIndex?_cons_cons {s p : Task Work} (hs : s.role = .state) (hp : p.role = .process)
    (ts : List (Task Work)) (id : NodeId) :
    processIndex? (s :: p :: ts) id =
      if p.node = id then some 1 else (processIndex? ts id).map (· + 2) := by
  simp only [processIndex?, List.findIdx?_cons, hs, hp]
  by_cases hid : p.node = id
  · simp [hid]
  · simp [hid, Function.comp_def]

/-- The process task of a node is found, and a change there changes it only. -/
theorem exists_processIndex? {nodes : List (NodeId × Node)} (hnodup : (nodes.map (·.1)).Nodup)
    {s p : NodeId → Node → Task Work} (hs : ∀ id node, (s id node).role = .state)
    (hp : ∀ id node, (p id node).role = .process) (hpnode : ∀ id node, (p id node).node = id)
    (hmem : (id, node) ∈ nodes) :
    ∃ i, processIndex? (nodes.flatMap fun n => [s n.1 n.2, p n.1 n.2]) id = some i ∧
      ∀ c, (nodes.flatMap fun n => [s n.1 n.2, p n.1 n.2]).modify i c =
        nodes.flatMap fun n => [s n.1 n.2, if n.1 = id then c (p n.1 n.2) else p n.1 n.2] := by
  induction nodes with
  | nil => exact absurd hmem List.not_mem_nil
  | cons n nodes ih =>
    rw [List.map_cons, List.nodup_cons] at hnodup
    simp only [List.flatMap_cons, List.cons_append, List.nil_append,
      processIndex?_cons_cons (hs _ _) (hp _ _), hpnode]
    by_cases hid : n.1 = id
    · refine ⟨1, if_pos hid, fun c => ?_⟩
      -- The node comes here, and not once more.
      have hrest : ∀ n' ∈ nodes, n'.1 ≠ id :=
        fun n' hn' heq => hnodup.1 (List.mem_map.2 ⟨n', hn', heq.trans hid.symm⟩)
      rw [if_pos hid, List.modify_succ_cons, List.modify_zero_cons]
      refine congrArg (fun ts => s n.1 n.2 :: c (p n.1 n.2) :: ts) ?_
      refine List.flatMap_congr (fun n' hn' => ?_)
      rw [if_neg (hrest n' hn')]
    · have hmem' : (id, node) ∈ nodes :=
        (List.mem_cons.1 hmem).resolve_left (fun heq => hid (heq ▸ rfl))
      obtain ⟨i, hi, hmodify⟩ := ih hnodup.2 hmem'
      refine ⟨i + 2, by rw [if_neg hid, hi]; rfl, fun c => ?_⟩
      rw [if_neg hid, List.modify_succ_cons, List.modify_succ_cons, hmodify]

/-! ## All edges -/

namespace Accepted

/-- Wiring an edge into the tasks gives the tasks of the graph that has the edge. -/
theorem wire_eq (h : (g.withEdges (done ++ [e])).Accepted) (index : Nat) :
    g.wire mode ((g.withEdges done).tasks mode modules out) index e =
      .ok ((g.withEdges (done ++ [e])).tasks mode modules out) := by
  obtain ⟨source, target, hsource, htarget, -⟩ := h.ends e
    (List.mem_append_right _ List.mem_cons_self)
  rw [node?_withEdges] at hsource htarget
  obtain ⟨i, hi, hmodify⟩ := exists_processIndex? (s := stateTask out)
    (p := (g.withEdges done).processTask mode modules out) g.nodes.nodup_keys (fun _ _ => rfl)
    (fun _ _ => rfl) (fun _ _ => rfl) (SortedMap.mem_toList.2 htarget)
  have hindex : processIndex? ((g.withEdges done).tasks mode modules out) e.target = some i := hi
  rw [wire, hsource, hindex]
  refine congrArg Except.ok ((hmodify _).trans (List.flatMap_congr fun n hn => ?_))
  show [_, _] = [_, (g.withEdges (done ++ [e])).processTask mode modules out n.1 n.2]
  by_cases hid : n.1 = e.target
  · have hn' : n = (e.target, target) := by
      have hget : g.node? n.1 = some n.2 := SortedMap.mem_toList.1 hn
      rw [hid, htarget] at hget
      exact Prod.ext hid (Option.some.inj hget).symm
    rw [hn', if_pos rfl, h.wireTask_processTask hsource htarget]
  · rw [if_neg hid, processTask_withEdges_concat (Ne.symm hid)]

/-- Wiring the edges that are left into the tasks of the others gives the tasks of the graph. -/
theorem wireFrom_eq (h : (g.withEdges (done ++ es)).Accepted) (index : Nat) :
    g.wireFrom mode index es ((g.withEdges done).tasks mode modules out) =
      .ok ((g.withEdges (done ++ es)).tasks mode modules out) := by
  induction es generalizing done index with
  | nil => rw [wireFrom, List.append_nil]
  | cons e es ih =>
    have hsplit : done ++ e :: es = (done ++ [e]) ++ es := by simp
    rw [hsplit] at h ⊢
    have hstep : (g.withEdges (done ++ [e])).Accepted :=
      h.withEdges (List.sublist_append_left (done ++ [e]) es)
    rw [wireFrom, hstep.wire_eq]
    exact ih h (index + 1)

end Accepted

/-! ## Compiled graphs -/

/-- What a graph is compiled to if nothing is wrong with it. -/
theorem compile_eq_ok {config : Config} (h : g.validate = .ok ()) :
    g.compile mode config out = .ok {
      name := mode.name
      mode
      maxConcurrency := config.maxConcurrency
      tasks := g.tasks mode config.modules out } := by
  have haccepted : (g.withEdges ([] ++ g.edges)).Accepted := accepted_of_validate h
  rw [compile, h]
  show (do let tasks ← g.wireFrom mode 0 g.edges _; _) = _
  rw [haccepted.wireFrom_eq]
  rfl

theorem compile_eq_error {config : Config} {fault : GraphError} (h : g.validate = .error fault) :
    g.compile mode config out = .error fault := by
  rw [compile, h]
  rfl

/-- A graph that can be compiled is accepted, and its tasks are those of its nodes. -/
theorem of_compile {g : Graph} {mode : Mode} {config : Config} {out : Path}
    {tasks : TaskGraph Work} (h : g.compile mode config out = .ok tasks) :
    g.Accepted ∧ tasks = {
      name := mode.name
      mode
      maxConcurrency := config.maxConcurrency
      tasks := g.tasks mode config.modules out } := by
  cases hvalid : g.validate with
  | error fault => rw [compile_eq_error hvalid] at h; cases h
  | ok u =>
    rw [compile_eq_ok hvalid] at h
    exact ⟨accepted_of_validate hvalid, (Except.ok.inj h).symm⟩

/-! ## What compiled tasks look like -/

/-- An output port that an edge brings to an input: the source's process task publishes there, and
of the ports that belong to the edge's output it is the one named by `port`. -/
def Brings (g : Graph) (tasks : List (Task Work)) (port : String → String → String) (id : NodeId)
    (input : String) (ref : PortRef) : Prop :=
  ∃ e ∈ g.edges, e.target = id ∧ e.input = input ∧ ∃ u ∈ tasks, u.role = .process ∧
    u.node = e.source ∧ ref = ⟨u.name, port e.source e.output⟩ ∧
      u.outputPorts.contains ref.port = true

/-- The two tasks of a node, among the tasks of all nodes. -/
structure PairOf (g : Graph) (mode : Mode) (tasks : List (Task Work)) (id : NodeId) (node : Node)
    (s t : Task Work) : Prop where
  stateTask : s.role = .state ∧ s.node = id ∧ s.work = .emit node.state
  stateInputs : s.inputPorts.keys = []
  stateOutputs : s.outputPorts.keys = [Naming.stateOut id]
  processTask : t.role = .process ∧ t.node = id ∧ t.work = .block id
  inputs : t.inputPorts.keys.Perm (Naming.stateIn id ::
    portsFor mode node.inputNames (Naming.schemaIn id) (Naming.instanceIn id))
  outputs : t.outputPorts.keys.Perm
    (portsFor mode node.outputNames (Naming.schemaOut id) (Naming.instanceOut id))
  /-- The state comes from the node's own state task. -/
  state : t.inputPorts.get? (Naming.stateIn id) = some (some ⟨s.name, Naming.stateOut id⟩)
  /-- A schema comes from where the edges say, and only from there. -/
  schemas : ∀ i ∈ node.inputNames, ∃ ref?, t.inputPorts.get? (Naming.schemaIn id i) = some ref? ∧
    ∀ ref, ref? = some ref ↔ g.Brings tasks Naming.schemaOut id i ref
  /-- So does an instance, if the mode moves instances. -/
  instances : mode.withInstances = true → ∀ i ∈ node.inputNames,
    ∃ ref?, t.inputPorts.get? (Naming.instanceIn id i) = some ref? ∧
      ∀ ref, ref? = some ref ↔ g.Brings tasks Naming.instanceOut id i ref

/-- Tasks that say what the graph says: a state task and a process task for each node, in the
order of the ids, all of them with names of their own. -/
structure Faithful (g : Graph) (mode : Mode) (tasks : List (Task Work)) : Prop where
  names : (tasks.map (·.name)).Nodup
  pairs : ∃ pairs : List (Task Work × Task Work), tasks = pairs.flatMap (fun p => [p.1, p.2]) ∧
    List.Forall₂ (fun n p => g.PairOf mode tasks n.1 n.2 p.1 p.2) g.nodes.toList pairs

/-- A port of an input is fed with what an edge brings to the input. -/
theorem Accepted.feed?_eq_some_iff (h : g.Accepted) {port : String → String → String}
    {input : String} {ref : PortRef} (hport : ∀ source node, g.node? source = some node →
      ∀ output ∈ node.outputNames, (g.processTask mode modules out source node).outputPorts.contains
        (port source output) = true) :
    g.feed? port id input = some ref ↔
      g.Brings (g.tasks mode modules out) port id input ref := by
  constructor
  · intro hfeed
    obtain ⟨e, hedge, hfrom⟩ := Option.bind_eq_some_iff.1 hfeed
    obtain ⟨source, hsource, rfl⟩ := Option.map_eq_some_iff.1 hfrom
    have he := List.mem_of_find?_eq_some hedge
    have htarget := List.find?_some hedge
    simp only [Bool.and_eq_true, decide_eq_true_eq] at htarget
    obtain ⟨source', -, hsource', -, houtput, -⟩ := h.ends e he
    obtain rfl := Option.some.inj (hsource.symm.trans hsource')
    exact ⟨e, he, htarget.1, htarget.2, _, mem_tasks.2 ⟨_, _, hsource, .inr rfl⟩, rfl, rfl, rfl,
      hport _ _ hsource _ (SortedMap.mem_keys.2 houtput)⟩
  · rintro ⟨e, he, rfl, rfl, u, hu, hrole, hnode, rfl, -⟩
    obtain ⟨id', source, hsource, rfl | rfl⟩ := mem_tasks.1 hu
    · cases hrole
    · obtain rfl : id' = e.source := hnode
      exact h.feed?_of_mem he hsource port

/-- The tasks of an accepted graph say what the graph says. -/
theorem Accepted.faithful (h : g.Accepted) (mode : Mode) (modules : BlockModules) (out : Path) :
    g.Faithful mode (g.tasks mode modules out) where
  names := h.nodup_taskNames mode modules out
  pairs := by
    refine ⟨g.nodes.toList.map fun n =>
      (stateTask out n.1 n.2, g.processTask mode modules out n.1 n.2), ?_, ?_⟩
    · rw [List.flatMap_map]
      rfl
    · rw [List.forall₂_map_right_iff]
      refine List.forall₂_same.2 (fun n hn => ?_)
      have hnode : g.node? n.1 = some n.2 := SortedMap.mem_toList.1 hn
      refine
        { stateTask := ⟨rfl, rfl, rfl⟩
          stateInputs := rfl
          stateOutputs := rfl
          processTask := ⟨rfl, rfl, rfl⟩
          inputs := keys_inputPorts_perm _ _ _ _ _ _
          outputs := keys_outputPorts_perm _ _ _ _ _ _
          state := get?_stateIn
          schemas := fun i hi => ⟨_, get?_schemaIn hi, fun ref => ?_⟩
          instances := fun hmode i hi => ⟨_, get?_instanceIn hi hmode, fun ref => ?_⟩ }
      · -- An edge leads from an output of its source, so the source has a port for it.
        refine h.feed?_eq_some_iff (fun source node hsource o ho => ?_)
        exact SortedMap.mem_keys.1 ((keys_outputPorts_perm _ _ _ _ _ _).mem_iff.2
          (mem_portsFor.2 ⟨o, ho, .inl rfl⟩))
      · refine h.feed?_eq_some_iff (fun source node hsource o ho => ?_)
        exact SortedMap.mem_keys.1 ((keys_outputPorts_perm _ _ _ _ _ _).mem_iff.2
          (mem_portsFor.2 ⟨o, ho, .inr ⟨hmode, rfl⟩⟩))

/-- Compiling refuses a graph with the error of the check, and has no errors of its own; if the
check accepts the graph, the compiled tasks say what the graph says. -/
theorem compile_faithful (g : Graph) (mode : Mode) (config : Config) (out : Path) :
    (∃ fault, g.validate = .error fault ∧ g.compile mode config out = .error fault) ∨
      g.validate = .ok () ∧ ∃ tasks, g.compile mode config out = .ok tasks ∧
        tasks.mode = mode ∧ tasks.maxConcurrency = config.maxConcurrency ∧
          g.Faithful mode tasks.tasks := by
  cases hvalid : g.validate with
  | error fault => exact .inl ⟨fault, rfl, compile_eq_error hvalid⟩
  | ok u =>
    have hfaithful := (accepted_of_validate hvalid).faithful mode config.modules out
    exact .inr ⟨rfl, _, compile_eq_ok hvalid, rfl, rfl, hfaithful⟩

end Graph

end BlockFlow
