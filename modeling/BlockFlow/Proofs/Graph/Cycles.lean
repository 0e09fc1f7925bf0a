import BlockFlow.Proofs.Graph.Wiring
import BlockFlow.Proofs.Plan.Cycles

/-!
# Cycles of a graph

The tasks of an accepted graph feed each other as its edges say: a node's state task feeds its
process task, and the process task at the source of an edge feeds the one at its target. So
every reference can be resolved, and the process tasks stall whose nodes stall along the edges.

## Key results

- `Graph.Accepted.feeds_iff`: which tasks of a graph feed which
- `Graph.Accepted.stalls_iff`: the tasks that stall are the process tasks of the nodes that do
- `Graph.compile_plan`: a compiled graph has a plan unless it has a cycle, and the error names
  what a cycle stalls
-/

namespace BlockFlow

open Relation

namespace Graph

/-- An edge leads from one node to the other. -/
def Flows (g : Graph) (source target : NodeId) : Prop :=
  ∃ e ∈ g.edges, e.source = source ∧ e.target = target

/-- An edge leads from a node back to it, or several edges do one after the other. -/
def Cyclic (g : Graph) : Prop := ∃ id, TransGen g.Flows id id

variable {g : Graph} {mode : Mode} {modules : BlockModules} {out : Path} {id : NodeId}
  {node : Node} {tasks : TaskGraph Work} {i j : Nat}

/-- The process task of a node has a position among the tasks. -/
theorem exists_processTask (htasks : tasks.tasks = g.tasks mode modules out)
    (hnode : g.node? id = some node) :
    ∃ i : Nat, tasks.tasks[i]? = some (g.processTask mode modules out id node) :=
  List.mem_iff_getElem?.1 (htasks ▸ mem_tasks.2 ⟨id, node, hnode, .inr rfl⟩)

namespace Accepted

/-! ## What feeds what -/

/-- Every reference of a compiled task can be resolved, to a task that feeds it: the state task
of its own node, or the process task at the source of an edge. -/
theorem resolve?_inputPort (h : g.Accepted) (htasks : tasks.tasks = g.tasks mode modules out)
    {port : String} {ref : PortRef}
    (hport : (g.processTask mode modules out id node).inputPorts.get? port = some (some ref))
    (hnode : g.node? id = some node) :
    ∃ j path, tasks.resolve? ref = some (j, path) ∧
      (tasks.tasks[j]? = some (stateTask out id node) ∨
        ∃ e ∈ g.edges, e.target = id ∧ ∃ source, g.node? e.source = some source ∧
          tasks.tasks[j]? = some (g.processTask mode modules out e.source source)) := by
  have hnames : (tasks.tasks.map (·.name)).Nodup := htasks ▸ h.nodup_taskNames mode modules out
  -- A task that has the port is found where it stands.
  have hfound : ∀ u ∈ g.tasks mode modules out, ∀ path, u.name = ref.task →
      u.outputPorts.get? ref.port = some path →
        ∃ j, tasks.tasks[j]? = some u ∧ tasks.resolve? ref = some (j, path) := by
    intro u hu path hname hpath
    obtain ⟨j, hj⟩ := List.mem_iff_getElem?.1 (htasks ▸ hu)
    exact ⟨j, hj, TaskGraph.resolve?_of_name hnames hj hname hpath⟩
  rcases h.port_cases hport with href | ⟨href, -⟩ | ⟨e, he, rfl, source, ref', f, hsource, href, -,
    htask, hpath⟩
  · obtain rfl := Option.some.inj href
    obtain ⟨j, hj, hresolve⟩ := hfound _ (mem_tasks.2 ⟨id, node, hnode, .inl rfl⟩) _ rfl
      get?_stateOut
    exact ⟨j, _, hresolve, .inl hj⟩
  · cases href
  · obtain rfl := Option.some.inj href
    obtain ⟨j, hj, hresolve⟩ := hfound _ (mem_tasks.2 ⟨_, source, hsource, .inr rfl⟩) _ htask.symm
      hpath
    exact ⟨j, _, hresolve, .inr ⟨e, he, rfl, source, hsource, hj⟩⟩

/-- The input ports of the tasks of an accepted graph can be bound. -/
theorem exists_bindAll (h : g.Accepted) (htasks : tasks.tasks = g.tasks mode modules out) :
    ∃ bound, tasks.bindAll = .ok bound := by
  refine TaskGraph.exists_bindAll (fun t ht port ref hport => ?_)
  obtain ⟨id, node, hnode, rfl | rfl⟩ := mem_tasks.1 (htasks ▸ ht)
  · cases hport
  · obtain ⟨j, path, hresolve, -⟩ := h.resolve?_inputPort htasks hport hnode
    rw [hresolve, Option.isSome_some]

/-- What feeds a task: the state task of a node feeds its process task, and along an edge one
process task feeds the other. -/
theorem feeds_iff (h : g.Accepted) (htasks : tasks.tasks = g.tasks mode modules out) :
    tasks.Feeds j i ↔ ∃ id node, g.node? id = some node ∧
      tasks.tasks[i]? = some (g.processTask mode modules out id node) ∧
        (tasks.tasks[j]? = some (stateTask out id node) ∨
          ∃ e ∈ g.edges, e.target = id ∧ ∃ source, g.node? e.source = some source ∧
            tasks.tasks[j]? = some (g.processTask mode modules out e.source source)) := by
  have hnames : (tasks.tasks.map (·.name)).Nodup := htasks ▸ h.nodup_taskNames mode modules out
  constructor
  · rintro ⟨t, port, ref, path, ht, hport, hresolve⟩
    obtain ⟨id, node, hnode, rfl | rfl⟩ := mem_tasks.1 (htasks ▸ List.mem_of_getElem? ht)
    · cases hport
    · obtain ⟨j', path', hresolve', hfrom⟩ := h.resolve?_inputPort htasks hport hnode
      obtain ⟨rfl, rfl⟩ := Prod.mk.inj (Option.some.inj (hresolve.symm.trans hresolve'))
      exact ⟨id, node, hnode, ht, hfrom⟩
  · rintro ⟨id, node, hnode, hi, hj | ⟨e, he, rfl, source, hsource, hj⟩⟩
    · exact ⟨_, _, _, _, hi, get?_stateIn, TaskGraph.resolve?_of_name hnames hj rfl get?_stateOut⟩
    · -- An edge moves the schema of its output at least.
      have hschema : Naming.schemaFile e.source source.kind e.output ∈ g.moved mode e := by
        rw [moved, hsource, Option.map_some, Option.getD_some, mem_portsFor]
        exact ⟨_, List.mem_singleton_self _, .inl rfl⟩
      obtain ⟨port, ref, hport, htask, hpath⟩ := h.exists_port_of_mem_moved he hsource hnode hschema
      exact ⟨_, port, ref, _, hi, hport, TaskGraph.resolve?_of_name hnames hj htask.symm hpath⟩

/-! ## What stalls -/

/-- A task that stalls is the process task of a node, and so is one that it comes after. -/
private theorem exists_before_of_stalls (h : g.Accepted)
    (htasks : tasks.tasks = g.tasks mode modules out) (hi : Stalls tasks.Feeds i) :
    ∃ e ∈ g.edges, ∃ source target j, g.node? e.source = some source ∧
      g.node? e.target = some target ∧
      tasks.tasks[i]? = some (g.processTask mode modules out e.target target) ∧
      tasks.tasks[j]? = some (g.processTask mode modules out e.source source) ∧
        Stalls tasks.Feeds j := by
  obtain ⟨j, hfeeds, hj⟩ := hi.exists_before
  obtain ⟨id, node, hnode, hget, hstate | ⟨e, he, rfl, source, hsource, hget'⟩⟩ :=
    (h.feeds_iff htasks).1 hfeeds
  · -- Nothing feeds a state task.
    obtain ⟨k, hfeeds', -⟩ := hj.exists_before
    obtain ⟨_, _, -, hprocess, -⟩ := (h.feeds_iff htasks).1 hfeeds'
    cases congrArg Task.role (Option.some.inj (hstate.symm.trans hprocess))
  · exact ⟨e, he, source, node, j, hsource, hnode, hget, hget', hj⟩

/-- The tasks that stall are the process tasks of the nodes that stall. -/
theorem stalls_iff (h : g.Accepted) (htasks : tasks.tasks = g.tasks mode modules out) :
    Stalls tasks.Feeds i ↔ ∃ id node, g.node? id = some node ∧
      tasks.tasks[i]? = some (g.processTask mode modules out id node) ∧ Stalls g.Flows id := by
  constructor
  · intro hi
    obtain ⟨e, -, -, target, -, -, htarget, hget, -⟩ := h.exists_before_of_stalls htasks hi
    -- Backwards from a task that stalls there is another one, of a node from which data flow.
    refine ⟨e.target, target, htarget, hget, stalls_of_back
      (P := fun id => ∃ node i, g.node? id = some node ∧
        tasks.tasks[i]? = some (g.processTask mode modules out id node) ∧ Stalls tasks.Feeds i)
      ?_ ?_ ⟨target, i, htarget, hget, hi⟩⟩
    · refine g.nodes.keys.finite_toSet.subset ?_
      rintro id ⟨node, -, hnode, -⟩
      have hget : g.nodes.get? id = some node := hnode
      exact SortedMap.mem_keys.2 (by rw [SortedMap.contains, hget]; rfl)
    · rintro id ⟨node, k, -, hk, hstalls⟩
      obtain ⟨e, he, source, target, j, hsource, -, hk', hj, hstalls'⟩ :=
        h.exists_before_of_stalls htasks hstalls
      have hid : id = e.target := congrArg Task.node (Option.some.inj (hk.symm.trans hk'))
      exact ⟨e.source, ⟨source, j, hsource, hj, hstalls'⟩, e, he, rfl, hid.symm⟩
  · -- Backwards from a node that stalls there is a source, and its task feeds this one.
    rintro ⟨id, node, hnode, hget, hstalls⟩
    refine stalls_of_back (P := fun i => ∃ id node, g.node? id = some node ∧
      tasks.tasks[i]? = some (g.processTask mode modules out id node) ∧ Stalls g.Flows id)
      ?_ ?_ ⟨id, node, hnode, hget, hstalls⟩
    · refine (Set.finite_lt_nat tasks.tasks.length).subset ?_
      rintro k ⟨_, _, -, hk, -⟩
      exact (List.getElem?_eq_some_iff.1 hk).1
    · rintro k ⟨id, node, hnode, hk, hstalls⟩
      obtain ⟨_, ⟨e, he, rfl, rfl⟩, hstalls'⟩ := hstalls.exists_before
      obtain ⟨source, _, hsource, -⟩ := h.ends e he
      obtain ⟨j, hj⟩ := exists_processTask htasks hsource
      exact ⟨j, ⟨_, source, hsource, hj, hstalls'⟩, (h.feeds_iff htasks).2
        ⟨_, node, hnode, hk, .inr ⟨e, he, rfl, source, hsource, hj⟩⟩⟩

/-- A task of an accepted graph stalls if and only if the graph has a cycle. -/
theorem exists_stalls_iff (h : g.Accepted) (htasks : tasks.tasks = g.tasks mode modules out) :
    (∃ i, Stalls tasks.Feeds i) ↔ g.Cyclic := by
  constructor
  · rintro ⟨i, hi⟩
    obtain ⟨_, _, -, -, id, hcycle, -⟩ := (h.stalls_iff htasks).1 hi
    exact ⟨id, hcycle⟩
  · rintro ⟨id, hcycle⟩
    -- A node on a cycle is the target of an edge.
    obtain ⟨_, ⟨e, he, -, rfl⟩, -⟩ := (Stalls.of_cycle hcycle).exists_before
    obtain ⟨-, target, -, htarget, -⟩ := h.ends e he
    obtain ⟨i, hi⟩ := exists_processTask htasks htarget
    exact ⟨i, (h.stalls_iff htasks).2 ⟨_, target, htarget, hi, .of_cycle hcycle⟩⟩

/-- The names of tasks that stand in order where something stalls. -/
theorem names_stuck (h : g.Accepted) (htasks : tasks.tasks = g.tasks mode modules out)
    {stuck : List Nat} (hstuck : stuck.Pairwise (· < ·))
    (hmem : ∀ i, i ∈ stuck ↔ i < tasks.tasks.length ∧ Stalls tasks.Feeds i)
    [DecidablePred (Stalls g.Flows)] :
    stuck.filterMap (fun i => tasks.tasks[i]?.map (·.name)) =
      (g.nodes.toList.filter (fun n => Stalls g.Flows n.1)).map
        (fun n => Naming.processTask n.1 n.2.kind) := by
  have hplaces : ∀ i, i ∈ stuck ↔ ∃ t, tasks.tasks[i]? = some t ∧
      decide (t.role = .process ∧ Stalls g.Flows t.node) = true := by
    intro i
    rw [hmem, h.stalls_iff htasks]
    constructor
    · rintro ⟨-, id, node, -, hi, hstalls⟩
      exact ⟨_, hi, decide_eq_true ⟨rfl, hstalls⟩⟩
    · rintro ⟨t, hi, ht⟩
      obtain ⟨hrole, hstalls⟩ := of_decide_eq_true ht
      refine ⟨(List.getElem?_eq_some_iff.1 hi).1, ?_⟩
      obtain ⟨id, node, hnode, rfl | rfl⟩ := mem_tasks.1 (htasks ▸ List.mem_of_getElem? hi)
      · cases hrole
      · exact ⟨id, node, hnode, hi, hstalls⟩
  rw [← List.map_filterMap, List.filterMap_getElem?_of_ascending hstuck hplaces, htasks]
  unfold Graph.tasks ofNodes
  induction g.nodes.toList with
  | nil => rfl
  | cons n nodes ih =>
    rw [List.flatMap_cons, List.filter_append, List.map_append, ih, List.filter_cons]
    -- Of the two tasks of a node, only the process task can be among them.
    by_cases hn : Stalls g.Flows n.1 <;> simp [stateTask, processTask, hn]

end Accepted

/-! ## Plans of compiled graphs -/

open Classical in
/-- The tasks of a compiled graph never refer to what does not exist. They have a plan unless
the edges of the graph form a cycle, and then the error names the process tasks of the nodes on
cycles and behind them, in the order of the ids. -/
theorem compile_plan {config : Config} (h : g.compile mode config out = .ok tasks) :
    (∀ task port, tasks.plan ≠ .error (.unresolvedPort task port)) ∧
      ((∃ names, tasks.plan = .error (.cycle names)) ↔ g.Cyclic) ∧
      (g.Cyclic → tasks.plan = .error (.cycle
        ((g.nodes.toList.filter (fun n => Stalls g.Flows n.1)).map
          (fun n => Naming.processTask n.1 n.2.kind)))) ∧
      (¬g.Cyclic → ∃ plan, tasks.plan = .ok plan) := by
  obtain ⟨haccepted, heq⟩ := of_compile h
  have htasks : tasks.tasks = g.tasks mode config.modules out := by rw [heq]
  have hstalls := haccepted.exists_stalls_iff htasks
  obtain ⟨bound, hbound⟩ := haccepted.exists_bindAll htasks
  rcases TaskGraph.plan_or_cycle hbound with
    ⟨⟨plan, hplan⟩, hfree⟩ | ⟨stuck, hne, horder, hmem, hplan⟩
  · have hacyclic : ¬g.Cyclic := fun hcyclic => by
      obtain ⟨i, hi⟩ := hstalls.2 hcyclic
      exact hfree i hi
    rw [hplan]
    exact ⟨nofun, ⟨nofun, fun hcyclic => absurd hcyclic hacyclic⟩,
      fun hcyclic => absurd hcyclic hacyclic, fun _ => ⟨plan, rfl⟩⟩
  · obtain ⟨i, hi⟩ := List.exists_mem_of_ne_nil stuck hne
    have hcyclic : g.Cyclic := hstalls.1 ⟨i, ((hmem i).1 hi).2⟩
    rw [hplan, haccepted.names_stuck htasks horder hmem]
    exact ⟨nofun, ⟨fun _ => hcyclic, fun _ => ⟨_, rfl⟩⟩, fun _ => rfl,
      fun hacyclic => absurd hcyclic hacyclic⟩

end Graph

/-! ## A ring of two nodes -/

namespace Ring

/-- A node with an output. -/
def before : Node where
  kind := "k"
  outputs := SortedMap.ofList [("x", [])]

/-- A node that reads from the one before, or from another one. -/
def inside : Node where
  kind := "k"
  inputs := SortedMap.ofList [("y", .null), ("z", .null)]
  outputs := SortedMap.ofList [("x", [])]

/-- A node with an input. -/
def behind : Node where
  kind := "k"
  inputs := SortedMap.ofList [("y", .null)]

/-- Two nodes that read each other's output, one that they read from, and one that reads from
them. -/
def graph : Graph where
  nodes := SortedMap.ofList [("a", before), ("b", inside), ("c", inside), ("d", behind)]
  edges := [⟨"a", "x", "b", "y"⟩, ⟨"c", "x", "b", "z"⟩, ⟨"b", "x", "c", "y"⟩, ⟨"c", "x", "d", "y"⟩]

theorem flows_iff {source target : NodeId} : graph.Flows source target ↔
    (source, target) ∈ [("a", "b"), ("c", "b"), ("b", "c"), ("c", "d")] := by
  simp [Graph.Flows, graph, eq_comm]

theorem stalls_iff (id : NodeId) : Stalls graph.Flows id ↔ id ∈ ["b", "c", "d"] := by
  have hb : Stalls graph.Flows "b" :=
    .of_cycle (.tail (.single (flows_iff.2 (by decide) : graph.Flows "b" "c"))
      (flows_iff.2 (by decide)))
  have hc : Stalls graph.Flows "c" := hb.step (flows_iff.2 (by decide))
  -- The cycle is `b` and `c`; `d` is behind it.
  have hd : Stalls graph.Flows "d" := hc.step (flows_iff.2 (by decide))
  constructor
  · intro h
    obtain ⟨source, hflows, -⟩ := h.exists_before
    have := flows_iff.1 hflows
    simp only [List.mem_cons, Prod.mk.injEq, List.not_mem_nil, or_false] at this ⊢
    tauto
  · intro h
    simp only [List.mem_cons, List.not_mem_nil, or_false] at h
    rcases h with rfl | rfl | rfl
    · exact hb
    · exact hc
    · exact hd

end Ring

open BlockFlow.Ring in
/-- The ring is reported with the node behind it, and without the one before it. -/
theorem ring_cycle : ∃ tasks, graph.compile .evaluate {} "/o" = .ok tasks ∧ graph.Cyclic ∧
    tasks.plan = .error (.cycle ["k-b", "k-c", "k-d"]) := by
  obtain ⟨tasks, hcompile⟩ : ∃ tasks, graph.compile .evaluate {} "/o" = .ok tasks := ⟨_, rfl⟩
  have hcyclic : graph.Cyclic := by
    obtain ⟨c, hcycle, -⟩ := (Ring.stalls_iff "b").2 (by decide)
    exact ⟨c, hcycle⟩
  refine ⟨tasks, hcompile, hcyclic, ?_⟩
  rw [(Graph.compile_plan hcompile).2.2.1 hcyclic]
  rw [List.filter_congr (q := fun n => decide (n.1 ∈ ["b", "c", "d"]))
    (fun n _ => decide_eq_decide.2 (Ring.stalls_iff n.1))]
  rfl

end BlockFlow
