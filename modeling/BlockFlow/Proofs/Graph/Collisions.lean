import BlockFlow.Proofs.Graph.Wiring

/-!
# Names that are told apart, and names that clash

In a compiled graph the names of tasks, the names of ports and the published paths come once each,
and every published path lies directly in the output directory. A graph that is refused for a name
that comes twice is refused rightly: two of its nodes make the name, and they make it already in a
validating run, which has no instances.

## Key results

- `Graph.Accepted.apart`: what accepted graphs tell apart
- `Graph.clash_of_validate`: a collision that the check reports is one of two nodes
- `Graph.names_apart_or_clash`: both directions
-/

namespace BlockFlow

/-- The names of a task's ports. -/
def Task.portNames {β : Type} (t : Task β) : List String := t.inputPorts.keys ++ t.outputPorts.keys

/-- Whether an error reports a name that comes twice. -/
def GraphError.IsCollision : GraphError → Prop
  | .taskNameCollision _ | .portCollision _ | .outputCollision _ => True
  | _ => False

namespace Graph

variable {g : Graph} {mode : Mode} {modules : BlockModules} {out : Path}

/-- Tasks that nothing mistakes for each other, and that publish in a directory. -/
structure Apart (out : Path) (tasks : List (Task Work)) : Prop where
  names : (tasks.map (·.name)).Nodup
  /-- No port name comes twice, in one task or two, for reading or for publishing. -/
  ports : (tasks.flatMap Task.portNames).Nodup
  paths : (tasks.flatMap (·.outputPorts.values)).Nodup
  /-- Every path leads to an entry of the directory other than the scratch root. -/
  children : ∀ t ∈ tasks, ∀ p ∈ t.outputPorts.values, ∃ f, Path.Plain f ∧ f ≠ Job.scratchName ∧
    p = Path.join out f ∧ p.names = out.names ++ [f]

/-- A name that tasks of two nodes have. -/
def Clash (tasks : List (Task Work)) (names : Task Work → List String) (name : String) : Prop :=
  ∃ t ∈ tasks, ∃ u ∈ tasks, t.node ≠ u.node ∧ name ∈ names t ∧ name ∈ names u

/-- Where names clash, one of them comes twice. -/
theorem Clash.not_nodup {tasks : List (Task Work)} {names : Task Work → List String}
    {name : String} (h : Clash tasks names name) : ¬(tasks.flatMap names).Nodup := by
  obtain ⟨t, ht, u, hu, hne, hnt, hnu⟩ := h
  exact fun hnodup => hne (congrArg Task.node (List.eq_of_nodup_flatMap hnodup ht hu hnt hnu))

/-! ## What a graph's tasks make -/

/-- The ports of a node's two tasks. -/
private theorem portNames_perm (g : Graph) (mode : Mode) (modules : BlockModules) (out : Path)
    (id : NodeId) (node : Node) :
    ([stateTask out id node, g.processTask mode modules out id node].flatMap Task.portNames).Perm
      (Naming.stateIn id :: Naming.stateOut id ::
        (portsFor mode node.inputNames (Naming.schemaIn id) (Naming.instanceIn id) ++
          portsFor mode node.outputNames (Naming.schemaOut id) (Naming.instanceOut id))) := by
  have hstate : (stateTask out id node).portNames = [Naming.stateOut id] := rfl
  have hprocess := (keys_inputPorts_perm g mode modules out id node).append
    (keys_outputPorts_perm g mode modules out id node)
  rw [List.flatMap_cons, List.flatMap_singleton, hstate]
  exact (hprocess.cons _).trans (List.Perm.swap _ _ _)

/-- The published paths of a node's two tasks. -/
private theorem values_perm (g : Graph) (mode : Mode) (modules : BlockModules) (out : Path)
    (id : NodeId) (node : Node) :
    ([stateTask out id node, g.processTask mode modules out id node].flatMap
      (·.outputPorts.values)).Perm
        ((Naming.stateFile id node.kind :: portsFor mode node.outputNames
          (Naming.schemaFile id node.kind) (Naming.instanceFile id node.kind)).map
            (Path.join out)) := by
  have hstate : (stateTask out id node).outputPorts.values =
      [Path.join out (Naming.stateFile id node.kind)] := rfl
  rw [List.flatMap_cons, List.flatMap_singleton, hstate, List.map_cons]
  exact (values_outputPorts_perm g mode modules out id node).cons _

theorem flatMap_tasks {α : Type} (f : Task Work → List α) :
    (g.tasks mode modules out).flatMap f = g.ofNodes fun id node =>
      [stateTask out id node, g.processTask mode modules out id node].flatMap f :=
  List.flatMap_assoc

/-! ## Accepted graphs -/

/-- The tasks of an accepted graph are told apart by their names, ports and files. -/
theorem Accepted.apart (h : g.Accepted) (mode : Mode) (modules : BlockModules) (out : Path) :
    Apart out (g.tasks mode modules out) := by
  have hplain : ∀ id node, g.node? id = some node → ∀ f ∈ Naming.stateFile id node.kind ::
      portsFor mode node.outputNames (Naming.schemaFile id node.kind)
        (Naming.instanceFile id node.kind), Path.Plain f ∧ f ≠ Job.scratchName := by
    intro id node hnode f hf
    refine h.plain_of_mem_fileNames hnode ?_
    rcases List.mem_cons.1 hf with rfl | hf
    · exact List.mem_cons_self
    · exact mem_fileNames hf
  constructor
  case names => exact h.nodup_taskNames mode modules out
  -- In one mode a node has some of its ports, so they are apart if all ports are.
  case ports =>
    rw [flatMap_tasks]
    refine (List.Perm.flatMap_left _ fun n _ =>
      portNames_perm g mode modules out n.1 n.2).nodup_iff.2 (h.portNames.sublist ?_)
    refine List.Sublist.flatMap_right _ (fun n _ => .cons_cons _ (.cons_cons _ ?_))
    exact (portsFor_sublist _ _ _ _).append (portsFor_sublist _ _ _ _)
  case paths =>
    rw [flatMap_tasks]
    refine (List.Perm.flatMap_left _ fun n _ =>
      values_perm g mode modules out n.1 n.2).nodup_iff.2 ?_
    rw [← List.map_flatMap]
    -- Apart file names below one directory give apart paths.
    refine List.Nodup.map_on (fun f hf f' hf' heq => ?_) (h.fileNames.sublist ?_)
    · obtain ⟨n, hn, hf⟩ := List.mem_flatMap.1 hf
      obtain ⟨n', hn', hf'⟩ := List.mem_flatMap.1 hf'
      exact Path.join_inj (hplain _ _ (SortedMap.mem_toList.1 hn) f hf).1
        (hplain _ _ (SortedMap.mem_toList.1 hn') f' hf').1 out heq
    · exact List.Sublist.flatMap_right _ (fun n _ => .cons_cons _ (portsFor_sublist _ _ _ _))
  case children =>
    intro t ht p hp
    have hmem : p ∈ (g.tasks mode modules out).flatMap (·.outputPorts.values) :=
      List.mem_flatMap.2 ⟨t, ht, hp⟩
    rw [flatMap_tasks] at hmem
    obtain ⟨id, node, hnode, hmem⟩ := mem_ofNodes.1 hmem
    obtain ⟨f, hf, rfl⟩ := List.mem_map.1 ((values_perm g mode modules out id node).mem_iff.1 hmem)
    obtain ⟨hf, hscratch⟩ := hplain id node hnode f hf
    exact ⟨f, hf, hscratch, rfl, Path.names_join hf out⟩

/-! ## Collisions -/

private theorem not_isCollision_of_nameFault? {fault : GraphError}
    (h : g.nameFault? = some fault) : ¬fault.IsCollision := by
  obtain ⟨⟨role, name⟩, -, hfault⟩ := List.exists_of_findSome?_eq_some h
  simp only [Option.ite_none_right_eq_some, Option.some.injEq] at hfault
  exact hfault.2 ▸ id

private theorem not_isCollision_of_faultOfEdge? {earlier : List Edge} {index : Nat} {e : Edge}
    {fault : GraphError} (h : g.faultOfEdge? earlier index e = some fault) :
    ¬fault.IsCollision := by
  unfold faultOfEdge? at h
  split at h
  · exact (Option.some.inj h) ▸ id
  · exact (Option.some.inj h) ▸ id
  · split at h
    · exact (Option.some.inj h) ▸ id
    · split at h
      · exact (Option.some.inj h) ▸ id
      · split at h
        · exact (Option.some.inj h) ▸ id
        · cases h

private theorem not_isCollision_of_edgeFaultFrom? {earlier : List Edge} {index : Nat}
    {es : List Edge} {fault : GraphError} (h : g.edgeFaultFrom? earlier index es = some fault) :
    ¬fault.IsCollision := by
  induction es generalizing earlier index with
  | nil => cases h
  | cons e es ih =>
    rw [edgeFaultFrom?] at h
    split at h
    · next hedge => exact not_isCollision_of_faultOfEdge? (hedge.trans h)
    · exact ih h

/-- A collision is reported only if names come twice. -/
theorem collision?_of_validate {fault : GraphError} (h : g.validate = .error fault)
    (hcollision : fault.IsCollision) : g.collision? = some fault := by
  have hfault : g.fault? = some fault := by
    unfold validate at h
    split at h
    · next hfault => exact hfault.trans (congrArg some (Except.error.inj h))
    · cases h
  simp only [fault?, Option.or_eq_some_iff] at hfault
  rcases hfault with hname | ⟨-, hedge | ⟨-, hfault⟩⟩
  · exact absurd hcollision (not_isCollision_of_nameFault? hname)
  · exact absurd hcollision (not_isCollision_of_edgeFaultFrom? hedge)
  · exact hfault

/-- The first name that comes twice is a clash of the tasks of a validating run, if these have the
names that do without instances. -/
private theorem clash_of_firstRepeat? {F : NodeId × Node → Family} (hproper : Family.Proper F)
    {names : Task Work → List String} {f : String → String}
    (hnames : ∀ n, ∀ x ∈ (F n).schemaNames, f x ∈
      [stateTask out n.1 n.2, g.processTask .validate modules out n.1 n.2].flatMap names)
    {x : String} (h : firstRepeat? [] (g.ofNodes fun id node => (F (id, node)).names) = some x) :
    Clash (g.tasks .validate modules out) names (f x) := by
  have hkeys : (g.nodes.toList.map (·.1)).Nodup := g.nodes.nodup_keys
  obtain ⟨a, ha, b, hb, hne, hxa, hxb⟩ := hproper.exists_of_firstRepeat? (hkeys.of_map _) h
  -- The two nodes that share the name have each a task that has it.
  have htask : ∀ n ∈ g.nodes.toList, x ∈ (F n).schemaNames →
      ∃ t ∈ g.tasks .validate modules out, t.node = n.1 ∧ f x ∈ names t := by
    intro n hn hx
    obtain ⟨t, ht, hxt⟩ := List.mem_flatMap.1 (hnames n x hx)
    have hnode : g.node? n.1 = some n.2 := SortedMap.mem_toList.1 hn
    simp only [List.mem_cons, List.not_mem_nil, or_false] at ht
    refine ⟨t, mem_tasks.2 ⟨n.1, n.2, hnode, ht⟩, ?_, hxt⟩
    rcases ht with rfl | rfl <;> rfl
  obtain ⟨t, ht, hta, hxt⟩ := htask a ha hxa
  obtain ⟨u, hu, hub, hxu⟩ := htask b hb hxb
  refine ⟨t, ht, u, hu, fun heq => hne ?_, hxt, hxu⟩
  exact List.inj_on_of_nodup_map hkeys ha hb (hta.symm.trans (heq.trans hub))

private theorem clash_of_taskNames {name : String}
    (h : firstRepeat? [] (g.ofNodes Node.taskNames) = some name) :
    Clash (g.tasks .validate modules out) (fun t => [t.name]) name := by
  refine clash_of_firstRepeat? (f := id) Node.proper_taskFamily (fun n x hx => ?_)
    (by simpa only [Node.names_taskFamily] using h)
  rw [Node.schemaNames_taskFamily] at hx
  exact (List.Perm.swap _ _ _).mem_iff.1 hx

private theorem clash_of_portNames {port : String}
    (h : firstRepeat? [] (g.ofNodes Node.portNames) = some port) :
    Clash (g.tasks .validate modules out) Task.portNames port := by
  refine clash_of_firstRepeat? (f := id) Node.proper_portFamily (fun n x hx => ?_)
    (by simpa only [Node.names_portFamily] using h)
  refine (portNames_perm g .validate modules out n.1 n.2).mem_iff.2 ?_
  rwa [Node.schemaNames_portFamily, ← portsFor_validate _ _ (Naming.instanceIn n.1),
    ← portsFor_validate _ _ (Naming.instanceOut n.1)] at hx

private theorem clash_of_fileNames {file : String}
    (h : firstRepeat? [] (g.ofNodes Node.fileNames) = some file) :
    Clash (g.tasks .validate modules out) (·.outputPorts.values) (Path.join out file) := by
  refine clash_of_firstRepeat? (f := Path.join out) Node.proper_fileFamily (fun n x hx => ?_)
    (by simpa only [Node.names_fileFamily] using h)
  refine (values_perm g .validate modules out n.1 n.2).mem_iff.2 (List.mem_map_of_mem ?_)
  rwa [Node.schemaNames_fileFamily,
    ← portsFor_validate _ _ (Naming.instanceFile n.1 n.2.kind)] at hx

/-- A collision that the check reports is a clash of the tasks of a validating run. -/
theorem clash_of_validate (g : Graph) (modules : BlockModules) (out : Path) :
    (∀ name, g.validate = .error (.taskNameCollision name) →
      Clash (g.tasks .validate modules out) (fun t => [t.name]) name) ∧
    (∀ port, g.validate = .error (.portCollision port) →
      Clash (g.tasks .validate modules out) Task.portNames port) ∧
    (∀ file, g.validate = .error (.outputCollision file) →
      Clash (g.tasks .validate modules out) (·.outputPorts.values) (Path.join out file)) := by
  -- The names are checked first, then the ports, then the files.
  have hcollision : ∀ fault, g.validate = .error fault → fault.IsCollision → _ :=
    fun fault h hfault => Option.or_eq_some_iff.1 (collision?_of_validate h hfault)
  refine ⟨fun name h => clash_of_taskNames ?_, fun port h => clash_of_portNames ?_,
    fun file h => clash_of_fileNames ?_⟩
  · simpa [Option.or_eq_some_iff] using hcollision _ h trivial
  · have hports : firstRepeat? [] (g.ofNodes Node.taskNames) = none ∧
        firstRepeat? [] (g.ofNodes Node.portNames) = some port := by
      simpa [Option.or_eq_some_iff] using hcollision _ h trivial
    exact hports.2
  · have hfiles : firstRepeat? [] (g.ofNodes Node.taskNames) = none ∧
        firstRepeat? [] (g.ofNodes Node.portNames) = none ∧
          firstRepeat? [] (g.ofNodes Node.fileNames) = some file := by
      simpa [Option.or_eq_some_iff] using hcollision _ h trivial
    exact hfiles.2.2

/-- What a graph compiles to is told apart by its names. Where the check reports a collision, two
nodes clash, and they do so already in a validating run; so what is told apart in a validating run
is refused for no collision. -/
theorem names_apart_or_clash (g : Graph) (mode : Mode) (config : Config) (out : Path) :
    (∀ tasks, g.compile mode config out = .ok tasks → Apart out tasks.tasks) ∧
    (∀ name, g.validate = .error (.taskNameCollision name) →
      Clash (g.tasks .validate config.modules out) (fun t => [t.name]) name) ∧
    (∀ port, g.validate = .error (.portCollision port) →
      Clash (g.tasks .validate config.modules out) Task.portNames port) ∧
    (∀ file, g.validate = .error (.outputCollision file) →
      Clash (g.tasks .validate config.modules out) (·.outputPorts.values) (Path.join out file)) ∧
    (Apart out (g.tasks .validate config.modules out) →
      ∀ fault, g.validate = .error fault → ¬fault.IsCollision) := by
  obtain ⟨htasks, hports, hfiles⟩ := clash_of_validate g config.modules out
  refine ⟨fun tasks hcompile => ?_, htasks, hports, hfiles, fun hapart fault hfault => ?_⟩
  · obtain ⟨haccepted, rfl⟩ := of_compile hcompile
    exact haccepted.apart mode config.modules out
  · cases fault with
    | taskNameCollision name =>
      refine absurd ?_ (htasks name hfault).not_nodup
      exact List.map_eq_flatMap ▸ hapart.names
    | portCollision port => exact absurd hapart.ports (hports port hfault).not_nodup
    | outputCollision file => exact absurd hapart.paths (hfiles file hfault).not_nodup
    | _ => exact id

end Graph

/-! ## Clashing nodes -/

/-- Two nodes without edges. -/
def Graph.ofPair (id : NodeId) (node : Node) (id' : NodeId) (node' : Node) : Graph where
  nodes := SortedMap.ofList [(id, node), (id', node')]

/-- A node of this kind with one input. -/
def Node.reading (kind input : String) : Node where
  kind := kind
  inputs := SortedMap.ofList [(input, .null)]

/-- A node of this kind with one output. -/
def Node.writing (kind output : String) : Node where
  kind := kind
  outputs := SortedMap.ofList [(output, [])]

open BlockFlow.Graph in
/-- Two nodes that a hyphen keeps apart, and pairs in which it does not: one for tasks, one for
ports and one for files. -/
theorem hyphen_apart_or_clash :
    (∃ tasks, (ofPair "a" (.writing "k" "o") "b" (.reading "k" "o")).compile .evaluate {} "out" =
      .ok tasks ∧ Apart "out" tasks.tasks) ∧
    Clash ((ofPair "a-b" (.reading "k" "i") "b" (.reading "k-a" "i")).tasks .validate {} "out")
      (fun t => [t.name]) "k-a-b" ∧
    Clash ((ofPair "a" (.reading "k" "b-c") "a-b" (.reading "k" "c")).tasks .validate {} "out")
      Task.portNames "a-b-c.input.schema" ∧
    Clash ((ofPair "a" (.writing "k" "b-c") "b" (.writing "k-a" "c")).tasks .validate {} "out")
      (·.outputPorts.values) "out/k-a-b-c.schema" := by
  have hvalid : (ofPair "a" (.writing "k" "o") "b" (.reading "k" "o")).validate = .ok () := by
    decide +kernel
  have hcompile : (ofPair "a" (.writing "k" "o") "b" (.reading "k" "o")).compile .evaluate {}
      "out" = .ok _ := compile_eq_ok hvalid
  refine ⟨⟨_, hcompile, (names_apart_or_clash _ _ _ _).1 _ hcompile⟩, ?_, ?_, ?_⟩
  · exact (names_apart_or_clash _ .validate {} "out").2.1 _ (by decide +kernel)
  · exact (names_apart_or_clash _ .validate {} "out").2.2.1 _ (by decide +kernel)
  · exact (names_apart_or_clash _ .validate {} "out").2.2.2.1 "k-a-b-c.schema" (by decide +kernel)

end BlockFlow
