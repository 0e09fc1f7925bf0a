import BlockFlow.Proofs.Graph.Cycles

/-!
# The two modes of one graph

A graph is compiled once for validating and once for evaluating. The evaluating run does what the
validating one does and moves instances besides: take the ports of instances away, and what is left
are the ports of the validating run, fed and published alike (`Graph.Extends`). An instance comes
from where the schema next to it comes from, so instances make no task wait for another one, and
the two runs are planned alike.

## Key results

- `TaskGraph.plan_alike`: task graphs whose tasks have the same names and the same producers are
  planned alike
- `Graph.Accepted.extends_processTask`: the process tasks of a node in the two modes
- `Graph.evaluate_extends_validate`: the two task graphs of a graph, and their plans
-/

namespace BlockFlow

/-! ## Ports of instances -/

namespace Naming

/-- Whether a port belongs to an instance, by its name. -/
def ofInstance (port : String) : Bool := ".instance".toList.isSuffixOf port.toList

/-- A name that ends in a text with this ending is one of an instance. -/
theorem ofInstance_append (s : String) {a : String} (h : ".instance".toList <:+ a.toList) :
    ofInstance (s ++ a) = true := by
  rw [ofInstance, List.isSuffixOf_iff_suffix, String.toList_append]
  exact h.trans (List.suffix_append _ _)

/-- Two endings of which none is the end of the other do not meet in one name. -/
theorem ofInstance_append_eq_false (s : String) {a : String}
    (h : ¬a.toList <:+ ".instance".toList) (h' : ¬".instance".toList <:+ a.toList) :
    ofInstance (s ++ a) = false := by
  by_contra htrue
  rw [Bool.not_eq_false, ofInstance, List.isSuffixOf_iff_suffix] at htrue
  obtain ⟨t, ht⟩ := htrue
  apply append_ne_append h h' s (String.ofList t)
  rw [← String.toList_inj, ← ht]
  simp

variable (id x : String)

@[simp] theorem ofInstance_stateIn : ofInstance (stateIn id) = false :=
  ofInstance_append_eq_false _ (by decide) (by decide)

@[simp] theorem ofInstance_stateOut : ofInstance (stateOut id) = false :=
  ofInstance_append_eq_false _ (by decide) (by decide)

@[simp] theorem ofInstance_schemaIn : ofInstance (schemaIn id x) = false :=
  ofInstance_append_eq_false _ (by decide) (by decide)

@[simp] theorem ofInstance_schemaOut : ofInstance (schemaOut id x) = false :=
  ofInstance_append_eq_false _ (by decide) (by decide)

@[simp] theorem ofInstance_instanceIn : ofInstance (instanceIn id x) = true :=
  ofInstance_append _ (by decide)

@[simp] theorem ofInstance_instanceOut : ofInstance (instanceOut id x) = true :=
  ofInstance_append _ (by decide)

end Naming

/-! ## Task graphs that are wired alike -/

namespace TaskGraph

variable {β γ : Type} {g : TaskGraph β} {g' : TaskGraph γ}
  {bound bound' : List (List BoundPort)}

/-- The same tasks feed a task, so they are as many. -/
private theorem producersAt_perm (hbound : g.bindAll = .ok bound)
    (hbound' : g'.bindAll = .ok bound')
    (hfeeds : ∀ i j, g.Feeds j i ↔ g'.Feeds j i) (i : Nat) :
    (Plan.producersAt g.producers i).Perm (Plan.producersAt g'.producers i) := by
  apply (List.perm_ext_iff_of_nodup (g.nodup_producersAt i) (g'.nodup_producersAt i)).2
  intro j
  rw [mem_producersAt hbound, mem_producersAt hbound', hfeeds]

/-- Tasks with the same names that the same tasks feed are planned alike: they wait for as many
tasks and the same tasks wait for them, or they are stuck in the same cycles. -/
theorem plan_alike (hbound : g.bindAll = .ok bound) (hbound' : g'.bindAll = .ok bound')
    (hnames : g.tasks.map (·.name) = g'.tasks.map (·.name))
    (hfeeds : ∀ i j, g.Feeds j i ↔ g'.Feeds j i) :
    (∃ p q, g.plan = .ok p ∧ g'.plan = .ok q ∧ p.dependents = q.dependents ∧
        p.remaining = q.remaining) ∨
      ∃ names, g.plan = .error (.cycle names) ∧ g'.plan = .error (.cycle names) := by
  have hlength : g.tasks.length = g'.tasks.length := by
    simpa using congrArg List.length hnames
  -- The producers of a task may be listed in another order, but they are as many, and the same.
  have hproducers := producersAt_perm hbound hbound' hfeeds
  have hcount : g.producers.length = g'.producers.length := by
    rw [length_producers hbound, length_producers hbound', hlength]
  have hwaiting : Plan.waitingAll g.producers [] = Plan.waitingAll g'.producers [] := by
    unfold Plan.waitingAll
    rw [hcount]
    apply List.map_congr_left
    intro i _
    exact ((hproducers i).filter _).length_eq
  have hdependents : g.dependents = g'.dependents := by
    unfold dependents
    rw [hlength]
    apply List.map_congr_left
    intro j _
    unfold Plan.dependentsOf
    rw [hcount]
    apply List.filter_congr
    intro i _
    rw [Bool.eq_iff_iff, List.contains_iff_mem, List.contains_iff_mem]
    exact (hproducers i).mem_iff
  -- So the queue goes the same way through both graphs.
  have htraversal : g.traversal = g'.traversal := by
    unfold traversal
    rw [hdependents, hlength, hwaiting]
  have hname : ∀ i : Nat, g.tasks[i]?.map (·.name) = g'.tasks[i]?.map (·.name) := by
    intro i
    rw [← List.getElem?_map, ← List.getElem?_map, hnames]
  rw [plan_of_bindAll hbound, plan_of_bindAll hbound', htraversal, hlength]
  by_cases hshort : g'.traversal.1.length < g'.tasks.length
  · right
    rw [if_pos hshort, if_pos hshort]
    simp only [hname]
    exact ⟨_, rfl, rfl⟩
  · left
    rw [if_neg hshort, if_neg hshort]
    exact ⟨_, _, rfl, rfl, hdependents, hwaiting⟩

end TaskGraph

/-! ## The tasks of the two modes -/

namespace Graph

/-- The ports that do not belong to instances. -/
def withoutInstances {α : Type} (ports : NameMap α) : NameMap α :=
  ports.filter (fun port _ => !Naming.ofInstance port)

/-- What feeds the schema of an input and what feeds its instance belong together: nothing feeds
either, or one edge brings both from the process task of its source. -/
def FedTogether (g : Graph) (tasks : List (Task Work)) (id : NodeId) (input : String)
    (schema inst : Option PortRef) : Prop :=
  (schema = none ∧ inst = none) ∨
    ∃ e ∈ g.edges, e.target = id ∧ e.input = input ∧ ∃ u ∈ tasks, u.role = .process ∧
      u.node = e.source ∧ schema = some ⟨u.name, Naming.schemaOut e.source e.output⟩ ∧
        inst = some ⟨u.name, Naming.instanceOut e.source e.output⟩

/-- A task of the evaluating run does what a task of the validating run does, and moves instances
besides. -/
structure Extends (g : Graph) (tasks : List (Task Work)) (v e : Task Work) : Prop where
  name : v.name = e.name
  node : v.node = e.node
  role : v.role = e.role
  work : v.work = e.work
  /-- The state is written in the same way. -/
  state : v.role = .state → v = e
  inputs : v.inputPorts = withoutInstances e.inputPorts
  outputs : v.outputPorts = withoutInstances e.outputPorts
  /-- An instance comes from where the schema of its input comes from. -/
  instances : ∀ port ref?, e.inputPorts.get? port = some ref? → Naming.ofInstance port = true →
    ∃ n input schema?, g.node? e.node = some n ∧ input ∈ n.inputNames ∧
      port = Naming.instanceIn e.node input ∧
      e.inputPorts.get? (Naming.schemaIn e.node input) = some schema? ∧
        g.FedTogether tasks e.node input schema? ref?

variable {g : Graph} {modules : BlockModules} {out : Path} {id : NodeId} {node : Node}

theorem get?_withoutInstances {α : Type} (ports : NameMap α) (port : String) :
    (withoutInstances ports).get? port =
      (ports.get? port).filter (fun _ => !Naming.ofInstance port) :=
  SortedMap.get?_filter ports _ port

/-- Ports that belong to no instance are all kept. -/
theorem withoutInstances_eq {α : Type} {ports : NameMap α}
    (h : ∀ port ∈ ports.keys, Naming.ofInstance port = false) : withoutInstances ports = ports := by
  apply SortedMap.ext
  intro port
  rw [get?_withoutInstances]
  cases hget : ports.get? port with
  | none => rfl
  | some a =>
    have hport := h port (SortedMap.mem_keys.2 (by rw [SortedMap.contains, hget]; rfl))
    simp [hport]

/-- A validating task reads at the ports of an evaluating one that are not of instances. -/
theorem inputPorts_validate :
    (g.processTask .validate modules out id node).inputPorts =
      withoutInstances (g.processTask .evaluate modules out id node).inputPorts := by
  apply SortedMap.ext
  intro port
  ext ref?
  rw [get?_withoutInstances, Option.filter_eq_some_iff, get?_inputPorts, get?_inputPorts]
  constructor
  · intro h
    rcases h with heq | ⟨i, hi, heq | ⟨hmode, -⟩⟩
    · obtain ⟨rfl, rfl⟩ := Prod.mk.inj heq
      simp
    · obtain ⟨rfl, rfl⟩ := Prod.mk.inj heq
      refine ⟨.inr ⟨i, hi, .inl rfl⟩, by simp⟩
    · cases hmode
  · intro ⟨h, hport⟩
    rcases h with heq | ⟨i, hi, heq | ⟨-, heq⟩⟩
    · exact .inl heq
    · exact .inr ⟨i, hi, .inl heq⟩
    · -- The port of an instance is not kept.
      obtain ⟨rfl, -⟩ := Prod.mk.inj heq
      simp at hport

/-- A validating task publishes at the ports of an evaluating one that are not of instances. -/
theorem outputPorts_validate :
    (g.processTask .validate modules out id node).outputPorts =
      withoutInstances (g.processTask .evaluate modules out id node).outputPorts := by
  apply SortedMap.ext
  intro port
  ext path
  rw [get?_withoutInstances, Option.filter_eq_some_iff, get?_outputPorts, get?_outputPorts]
  -- The filter takes out what validation leaves out: the ports of instances.
  constructor
  · intro h
    rcases h with ⟨o, ho, heq | ⟨hmode, -⟩⟩
    · obtain ⟨rfl, rfl⟩ := Prod.mk.inj heq
      refine ⟨⟨o, ho, .inl rfl⟩, by simp⟩
    · cases hmode
  · intro ⟨h, hport⟩
    rcases h with ⟨o, ho, heq | ⟨-, heq⟩⟩
    · exact ⟨o, ho, .inl heq⟩
    · obtain ⟨rfl, -⟩ := Prod.mk.inj heq
      simp at hport

/-- The edge into an input brings its schema and its instance, or there is none and nothing does. -/
theorem Accepted.fedTogether (h : g.Accepted) (input : String) :
    g.FedTogether (g.tasks .evaluate modules out) id input (g.feed? Naming.schemaOut id input)
      (g.feed? Naming.instanceOut id input) := by
  cases hedge : g.edgeInto? id input with
  | none => exact .inl ⟨by simp [feed?, hedge], by simp [feed?, hedge]⟩
  | some e =>
    have he := List.mem_of_find?_eq_some hedge
    have htarget := List.find?_some hedge
    simp only [Bool.and_eq_true, decide_eq_true_eq] at htarget
    obtain ⟨source, -, hsource, -⟩ := h.ends e he
    -- One edge ends at the input, and it feeds both ports.
    have hfeed : ∀ port, g.feed? port id input =
        some ⟨Naming.processTask e.source source.kind, port e.source e.output⟩ := by
      intro port
      simp [feed?, hedge, sourcePort?, hsource]
    right
    exact ⟨e, he, htarget.1, htarget.2, g.processTask .evaluate modules out e.source source,
      mem_tasks.2 ⟨_, _, hsource, .inr rfl⟩, rfl, rfl, hfeed _, hfeed _⟩

/-- The state task of a node is the same in both modes. -/
theorem extends_stateTask (tasks : List (Task Work)) :
    g.Extends tasks (stateTask out id node) (stateTask out id node) where
  name := rfl
  node := rfl
  role := rfl
  work := rfl
  state _ := rfl
  inputs := rfl
  outputs := by
    refine (withoutInstances_eq ?_).symm
    intro port hport
    have hkeys : (stateTask out id node).outputPorts.keys = [Naming.stateOut id] := rfl
    rw [hkeys, List.mem_singleton] at hport
    rw [hport, Naming.ofInstance_stateOut]
  instances _ _ hport := by cases hport

/-- The process task of a node in the evaluating run extends the one in the validating run. -/
theorem Accepted.extends_processTask (h : g.Accepted) (modules : BlockModules) (out : Path)
    (hnode : g.node? id = some node) :
    g.Extends (g.tasks .evaluate modules out) (g.processTask .validate modules out id node)
      (g.processTask .evaluate modules out id node) where
  name := rfl
  node := rfl
  role := rfl
  work := rfl
  state hrole := by cases hrole
  inputs := inputPorts_validate
  outputs := outputPorts_validate
  instances port ref? hport hinst := by
    rcases get?_inputPorts.1 hport with heq | ⟨i, hi, heq | ⟨-, heq⟩⟩
    · obtain ⟨rfl, -⟩ := Prod.mk.inj heq
      simp at hinst
    · obtain ⟨rfl, -⟩ := Prod.mk.inj heq
      simp at hinst
    · obtain ⟨rfl, rfl⟩ := Prod.mk.inj heq
      exact ⟨node, i, _, hnode, hi, rfl, get?_schemaIn hi, h.fedTogether i⟩

/-- The tasks of the evaluating run extend those of the validating run, one by one. -/
theorem Accepted.extends_tasks (h : g.Accepted) (modules : BlockModules) (out : Path) :
    List.Forall₂ (g.Extends (g.tasks .evaluate modules out)) (g.tasks .validate modules out)
      (g.tasks .evaluate modules out) := by
  have hnodes : ∀ n ∈ g.nodes.toList, g.node? n.1 = some n.2 := fun _ => SortedMap.mem_toList.1
  -- The list of all tasks stays what it is while the induction goes through the nodes.
  generalize htasks : g.tasks .evaluate modules out = tasks
  conv => arg 3; rw [← htasks]
  unfold Graph.tasks ofNodes
  generalize g.nodes.toList = nodes at hnodes
  induction nodes with
  | nil => exact .nil
  | cons n nodes ih =>
    have hprocess := h.extends_processTask modules out (hnodes n List.mem_cons_self)
    rw [htasks] at hprocess
    have hrest := ih (fun n' hn' => hnodes n' (List.mem_cons_of_mem _ hn'))
    exact .cons (extends_stateTask _) (.cons hprocess hrest)

/-! ## Both runs of a graph -/

/-- The tasks have the same names in both modes, in the same order. -/
theorem map_name_tasks (g : Graph) (mode mode' : Mode) (modules : BlockModules) (out : Path) :
    (g.tasks mode modules out).map (·.name) = (g.tasks mode' modules out).map (·.name) := by
  unfold tasks ofNodes
  rw [List.map_flatMap, List.map_flatMap]
  rfl

/-- Tasks with one name stand at one place, whatever the modes are. -/
theorem Accepted.getElem?_of_name {mode mode' : Mode} (h : g.Accepted) {t t' : Task Work} {i : Nat}
    (ht : (g.tasks mode modules out)[i]? = some t) (ht' : t' ∈ g.tasks mode' modules out)
    (hname : t.name = t'.name) : (g.tasks mode' modules out)[i]? = some t' := by
  obtain ⟨j, hj⟩ := List.mem_iff_getElem?.1 ht'
  have hnames := h.nodup_taskNames mode' modules out
  have hi : ((g.tasks mode' modules out).map (·.name))[i]? = some t'.name := by
    rw [map_name_tasks g mode' mode, List.getElem?_map, ht, Option.map_some, hname]
  have hj' : ((g.tasks mode' modules out).map (·.name))[j]? = some t'.name := by
    rw [List.getElem?_map, hj, Option.map_some]
  have hlt := (List.getElem?_eq_some_iff.1 hj').1
  rw [(List.getElem?_inj hlt hnames).1 (hj'.trans hi.symm)] at hj
  exact hj

/-- What feeds a task in one mode feeds it in the other. -/
theorem Accepted.feeds_of_mode {mode mode' : Mode} (h : g.Accepted) {a b : TaskGraph Work}
    (ha : a.tasks = g.tasks mode modules out) (hb : b.tasks = g.tasks mode' modules out) {i j : Nat}
    (hfeeds : a.Feeds j i) : b.Feeds j i := by
  obtain ⟨id, node, hnode, hi, hj⟩ := (h.feeds_iff ha).1 hfeeds
  -- The tasks of the other mode at these places have the same names.
  have hprocess : ∀ {k : Nat} {id : NodeId} {node : Node}, g.node? id = some node →
      a.tasks[k]? = some (g.processTask mode modules out id node) →
        b.tasks[k]? = some (g.processTask mode' modules out id node) := by
    intro k id node hnode hk
    rw [ha] at hk
    rw [hb]
    exact h.getElem?_of_name hk (mem_tasks.2 ⟨id, node, hnode, .inr rfl⟩) rfl
  apply (h.feeds_iff hb).2
  refine ⟨id, node, hnode, hprocess hnode hi, ?_⟩
  cases hj with
  | inl hstate =>
    left
    rw [ha] at hstate
    rw [hb]
    exact h.getElem?_of_name hstate (mem_tasks.2 ⟨id, node, hnode, .inl rfl⟩) rfl
  | inr hedge =>
    obtain ⟨e, he, htarget, source, hsource, hj⟩ := hedge
    exact .inr ⟨e, he, htarget, source, hsource, hprocess hsource hj⟩

/-- The runs of the two modes are planned alike. -/
theorem Accepted.plan_alike {mode mode' : Mode} (h : g.Accepted) {a b : TaskGraph Work}
    (ha : a.tasks = g.tasks mode modules out) (hb : b.tasks = g.tasks mode' modules out) :
    (∃ p q, a.plan = .ok p ∧ b.plan = .ok q ∧ p.dependents = q.dependents ∧
        p.remaining = q.remaining) ∨
      ∃ names, a.plan = .error (.cycle names) ∧ b.plan = .error (.cycle names) := by
  obtain ⟨bound, hbound⟩ := h.exists_bindAll ha
  obtain ⟨bound', hbound'⟩ := h.exists_bindAll hb
  apply TaskGraph.plan_alike hbound hbound'
  · rw [ha, hb]
    exact map_name_tasks g mode mode' modules out
  · intro i j
    exact ⟨h.feeds_of_mode ha hb, h.feeds_of_mode hb ha⟩

/-- Evaluating extends validating: a graph is compiled in both modes or refused with the same
error in both. If it is compiled, each task of the evaluating run extends that of the validating
run at its place, and the two runs are planned alike. -/
theorem evaluate_extends_validate (g : Graph) (config : Config) (out : Path) :
    (∃ fault, g.compile .validate config out = .error fault ∧
      g.compile .evaluate config out = .error fault) ∨
    ∃ v e, g.compile .validate config out = .ok v ∧ g.compile .evaluate config out = .ok e ∧
      List.Forall₂ (g.Extends e.tasks) v.tasks e.tasks ∧
      ((∃ p q, v.plan = .ok p ∧ e.plan = .ok q ∧ p.dependents = q.dependents ∧
          p.remaining = q.remaining) ∨
        ∃ names, v.plan = .error (.cycle names) ∧ e.plan = .error (.cycle names)) := by
  cases hvalid : g.validate with
  | error fault => exact .inl ⟨fault, compile_eq_error hvalid, compile_eq_error hvalid⟩
  | ok u =>
    right
    have haccepted := accepted_of_validate hvalid
    have hextends := haccepted.extends_tasks config.modules out
    refine ⟨_, _, compile_eq_ok hvalid, compile_eq_ok hvalid, hextends, ?_⟩
    exact haccepted.plan_alike rfl rfl

end Graph

end BlockFlow
