import BlockFlow.Proofs.List
import BlockFlow.Proofs.Lookup
import BlockFlow.Proofs.Plan.Counts

/-!
# What a plan says

A plan that a task graph has is an account of its wiring: `Plan.Accounts` lists what it
says. Producers are given by `TaskGraph.Feeds`, which looks at the ports alone.

## Key results

- `TaskGraph.accounts_of_plan`: the plan of a task graph accounts for it
- `Plan.Accounts.induction`: a property that passes from the producers of a task to the
  task holds of all tasks, since the wiring has no cycles
-/

namespace BlockFlow

namespace TaskGraph

variable {β : Type}

/-- An input port of the task at `i` reads an output port of the task at `j`. -/
def Feeds (g : TaskGraph β) (j i : Nat) : Prop :=
  ∃ t port ref path, g.tasks[i]? = some t ∧ t.inputPorts.get? port = some (some ref) ∧
    g.resolve? ref = some (j, path)

/-- The producers of every task, each once. -/
def producers (g : TaskGraph β) : List (List Nat) :=
  match g.bindAll with
  | .ok bound => bound.map Plan.producersOf
  | .error _ => []

/-! ## References -/

/-- The position that is found is that of a task of the name. -/
theorem of_lastIndexFrom? {name : String} {i k : Nat} {ts : List (Task β)}
    (h : lastIndexFrom? name i ts = some k) :
    i ≤ k ∧ ∃ t, ts[k - i]? = some t ∧ t.name = name := by
  induction ts generalizing i with
  | nil => cases h
  | cons t ts ih =>
    rw [lastIndexFrom?] at h
    -- A later task of the name goes before this one.
    cases hrest : lastIndexFrom? name (i + 1) ts with
    | some k' =>
      rw [hrest] at h
      obtain rfl := Option.some.inj h
      obtain ⟨hle, u, hu, hname⟩ := ih hrest
      refine ⟨by omega, u, ?_, hname⟩
      rw [show k' - i = (k' - (i + 1)) + 1 by omega]
      exact hu
    | none =>
      rw [hrest, Option.none_or] at h
      split at h
      · next hname =>
        obtain rfl := Option.some.inj h
        exact ⟨Nat.le_refl _, t, by simp, hname⟩
      · cases h

/-- A reference that can be resolved names a task with that output port. -/
theorem of_resolve? {g : TaskGraph β} {ref : PortRef} {j : Nat} {path : Path}
    (h : g.resolve? ref = some (j, path)) :
    ∃ u, g.tasks[j]? = some u ∧ u.name = ref.task ∧ u.outputPorts.get? ref.port = some path := by
  simp only [resolve?, Option.bind_eq_bind, Option.bind_eq_some_iff] at h
  obtain ⟨k, hk, u, hu, p, hp, heq⟩ := h
  obtain ⟨rfl, rfl⟩ := Prod.mk.inj (Option.some.inj heq)
  obtain ⟨-, t, ht, hname⟩ := of_lastIndexFrom? hk
  rw [Nat.sub_zero, hu] at ht
  obtain rfl := Option.some.inj ht
  exact ⟨u, hu, hname, hp⟩

/-- A name that a task has is found. -/
theorem isSome_lastIndexFrom? {t : Task β} {i : Nat} {ts : List (Task β)} (ht : t ∈ ts) :
    (lastIndexFrom? t.name i ts).isSome = true := by
  induction ts generalizing i with
  | nil => exact absurd ht List.not_mem_nil
  | cons u ts ih =>
    rw [lastIndexFrom?, Option.isSome_or]
    rcases List.mem_cons.1 ht with rfl | ht
    · simp
    · rw [ih ht, Bool.true_or]

/-- Of tasks with names of their own, one name means one position. -/
theorem eq_of_name {g : TaskGraph β} (hnames : (g.tasks.map (·.name)).Nodup) {i j : Nat}
    {t u : Task β} (ht : g.tasks[i]? = some t) (hu : g.tasks[j]? = some u)
    (hname : t.name = u.name) : i = j := by
  have hi : (g.tasks.map (·.name))[i]? = some t.name := by rw [List.getElem?_map, ht]; rfl
  have hj : (g.tasks.map (·.name))[j]? = some t.name := by
    rw [List.getElem?_map, hu, hname]
    rfl
  obtain ⟨hlt, -⟩ := List.getElem?_eq_some_iff.1 hi
  exact (List.getElem?_inj hlt hnames).1 (hi.trans hj.symm)

/-- Of tasks with names of their own, a name means the one that has it. -/
theorem resolve?_of_name {g : TaskGraph β} (hnames : (g.tasks.map (·.name)).Nodup) {j : Nat}
    {u : Task β} {ref : PortRef} {path : Path} (hu : g.tasks[j]? = some u)
    (hname : u.name = ref.task) (hpath : u.outputPorts.get? ref.port = some path) :
    g.resolve? ref = some (j, path) := by
  obtain ⟨k, hk⟩ := Option.isSome_iff_exists.1
    (isSome_lastIndexFrom? (i := 0) (List.mem_of_getElem? hu))
  obtain ⟨-, v, hv, hvname⟩ := of_lastIndexFrom? hk
  rw [Nat.sub_zero] at hv
  obtain rfl := eq_of_name hnames hu hv hvname.symm
  have hlast : g.lastIndex? ref.task = some j := by rw [← hname]; exact hk
  simp [resolve?, hlast, hu, hpath]

theorem Feeds.lt {g : TaskGraph β} {i j : Nat} (h : g.Feeds j i) : j < g.tasks.length := by
  obtain ⟨t, port, ref, path, ht, hport, href⟩ := h
  obtain ⟨u, hu, -, -⟩ := of_resolve? href
  exact (List.getElem?_eq_some_iff.1 hu).1

/-! ## Bound ports -/

private theorem of_bindPort {g : TaskGraph β} {task port : String} {ref? : Option PortRef}
    {b : BoundPort} (h : g.bindPort task port ref? = .ok b) :
    b.port = port ∧ b.source = ref?.bind g.resolve? ∧ ∀ ref ∈ ref?, (g.resolve? ref).isSome := by
  cases ref? with
  | none => cases h; simp
  | some ref =>
    rw [bindPort] at h
    split at h
    · next source hsource => cases h; simp [hsource]
    · cases h

/-- The bound ports of a task are its input ports, in order, each with what it reads. -/
theorem of_bindTask {g : TaskGraph β} {t : Task β} {ports : List BoundPort}
    (h : g.bindTask t = .ok ports) :
    ports = t.inputPorts.toList.map (fun e => ⟨e.1, e.2.bind g.resolve?⟩) ∧
      ∀ e ∈ t.inputPorts.toList, ∀ ref ∈ e.2, (g.resolve? ref).isSome := by
  have hall := List.forall₂_of_mapM_ok h
  clear h
  generalize t.inputPorts.toList = es at hall ⊢
  induction hall with
  | nil => simp
  | @cons e b es bs hb _ ih =>
    obtain ⟨hport, hsource, hsome⟩ := of_bindPort hb
    obtain ⟨rfl, hes⟩ := ih
    refine ⟨?_, ?_⟩
    · rw [List.map_cons, ← hport, ← hsource]
    · intro e' he'
      rcases List.mem_cons.1 he' with rfl | he'
      · exact hsome
      · exact hes e' he'

/-- The bound ports of all tasks stand at the positions of the tasks. -/
theorem getElem?_of_bindAll {g : TaskGraph β} {bound : List (List BoundPort)}
    (h : g.bindAll = .ok bound) :
    bound.length = g.tasks.length ∧
      ∀ (i : Nat) (t : Task β), g.tasks[i]? = some t →
        ∃ ports, bound[i]? = some ports ∧ g.bindTask t = .ok ports := by
  have hall := List.forall₂_of_mapM_ok h
  refine ⟨hall.length_eq.symm, fun i t ht => ?_⟩
  obtain ⟨hlt, rfl⟩ := List.getElem?_eq_some_iff.1 ht
  have hlt' : i < bound.length := hall.length_eq ▸ hlt
  exact ⟨bound[i], List.getElem?_eq_getElem hlt', hall.get hlt hlt'⟩

/-- The input ports are bound as soon as each reference can be resolved. -/
theorem exists_bindAll {g : TaskGraph β} (h : ∀ t ∈ g.tasks, ∀ port ref,
    t.inputPorts.get? port = some (some ref) → (g.resolve? ref).isSome = true) :
    ∃ bound, g.bindAll = .ok bound := by
  refine List.exists_mapM_ok (fun t ht => List.exists_mapM_ok (fun e he => ?_))
  obtain ⟨port, ref?⟩ := e
  cases ref? with
  | none => exact ⟨_, rfl⟩
  | some ref =>
    obtain ⟨source, hsource⟩ :=
      Option.isSome_iff_exists.1 (h t ht port ref (SortedMap.mem_toList.1 he))
    exact ⟨⟨port, some source⟩, by simp only [bindPort, hsource]⟩

theorem mem_producersOf {ports : List BoundPort} {j : Nat} :
    j ∈ Plan.producersOf ports ↔ ∃ b ∈ ports, ∃ path, b.source = some (j, path) := by
  simp [Plan.producersOf, List.mem_eraseDups]

theorem mem_producersAt {g : TaskGraph β} {bound : List (List BoundPort)}
    (h : g.bindAll = .ok bound) {i j : Nat} :
    j ∈ Plan.producersAt g.producers i ↔ g.Feeds j i := by
  obtain ⟨hlength, hbound⟩ := getElem?_of_bindAll h
  simp only [Plan.producersAt, producers, h]
  -- Where there is no task, nothing is bound, and nothing feeds it.
  cases ht : g.tasks[i]? with
  | none =>
    have hnone : bound[i]? = none := by
      rw [List.getElem?_eq_none_iff] at ht ⊢
      omega
    simp [hnone, Feeds, ht]
  | some t =>
    obtain ⟨ports, hports, hbind⟩ := hbound i t ht
    obtain ⟨rfl, -⟩ := of_bindTask hbind
    rw [List.getElem?_map, hports, Option.map_some, Option.getD_some, mem_producersOf]
    constructor
    · rintro ⟨b, hb, path, hsource⟩
      obtain ⟨⟨port, ref?⟩, he, rfl⟩ := List.mem_map.1 hb
      obtain ⟨ref, rfl, href⟩ := Option.bind_eq_some_iff.1 hsource
      exact ⟨t, port, ref, path, ht, SortedMap.mem_toList.1 he, href⟩
    · rintro ⟨t', port, ref, path, ht', hport, href⟩
      obtain rfl := Option.some.inj (ht.symm.trans ht')
      exact ⟨_, List.mem_map_of_mem (SortedMap.mem_toList.2 hport), path, href⟩

theorem nodup_producersAt (g : TaskGraph β) (i : Nat) :
    (Plan.producersAt g.producers i).Nodup := by
  unfold Plan.producersAt producers
  split
  · next bound _ =>
    rw [List.getElem?_map]
    cases bound[i]? with
    | none => exact List.nodup_nil
    | some ports => exact List.nodup_eraseDups _
  · exact List.nodup_nil

end TaskGraph

/-! ## The account -/

/-- What the plan of a task graph says about it. -/
structure Plan.Accounts {β : Type} (g : TaskGraph β) (plan : Plan) : Prop where
  length : g.producers.length = g.tasks.length
  mem : ∀ i j, j ∈ producersAt g.producers i ↔ g.Feeds j i
  remaining : plan.remaining = waitingAll g.producers []
  dependents : ∀ j < g.producers.length,
    plan.dependents[j]?.getD [] = dependentsOf g.producers j
  inputs : ∀ (i : Nat) (t : Task β), g.tasks[i]? = some t → ∀ port,
    (plan.inputs[i]?.getD ∅).get? port =
      (t.inputPorts.get? port).map (fun ref? => ref?.bind (fun ref => (g.resolve? ref).map (·.2)))
  resolved : ∀ (i : Nat) (t : Task β) port ref, g.tasks[i]? = some t →
    t.inputPorts.get? port = some (some ref) →
    (g.resolve? ref).isSome
  inOrder : InOrder g.producers [] plan.order
  nodup : plan.order.Nodup
  complete : ∀ i, i ∈ plan.order ↔ i < g.tasks.length

namespace TaskGraph

variable {β : Type}

/-- The files at the ports of a task are those that its references resolve to. -/
private theorem get?_inputsOf (g : TaskGraph β) (t : Task β) (port : String) :
    (Plan.inputsOf (t.inputPorts.toList.map (fun e => ⟨e.1, e.2.bind g.resolve?⟩))).get? port =
      (t.inputPorts.get? port).map
        (fun ref? => ref?.bind (fun ref => (g.resolve? ref).map (·.2))) := by
  unfold Plan.inputsOf
  rw [List.map_map]
  -- Binding keeps the names of the ports, of which there are no two.
  have hkeys : (List.map (fun e : String × Option Path => e.1)
      (t.inputPorts.toList.map
        ((fun p : BoundPort => (p.port, p.source.map (·.2))) ∘
          fun e => ⟨e.1, e.2.bind g.resolve?⟩))) = t.inputPorts.keys := by
    rw [List.map_map]; rfl
  cases hport : t.inputPorts.get? port with
  | none =>
    rw [Option.map_none, SortedMap.get?_ofList_eq_none_iff, hkeys, SortedMap.mem_keys,
      SortedMap.contains, hport]
    exact Bool.false_ne_true
  | some ref? =>
    rw [Option.map_some, SortedMap.get?_ofList_eq_some_iff (hkeys ▸ t.inputPorts.nodup_keys)]
    refine List.mem_map.2 ⟨(port, ref?), SortedMap.mem_toList.2 hport, ?_⟩
    cases ref? <;> rfl

/-- The lists of those that wait for each task. -/
def dependents (g : TaskGraph β) : List (List Nat) :=
  (List.range g.tasks.length).map (Plan.dependentsOf g.producers)

/-- The tasks that a traversal takes, and the counts that it leaves. -/
def traversal (g : TaskGraph β) : List Nat × List Nat :=
  Plan.traverse g.dependents g.tasks.length (Plan.waitingAll g.producers [])
    (Plan.readyAt (Plan.waitingAll g.producers []))

theorem length_producers {g : TaskGraph β} {bound : List (List BoundPort)}
    (h : g.bindAll = .ok bound) : g.producers.length = g.tasks.length := by
  simp only [producers, h]
  rw [List.length_map, (getElem?_of_bindAll h).1]

theorem getElem?_dependents {g : TaskGraph β} {bound : List (List BoundPort)}
    (h : g.bindAll = .ok bound) {j : Nat} (hj : j < g.producers.length) :
    g.dependents[j]?.getD [] = Plan.dependentsOf g.producers j := by
  rw [length_producers h] at hj
  simp [dependents, hj]

/-- Once all references are resolved, there is a plan unless the traversal stops early. -/
theorem plan_of_bindAll {g : TaskGraph β} {bound : List (List BoundPort)}
    (h : g.bindAll = .ok bound) :
    g.plan =
      if g.traversal.1.length < g.tasks.length then
        .error (.cycle ((Plan.stuckAt g.traversal.2).filterMap
          (fun i => g.tasks[i]?.map (·.name))))
      else .ok {
        dependents := g.dependents
        remaining := Plan.waitingAll g.producers []
        inputs := bound.map Plan.inputsOf
        order := g.traversal.1 } := by
  have hproducers : g.producers = bound.map Plan.producersOf := by simp [producers, h]
  have hremaining : (bound.map Plan.producersOf).map List.length =
      Plan.waitingAll g.producers [] := by
    rw [Plan.waitingAll_nil, hproducers]
  unfold TaskGraph.plan traversal dependents
  rw [h]
  simp only [bind, Except.bind]
  rw [hremaining, ← hproducers, (getElem?_of_bindAll h).1]
  split <;> rfl

/-- The plan of a task graph accounts for it. -/
theorem accounts_of_plan {g : TaskGraph β} {plan : Plan} (h : g.plan = .ok plan) :
    plan.Accounts g := by
  cases hbound : g.bindAll with
  | error e => unfold TaskGraph.plan at h; rw [hbound] at h; cases h
  | ok bound =>
    have hn := length_producers hbound
    obtain ⟨horder, hnodup, hlt⟩ := Plan.inOrder_traverse g.nodup_producersAt
      (fun j => getElem?_dependents hbound) g.tasks.length (Plan.frontier_readyAt g.producers)
    change Plan.InOrder _ _ g.traversal.1 at horder
    change ([] ++ g.traversal.1).Nodup at hnodup
    change ∀ i ∈ g.traversal.1, _ at hlt
    rw [plan_of_bindAll hbound] at h
    split at h
    · cases h
    · next hlong =>
      cases h
      rw [List.nil_append] at hnodup
      -- As many different tasks were taken as there are, so all were.
      have hperm := (List.subperm_of_subset hnodup (fun i hi => List.mem_range.2 (hlt i hi))
        ).perm_of_length_le (by rw [List.length_range, hn]; omega)
      have hget := (getElem?_of_bindAll hbound).2
      exact {
        length := hn
        mem := fun i j => mem_producersAt hbound
        remaining := rfl
        dependents := fun j => getElem?_dependents hbound
        inputs := by
          intro i t ht port
          obtain ⟨ports, hports, hbind⟩ := hget i t ht
          obtain ⟨rfl, -⟩ := of_bindTask hbind
          rw [List.getElem?_map, hports, Option.map_some, Option.getD_some]
          exact get?_inputsOf g t port
        resolved := by
          intro i t port ref ht hport
          obtain ⟨ports, -, hbind⟩ := hget i t ht
          exact (of_bindTask hbind).2 _ (SortedMap.mem_toList.2 hport) ref rfl
        inOrder := horder
        nodup := hnodup
        complete := by
          intro i
          rw [hperm.mem_iff, List.mem_range, hn] }

end TaskGraph

/-- The wiring of a task graph with a plan has no cycles: what passes from the producers
of a task to the task holds of all tasks. -/
theorem Plan.Accounts.induction {β : Type} {g : TaskGraph β} {plan : Plan}
    (h : plan.Accounts g) {P : Nat → Prop} (hP : ∀ i, (∀ j, g.Feeds j i → P j) → P i) :
    ∀ i < g.tasks.length, P i := by
  intro i hi
  refine h.inOrder.induction ?_ (fun j hj => absurd hj List.not_mem_nil) i ((h.complete i).2 hi)
  intro k hk
  exact hP k (fun j hj => hk j ((h.mem k j).2 hj))

/-- No task feeds itself. -/
theorem Plan.Accounts.not_feeds_self {β : Type} {g : TaskGraph β} {plan : Plan}
    (h : plan.Accounts g) (i : Nat) : ¬g.Feeds i i := by
  intro hself
  refine h.induction (P := fun i => ¬g.Feeds i i) (fun j hj hfeeds => ?_) i hself.lt hself
  exact hj j hfeeds hfeeds

end BlockFlow
