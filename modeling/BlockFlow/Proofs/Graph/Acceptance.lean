import BlockFlow.Proofs.Lookup
import BlockFlow.Task.Compile

/-!
# What an accepted graph keeps to

A graph that can be compiled has passed the check; `Graph.Accepted` lists what the check
has made sure of. The tasks of a graph are the two tasks of each node.

## Key results

- `Graph.accepted_of_validate`: what the check makes sure of
- `Graph.mem_tasks`: a task is the state task or the process task of a node
-/

namespace BlockFlow

namespace Graph

/-! ## Repeats -/

theorem firstRepeat?_eq_none {seen xs : List String} :
    firstRepeat? seen xs = none ↔ xs.Nodup ∧ ∀ x ∈ xs, x ∉ seen := by
  induction xs generalizing seen with
  | nil => simp [firstRepeat?]
  | cons x xs ih =>
    rw [firstRepeat?]
    by_cases hx : x ∈ seen
    · simp [hx]
    · -- The first name has now been seen, so it must not come again.
      rw [if_neg (by simpa using hx), ih, List.nodup_cons]
      constructor
      · rintro ⟨hnodup, hfresh⟩
        refine ⟨⟨fun hmem => hfresh x hmem List.mem_cons_self, hnodup⟩, ?_⟩
        intro y hy
        rcases List.mem_cons.1 hy with rfl | hy
        · exact hx
        · exact fun hseen => hfresh y hy (List.mem_cons_of_mem _ hseen)
      · rintro ⟨⟨hxs, hnodup⟩, hfresh⟩
        refine ⟨hnodup, fun y hy hmem => ?_⟩
        rcases List.mem_cons.1 hmem with rfl | hseen
        · exact hxs hy
        · exact hfresh y (List.mem_cons_of_mem _ hy) hseen

/-- What is found is the first repeat: nothing before it comes twice. -/
theorem firstRepeat?_eq_some {seen xs : List String} {x : String}
    (h : firstRepeat? seen xs = some x) : ∃ as bs, xs = as ++ x :: bs ∧
      as.Nodup ∧ (∀ a ∈ as, a ∉ seen) ∧ (x ∈ as ∨ x ∈ seen) := by
  induction xs generalizing seen with
  | nil => cases h
  | cons y ys ih =>
    rw [firstRepeat?] at h
    by_cases hy : y ∈ seen
    · rw [if_pos (by simpa using hy)] at h
      obtain rfl := Option.some.inj h
      exact ⟨[], ys, rfl, List.nodup_nil, by simp, .inr hy⟩
    · rw [if_neg (by simpa using hy)] at h
      -- What comes before the repeat begins with the name that has just been seen.
      obtain ⟨as, bs, rfl, hnodup, hfresh, hx⟩ := ih h
      refine ⟨y :: as, bs, rfl, List.nodup_cons.2 ⟨fun hmem => ?_, hnodup⟩, ?_, ?_⟩
      · exact hfresh y hmem List.mem_cons_self
      · intro a ha
        rcases List.mem_cons.1 ha with rfl | ha
        · exact hy
        · exact fun hseen => hfresh a ha (List.mem_cons_of_mem _ hseen)
      · rcases hx with hx | hx
        · exact .inl (List.mem_cons_of_mem _ hx)
        · rcases List.mem_cons.1 hx with rfl | hx
          · exact .inl List.mem_cons_self
          · exact .inr hx

theorem mem_ofNodes {α : Type} {g : Graph} {f : NodeId → Node → List α} {a : α} :
    a ∈ g.ofNodes f ↔ ∃ id node, g.node? id = some node ∧ a ∈ f id node := by
  unfold ofNodes node?
  rw [List.mem_flatMap]
  constructor
  · rintro ⟨⟨id, node⟩, hmem, ha⟩
    exact ⟨id, node, SortedMap.mem_toList.1 hmem, ha⟩
  · rintro ⟨id, node, hnode, ha⟩
    exact ⟨(id, node), SortedMap.mem_toList.2 hnode, ha⟩

/-- What a name has none of, if it has nothing reserved. -/
theorem not_mem_of_unreserved {name : String} (h : hasReserved name = false) {c : Char}
    (hc : isReserved c = true) : c ∉ name.toList := by
  intro hmem
  rw [hasReserved, List.any_eq_false] at h
  exact h c hmem hc

/-! ## The check -/

/-- What the check of a graph makes sure of. -/
structure Accepted (g : Graph) : Prop where
  unreserved : ∀ id node, g.node? id = some node → ∀ role name,
    (role, name) ∈ node.givenNames id → hasReserved name = false
  ends : ∀ e ∈ g.edges, ∃ source target, g.node? e.source = some source ∧
    g.node? e.target = some target ∧ source.hasOutput e.output = true ∧
      target.hasInput e.input = true
  inputs : (g.edges.map (fun e => (e.target, e.input))).Nodup
  taskNames : (g.ofNodes Node.taskNames).Nodup
  portNames : (g.ofNodes Node.portNames).Nodup
  fileNames : (g.ofNodes Node.fileNames).Nodup

private theorem of_faultOfEdge? {g : Graph} {earlier : List Edge} {index : Nat} {e : Edge}
    (h : g.faultOfEdge? earlier index e = none) :
    (∃ source target, g.node? e.source = some source ∧ g.node? e.target = some target ∧
      source.hasOutput e.output = true ∧ target.hasInput e.input = true) ∧
        ∀ d ∈ earlier, (d.target, d.input) ≠ (e.target, e.input) := by
  unfold faultOfEdge? at h
  -- Every branch but the last finds a fault.
  split at h
  · cases h
  · cases h
  · next source target hsource htarget =>
    split at h
    · cases h
    · next hout =>
      split at h
      · cases h
      · next hin =>
        split at h
        · cases h
        · next hfirst =>
          refine ⟨⟨source, target, hsource, htarget, by simpa using hout, by simpa using hin⟩,
            fun d hd heq => hfirst (List.any_eq_true.2 ⟨d, hd, ?_⟩)⟩
          simpa using heq

/-- Edges without a fault have both ends, and inputs of their own. -/
theorem of_edgeFaultFrom? {g : Graph} {earlier : List Edge} {index : Nat}
    {es : List Edge} (h : g.edgeFaultFrom? earlier index es = none) :
    (∀ e ∈ es, ∃ source target, g.node? e.source = some source ∧
      g.node? e.target = some target ∧ source.hasOutput e.output = true ∧
        target.hasInput e.input = true) ∧
      (es.map (fun e => (e.target, e.input))).Nodup ∧
        ∀ e ∈ es, ∀ d ∈ earlier, (d.target, d.input) ≠ (e.target, e.input) := by
  induction es generalizing earlier index with
  | nil =>
    exact ⟨fun e he => absurd he List.not_mem_nil, List.nodup_nil,
      fun e he => absurd he List.not_mem_nil⟩
  | cons d es ih =>
    rw [edgeFaultFrom?] at h
    split at h
    · cases h
    · next hfault =>
      obtain ⟨hends, hnew⟩ := of_faultOfEdge? hfault
      obtain ⟨hall, hnodup, hlater⟩ := ih h
      refine ⟨fun e he => ?_, ?_, fun e he => ?_⟩
      · rcases List.mem_cons.1 he with rfl | he
        · exact hends
        · exact hall e he
      · rw [List.map_cons, List.nodup_cons]
        refine ⟨fun hmem => ?_, hnodup⟩
        obtain ⟨e, he, heq⟩ := List.mem_map.1 hmem
        -- The later edges have been compared with this one.
        exact hlater e he d List.mem_cons_self heq.symm
      · rcases List.mem_cons.1 he with rfl | he
        · exact hnew
        · exact fun d' hd' => hlater e he d' (List.mem_cons_of_mem _ hd')

theorem accepted_of_validate {g : Graph} (h : g.validate = .ok ()) : g.Accepted := by
  unfold validate at h
  split at h
  · cases h
  · next hfault =>
    simp only [fault?, collision?, Option.or_eq_none_iff, Option.map_eq_none_iff] at hfault
    obtain ⟨hnames, hedges, htasks, hports, hfiles⟩ := hfault
    obtain ⟨hends, hinputs, -⟩ := of_edgeFaultFrom? hedges
    refine ⟨?_, hends, hinputs, (firstRepeat?_eq_none.1 htasks).1,
      (firstRepeat?_eq_none.1 hports).1, (firstRepeat?_eq_none.1 hfiles).1⟩
    intro id node hnode role name hname
    have := List.findSome?_eq_none_iff.1 hnames (role, name)
      (mem_ofNodes.2 ⟨id, node, hnode, hname⟩)
    simpa using this

/-! ## The tasks -/

theorem mem_portsFor {α : Type} {mode : Mode} {names : List String} {schema inst : String → α}
    {a : α} : a ∈ portsFor mode names schema inst ↔
      ∃ n ∈ names, a = schema n ∨ mode.withInstances = true ∧ a = inst n := by
  unfold portsFor
  rw [List.mem_flatMap]
  refine exists_congr (fun n => and_congr_right (fun _ => ?_))
  cases mode.withInstances <;> simp

theorem mem_tasks {g : Graph} {mode : Mode} {modules : BlockModules} {out : Path}
    {t : Task Work} :
    t ∈ g.tasks mode modules out ↔ ∃ id node, g.node? id = some node ∧
      (t = stateTask out id node ∨ t = g.processTask mode modules out id node) := by
  simp [tasks, mem_ofNodes]

end Graph

end BlockFlow
