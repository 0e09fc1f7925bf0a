import BlockFlow.Proofs.Graph.Acceptance

/-!
# The check of a graph decides its rules

The rules are stated without the scans that check them, and so is the first violation: the rules
come in groups, a group is looked at only if those before it are kept to, and of a group it is the
first offender that is named. An accepted graph keeps to every rule, a refused one has the
violation that the error tells.

## Key results

- `Graph.nameFault?_eq_some`, `Graph.edgeFault?_eq_some`, `Graph.firstRepeat?_eq_some_iff`: what
  each scan finds
- `Graph.validate_decides`: the check accepts exactly the graphs that keep to the rules, and its
  error is the first violation
-/

namespace BlockFlow

/-! ## Names -/

/-- A name that has a reserved character. -/
def Reserved (name : String) : Prop :=
  '/' ∈ name.toList ∨ '}' ∈ name.toList ∨ '\x00' ∈ name.toList

theorem hasReserved_iff {name : String} : hasReserved name = true ↔ Reserved name := by
  simp only [hasReserved, List.any_eq_true, isReserved, Bool.or_eq_true, decide_eq_true_eq,
    Reserved]
  constructor
  · rintro ⟨c, hc, (rfl | rfl) | rfl⟩
    · exact .inl hc
    · exact .inr (.inl hc)
    · exact .inr (.inr hc)
  · rintro (h | h | h)
    · exact ⟨_, h, .inl (.inl rfl)⟩
    · exact ⟨_, h, .inl (.inr rfl)⟩
    · exact ⟨_, h, .inr rfl⟩

theorem hasReserved_eq_false {name : String} : hasReserved name = false ↔ ¬Reserved name := by
  rw [← hasReserved_iff, Bool.not_eq_true]

/-- No name that a node brings with it has a reserved character. -/
structure Node.Unreserved (id : NodeId) (n : Node) : Prop where
  id : ¬Reserved id
  kind : ¬Reserved n.kind
  inputs : ∀ i ∈ n.inputNames, ¬Reserved i
  outputs : ∀ o ∈ n.outputNames, ¬Reserved o

/-- The first of the names of a node that has a reserved character: the id comes first, then the
kind, the inputs and the outputs. -/
inductive Node.FirstReserved (id : NodeId) (n : Node) : NameRole → String → Prop
  | id (h : Reserved id) : FirstReserved id n .nodeId id
  | kind (hid : ¬Reserved id) (h : Reserved n.kind) : FirstReserved id n .nodeKind n.kind
  | input {before after : List String} {i : String} (hid : ¬Reserved id) (hkind : ¬Reserved n.kind)
      (hinputs : n.inputNames = before ++ i :: after) (hbefore : ∀ j ∈ before, ¬Reserved j)
      (h : Reserved i) : FirstReserved id n .input i
  | output {before after : List String} {o : String} (hid : ¬Reserved id)
      (hkind : ¬Reserved n.kind) (hinputs : ∀ i ∈ n.inputNames, ¬Reserved i)
      (houtputs : n.outputNames = before ++ o :: after) (hbefore : ∀ j ∈ before, ¬Reserved j)
      (h : Reserved o) : FirstReserved id n .output o

/-- The fault of a name. -/
def reservedFault? (e : NameRole × String) : Option GraphError :=
  if hasReserved e.2 then some (.reservedCharacter e.1 e.2) else none

theorem reservedFault?_eq_none {e : NameRole × String} :
    reservedFault? e = none ↔ ¬Reserved e.2 := by
  simp [reservedFault?, ← hasReserved_eq_false]

theorem reservedFault?_eq_some {e : NameRole × String} {fault : GraphError} :
    reservedFault? e = some fault ↔ Reserved e.2 ∧ fault = .reservedCharacter e.1 e.2 := by
  rw [reservedFault?, ← hasReserved_iff]
  split
  · next h => simp [h, eq_comm]
  · next h => simp [h]

/-- The first reserved name of a list of names in one role. -/
theorem findSome?_role_eq_some {role : NameRole} {names : List String} {fault : GraphError} :
    (names.map (role, ·)).findSome? reservedFault? = some fault ↔
      ∃ before name after, names = before ++ name :: after ∧ (∀ n ∈ before, ¬Reserved n) ∧
        Reserved name ∧ fault = .reservedCharacter role name := by
  rw [List.findSome?_map, List.findSome?_eq_some_iff]
  simp only [Function.comp, reservedFault?_eq_some, reservedFault?_eq_none]
  constructor
  · rintro ⟨before, name, after, hnames, ⟨hname, hfault⟩, hbefore⟩
    exact ⟨before, name, after, hnames, hbefore, hname, hfault⟩
  · rintro ⟨before, name, after, hnames, hbefore, hname, hfault⟩
    exact ⟨before, name, after, hnames, ⟨hname, hfault⟩, hbefore⟩

theorem findSome?_role_eq_none {role : NameRole} {names : List String} :
    (names.map (role, ·)).findSome? reservedFault? = none ↔ ∀ n ∈ names, ¬Reserved n := by
  rw [List.findSome?_map, List.findSome?_eq_none_iff]
  simp only [Function.comp, reservedFault?_eq_none]

namespace Node

variable {id : NodeId} {n : Node}

theorem findSome?_givenNames_eq_none :
    (n.givenNames id).findSome? reservedFault? = none ↔ n.Unreserved id := by
  rw [List.findSome?_eq_none_iff]
  simp only [givenNames, reservedFault?_eq_none, List.forall_mem_cons, List.forall_mem_append,
    List.forall_mem_map]
  exact ⟨fun ⟨hid, hkind, hin, hout⟩ => ⟨hid, hkind, hin, hout⟩,
    fun h => ⟨h.id, h.kind, h.inputs, h.outputs⟩⟩

theorem findSome?_givenNames_eq_some {fault : GraphError} :
    (n.givenNames id).findSome? reservedFault? = some fault ↔
      ∃ role name, n.FirstReserved id role name ∧ fault = .reservedCharacter role name := by
  -- The names are looked at in four groups, one after the other.
  have hor : (n.givenNames id).findSome? reservedFault? =
      (reservedFault? (.nodeId, id)).or ((reservedFault? (.nodeKind, n.kind)).or
        (((n.inputNames.map (NameRole.input, ·)).findSome? reservedFault?).or
          ((n.outputNames.map (NameRole.output, ·)).findSome? reservedFault?))) := by
    rw [givenNames, List.findSome?_cons, List.findSome?_cons, List.findSome?_append]
    cases reservedFault? (.nodeId, id) <;> cases reservedFault? (.nodeKind, n.kind) <;> rfl
  rw [hor]
  simp only [Option.or_eq_some_iff, reservedFault?_eq_some, reservedFault?_eq_none,
    findSome?_role_eq_some, findSome?_role_eq_none]
  constructor
  · rintro (⟨h, rfl⟩ | ⟨hid, ⟨h, rfl⟩ | ⟨hkind, ⟨before, i, after, hin, hbefore, h, rfl⟩ |
      ⟨hin, before, o, after, hout, hbefore, h, rfl⟩⟩⟩)
    · exact ⟨_, _, .id h, rfl⟩
    · exact ⟨_, _, .kind hid h, rfl⟩
    · exact ⟨_, _, .input hid hkind hin hbefore h, rfl⟩
    · exact ⟨_, _, .output hid hkind hin hout hbefore h, rfl⟩
  · rintro ⟨role, name, hfirst, rfl⟩
    cases hfirst with
    | id h => exact .inl ⟨h, rfl⟩
    | kind hid h => exact .inr ⟨hid, .inl ⟨h, rfl⟩⟩
    | input hid hkind hin hbefore h =>
      exact .inr ⟨hid, .inr ⟨hkind, .inl ⟨_, _, _, hin, hbefore, h, rfl⟩⟩⟩
    | output hid hkind hin hout hbefore h =>
      exact .inr ⟨hid, .inr ⟨hkind, .inr ⟨hin, _, _, _, hout, hbefore, h, rfl⟩⟩⟩

end Node

namespace Graph

variable {g : Graph}

/-- No name that a node of the graph brings with it has a reserved character. -/
def Unreserved (g : Graph) : Prop := ∀ id n, g.node? id = some n → n.Unreserved id

theorem findSome?_flatMap {α β γ : Type} (xs : List α) (f : α → List β) (p : β → Option γ) :
    (xs.flatMap f).findSome? p = xs.findSome? (fun x => (f x).findSome? p) := by
  induction xs with
  | nil => rfl
  | cons x xs ih =>
    rw [List.flatMap_cons, List.findSome?_append, List.findSome?_cons, ih]
    cases (f x).findSome? p <;> rfl

theorem nameFault?_eq (g : Graph) :
    g.nameFault? =
      g.nodes.toList.findSome? (fun e => (e.2.givenNames e.1).findSome? reservedFault?) :=
  findSome?_flatMap _ _ _

theorem nameFault?_eq_none : g.nameFault? = none ↔ g.Unreserved := by
  rw [nameFault?_eq, List.findSome?_eq_none_iff]
  simp only [Node.findSome?_givenNames_eq_none, Prod.forall, SortedMap.mem_toList]
  rfl

/-- The name found is the first one of the first node, in the order of the ids. -/
theorem nameFault?_eq_some {fault : GraphError} :
    g.nameFault? = some fault ↔
      ∃ id n role name, g.node? id = some n ∧
        (∀ id' n', g.node? id' = some n' → id' < id → n'.Unreserved id') ∧
        n.FirstReserved id role name ∧ fault = .reservedCharacter role name := by
  rw [nameFault?_eq, List.findSome?_eq_some_iff]
  simp only [Node.findSome?_givenNames_eq_some, Node.findSome?_givenNames_eq_none]
  have hsorted : g.nodes.toList.Pairwise (fun a b => a.1 < b.1) := g.nodes.increasing
  constructor
  · rintro ⟨before, ⟨id, n⟩, after, hnodes, ⟨role, name, hfirst, rfl⟩, hbefore⟩
    rw [hnodes, List.pairwise_append] at hsorted
    refine ⟨id, n, role, name, ?_, fun id' n' hnode hlt => ?_, hfirst, rfl⟩
    · exact SortedMap.mem_toList.1 (by rw [hnodes]; simp)
    · -- A smaller id stands further in front.
      have hmem : (id', n') ∈ before ++ (id, n) :: after := hnodes ▸ SortedMap.mem_toList.2 hnode
      rcases List.mem_append.1 hmem with hmem | hmem
      · exact hbefore _ hmem
      · rcases List.mem_cons.1 hmem with heq | hmem
        · obtain ⟨rfl, -⟩ := Prod.mk.inj heq
          exact absurd hlt (KeyOrder.irrefl _)
        · have hgt := List.rel_of_pairwise_cons hsorted.2.1 hmem
          exact absurd (KeyOrder.trans hlt hgt) (KeyOrder.irrefl _)
  · rintro ⟨id, n, role, name, hnode, hearlier, hfirst, rfl⟩
    obtain ⟨before, after, hnodes⟩ := List.append_of_mem (SortedMap.mem_toList.2 hnode)
    rw [hnodes, List.pairwise_append] at hsorted
    refine ⟨before, (id, n), after, hnodes, ⟨role, name, hfirst, rfl⟩, ?_⟩
    rintro ⟨id', n'⟩ hmem
    refine hearlier id' n' (SortedMap.mem_toList.1 ?_) (hsorted.2.2 _ hmem _ List.mem_cons_self)
    rw [hnodes]
    exact List.mem_append_left _ hmem

/-! ## Edges -/

/-- Every edge leads from a declared output to a declared input, and no two lead to the same. -/
structure EdgesSound (g : Graph) : Prop where
  sources : ∀ e ∈ g.edges, ∃ n, g.node? e.source = some n ∧ e.output ∈ n.outputNames
  targets : ∀ e ∈ g.edges, ∃ n, g.node? e.target = some n ∧ e.input ∈ n.inputNames
  inputs : (g.edges.map (fun e => (e.target, e.input))).Nodup

/-- What is wrong with the edge at an index, after the edges in front of it. The first of these
that applies is the one that counts. -/
inductive EdgeFault (g : Graph) (earlier : List Edge) (index : Nat) (e : Edge) : GraphError → Prop
  | source (h : g.node? e.source = none) :
      EdgeFault g earlier index e (.unknownNode index .source e.source)
  | target {source : Node} (hsource : g.node? e.source = some source)
      (h : g.node? e.target = none) :
      EdgeFault g earlier index e (.unknownNode index .target e.target)
  | output {source target : Node} (hsource : g.node? e.source = some source)
      (htarget : g.node? e.target = some target) (h : e.output ∉ source.outputNames) :
      EdgeFault g earlier index e (.unknownOutput index e.source e.output)
  | input {source target : Node} (hsource : g.node? e.source = some source)
      (htarget : g.node? e.target = some target) (houtput : e.output ∈ source.outputNames)
      (h : e.input ∉ target.inputNames) :
      EdgeFault g earlier index e (.unknownInput index e.target e.input)
  | duplicate {source target : Node} {d : Edge} (hsource : g.node? e.source = some source)
      (htarget : g.node? e.target = some target) (houtput : e.output ∈ source.outputNames)
      (hinput : e.input ∈ target.inputNames) (hd : d ∈ earlier)
      (h : d.target = e.target ∧ d.input = e.input) :
      EdgeFault g earlier index e (.duplicateInput e.target e.input)

theorem hasOutput_iff {n : Node} {name : String} :
    n.hasOutput name = true ↔ name ∈ n.outputNames :=
  SortedMap.mem_keys.symm

theorem hasInput_iff {n : Node} {name : String} : n.hasInput name = true ↔ name ∈ n.inputNames :=
  SortedMap.mem_keys.symm

theorem any_sameInput_iff {earlier : List Edge} {e : Edge} :
    earlier.any (fun d => d.target = e.target && d.input = e.input) = true ↔
      ∃ d ∈ earlier, d.target = e.target ∧ d.input = e.input := by
  simp only [List.any_eq_true, Bool.and_eq_true, decide_eq_true_eq]

variable {earlier : List Edge} {index : Nat} {e : Edge} {fault : GraphError}

/-- One step of the scan of the edges. -/
theorem faultOfEdge?_eq_some :
    g.faultOfEdge? earlier index e = some fault ↔ g.EdgeFault earlier index e fault := by
  unfold faultOfEdge?
  constructor
  · -- Each check is made only after the ones before it have found nothing.
    intro h
    split at h
    · next hsource =>
      obtain rfl := Option.some.inj h
      exact .source hsource
    · next hsource htarget =>
      obtain rfl := Option.some.inj h
      exact .target hsource htarget
    · next source target hsource htarget =>
      split at h
      · next hout =>
        obtain rfl := Option.some.inj h
        exact .output hsource htarget (by simpa [← hasOutput_iff] using hout)
      · next hout =>
        have hout' : e.output ∈ source.outputNames := by simpa [← hasOutput_iff] using hout
        split at h
        · next hin =>
          obtain rfl := Option.some.inj h
          exact .input hsource htarget hout' (by simpa [← hasInput_iff] using hin)
        · next hin =>
          have hin' : e.input ∈ target.inputNames := by simpa [← hasInput_iff] using hin
          split at h
          · next hany =>
            obtain rfl := Option.some.inj h
            obtain ⟨d, hd, hsame⟩ := any_sameInput_iff.1 hany
            exact .duplicate hsource htarget hout' hin' hd hsame
          · cases h
  · intro h
    cases h with
    | source hsource => rw [hsource]
    | target hsource htarget => rw [hsource, htarget]
    | output hsource htarget hout =>
      rw [← hasOutput_iff, Bool.not_eq_true] at hout
      simp [hsource, htarget, hout]
    | input hsource htarget hout hin =>
      rw [← hasOutput_iff] at hout
      rw [← hasInput_iff, Bool.not_eq_true] at hin
      simp [hsource, htarget, hout, hin]
    | duplicate hsource htarget hout hin hd hsame =>
      rw [← hasOutput_iff] at hout
      rw [← hasInput_iff] at hin
      simp [hsource, htarget, hout, hin, any_sameInput_iff.2 ⟨_, hd, hsame⟩]

theorem faultOfEdge?_eq_none :
    g.faultOfEdge? earlier index e = none ↔ ∀ fault, ¬g.EdgeFault earlier index e fault := by
  rw [Option.eq_none_iff_forall_ne_some]
  exact forall_congr' fun fault => not_congr faultOfEdge?_eq_some

/-- Only which edges are in front matters, and not their order. -/
theorem EdgeFault.of_subset {earlier' : List Edge} (h : g.EdgeFault earlier index e fault)
    (hsubset : earlier ⊆ earlier') : g.EdgeFault earlier' index e fault := by
  cases h with
  | source h => exact .source h
  | target hsource h => exact .target hsource h
  | output hsource htarget h => exact .output hsource htarget h
  | input hsource htarget hout h => exact .input hsource htarget hout h
  | duplicate hsource htarget hout hin hd h =>
    exact .duplicate hsource htarget hout hin (hsubset hd) h

theorem faultOfEdge?_congr {earlier' : List Edge} (h : ∀ d, d ∈ earlier ↔ d ∈ earlier') :
    g.faultOfEdge? earlier index e = g.faultOfEdge? earlier' index e := by
  refine Option.ext fun fault => ?_
  rw [faultOfEdge?_eq_some, faultOfEdge?_eq_some]
  exact ⟨fun hf => hf.of_subset fun d => (h d).1, fun hf => hf.of_subset fun d => (h d).2⟩

/-- The scan of the edges stops at the smallest index with a fault. -/
theorem edgeFaultFrom?_eq_some {es : List Edge} :
    g.edgeFaultFrom? earlier index es = some fault ↔
      ∃ i e, es[i]? = some e ∧
        g.faultOfEdge? ((es.take i).reverse ++ earlier) (index + i) e = some fault ∧
        ∀ j < i, ∀ d, es[j]? = some d →
          g.faultOfEdge? ((es.take j).reverse ++ earlier) (index + j) d = none := by
  induction es generalizing earlier index with
  | nil => simp [edgeFaultFrom?]
  | cons e es ih =>
    -- What is in front of a later edge, with and without this one.
    have htake : ∀ i, ((e :: es).take (i + 1)).reverse ++ earlier =
        (es.take i).reverse ++ e :: earlier := by simp
    have hindex : ∀ i, index + (i + 1) = index + 1 + i := by omega
    rw [edgeFaultFrom?]
    cases hfault : g.faultOfEdge? earlier index e with
    | some fault' =>
      constructor
      · intro h
        exact ⟨0, e, rfl, hfault.trans h, fun j hj => absurd hj (Nat.not_lt_zero j)⟩
      · rintro ⟨i, e', he, hfault', hbefore⟩
        cases i with
        | zero =>
          obtain rfl := Option.some.inj he
          exact hfault.symm.trans hfault'
        | succ i => cases hfault.symm.trans (hbefore 0 (Nat.succ_pos i) e rfl)
    | none =>
      rw [ih]
      constructor
      · rintro ⟨i, e', he, hfault', hbefore⟩
        refine ⟨i + 1, e', he, by rw [htake, hindex]; exact hfault', fun j hj d hd => ?_⟩
        cases j with
        | zero =>
          obtain rfl := Option.some.inj hd
          exact hfault
        | succ j =>
          rw [htake, hindex]
          exact hbefore j (by omega) d hd
      · rintro ⟨i, e', he, hfault', hbefore⟩
        cases i with
        | zero =>
          obtain rfl := Option.some.inj he
          cases hfault.symm.trans hfault'
        | succ i =>
          rw [htake, hindex] at hfault'
          refine ⟨i, e', he, hfault', fun j hj d hd => ?_⟩
          have := hbefore (j + 1) (by omega) d hd
          rwa [htake, hindex] at this

/-- The fault found is that of the edge at the smallest index that has one. -/
theorem edgeFault?_eq_some :
    g.edgeFault? = some fault ↔
      ∃ i e, g.edges[i]? = some e ∧ g.EdgeFault (g.edges.take i) i e fault ∧
        ∀ j < i, ∀ d, g.edges[j]? = some d →
          ∀ fault', ¬g.EdgeFault (g.edges.take j) j d fault' := by
  have hcongr : ∀ i e, g.faultOfEdge? ((g.edges.take i).reverse ++ []) (0 + i) e =
      g.faultOfEdge? (g.edges.take i) i e := fun i e => by
    rw [Nat.zero_add]
    exact faultOfEdge?_congr (by simp)
  rw [edgeFault?, edgeFaultFrom?_eq_some]
  simp only [hcongr, faultOfEdge?_eq_some, faultOfEdge?_eq_none]

/-- Sound edges have no fault. -/
theorem EdgesSound.no_fault (h : g.EdgesSound) {i : Nat} (he : g.edges[i]? = some e) :
    ¬g.EdgeFault (g.edges.take i) index e fault := by
  have hmem := List.mem_of_getElem? he
  obtain ⟨source, hsource, hout⟩ := h.sources e hmem
  obtain ⟨target, htarget, hin⟩ := h.targets e hmem
  intro hfault
  cases hfault with
  | source hnone => cases hnone.symm.trans hsource
  | target _ hnone => cases hnone.symm.trans htarget
  | output hsource' _ hnot =>
    obtain rfl := Option.some.inj (hsource.symm.trans hsource')
    exact hnot hout
  | input _ htarget' _ hnot =>
    obtain rfl := Option.some.inj (htarget.symm.trans htarget')
    exact hnot hin
  | @duplicate _ _ d _ _ _ _ hd hsame =>
    -- An earlier edge has another input, since all inputs of edges are apart.
    obtain ⟨j, hj, hd⟩ := List.mem_take_iff_getElem.1 hd
    obtain ⟨hi, rfl⟩ := List.getElem?_eq_some_iff.1 he
    have hne := List.pairwise_iff_getElem.1 h.inputs j i (by simp; omega) (by simpa) (by omega)
    refine hne ?_
    rw [List.getElem_map, List.getElem_map, hd, hsame.1, hsame.2]

theorem edgeFault?_eq_none : g.edgeFault? = none ↔ g.EdgesSound := by
  constructor
  · intro h
    obtain ⟨hends, hinputs, -⟩ := of_edgeFaultFrom? h
    refine ⟨fun e he => ?_, fun e he => ?_, hinputs⟩
    · obtain ⟨source, _, hsource, -, hout, -⟩ := hends e he
      exact ⟨source, hsource, hasOutput_iff.1 hout⟩
    · obtain ⟨_, target, -, htarget, -, hin⟩ := hends e he
      exact ⟨target, htarget, hasInput_iff.1 hin⟩
  · intro h
    rw [Option.eq_none_iff_forall_ne_some]
    intro fault hfault
    obtain ⟨i, e, he, hfault, -⟩ := edgeFault?_eq_some.1 hfault
    exact h.no_fault he hfault

/-! ## Collisions -/

/-- The first name that comes a second time. -/
def FirstRepeat (names : List String) (name : String) : Prop :=
  ∃ before after, names = before ++ name :: after ∧ before.Nodup ∧ name ∈ before

theorem firstRepeat?_append {seen before after : List String} {name : String}
    (hnodup : before.Nodup) (hfresh : ∀ n ∈ before, n ∉ seen) (h : name ∈ before ∨ name ∈ seen) :
    firstRepeat? seen (before ++ name :: after) = some name := by
  induction before generalizing seen with
  | nil =>
    have hname : name ∈ seen := h.resolve_left List.not_mem_nil
    rw [List.nil_append, firstRepeat?, if_pos (by simpa using hname)]
  | cons n before ih =>
    rw [List.nodup_cons] at hnodup
    rw [List.forall_mem_cons] at hfresh
    rw [List.cons_append, firstRepeat?, if_neg (by simpa using hfresh.1)]
    -- `n` has been seen by then, and none of the names before the repeat is `n`.
    refine ih hnodup.2 (fun m hm hmem => ?_) ?_
    · rcases List.mem_cons.1 hmem with rfl | hmem
      · exact hnodup.1 hm
      · exact hfresh.2 m hm hmem
    · rcases h with h | h
      · rcases List.mem_cons.1 h with rfl | h
        · exact .inr List.mem_cons_self
        · exact .inl h
      · exact .inr (List.mem_cons_of_mem _ h)

theorem firstRepeat?_eq_some_iff {names : List String} {name : String} :
    firstRepeat? [] names = some name ↔ FirstRepeat names name := by
  constructor
  · intro h
    obtain ⟨before, after, hnames, hnodup, -, hname⟩ := firstRepeat?_eq_some h
    exact ⟨before, after, hnames, hnodup, hname.resolve_right List.not_mem_nil⟩
  · rintro ⟨before, after, rfl, hnodup, hname⟩
    exact firstRepeat?_append hnodup (fun _ _ => List.not_mem_nil) (.inl hname)

theorem firstRepeat?_nil_eq_none {names : List String} :
    firstRepeat? [] names = none ↔ names.Nodup := by
  rw [firstRepeat?_eq_none]
  exact and_iff_left fun _ _ => List.not_mem_nil

/-! ## The whole check -/

/-- A graph that keeps to all rules. -/
structure Lawful (g : Graph) : Prop where
  names : g.Unreserved
  edges : g.EdgesSound
  tasks : (g.ofNodes Node.taskNames).Nodup
  ports : (g.ofNodes Node.portNames).Nodup
  files : (g.ofNodes Node.fileNames).Nodup

/-- The first violation of a rule. -/
inductive FirstViolation (g : Graph) : GraphError → Prop
  /-- The first reserved name of the first node that has one. -/
  | reserved {id : NodeId} {n : Node} {role : NameRole} {name : String}
      (hnode : g.node? id = some n)
      (hearlier : ∀ id' n', g.node? id' = some n' → id' < id → n'.Unreserved id')
      (h : n.FirstReserved id role name) : FirstViolation g (.reservedCharacter role name)
  /-- The fault of the first edge that has one. -/
  | edge {i : Nat} {e : Edge} {fault : GraphError} (hnames : g.Unreserved)
      (hedge : g.edges[i]? = some e)
      (hearlier : ∀ j < i, ∀ d, g.edges[j]? = some d →
        ∀ fault', ¬g.EdgeFault (g.edges.take j) j d fault')
      (h : g.EdgeFault (g.edges.take i) i e fault) : FirstViolation g fault
  | task {name : String} (hnames : g.Unreserved) (hedges : g.EdgesSound)
      (h : FirstRepeat (g.ofNodes Node.taskNames) name) :
      FirstViolation g (.taskNameCollision name)
  | port {port : String} (hnames : g.Unreserved) (hedges : g.EdgesSound)
      (htasks : (g.ofNodes Node.taskNames).Nodup)
      (h : FirstRepeat (g.ofNodes Node.portNames) port) : FirstViolation g (.portCollision port)
  | file {file : String} (hnames : g.Unreserved) (hedges : g.EdgesSound)
      (htasks : (g.ofNodes Node.taskNames).Nodup) (hports : (g.ofNodes Node.portNames).Nodup)
      (h : FirstRepeat (g.ofNodes Node.fileNames) file) : FirstViolation g (.outputCollision file)

theorem collision?_eq_none :
    g.collision? = none ↔ (g.ofNodes Node.taskNames).Nodup ∧
      (g.ofNodes Node.portNames).Nodup ∧ (g.ofNodes Node.fileNames).Nodup := by
  simp only [collision?, Option.or_eq_none_iff, Option.map_eq_none_iff, firstRepeat?_nil_eq_none]

theorem fault?_eq_none : g.fault? = none ↔ g.Lawful := by
  rw [fault?, Option.or_eq_none_iff, Option.or_eq_none_iff, nameFault?_eq_none,
    edgeFault?_eq_none, collision?_eq_none]
  constructor
  · rintro ⟨hnames, hedges, htasks, hports, hfiles⟩
    exact ⟨hnames, hedges, htasks, hports, hfiles⟩
  · intro h
    exact ⟨h.names, h.edges, h.tasks, h.ports, h.files⟩

theorem fault?_eq_some : g.fault? = some fault ↔ g.FirstViolation fault := by
  simp only [fault?, collision?, Option.or_eq_some_iff, Option.map_eq_some_iff,
    Option.map_eq_none_iff, nameFault?_eq_none, nameFault?_eq_some, edgeFault?_eq_none,
    edgeFault?_eq_some, firstRepeat?_nil_eq_none, firstRepeat?_eq_some_iff]
  -- The rules are checked in this order, so each violation comes with all rules before it.
  constructor
  · rintro (⟨id, n, role, name, hnode, hearlier, hfirst, rfl⟩ | ⟨hnames,
      ⟨i, e, hedge, hfault, hearlier⟩ | ⟨hedges, ⟨name, hname, rfl⟩ | ⟨htasks,
        ⟨port, hport, rfl⟩ | ⟨hports, file, hfile, rfl⟩⟩⟩⟩)
    · exact .reserved hnode hearlier hfirst
    · exact .edge hnames hedge hearlier hfault
    · exact .task hnames hedges hname
    · exact .port hnames hedges htasks hport
    · exact .file hnames hedges htasks hports hfile
  · intro h
    cases h with
    | reserved hnode hearlier hfirst =>
      exact .inl ⟨_, _, _, _, hnode, hearlier, hfirst, rfl⟩
    | edge hnames hedge hearlier hfault =>
      exact .inr ⟨hnames, .inl ⟨_, _, hedge, hfault, hearlier⟩⟩
    | task hnames hedges hname =>
      exact .inr ⟨hnames, .inr ⟨hedges, .inl ⟨_, hname, rfl⟩⟩⟩
    | port hnames hedges htasks hport =>
      exact .inr ⟨hnames, .inr ⟨hedges, .inr ⟨htasks, .inl ⟨_, hport, rfl⟩⟩⟩⟩
    | file hnames hedges htasks hports hfile =>
      exact .inr ⟨hnames, .inr ⟨hedges, .inr ⟨htasks, .inr ⟨hports, _, hfile, rfl⟩⟩⟩⟩

/-- The check accepts a graph if and only if it keeps to all rules, and otherwise it tells the
first violation. -/
theorem validate_decides (g : Graph) :
    (g.validate = .ok () ↔ g.Lawful) ∧ ∀ e, g.validate = .error e ↔ g.FirstViolation e := by
  unfold validate
  cases hfault : g.fault? with
  | none =>
    refine ⟨iff_of_true rfl (fault?_eq_none.1 hfault), fun e => ?_⟩
    refine iff_of_false nofun fun h => ?_
    cases hfault.symm.trans (fault?_eq_some.2 h)
  | some fault =>
    refine ⟨iff_of_false nofun fun h => ?_, fun e => ?_⟩
    · cases hfault.symm.trans (fault?_eq_none.2 h)
    · rw [← fault?_eq_some, hfault, Option.some.injEq, Except.error.injEq]

end Graph

end BlockFlow
