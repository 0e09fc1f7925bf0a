import Mathlib.Data.List.Induction
import BlockFlow.Graph.Builder
import BlockFlow.Proofs.Except
import BlockFlow.Proofs.Graph.Rules
import BlockFlow.Proofs.List

/-!
# A graph that is made records the calls

A node is what the last call for its id has made of it, and what the connections since that call
have added to its outputs; of what was there before, only the edges stay. Both records, that of a
node and that of a graph, are kept call by call, so that nothing has to be known about a history
but the record it has left.

## Key results

- `Node.Records.call`, `Node.Records.connect`: what a call on a node and a connection from it add
- `Graph.Records.node`, `Graph.Records.connect`: what a call on a graph adds
- `Graph.made_records`: calls whose raw states are JSON texts make a graph, and it records them
-/

namespace BlockFlow

/-- The nodes that edges from an output lead to, in the order of the first edge to each. -/
def targetsOf (es : List Edge) (output : String) : List NodeId :=
  ((es.filter (·.output = output)).map (·.target)).eraseDups

theorem targetsOf_concat (es : List Edge) (e : Edge) (output : String) :
    targetsOf (es ++ [e]) output =
      if e.output = output then
        if (targetsOf es output).contains e.target then targetsOf es output
        else targetsOf es output ++ [e.target]
      else targetsOf es output := by
  unfold targetsOf
  by_cases h : e.output = output
  · rw [if_pos h, List.filter_append, List.filter_cons_of_pos (by simpa using h), List.filter_nil,
      List.map_append, List.map_singleton, List.eraseDups_concat]
  · rw [if_neg h, List.filter_append, List.filter_cons_of_neg (by simpa using h), List.filter_nil,
      List.append_nil]

theorem targetsOf_eq_nil {es : List Edge} {output : String}
    (h : ¬∃ e ∈ es, e.output = output) : targetsOf es output = [] := by
  have hnone : es.filter (·.output = output) = [] :=
    List.filter_eq_nil_iff.2 fun e he => by simpa using fun heq => h ⟨e, he, heq⟩
  rw [targetsOf, hnone]
  rfl

/-! ## Nodes -/

namespace Node

/-- What a call makes the state, if it is about the state. -/
def Call.state? : Call → Option (Except JsonError String)
  | .state v => some (.ok v.compact)
  | .rawState text => some (Decoder.run Decoder.raw text)
  | .input _ | .output _ => none

/-- What a node keeps of the calls that made it and of the edges added from it since. -/
structure Records (n : Node) (kind : String) (calls : List Call) (es : List Edge) : Prop where
  kind : n.kind = kind
  /-- The last call about the state counts. -/
  state : (calls.filterMap Call.state?).getLastD (.ok "null") = .ok n.state
  inputs : ∀ i v, n.inputs.get? i = some v ↔ .input i ∈ calls ∧ v = .null
  outputs : ∀ o targets, n.outputs.get? o = some targets ↔
    (.output o ∈ calls ∨ ∃ e ∈ es, e.output = o) ∧ targets = targetsOf es o

variable {n n' : Node} {kind : String} {calls : List Call} {es : List Edge}

theorem made_concat (kind : String) (calls : List Call) (c : Call) :
    made kind (calls ++ [c]) = made kind calls >>= fun n => n.call c := by
  rw [made, List.foldlM_append, ← made]
  simp only [List.foldlM_cons, List.foldlM_nil, bind_pure]

theorem records_ofKind (kind : String) : (ofKind kind).Records kind [] [] where
  kind := rfl
  state := rfl
  inputs := by simp [ofKind]
  outputs := by simp [ofKind]

/-- What is listed under an output, whether it is declared or not. -/
theorem Records.getD_outputs (h : n.Records kind calls es) (output : String) :
    (n.outputs.get? output).getD [] = targetsOf es output := by
  cases hget : n.outputs.get? output with
  | some targets => exact ((h.outputs output targets).1 hget).2
  | none =>
    refine (targetsOf_eq_nil fun hex => ?_).symm
    cases hget.symm.trans ((h.outputs output _).2 ⟨.inr hex, rfl⟩)

theorem Records.mem_inputNames (h : n.Records kind calls es) {i : String} :
    i ∈ n.inputNames ↔ .input i ∈ calls := by
  rw [inputNames, SortedMap.mem_keys, SortedMap.contains, Option.isSome_iff_exists]
  simp [h.inputs]

theorem Records.mem_outputNames (h : n.Records kind calls es) {o : String} :
    o ∈ n.outputNames ↔ .output o ∈ calls ∨ ∃ e ∈ es, e.output = o := by
  rw [outputNames, SortedMap.mem_keys, SortedMap.contains, Option.isSome_iff_exists]
  simp [h.outputs]

/-- One more call. -/
theorem Records.call (h : n.Records kind calls es) {c : Call} (hcall : n.call c = .ok n') :
    n'.Records kind (calls ++ [c]) es := by
  cases c with
  | state v =>
    obtain rfl := Except.ok.inj hcall
    exact ⟨h.kind, by simp [Call.state?, withState], by simpa [withState] using h.inputs,
      by simpa [withState] using h.outputs⟩
  | rawState text =>
    obtain ⟨s, hs, hn⟩ := exists_of_bind_ok hcall
    obtain rfl := Except.ok.inj hn
    exact ⟨h.kind, by simp [Call.state?, hs], by simpa using h.inputs, by simpa using h.outputs⟩
  | input name =>
    obtain rfl := Except.ok.inj hcall
    refine ⟨h.kind, by simpa [Call.state?, withInput] using h.state, fun i v => ?_,
      by simpa [withInput] using h.outputs⟩
    rw [withInput, SortedMap.get?_insert]
    by_cases hi : name = i
    · simp [hi, eq_comm]
    · have hne : i ≠ name := fun heq => hi heq.symm
      simp [hi, hne, h.inputs]
  | output name =>
    obtain rfl := Except.ok.inj hcall
    refine ⟨h.kind, by simpa [Call.state?, withOutput] using h.state,
      by simpa [withOutput] using h.inputs, fun o targets => ?_⟩
    -- An output that is declared again keeps what is listed under it.
    rw [withOutput, SortedMap.get?_insert, h.getD_outputs]
    by_cases ho : name = o
    · subst ho
      simp [eq_comm]
    · have hne : o ≠ name := fun heq => ho heq.symm
      simp [ho, hne, h.outputs]

/-- One more edge. -/
theorem Records.connect (h : n.Records kind calls es) (e : Edge) :
    (n.withTarget e.output e.target).Records kind calls (es ++ [e]) := by
  refine ⟨h.kind, h.state, h.inputs, fun o targets => ?_⟩
  rw [withTarget, h.getD_outputs, SortedMap.get?_insert, targetsOf_concat]
  by_cases ho : e.output = o
  · subst ho
    simp [eq_comm]
  · simp [ho, h.outputs]

/-- What calls have made records them. -/
theorem records_of_made (h : made kind calls = .ok n) : n.Records kind calls [] := by
  -- From the end, since the record is kept by one more call.
  induction calls using List.reverseRecOn generalizing n with
  | nil =>
    obtain rfl := Except.ok.inj h
    exact records_ofKind kind
  | append_singleton calls c ih =>
    rw [made_concat] at h
    obtain ⟨n₀, hn₀, hcall⟩ := exists_of_bind_ok h
    exact (ih hn₀).call hcall

/-- Only a raw state can fail. -/
theorem exists_made (kind : String)
    (h : ∀ text, .rawState text ∈ calls → ∃ s, Decoder.run Decoder.raw text = .ok s) :
    ∃ n, made kind calls = .ok n := by
  induction calls using List.reverseRecOn with
  | nil => exact ⟨_, rfl⟩
  | append_singleton calls c ih =>
    obtain ⟨n, hn⟩ := ih fun text htext => h text (List.mem_append_left _ htext)
    rw [made_concat, hn, ok_bind]
    cases c with
    | state v => exact ⟨_, rfl⟩
    -- A text that is no JSON is the only thing a node refuses.
    | rawState text =>
      obtain ⟨s, hs⟩ := h text (by simp)
      exact ⟨{ n with state := s }, by rw [Node.call, withRawState, hs]; rfl⟩
    | input name => exact ⟨_, rfl⟩
    | output name => exact ⟨_, rfl⟩

end Node

/-- An error that tells of an end of an edge that is not there. -/
inductive GraphError.Unknown : GraphError → Prop
  | node (edge : Nat) (side : Side) (id : NodeId) : Unknown (.unknownNode edge side id)
  | output (edge : Nat) (id : NodeId) (output : String) : Unknown (.unknownOutput edge id output)
  | input (edge : Nat) (id : NodeId) (input : String) : Unknown (.unknownInput edge id input)

namespace Graph

/-! ## Steps -/

section Steps

variable (g : Graph)

theorem node?_addNode (id id' : NodeId) (n : Node) :
    (g.addNode id n).node? id' = if id = id' then some n else g.node? id' :=
  SortedMap.get?_insert _ _ _ _

/-- A connection adds a target to its source, if the source is there, and to no other node. -/
theorem node?_connect (e : Edge) (id : NodeId) :
    (g.connect e).node? id = (g.node? id).map fun n =>
      if e.source = id then n.withTarget e.output e.target else n := by
  unfold connect node?
  by_cases hid : e.source = id
  · subst hid
    cases hn : g.nodes.get? e.source with
    | none => simp [hn]
    | some n => simp [SortedMap.get?_insert]
  · cases g.nodes.get? e.source with
    | none => simp [hid]
    | some n => simp [SortedMap.get?_insert, hid]

end Steps

/-! ## Records of calls -/

/-- The edge of a connection. -/
def Call.edge? : Call → Option Edge
  | .node .. => none
  | .connect e => some e

/-- The edges of the connections, in order. -/
def connections (calls : List Call) : List Edge := calls.filterMap Call.edge?

/-- The edges of the connections from a node, in order. -/
def connectionsFrom (id : NodeId) (calls : List Call) : List Edge :=
  (connections calls).filter (·.source = id)

/-- The last call that puts in a node of an id, with the calls before it, the calls on the node and
the calls after it. -/
structure LastNode (calls : List Call) (id : NodeId) (before : List Call) (kind : String)
    (inner : List Node.Call) (after : List Call) : Prop where
  split : calls = before ++ .node id kind inner :: after
  last : ∀ kind' inner', .node id kind' inner' ∉ after

/-- What a graph keeps of the calls that made it. -/
structure Records (g : Graph) (calls : List Call) : Prop where
  edges : g.edges = connections calls
  absent : ∀ id, (∀ kind inner, .node id kind inner ∉ calls) → g.node? id = none
  present : ∀ id before kind inner after, LastNode calls id before kind inner after →
    ∃ n, g.node? id = some n ∧ n.Records kind inner (connectionsFrom id after)

section Calls

variable {g : Graph} {calls : List Call} {e : Edge}

@[simp] theorem connections_nil : connections [] = [] := rfl

@[simp] theorem connections_append (calls calls' : List Call) :
    connections (calls ++ calls') = connections calls ++ connections calls' :=
  List.filterMap_append

@[simp] theorem connections_cons_node (id : NodeId) (kind : String) (inner : List Node.Call)
    (calls : List Call) : connections (.node id kind inner :: calls) = connections calls := rfl

@[simp] theorem connections_cons_connect (e : Edge) (calls : List Call) :
    connections (.connect e :: calls) = e :: connections calls := rfl

theorem connectionsFrom_concat_node (id : NodeId) (calls : List Call) (id' : NodeId)
    (kind : String) (inner : List Node.Call) :
    connectionsFrom id (calls ++ [.node id' kind inner]) = connectionsFrom id calls := by
  simp [connectionsFrom]

theorem connectionsFrom_concat_connect (id : NodeId) (calls : List Call) (e : Edge) :
    connectionsFrom id (calls ++ [.connect e]) =
      if e.source = id then connectionsFrom id calls ++ [e] else connectionsFrom id calls := by
  by_cases h : e.source = id <;> simp [h, connectionsFrom]

/-- What is not connected before a node is put in is connected after it. -/
theorem LastNode.connections_eq {id : NodeId} {before after : List Call} {kind : String}
    {inner : List Node.Call} (h : LastNode calls id before kind inner after) :
    connections calls = connections before ++ connections after := by
  rw [h.split, connections_append, connections_cons_node]

/-- The last node of an id is the last call itself, or was the last one before. -/
theorem LastNode.of_concat {c : Call} {id : NodeId} {before after : List Call} {kind : String}
    {inner : List Node.Call} (h : LastNode (calls ++ [c]) id before kind inner after) :
    (c = .node id kind inner ∧ after = []) ∨
      (∀ kind' inner', c ≠ .node id kind' inner') ∧
        ∃ after', after = after' ++ [c] ∧ LastNode calls id before kind inner after' := by
  obtain ⟨hsplit, hlast⟩ := h
  rcases List.eq_nil_or_concat after with rfl | ⟨after', d, rfl⟩
  · obtain ⟨-, hc⟩ := List.append_inj' hsplit rfl
    exact .inl ⟨List.singleton_inj.1 hc, rfl⟩
  · rw [List.concat_eq_append, ← List.cons_append, ← List.append_assoc] at hsplit
    obtain ⟨hcalls, hc⟩ := List.append_inj' hsplit rfl
    obtain rfl := List.singleton_inj.1 hc
    refine .inr ⟨?_, after', by simp, hcalls, fun kind' inner' hmem => ?_⟩
    · rintro kind' inner' rfl
      exact hlast kind' inner' (by simp)
    · exact hlast kind' inner' (by simp [hmem])

theorem records_empty : (build []).Records [] where
  edges := rfl
  absent _ _ := rfl
  present id before kind inner after h := by simpa using h.split

/-- A node is put in. -/
theorem Records.node (h : g.Records calls) {id : NodeId} {kind : String} {inner : List Node.Call}
    {n : Node} (hn : Node.made kind inner = .ok n) :
    (g.addNode id n).Records (calls ++ [.node id kind inner]) where
  edges := by simpa [addNode] using h.edges
  absent id' hid' := by
    have hne : id ≠ id' := by
      rintro rfl
      exact hid' kind inner (by simp)
    rw [node?_addNode, if_neg hne]
    exact h.absent id' fun kind' inner' hmem =>
      hid' kind' inner' (List.mem_append_left _ hmem)
  present id' before kind' inner' after hlast := by
    rw [node?_addNode]
    rcases hlast.of_concat with ⟨heq, rfl⟩ | ⟨hne, after', rfl, hlast'⟩
    · -- Whatever was there before, the new node has no connections yet.
      cases heq
      exact ⟨n, if_pos rfl, Node.records_of_made hn⟩
    · have hid : id ≠ id' := by
        rintro rfl
        exact hne kind inner rfl
      rw [if_neg hid, connectionsFrom_concat_node]
      exact h.present id' before kind' inner' after' hlast'

/-- A connection is made. -/
theorem Records.connect (h : g.Records calls) (e : Edge) :
    (g.connect e).Records (calls ++ [.connect e]) where
  edges := by simp [Graph.connect, h.edges]
  absent id hid := by
    rw [node?_connect, h.absent id fun kind inner hmem =>
      hid kind inner (List.mem_append_left _ hmem), Option.map_none]
  present id before kind inner after hlast := by
    rcases hlast.of_concat with ⟨heq, -⟩ | ⟨-, after', rfl, hlast'⟩
    · cases heq
    · obtain ⟨n, hn, hrecords⟩ := h.present id before kind inner after' hlast'
      rw [node?_connect, hn, Option.map_some, connectionsFrom_concat_connect]
      -- Only the source of an edge keeps a record of it.
      by_cases hid : e.source = id
      · exact ⟨_, by rw [if_pos hid], by rw [if_pos hid]; exact hrecords.connect e⟩
      · exact ⟨n, by rw [if_neg hid], by rw [if_neg hid]; exact hrecords⟩

theorem made_concat (calls : List Call) (c : Call) :
    made (calls ++ [c]) = do
      let g ← made calls
      return g.apply (← c.step) := by
  simp [made, build]

/-- What calls have made records them. -/
theorem records_of_made (h : made calls = .ok g) : g.Records calls := by
  -- From the end, since a later call changes what the earlier ones have made.
  induction calls using List.reverseRecOn generalizing g with
  | nil =>
    obtain rfl := Except.ok.inj h
    exact records_empty
  | append_singleton calls c ih =>
    rw [made_concat] at h
    obtain ⟨g₀, hg₀, h⟩ := exists_of_bind_ok h
    obtain ⟨s, hs, h⟩ := exists_of_bind_ok h
    obtain rfl := Except.ok.inj h
    cases c with
    | node id kind inner =>
      obtain ⟨n, hn, hs⟩ := exists_of_bind_ok hs
      obtain rfl := Except.ok.inj hs
      exact (ih hg₀).node hn
    | connect e =>
      obtain rfl := Except.ok.inj hs
      exact (ih hg₀).connect e

theorem exists_made
    (h : ∀ id kind inner text, .node id kind inner ∈ calls → .rawState text ∈ inner →
      ∃ s, Decoder.run Decoder.raw text = .ok s) :
    ∃ g, made calls = .ok g := by
  have hsteps : ∃ steps, calls.mapM Call.step = .ok steps := by
    refine List.exists_mapM_ok fun c hc => ?_
    cases c with
    | node id kind inner =>
      obtain ⟨n, hn⟩ := Node.exists_made kind fun text => h id kind inner text hc
      exact ⟨.node id n, by rw [Call.step, hn]; rfl⟩
    | connect e => exact ⟨.connect e, rfl⟩
  obtain ⟨steps, hsteps⟩ := hsteps
  exact ⟨build steps, by rw [made, hsteps]; rfl⟩

/-! ## Edges with both ends -/

/-- Every connection is made when its two nodes are there to stay, and leads into an input that is
declared. -/
structure Settled (calls : List Call) : Prop where
  sources : ∀ e ∈ connections calls, ∃ before kind inner after,
    LastNode calls e.source before kind inner after ∧ e ∉ connections before
  targets : ∀ e ∈ connections calls, ∃ before kind inner after,
    LastNode calls e.target before kind inner after ∧ e ∉ connections before ∧
      .input e.input ∈ inner

/-- The source lists the output, since the connection is one of those that came after it. -/
theorem Records.source (h : g.Records calls) (hsettled : Settled calls) (he : e ∈ g.edges) :
    ∃ n, g.node? e.source = some n ∧ e.output ∈ n.outputNames := by
  rw [h.edges] at he
  obtain ⟨before, kind, inner, after, hlast, hbefore⟩ := hsettled.sources e he
  obtain ⟨n, hn, hrecords⟩ := h.present _ before kind inner after hlast
  have hafter : e ∈ connections after := by
    rw [hlast.connections_eq, List.mem_append] at he
    exact he.resolve_left hbefore
  have hfrom : e ∈ connectionsFrom e.source after :=
    List.mem_filter.2 ⟨hafter, decide_eq_true rfl⟩
  exact ⟨n, hn, hrecords.mem_outputNames.2 (.inr ⟨e, hfrom, rfl⟩)⟩

theorem Records.target (h : g.Records calls) (hsettled : Settled calls) (he : e ∈ g.edges) :
    ∃ n, g.node? e.target = some n ∧ e.input ∈ n.inputNames := by
  rw [h.edges] at he
  obtain ⟨before, kind, inner, after, hlast, -, hinput⟩ := hsettled.targets e he
  obtain ⟨n, hn, hrecords⟩ := h.present _ before kind inner after hlast
  exact ⟨n, hn, hrecords.mem_inputNames.2 hinput⟩

/-- An edge that has both ends can only have its input in common with an earlier one. -/
theorem EdgeFault.not_unknown {earlier : List Edge} {index : Nat} {fault : GraphError}
    (hsource : ∃ n, g.node? e.source = some n ∧ e.output ∈ n.outputNames)
    (htarget : ∃ n, g.node? e.target = some n ∧ e.input ∈ n.inputNames)
    (h : g.EdgeFault earlier index e fault) : ¬fault.Unknown := by
  obtain ⟨source, hsource, hout⟩ := hsource
  obtain ⟨target, htarget, hin⟩ := htarget
  cases h with
  | source hnone => cases hnone.symm.trans hsource
  | target _ hnone => cases hnone.symm.trans htarget
  | output hsource' _ hnot =>
    obtain rfl := Option.some.inj (hsource.symm.trans hsource')
    exact absurd hout hnot
  | input _ htarget' _ hnot =>
    obtain rfl := Option.some.inj (htarget.symm.trans htarget')
    exact absurd hin hnot
  | duplicate => exact nofun

theorem Records.not_unknown (h : g.Records calls) (hsettled : Settled calls) {fault : GraphError}
    (hfault : g.validate = .error fault) : ¬fault.Unknown := by
  unfold validate at hfault
  split at hfault
  · next hfault' =>
    obtain rfl := Except.error.inj hfault
    cases fault?_eq_some.1 hfault' with
    | edge _ hedge _ hfault =>
      -- The only errors that could be of this sort are those of an edge.
      have he := List.mem_of_getElem? hedge
      exact hfault.not_unknown (h.source hsettled he) (h.target hsettled he)
    | reserved | task | port | file => exact nofun
  · cases hfault

end Calls

/-- Calls whose raw states are JSON texts make a graph, and it records them: its edges are the
connections, and its nodes are those that were put in, each as the last call for its id made it,
with the targets of the connections since. So if every connection is made when its two nodes are
there to stay, and leads into a declared input, the check finds both ends of every edge. -/
theorem made_records {calls : List Call}
    (hraw : ∀ id kind inner text, .node id kind inner ∈ calls → .rawState text ∈ inner →
      ∃ s, Decoder.run Decoder.raw text = .ok s) :
    ∃ g, made calls = .ok g ∧ g.Records calls ∧
      (Settled calls → ∀ fault, g.validate = .error fault → ¬fault.Unknown) := by
  obtain ⟨g, hg⟩ := exists_made hraw
  have hrecords := records_of_made hg
  exact ⟨g, hg, hrecords, fun hsettled _ => hrecords.not_unknown hsettled⟩

/-- A connection that comes too early leaves only its edge. -/
example :
    (made [.connect ⟨"a", "x", "b", "y"⟩, .node "a" "source" []]).toOption.map (fun g =>
      (g.edges, (g.node? "a").map Node.outputNames)) = some ([⟨"a", "x", "b", "y"⟩], some []) := by
  decide

/-! ## A source that is made anew -/

namespace Anew

/-- The calls on the source when it is put in again. -/
def source : List Node.Call := [.state .null, .rawState "[1, 2]", .output "u", .output "x"]

/-- The calls on a sink. -/
def sink : List Node.Call := [.input "l", .input "r"]

/-- The source is put in twice, for the last time at the end. -/
def nodes : List Call :=
  [.node "a" "draft" [.input "q", .output "gone"], .node "b" "sink" sink, .node "c" "sink" sink,
    .node "a" "source" source]

/-- One edge comes from an output that is not declared. -/
def edges : List Edge :=
  [⟨"a", "x", "c", "l"⟩, ⟨"a", "x", "b", "l"⟩, ⟨"a", "w", "c", "r"⟩, ⟨"a", "x", "b", "r"⟩]

/-- The nodes, and then the edges. -/
def calls : List Call := nodes ++ edges.map .connect

theorem lastNode_a :
    LastNode calls "a" (nodes.take 3) "source" source (edges.map .connect) :=
  ⟨rfl, by simp⟩

theorem settled : Settled calls where
  sources e he := by
    have hsource : ∀ e ∈ edges, e.source = "a" := by decide
    rw [hsource e he]
    exact ⟨_, _, _, _, lastNode_a, List.not_mem_nil⟩
  targets e he := by
    have htarget : ∀ e ∈ edges, e.target = "b" ∨ e.target = "c" := by decide
    have hinput : ∀ e ∈ edges, e.input = "l" ∨ e.input = "r" := by decide
    have hsink : .input e.input ∈ sink := by
      rcases hinput e he with h | h <;> simp [sink, h]
    have hb : LastNode calls "b" (nodes.take 1) "sink" sink (calls.drop 2) :=
      ⟨rfl, by simp [calls, nodes]⟩
    have hc : LastNode calls "c" (nodes.take 2) "sink" sink (calls.drop 3) :=
      ⟨rfl, by simp [calls, nodes]⟩
    rcases htarget e he with h | h
    · exact ⟨_, _, _, _, h ▸ hb, List.not_mem_nil, hsink⟩
    · exact ⟨_, _, _, _, h ▸ hc, List.not_mem_nil, hsink⟩

end Anew

/-- The source keeps nothing of its first call, and lists a node once under an output. -/
theorem anew_recorded :
    ∃ g, made Anew.calls = .ok g ∧ g.edges = Anew.edges ∧
      (∃ n, g.node? "a" = some n ∧ n.kind = "source" ∧ n.state = "[1, 2]" ∧ "q" ∉ n.inputNames ∧
        "gone" ∉ n.outputNames ∧ n.outputs.get? "u" = some [] ∧
          n.outputs.get? "w" = some ["c"] ∧ n.outputs.get? "x" = some ["c", "b"]) ∧
      ∀ fault, g.validate = .error fault → ¬fault.Unknown := by
  have hread : Decoder.run Decoder.raw "[1, 2]" = .ok "[1, 2]" := by cbv
  have hraw : ∀ id kind inner text, .node id kind inner ∈ Anew.calls → .rawState text ∈ inner →
      ∃ s, Decoder.run Decoder.raw text = .ok s := by
    intro id kind inner text hnode htext
    have hnode : .node id kind inner ∈ Anew.nodes := by simpa [Anew.calls] using hnode
    simp only [Anew.nodes, List.mem_cons, Call.node.injEq, List.not_mem_nil, or_false] at hnode
    rcases hnode with ⟨-, -, rfl⟩ | ⟨-, -, rfl⟩ | ⟨-, -, rfl⟩ | ⟨-, -, rfl⟩
    · simp at htext
    · simp [Anew.sink] at htext
    · simp [Anew.sink] at htext
    · -- Only the source has a raw state.
      obtain rfl : text = "[1, 2]" := by simpa [Anew.source] using htext
      exact ⟨_, hread⟩
  obtain ⟨g, hg, hrecords, hcheck⟩ := made_records hraw
  obtain ⟨n, hn, hnode⟩ := hrecords.present _ _ _ _ _ Anew.lastNode_a
  have hstate : Except.ok n.state = Decoder.run Decoder.raw "[1, 2]" := hnode.state.symm
  rw [hread, Except.ok.injEq] at hstate
  have hfrom : connectionsFrom "a" (Anew.edges.map .connect) = Anew.edges := by decide
  rw [hfrom] at hnode
  refine ⟨g, hg, hrecords.edges, ⟨n, hn, hnode.kind, hstate, ?_, ?_, ?_, ?_, ?_⟩,
    hcheck Anew.settled⟩
  · exact hnode.mem_inputNames.not.2 (by simp [Anew.source])
  · exact hnode.mem_outputNames.not.2 (by simp [Anew.source, Anew.edges])
  · exact (hnode.outputs _ _).2 ⟨.inl (by simp [Anew.source]), by decide⟩
  · exact (hnode.outputs _ _).2 ⟨.inr (by decide), by decide⟩
  · exact (hnode.outputs _ _).2 ⟨.inl (by simp [Anew.source]), by decide⟩

end Graph

end BlockFlow
