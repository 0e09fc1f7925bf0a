import Mathlib
import BlockFlow.Graph.Document
import BlockFlow.Graph.Builder
import BlockFlow.Proofs.Json.Refusals
import BlockFlow.Proofs.Lookup

/-!
# Graphs and their documents

A graph is written as one text, whichever of the ways to write it was used in the text it was read
from, and is read back from that text as it is (`Graph.reads`). What every node of such a graph has
is that its state is a raw value and its input values are canonical: all that is read is so
(`Node.gives_sound`), and so is all that is built (`Node.Built.sound`). Then only input values stand
in the way. One that nests too deep, or with an object that announces an embedded text, makes its
graph's text refused (`Graph.refuses`).

## Key results

- `Graph.parse_compact_iff`: when the text of a graph is read back, and as what
- `Graph.announcingDocument_refused`: a graph whose text is not
-/

namespace BlockFlow

open Decoder (Gives Reads Refuses Unembedded Unreserved)
open Json (quoteChars arrayChars objectChars)

/-! ## Ids, texts and edges -/

theorem NodeId.reads (id : NodeId) (depth : Nat) :
    Reads (NodeId.decoder depth) (quoteChars id) id := by
  have h : Reads (Decoder.valueWith none depth) (Json.str id).chars (.str id) :=
    Decoder.reads_value none _ (by simp [Json.Integral]) (Nat.zero_le _) (by simp)
  exact h.refine (by rfl)

theorem Decoder.reads_string (s : String) (depth : Nat) :
    Reads (Decoder.string depth) (quoteChars s) s := by
  refine ⟨Json.fronted_quoteChars s, fun rest _ => ?_⟩
  simp [Decoder.string, text, quoteChars, Json.skipBlanks_cons, Json.isBlank, Json.string_escape]

/-- An edge as the value that it is written as. -/
def Edge.document (e : Edge) : Json :=
  .obj [
    ("Source", .obj [("ID", .str e.source), ("Output", .str e.output)]),
    ("Target", .obj [("ID", .str e.target), ("Input", .str e.input)])]

theorem Edge.ofJson?_document (e : Edge) : Edge.ofJson? e.document = some e := by
  simp [Edge.ofJson?, Edge.document, Json.fields?, Edge.endOfJson?, NodeId.ofJson?]

theorem Edge.listOfJson?_document (es : List Edge) :
    Edge.listOfJson? (.arr (es.map Edge.document)) = some es := by
  rw [Edge.listOfJson?]
  induction es with
  | nil => rfl
  | cons e es ih => simp [List.mapM_cons, Edge.ofJson?_document, ih]

/-- Edges are read back from their list. -/
theorem Edge.reads_list (es : List Edge) {depth : Nat} (hdepth : 3 ≤ depth) :
    Reads (Edge.listDecoder depth) (arrayChars (es.map Edge.chars)) es := by
  have hchars : arrayChars (es.map Edge.chars) = (Json.arr (es.map Edge.document)).chars := by
    rw [Json.chars, Json.itemChars_eq, List.map_map]
    rfl
  have hnesting : (Json.arr (es.map Edge.document)).nesting ≤ depth := by
    have hitems : Json.itemNesting (es.map Edge.document) ≤ 2 := by
      apply Json.itemNesting_le
      intro v hv
      obtain ⟨e, -, rfl⟩ := List.mem_map.1 hv
      simp [Edge.document, Json.nesting, Json.memberNesting]
    rw [Json.nesting]
    omega
  -- A list of edges is read as a value first, which is then taken apart.
  have h : Reads (Decoder.valueWith none depth) _ (Json.arr (es.map Edge.document)) :=
    Decoder.reads_value none _ (by simp [Edge.document, Json.Integral]) hnesting (by simp)
  rw [hchars]
  exact h.refine (by rw [Edge.listOfJson?_document])

/-! ## Nodes -/

/-- An input value in canonical form, in which no object consists of the announcing member only. -/
structure Json.Settled (v : Json) : Prop where
  canonical : v.canonical = v
  unembedded : Unembedded v

theorem Json.settled_null : Json.null.Settled := ⟨rfl, by simp [Unembedded]⟩

/-- A node whose state is a raw value and whose input values are settled. -/
structure Node.Sound (n : Node) : Prop where
  state : Json.IsRaw n.state.toList
  inputs : ∀ name v, n.inputs.get? name = some v → v.Settled

theorem Node.Sound.ofList_canonical {n : Node} (hn : n.Sound) :
    SortedMap.ofList (n.inputs.toList.map fun m => (m.1, m.2.canonical)) = n.inputs := by
  have hcanonical : n.inputs.toList.map (fun m => (m.1, m.2.canonical)) = n.inputs.toList := by
    conv_rhs => rw [← List.map_id n.inputs.toList]
    refine List.map_congr_left fun m hm => ?_
    rw [(hn.inputs m.1 m.2 (SortedMap.mem_toList.1 hm)).canonical]
    rfl
  rw [hcanonical, SortedMap.ofList_toList]

/-- The fields in front of the inputs are read. -/
theorem Node.Sound.fills {n : Node} (hn : n.Sound) (depth : Nat) :
    Node.record.Fills depth {} [("Kind", quoteChars n.kind), ("State", n.state.toList)]
      { kind := some n.kind, state := some n.state } := by
  have hkind : Reads (Decoder.string depth) (quoteChars n.kind) n.kind :=
    Decoder.reads_string n.kind _
  have hstate : Reads (Decoder.raw depth) n.state.toList n.state := by
    refine ⟨hn.state.front, fun rest hrest => ?_⟩
    rw [Decoder.raw, hn.state.rawValue hrest, String.ofList_toList]
  have h₁ := hkind.map fun x => ({ kind := some x } : Node.Partial)
  have h₂ := hstate.map fun x => ({ kind := some n.kind, state := some x } : Node.Partial)
  exact .field rfl rfl h₁ (.field rfl rfl h₂ .done)

/-- A node is read back from its text. -/
theorem Node.reads {n : Node} (hn : n.Sound) {depth : Nat}
    (hnumbers : ∀ v ∈ n.inputs.values, v.Integral)
    (hvalues : ∀ v ∈ n.inputs.values, Unreserved v ∧ v.nesting ≤ depth + 1) :
    Reads (Node.record.decoder (depth + 3)) n.chars n := by
  have hinputs : Reads (Decoder.object Decoder.value (depth + 2))
      (objectChars (n.inputs.toList.map fun e => (e.1, e.2.chars))) n.inputs.toList := by
    refine Decoder.reads_object Json.chars fun e he => ?_
    have hv : e.2 ∈ n.inputs.values := List.mem_map_of_mem he
    exact Decoder.reads_value _ e.2 (hnumbers _ hv) (hvalues _ hv).2 fun _ => (hvalues _ hv).1
  have houtputs : Reads (Decoder.object (Decoder.list NodeId.decoder) (depth + 2))
      (objectChars (n.outputs.toList.map fun e => (e.1, arrayChars (e.2.map quoteChars))))
      n.outputs.toList := by
    refine Decoder.reads_object (fun ids : List NodeId => arrayChars (ids.map quoteChars))
      fun e _ => ?_
    exact Decoder.reads_list quoteChars fun id _ => NodeId.reads id _
  -- The fields are filled one after the other, the inputs before the outputs.
  have h₁ := hinputs.map fun ms => ({
    kind := some n.kind
    state := some n.state
    inputs := some (SortedMap.ofList (ms.map fun m => (m.1, m.2.canonical))) } : Node.Partial)
  rw [hn.ofList_canonical] at h₁
  have h₂ := houtputs.map fun ms => ({
    kind := some n.kind
    state := some n.state
    inputs := some n.inputs
    outputs := some (SortedMap.ofList ms) } : Node.Partial)
  rw [SortedMap.ofList_toList] at h₂
  exact ((hn.fills (depth + 2)).append
    (.field rfl rfl h₁ (.field rfl rfl h₂ .done))).reads rfl

/-- A node is refused with one of its input values. -/
theorem Node.refuses {n : Node} (hn : n.Sound) {depth : Nat}
    (hnumbers : ∀ v ∈ n.inputs.values, v.Integral)
    (hvalue : ∃ v ∈ n.inputs.values, ¬(Unreserved v ∧ v.nesting ≤ depth + 1)) :
    Refuses (Node.record.decoder (depth + 3)) n.chars := by
  -- Whatever is not read back is refused, so that it does not matter which input stands first.
  have hor : ∀ e ∈ n.inputs.toList, (Unreserved e.2 ∧ e.2.nesting ≤ depth + 1) ∨
      Refuses (Decoder.value (depth + 1)) e.2.chars := fun e he =>
    Decoder.readable_or_refuses _ e.2 (hnumbers _ (List.mem_map_of_mem he))
      (hn.inputs e.1 e.2 (SortedMap.mem_toList.1 he)).unembedded
  have hinputs : Refuses (Decoder.object Decoder.value (depth + 2))
      (objectChars (n.inputs.toList.map fun e => (e.1, e.2.chars))) := by
    refine Decoder.object_refuses Json.chars (fun e he => ?_) ?_
    · obtain hreadable | hrefuse := hor e he
      · exact .inl (Decoder.reads_value _ e.2 (hnumbers _ (List.mem_map_of_mem he)) hreadable.2
          fun _ => hreadable.1)
      · exact .inr hrefuse
    · obtain ⟨v, hv, hbad⟩ := hvalue
      obtain ⟨e, he, rfl⟩ := List.mem_map.1 hv
      exact ⟨e, he, (hor e he).resolve_left hbad⟩
  have h := hinputs.map fun ms => ({
    kind := some n.kind
    state := some n.state
    inputs := some (SortedMap.ofList (ms.map fun m => (m.1, m.2.canonical))) } : Node.Partial)
  exact (hn.fills (depth + 2)).refuses rfl rfl h _

/-! ## Graphs -/

/-- A graph whose nodes are sound. -/
def Graph.Sound (g : Graph) : Prop := ∀ id n, g.node? id = some n → n.Sound

/-- The values that stand under the inputs of the nodes. -/
def Graph.inputValues (g : Graph) : List Json := g.nodes.values.flatMap (·.inputs.values)

theorem Graph.mem_inputValues {g : Graph} {v : Json} :
    v ∈ g.inputValues ↔ ∃ e ∈ g.nodes.toList, v ∈ e.2.inputs.values := by
  rw [inputValues, List.mem_flatMap]
  constructor
  · rintro ⟨n, hn, hv⟩
    obtain ⟨e, he, rfl⟩ := List.mem_map.1 hn
    exact ⟨e, he, hv⟩
  · rintro ⟨e, he, hv⟩
    exact ⟨e.2, List.mem_map_of_mem he, hv⟩

/-- A graph is read back from its text. -/
theorem Graph.reads {g : Graph} (hg : g.Sound) {depth : Nat}
    (hnumbers : ∀ v ∈ g.inputValues, v.Integral)
    (hvalues : ∀ v ∈ g.inputValues, Unreserved v ∧ v.nesting ≤ depth + 1) :
    Reads (Graph.record.decoder (depth + 5)) g.chars g := by
  have hnodes : Reads (Decoder.object Node.record.decoder (depth + 4))
      (objectChars (g.nodes.toList.map fun e => (e.1, e.2.chars))) g.nodes.toList := by
    refine Decoder.reads_object Node.chars fun e he => ?_
    have hmem : ∀ v ∈ e.2.inputs.values, v ∈ g.inputValues := fun v hv =>
      Graph.mem_inputValues.2 ⟨e, he, hv⟩
    exact Node.reads (hg _ _ (SortedMap.mem_toList.1 he)) (fun v hv => hnumbers v (hmem v hv))
      fun v hv => hvalues v (hmem v hv)
  have hedges := Edge.reads_list g.edges (by omega : 3 ≤ depth + 4)
  -- The members in the order in which they are written.
  have h₁ := hnodes.map fun ms => ({ nodes := some (SortedMap.ofList ms) } : Graph.Partial)
  rw [SortedMap.ofList_toList] at h₁
  have h₂ := hedges.map fun x => ({ nodes := some g.nodes, edges := some x } : Graph.Partial)
  exact Decoder.Record.Fills.reads (.field rfl rfl h₁ (.field rfl rfl h₂ .done)) rfl

/-- A graph is refused with one of its input values. -/
theorem Graph.refuses {g : Graph} (hg : g.Sound) {depth : Nat}
    (hnumbers : ∀ v ∈ g.inputValues, v.Integral)
    (hvalue : ∃ v ∈ g.inputValues, ¬(Unreserved v ∧ v.nesting ≤ depth + 1)) :
    Refuses (Graph.record.decoder (depth + 5)) g.chars := by
  have hnodes : Refuses (Decoder.object Node.record.decoder (depth + 4))
      (objectChars (g.nodes.toList.map fun e => (e.1, e.2.chars))) := by
    have hsound : ∀ e ∈ g.nodes.toList, e.2.Sound := fun e he =>
      hg _ _ (SortedMap.mem_toList.1 he)
    have hnumber : ∀ e ∈ g.nodes.toList, ∀ v ∈ e.2.inputs.values, v.Integral := fun e he v hv =>
      hnumbers v (Graph.mem_inputValues.2 ⟨e, he, hv⟩)
    -- The nodes in front of the one with the bad value may be read.
    refine Decoder.object_refuses Node.chars (fun e he => ?_) ?_
    · by_cases hbad : ∃ v ∈ e.2.inputs.values, ¬(Unreserved v ∧ v.nesting ≤ depth + 1)
      · exact .inr (Node.refuses (hsound e he) (hnumber e he) hbad)
      · refine .inl (Node.reads (hsound e he) (hnumber e he) fun v hv => ?_)
        by_contra hv'
        exact hbad ⟨v, hv, hv'⟩
    · obtain ⟨v, hv, hbad⟩ := hvalue
      obtain ⟨e, he, hv⟩ := Graph.mem_inputValues.1 hv
      exact ⟨e, he, Node.refuses (hsound e he) (hnumber e he) ⟨v, hv, hbad⟩⟩
  have h := hnodes.map fun ms => ({ nodes := some (SortedMap.ofList ms) } : Graph.Partial)
  exact Decoder.Record.Fills.refuses .done rfl rfl h _

/-! ## Graphs from documents -/

/-- What is read of a sound node. -/
structure Node.Partial.Sound (p : Node.Partial) : Prop where
  state : ∀ s, p.state = some s → Json.IsRaw s.toList
  inputs : ∀ m, p.inputs = some m → ∀ name v, m.get? name = some v → v.Settled

theorem Node.keeps_sound : Node.record.Keeps Node.Partial.Sound := by
  intro f hf p hp depth cs p' rest hread
  simp only [Node.record, List.mem_cons, List.not_mem_nil, or_false] at hf
  obtain rfl | rfl | rfl | rfl := hf <;>
    obtain ⟨⟨x, r⟩, hx, hread⟩ := exists_of_bind_ok hread <;>
    obtain ⟨rfl, -⟩ := Prod.mk.inj (Except.ok.inj hread)
  · -- The kind and the outputs are under no condition.
    exact ⟨hp.state, hp.inputs⟩
  · refine ⟨fun s hs => ?_, hp.inputs⟩
    obtain rfl := Option.some.inj hs
    exact Json.isRaw_of_rawValue hx
  · refine ⟨hp.state, fun m hm name v hv => ?_⟩
    obtain rfl := Option.some.inj hm
    obtain ⟨e, hmem, he⟩ := List.mem_map.1 (SortedMap.mem_of_get?_ofList hv)
    obtain ⟨-, rfl⟩ := Prod.mk.inj he
    have hread : Unreserved e.2 := Decoder.gives_value.object _ _ _ _ hx e hmem
    exact ⟨Json.canonical_canonical e.2, hread.canonical⟩
  · exact ⟨hp.state, hp.inputs⟩

theorem Json.isRaw_null : Json.IsRaw "null".toList := Json.isRaw_chars .null

theorem Node.gives_sound : Gives Node.record.decoder Node.Sound := by
  have hstart : Node.record.start.Sound := ⟨by simp [Node.record], by simp [Node.record]⟩
  refine Node.keeps_sound.gives hstart fun p n hp hfinish => ?_
  obtain ⟨_ | kind, state, inputs, outputs⟩ := p
  · cases hfinish
  · obtain rfl := Except.ok.inj hfinish
    refine ⟨?_, ?_⟩
    · cases state with
      | none => exact Json.isRaw_null
      | some s => exact hp.state s rfl
    · cases inputs with
      | none => simp
      | some m => exact hp.inputs m rfl

/-- Every graph that a text holds is sound. -/
theorem Graph.sound_of_parse {text : String} {g : Graph} (h : Graph.parse text = .ok g) :
    g.Sound := by
  -- Whatever members of the document have been read, the nodes so far are sound.
  have hkeeps : Graph.record.Keeps fun p =>
      ∀ m, p.nodes = some m → ∀ id n, m.get? id = some n → n.Sound := by
    intro f hf p hp depth cs p' rest hread
    simp only [Graph.record, List.mem_cons, List.not_mem_nil, or_false] at hf
    obtain rfl | rfl := hf <;>
      obtain ⟨⟨x, r⟩, hx, hread⟩ := exists_of_bind_ok hread <;>
      obtain ⟨rfl, -⟩ := Prod.mk.inj (Except.ok.inj hread)
    · intro m hm id n hn
      obtain rfl := Option.some.inj hm
      exact Node.gives_sound.object _ _ _ _ hx _ (SortedMap.mem_of_get?_ofList hn)
    · exact hp
  have hgives : Gives Graph.record.decoder Graph.Sound := by
    refine hkeeps.gives (by simp [Graph.record]) fun p g hp hfinish => ?_
    obtain rfl := Except.ok.inj hfinish
    obtain ⟨nodes, edges⟩ := p
    cases nodes with
    | none => simp [Graph.Sound, Graph.node?]
    | some m => exact hp m rfl
  exact hgives.run h

/-! ## Graphs that are built -/

/-- Nodes that are made by the calls of a builder. -/
inductive Node.Built : Node → Prop
  | ofKind (kind : String) : Node.Built (.ofKind kind)
  | withState {n : Node} (h : n.Built) (v : Json) : Node.Built (n.withState v)
  | withRawState {n n' : Node} (h : n.Built) {text : String}
      (hstate : n.withRawState text = .ok n') : Node.Built n'
  | withInput {n : Node} (h : n.Built) (name : String) : Node.Built (n.withInput name)
  | withOutput {n : Node} (h : n.Built) (name : String) : Node.Built (n.withOutput name)

theorem Node.Built.sound {n : Node} (h : n.Built) : n.Sound := by
  -- Only a state that is given as a text has to be checked: any other is written by the node
  -- itself.
  induction h with
  | ofKind kind => exact ⟨Json.isRaw_null, by simp [Node.ofKind]⟩
  | withState h v ih =>
    refine ⟨?_, ih.inputs⟩
    rw [Node.withState, Json.compact, String.toList_ofList]
    exact Json.isRaw_chars v
  | withRawState h hstate ih =>
    obtain ⟨s, hs, hstate⟩ := exists_of_bind_ok hstate
    obtain rfl := Except.ok.inj hstate
    have hraw : Gives Decoder.raw fun s => Json.IsRaw s.toList :=
      fun _ _ _ _ hread => Json.isRaw_of_rawValue hread
    exact ⟨hraw.run hs, ih.inputs⟩
  | withInput h name ih =>
    refine ⟨ih.state, fun name' v hv => ?_⟩
    rw [Node.withInput, SortedMap.get?_insert] at hv
    split at hv
    · obtain rfl := Option.some.inj hv
      exact Json.settled_null
    · exact ih.inputs name' v hv
  | withOutput h name ih => exact ⟨ih.state, ih.inputs⟩

theorem Graph.Sound.apply {g : Graph} (hg : g.Sound) {step : Graph.Step}
    (hstep : ∀ id n, step = .node id n → n.Sound) : (g.apply step).Sound := by
  intro id' n' hn'
  cases step with
  | node id n =>
    rw [Graph.apply, Graph.addNode, Graph.node?, SortedMap.get?_insert] at hn'
    split at hn'
    · obtain rfl := Option.some.inj hn'
      exact hstep id n rfl
    · exact hg id' n' hn'
  | connect e =>
    rw [Graph.apply, Graph.connect, Graph.node?] at hn'
    simp only at hn'
    split at hn'
    · next n hn =>
      rw [SortedMap.get?_insert] at hn'
      split at hn'
      · -- The source is listed its target, and keeps its state and its inputs.
        obtain rfl := Option.some.inj hn'
        have hsound := hg e.source n hn
        exact ⟨hsound.state, hsound.inputs⟩
      · exact hg id' n' hn'
    · exact hg id' n' hn'

/-- Every graph that is built is sound, step by step. -/
theorem Graph.sound_build {steps : List Graph.Step}
    (h : ∀ id n, .node id n ∈ steps → n.Built) : (Graph.build steps).Sound := by
  have hfoldl : ∀ g : Graph, g.Sound → (steps.foldl Graph.apply g).Sound := by
    induction steps with
    | nil => exact fun g hg => hg
    | cons step steps ih =>
      intro g hg
      refine ih (fun id n hn => h id n (List.mem_cons_of_mem _ hn)) _ (hg.apply ?_)
      rintro id n rfl
      exact (h id n (by simp)).sound
  exact hfoldl {} (by simp [Graph.Sound, Graph.node?])

/-- Graphs that are read from a text, or built step by step. -/
inductive Graph.Obtained : Graph → Prop
  | parsed {text : String} {g : Graph} (h : Graph.parse text = .ok g) : Graph.Obtained g
  | built {steps : List Graph.Step} (h : ∀ id n, .node id n ∈ steps → n.Built) :
      Graph.Obtained (Graph.build steps)

theorem Graph.Obtained.sound {g : Graph} (h : g.Obtained) : g.Sound := by
  cases h with
  | parsed h => exact Graph.sound_of_parse h
  | built h => exact Graph.sound_build h

/-- The text of a graph is read back as the graph, just if no object in its input values begins
with the announcing name and none of these values nests deeper than 123 containers: with the node,
its inputs and what they stand in they are 127. -/
theorem Graph.parse_compact_iff {g g' : Graph} (hg : g.Obtained)
    (hnumbers : ∀ v ∈ g.inputValues, v.Integral) :
    Graph.parse g.compact = .ok g' ↔
      g' = g ∧ ∀ v ∈ g.inputValues, Unreserved v ∧ v.nesting ≤ 123 := by
  by_cases hvalues : ∀ v ∈ g.inputValues, Unreserved v ∧ v.nesting ≤ 123
  · have hread : Graph.parse g.compact = .ok g := (Graph.reads hg.sound hnumbers hvalues).run
    rw [hread, Except.ok.injEq, eq_comm]
    exact (and_iff_left hvalues).symm
  · have hrefused : Graph.parse g.compact ≠ .ok g' := by
      refine (Graph.refuses hg.sound hnumbers ?_).run g'
      by_contra hnone
      exact hvalues fun v hv => by_contra fun hbad => hnone ⟨v, hv, hbad⟩
    exact iff_of_false hrefused fun h => hvalues h.2

/-- A document of two nodes. Ids are numbers, the edge is listed by name, and the members of an
input value stand in no order. -/
def Graph.looseDocument : Json :=
  .obj [
    ("Nodes", .obj [
      ("2", .obj [("Kind", .str "k"),
        ("Inputs", .obj [("i", .obj [("b", .num (.int (-1))), ("a", .arr [.bool true])])])]),
      ("1", .obj [("Kind", .str "k"), ("State", .arr [.null, .str "\n"]),
        ("Outputs", .obj [("o", .arr [.num (.int 2)])])])]),
    ("Edges", .obj [("e", .obj [
      ("Source", .obj [("ID", .num (.int 1)), ("Output", .str "o")]),
      ("Target", .obj [("ID", .num (.int 2)), ("Input", .str "i")])])])]

theorem Graph.looseDocument_read_back :
    ∃ g, Graph.parse looseDocument.compact = .ok g ∧ (∀ v ∈ g.inputValues, v.Integral) ∧
      g.inputValues.length = 1 ∧ Graph.parse g.compact = .ok g := by
  have hvalues : (Graph.parse looseDocument.compact).toOption.map Graph.inputValues =
      some [.obj [("a", .arr [.bool true]), ("b", .num (.int (-1)))]] := by cbv
  cases hg : Graph.parse looseDocument.compact with
  | error e => rw [hg] at hvalues; cases hvalues
  | ok g =>
    rw [hg] at hvalues
    have hvalues : g.inputValues = _ := Option.some.inj hvalues
    have hnumbers : ∀ v ∈ g.inputValues, v.Integral := by
      simp [hvalues, Json.Integral, Json.IsWord]
    refine ⟨g, rfl, hnumbers, by rw [hvalues]; rfl, ?_⟩
    refine (Graph.parse_compact_iff (.parsed hg) hnumbers).2 ⟨rfl, ?_⟩
    rw [hvalues]
    intro v hv
    obtain rfl := List.mem_singleton.1 hv
    simp [Unreserved, Decoder.StartsReserved, Decoder.embeddedName, Json.nesting,
      Json.itemNesting, Json.memberNesting]

/-- A document in which an object of an input has the announcing name, but not first. -/
def Graph.announcingDocument : Json :=
  .obj [("Nodes", .obj [("a", .obj [("Kind", .str "k"),
    ("Inputs", .obj [("i", .obj [("b", .null), (Decoder.embeddedName, .null)])])])])]

/-- When its members are sorted, the announcing name comes first, and the text is refused. -/
theorem Graph.announcingDocument_refused :
    ¬∀ g : Graph, g.Obtained → (∀ v ∈ g.inputValues, v.Integral) →
      Graph.parse g.compact = .ok g := by
  intro h
  have hvalues : (Graph.parse announcingDocument.compact).toOption.map Graph.inputValues =
      some [.obj [(Decoder.embeddedName, .null), ("b", .null)]] := by cbv
  have hrefused : (Graph.parse announcingDocument.compact).toOption.map
      (fun g => (Graph.parse g.compact).isOk) = some false := by decide +kernel
  cases hg : Graph.parse announcingDocument.compact with
  | error e => rw [hg] at hvalues; cases hvalues
  | ok g =>
    rw [hg] at hvalues hrefused
    have hvalues : g.inputValues = _ := Option.some.inj hvalues
    have hread := h g (.parsed hg) (by simp [hvalues, Json.Integral])
    have hrefused : (Graph.parse g.compact).isOk = false := Option.some.inj hrefused
    rw [hread] at hrefused
    cases hrefused

end BlockFlow
