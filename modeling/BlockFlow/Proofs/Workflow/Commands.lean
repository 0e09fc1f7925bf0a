import BlockFlow.Proofs.Template.Reading
import BlockFlow.Proofs.Workflow.Layout

/-!
# The commands that the engine runs

The engine binds the input ports of a process task to what the edges into the inputs bring, and its
output ports to staging paths. What a shell reads in the command that it fills with them names
these files, and is about nothing else.

## Key results

- `command_words`: the words of every command that the engine fills
- `quotedNames_words`: the words of a command with names that need quotes
-/

namespace BlockFlow

open Template

/-! ## Bound files -/

/-- An edge from a node leads into an input. -/
structure Graph.Leads (g : Graph) (e : Edge) (source : Node) (id : NodeId) (input : String) :
    Prop where
  mem : e ∈ g.edges
  source : g.node? e.source = some source
  target : e.target = id
  input : e.input = input

section Bound

variable {g : Graph} {mode : Mode} {modules : BlockModules} {out : Path} {id : NodeId}
  {node : Node} {tasks : TaskGraph Work} {plan : Plan} {i : Nat}

/-- The ports of the run of a process task are bound to files only if they are declared. -/
theorem Plan.Accounts.within (h : plan.Accounts tasks)
    (hi : tasks.tasks[i]? = some (g.processTask mode modules out id node)) (scratch : Path)
    (context : RunContext) :
    Invocation.Within (Execution.bindRun (g.processTask mode modules out id node)
      (plan.inputs[i]?.getD ∅) scratch context).binding id node mode := by
  refine ⟨fun p hp => ?_, fun p hp => ?_⟩
  · refine (Graph.isSome_inputPorts g mode modules out id node p).1 ?_
    have hget : ((plan.inputs[i]?.getD ∅).get? p).join.isSome = true := hp
    rw [h.inputs i _ hi p] at hget
    cases hport : (g.processTask mode modules out id node).inputPorts.get? p with
    | none => rw [hport] at hget; cases hget
    | some ref? => rfl
  · refine (Graph.isSome_outputPorts g mode modules out id node p).1 ?_
    have hget : ((SortedMap.mapWithKey (Execution.stagingPath scratch)
      (g.processTask mode modules out id node).outputPorts).get? p).isSome = true := hp
    rwa [SortedMap.get?_mapWithKey, Option.isSome_map] at hget

variable (haccepted : g.Accepted) (htasks : tasks.tasks = g.tasks mode modules out)
  (hplan : plan.Accounts tasks) (hnode : g.node? id = some node)
  (hi : tasks.tasks[i]? = some (g.processTask mode modules out id node))

include haccepted htasks hplan

/-- A port that reads a port of another task is bound to the file that is published there. -/
private theorem bound_eq (hi : tasks.tasks[i]? = some (g.processTask mode modules out id node))
    {u : Task Work} (hu : u ∈ g.tasks mode modules out) {port port' : String} {path : Path}
    (hport : (g.processTask mode modules out id node).inputPorts.get? port =
      some (some ⟨u.name, port'⟩)) (hpath : u.outputPorts.get? port' = some path) :
    ((plan.inputs[i]?.getD ∅).get? port).join = some path := by
  obtain ⟨j, hj⟩ := List.getElem?_of_mem (htasks ▸ hu)
  have hlaid := haccepted.laid_tasks htasks
  rw [(hlaid.get?_inputs hplan hi hport hj rfl hpath).2]
  rfl

include hi

/-- The state is bound to the file of the node's own state task. -/
theorem bound_state (hnode : g.node? id = some node) :
    ((plan.inputs[i]?.getD ∅).get? (Naming.stateIn id)).join =
      some (Naming.statePath out id node.kind) := by
  exact bound_eq haccepted htasks hplan hi (Graph.mem_tasks.2 ⟨id, node, hnode, .inl rfl⟩)
    Graph.get?_stateIn Graph.get?_stateOut

/-- A port of an input is bound to the file that the edge into the input brings. -/
private theorem bound_feed {e : Edge} {source : Node} {input port : String}
    (hleads : g.Leads e source id input) {name : String → String → String} {path : Path}
    (hport : (g.processTask mode modules out id node).inputPorts.get? port =
      some (g.feed? name id input))
    (hpath : (g.processTask mode modules out e.source source).outputPorts.get?
      (name e.source e.output) = some path) :
    ((plan.inputs[i]?.getD ∅).get? port).join = some path := by
  obtain ⟨he, hsource, rfl, rfl⟩ := hleads
  rw [haccepted.feed?_of_mem he hsource] at hport
  exact bound_eq haccepted htasks hplan hi
    (Graph.mem_tasks.2 ⟨e.source, source, hsource, .inr rfl⟩) hport hpath

omit htasks in
/-- If the schema port of an input is bound to a file, an edge leads into the input. -/
private theorem exists_leads {input : String} (hinput : input ∈ node.inputNames)
    (hbound : ((plan.inputs[i]?.getD ∅).get? (Naming.schemaIn id input)).join.isSome = true) :
    ∃ e source, g.Leads e source id input := by
  rw [hplan.inputs i _ hi, Graph.get?_schemaIn hinput, Option.map_some, Option.join_some] at hbound
  obtain ⟨ref, hfeed⟩ : ∃ ref, g.feed? Naming.schemaOut id input = some ref := by
    refine Option.ne_none_iff_exists'.1 (fun hnone => ?_)
    rw [hnone] at hbound
    cases hbound
  obtain ⟨e, hedge, -⟩ := Option.bind_eq_some_iff.1 hfeed
  have he := List.mem_of_find?_eq_some hedge
  have htarget := List.find?_some hedge
  simp only [Bool.and_eq_true, decide_eq_true_eq] at htarget
  obtain ⟨source, -, hsource, -⟩ := haccepted.ends e he
  exact ⟨e, source, he, hsource, htarget.1, htarget.2⟩

end Bound

/-- An output is bound to its staging path. -/
private theorem bound_output (inputs : NameMap (Option Path)) (scratch : Path)
    (context : RunContext) {t : Task Work} {port : String} {path : Path}
    (hpath : t.outputPorts.get? port = some path) :
    (Execution.bindRun t inputs scratch context).binding.path? .output port =
      some (Execution.stagingPath scratch port path) := by
  show (t.outputPorts.mapWithKey (Execution.stagingPath scratch)).get? port = _
  rw [SortedMap.get?_mapWithKey, hpath, Option.map_some]

theorem TaskRun.render_of_renderCommand {run : TaskRun} {text : String}
    (h : run.renderCommand = .ok text) : Template.render run.binding run.command = .ok text := by
  unfold renderCommand at h
  split at h
  · next hrender =>
    obtain rfl := Except.ok.inj h
    exact hrender
  · cases h

/-- The files that the command of a node is about in a run in the directory `out`, with the scratch
directory `scratch`: `edge` leads from `source` into each input. -/
def Invocation.filesOf (out scratch : Path) (id : NodeId) (node : Node) (edge : String → Edge)
    (source : String → Node) : Invocation.Files where
  state := Naming.statePath out id node.kind
  inputSchema n := Naming.schemaPath out (edge n).source (source n).kind (edge n).output
  inputInstance n := Naming.instancePath out (edge n).source (source n).kind (edge n).output
  outputSchema n := Execution.stagingPath scratch (Naming.schemaOut id n)
    (Naming.schemaPath out id node.kind n)
  outputInstance n := Execution.stagingPath scratch (Naming.instanceOut id n)
    (Naming.instancePath out id node.kind n)

/-- If the engine can fill the command of a process task, a shell reads in it the interpreter, the
program and, behind the flags, the files that belong to the declared names: for an input what the
edge into it brings, and for an output where it is staged. -/
theorem command_words {g : Graph} {mode : Mode} {config : Config} {out : Path}
    {tasks : TaskGraph Work} {plan : Plan} (hcompile : g.compile mode config out = .ok tasks)
    (hplan : tasks.plan = .ok plan) (hmodules : config.modules.Unmarked) {i : Nat}
    {t : Task Work} (ht : tasks.tasks[i]? = some t) (hrole : t.role = .process)
    (scratch : Path) (context : RunContext) {text : String}
    (hrender : (Execution.bindRun t (plan.inputs[i]?.getD ∅) scratch context).renderCommand =
      .ok text) :
    ∃ node edge source, g.node? t.node = some node ∧
      (∀ n ∈ node.inputNames, g.Leads (edge n) (source n) t.node n) ∧
      Shell.words text = some (Invocation.words config.modules node mode
        (Invocation.filesOf out scratch t.node node edge source)) := by
  obtain ⟨haccepted, rfl⟩ := Graph.of_compile hcompile
  have haccounts := TaskGraph.accounts_of_plan hplan
  obtain ⟨id, node, hnode, rfl | rfl⟩ := Graph.mem_tasks.1 (List.mem_of_getElem? ht)
  · cases hrole
  · have hgiven := haccepted.unreserved id node hnode
    have hfilled := TaskRun.isOk_renderCommand_iff.1 ⟨text, hrender⟩
    have hcommand : (Execution.bindRun (g.processTask mode config.modules out id node)
        (plan.inputs[i]?.getD ∅) scratch context).command =
          Invocation.command config.modules id node mode := rfl
    have hrender := TaskRun.render_of_renderCommand hrender
    rw [hcommand] at hfilled hrender
    -- What the engine has filled has no markers from elsewhere, and a file for every hole.
    have hun := (haccounts.within ht scratch context).unmarked_of_filled hmodules hgiven hfilled
    obtain ⟨-, hinputs, -⟩ := (Invocation.filled_unmarked_iff hmodules hgiven hun).1 hfilled
    have hfed : ∀ n ∈ node.inputNames, ∃ e source, g.Leads e source id n :=
      fun n hn => exists_leads haccepted haccounts ht hn (hinputs n hn)
    choose! edge source hleads using hfed
    refine ⟨node, edge, source, hnode, hleads, ?_⟩
    show Shell.words text = some (Invocation.words config.modules node mode
      (Invocation.filesOf out scratch id node edge source))
    have houtput : ∀ {n source}, g.Leads (edge n) source id n →
        (edge n).output ∈ source.outputNames := fun {n source} hlead => by
      obtain ⟨source', -, hsource', -, houtput, -⟩ := haccepted.ends _ hlead.mem
      obtain rfl := Option.some.inj (hlead.source.symm.trans hsource')
      exact SortedMap.mem_keys.2 houtput
    refine Says.words_of_render (Invocation.says_command hmodules hgiven hun ?_ ?_ ?_ ?_ ?_)
      hrender
    · exact bound_state haccepted rfl haccounts ht hnode
    · exact fun n hn => bound_feed haccepted rfl haccounts ht (hleads n hn)
        (Graph.get?_schemaIn hn)
        (Graph.get?_outputPorts.2 ⟨_, houtput (hleads n hn), .inl rfl⟩)
    · exact fun hmode n hn => bound_feed haccepted rfl haccounts ht (hleads n hn)
        (Graph.get?_instanceIn hn hmode)
        (Graph.get?_outputPorts.2 ⟨_, houtput (hleads n hn), .inr ⟨hmode, rfl⟩⟩)
    · intro n hn
      have hport : (g.processTask mode config.modules out id node).outputPorts.get?
          (Naming.schemaOut id n) = some (Naming.schemaPath out id node.kind n) :=
        Graph.get?_outputPorts.2 ⟨n, hn, .inl rfl⟩
      simpa only [Invocation.filesOf] using
        bound_output (plan.inputs[i]?.getD ∅) scratch context hport
    · intro hmode n hn
      have hport : (g.processTask mode config.modules out id node).outputPorts.get?
          (Naming.instanceOut id n) = some (Naming.instancePath out id node.kind n) :=
        Graph.get?_outputPorts.2 ⟨n, hn, .inr ⟨hmode, rfl⟩⟩
      simpa only [Invocation.filesOf] using
        bound_output (plan.inputs[i]?.getD ∅) scratch context hport

/-! ## Names that need quotes -/

namespace QuotedNames

/-- The first of two nodes, with an output. -/
def first : Node where
  kind := "k"
  outputs := SortedMap.ofList [("o", [])]

/-- The second node, with names that mean something to a shell. -/
def second : Node where
  kind := "it's"
  inputs := SortedMap.ofList [("$x y", .null)]
  outputs := SortedMap.ofList [("*", [])]

/-- The second node reads what the first one writes. -/
def graph : Graph where
  nodes := SortedMap.ofList [("a", first), ("b", second)]
  edges := [⟨"a", "o", "b", "$x y"⟩]

def tasks : TaskGraph Work where
  name := "validate"
  mode := .validate
  maxConcurrency := 4
  tasks := graph.tasks .validate {} "/out"

theorem unmarked_modules : ({} : Config).modules.Unmarked :=
  ⟨by decide, by decide, by decide, by decide⟩

end QuotedNames

open QuotedNames in
/-- The command of the second node, as a shell reads it. -/
theorem quotedNames_words : ∃ plan text, QuotedNames.tasks.plan = .ok plan ∧
    (Execution.bindRun (graph.processTask .validate {} "/out" "b" second)
      (plan.inputs[3]?.getD ∅) "/s" ⟨"/out/.scratch", "sh"⟩).renderCommand = .ok text ∧
    Shell.words text = some ["node", "node_modules/@underlay/pipeline-runtime/lib/it's/validate.js",
      "--state", "/out/it's-b.state.json", "--input-schemas", "$x y=/out/k-a-o.schema",
      "--output-schemas", "*=/s/it's-b-*.schema"] := by
  have hcompile : graph.compile .validate {} "/out" = .ok QuotedNames.tasks := rfl
  obtain ⟨plan, hplan⟩ : ∃ plan, QuotedNames.tasks.plan = .ok plan := ⟨_, rfl⟩
  obtain ⟨haccepted, -⟩ := Graph.of_compile hcompile
  have hgiven := haccepted.unreserved "b" second rfl
  have ht : QuotedNames.tasks.tasks[3]? =
    some (graph.processTask .validate {} "/out" "b" second) := rfl
  have hwired : ∀ port ref?,
      (graph.processTask .validate {} "/out" "b" second).inputPorts.get? port = some ref? →
        ref?.isSome = true := by
    have hall : (graph.processTask .validate {} "/out" "b" second).inputPorts.values.all
        Option.isSome = true := by decide +kernel
    intro port ref? hport
    exact List.all_eq_true.1 hall ref? (List.mem_map_of_mem (SortedMap.mem_toList.2 hport))
  have hdeclares := (TaskGraph.accounts_of_plan hplan).declares ht hwired "/s"
    ⟨"/out/.scratch", "sh"⟩
  obtain ⟨text, hrender⟩ := TaskRun.isOk_renderCommand_iff.2
    ((Invocation.filled_command_iff unmarked_modules hgiven hdeclares).2
      ⟨by decide, by decide, by decide⟩)
  refine ⟨plan, text, hplan, hrender, ?_⟩
  obtain ⟨node, edge, source, hnode, hleads, hwords⟩ :=
    command_words hcompile hplan unmarked_modules ht rfl "/s" ⟨"/out/.scratch", "sh"⟩ hrender
  obtain rfl : second = node := Option.some.inj hnode
  obtain ⟨hedge, hsource, -, -⟩ := hleads "$x y" (by decide)
  have hedge : edge "$x y" = ⟨"a", "o", "b", "$x y"⟩ := List.mem_singleton.1 hedge
  rw [hedge] at hsource
  have hsource : first = source "$x y" := Option.some.inj hsource
  rw [hwords]
  have hnames : second.inputNames = ["$x y"] := rfl
  simp only [Invocation.words, Invocation.flagWords, Invocation.filesOf, hnames, List.map_cons,
    List.map_nil, hedge, ← hsource]
  rfl

end BlockFlow
