import BlockFlow.Proofs.Files.Remaking
import BlockFlow.Proofs.Graph.Documents
import BlockFlow.Proofs.Graph.States
import BlockFlow.Proofs.Workflow.Agreement
import BlockFlow.Proofs.Workflow.Skips

/-!
# States travel from the document to the output directory

The state of a node is a text of the document, and a run of the graph puts this text into the state
file of the node, character by character, unless no file can be put there at all. That holds as long
as block programs keep to their scratch directories: another one can write what it likes to a state
file once this has been published.

## Key results

- `Job.Went.stateFile`: what a run puts into the state file of a node
- `states_travel`: the state of a node, from the document to its file
- `state_spoilt`: a block program that writes elsewhere can change a state file
-/

namespace BlockFlow

open FileTree
open Json (Blanks Tree)

/-- No file can be moved to the path of this name in a directory: the directory may not be written
to, or there is a directory at the path. -/
def FileTree.Bars (t : FileTree) (home : Location) (f : String) : Prop :=
  t.permits .write home = false ∨ t.get? (home ++ [f]) = some .directory

namespace Job

variable {job : Job} {launcher : Launcher} {files files' made base : FileTree} {plan : Plan}
  {p : Pool} {report : Report} {config : Config} {directory out : Path} {mode : Mode} {g : Graph}
  {home : Location} {id : NodeId} {node : Node} {σ : Site} {i : Nat} {t : Task Work} {f : String}
  {content : String}

/-- A task that emits a text has put it at its published path, if a file could be put there, and
otherwise this is as it was when the tasks began. -/
theorem Went.emitted (h : job.Went launcher files made base plan p files' report)
    (hlaid : job.tasks.Laid job.out) (hout : σ.out = job.out) (hbase : σ.base = base)
    (hroot : job.context.scratchRoot = σ.scratchRoot) (hconfined : launcher.Confined)
    (hclear : ∀ t ∈ job.tasks.tasks, ∀ f ∈ t.files, ∀ l, σ.fixed l → ¬σ.shelf f <+: l)
    (ht : job.tasks.tasks[i]? = some t) (hwork : t.work = .emit content) (hf : f ∈ t.files) :
    files'.get? (σ.shelf f) = some (.file content.toUTF8) ∨
      files'.get? (σ.shelf f) = base.get? (σ.shelf f) ∧ base.Bars σ.home f := by
  obtain ⟨trail, hend⟩ := h.sheltered hlaid hout hbase hroot (judges_of_confined hconfined hclear)
  obtain ⟨state, hmem, -⟩ := h.carried.completed i t ht
  obtain ⟨u, hu, n, after, -, hclosed⟩ := hend.ended _ hmem
  obtain rfl := Option.some.inj (ht.symm.trans hu)
  have hemitted := hclosed.emitted content hwork f hf
  -- A task without ports is not skipped, and the emission of a text does not fail.
  obtain rfl : state = .succeeded := by
    obtain ⟨hports, -⟩ := hlaid.emits t (List.mem_of_getElem? ht) content hwork
    cases hclosed.ends with
    | skipped hfresh hmissing =>
      obtain ⟨⟨port, v⟩, he, -⟩ := hmissing
      have hport := SortedMap.mem_toList.1 he
      rw [(TaskGraph.accounts_of_plan h.carried.planned).inputs i t ht, hports] at hport
      cases hport
    | failed howned hfed hjudged hstatus =>
      rw [hjudged t content ht hwork] at hstatus
      cases hstatus
    | succeeded => rfl
  obtain ⟨v, hverdict, -, hplaced⟩ := hclosed.staged rfl
  obtain rfl := hverdict t content ht hwork
  have hplaced := hplaced f hf
  rw [h.get?_shelf hroot hend.steady (hlaid.plain t (List.mem_of_getElem? ht) f hf).2, ← hbase]
  by_cases hpub : σ.Publishable n f
  · exact .inl (hplaced.moved _ rfl hpub)
  · refine .inr ⟨hplaced.stuck _ rfl hpub, ?_⟩
    by_contra hbars
    rw [Bars, not_or, Bool.not_eq_false] at hbars
    exact hpub ⟨hemitted.fits, hbars.1, hbars.2⟩

/-- What a run puts into the state file of a node: the state, if a file can be put there. -/
theorem Went.stateFile (h : job.Went launcher files made base plan p files' report)
    (hjob : ofGraph config directory mode g out = .ok job) (hconfined : launcher.Confined)
    (hfiles : files.WellFormed) (hhoused : g.Housed made job.out home)
    (hnode : g.node? id = some node) :
    files'.get? (home ++ [Naming.stateFile id node.kind]) = some (.file node.state.toUTF8) ∨
      files'.get? (home ++ [Naming.stateFile id node.kind]) =
          made.get? (home ++ [Naming.stateFile id node.kind]) ∧
        made.Bars home (Naming.stateFile id node.kind) := by
  obtain ⟨haccepted, hcontext, htasks⟩ := of_ofGraph hjob
  have hcompiled : job.tasks.tasks = g.tasks mode config.modules job.out := by rw [htasks]
  obtain ⟨σ, hout, rfl, rfl, -, hclear⟩ := h.exists_housed hjob hfiles hhoused
  obtain ⟨i, hi⟩ : ∃ i : Nat, job.tasks.tasks[i]? = some (Graph.stateTask job.out id node) := by
    rw [hcompiled]
    exact List.getElem?_of_mem (Graph.mem_tasks.2 ⟨id, node, hnode, .inl rfl⟩)
  have hmem : Naming.stateFile id node.kind ∈ (Graph.stateTask job.out id node).files := by
    rw [haccepted.files_stateTask hnode]
    exact List.mem_singleton_self _
  have hlaid : job.tasks.Laid job.out := haccepted.laid_tasks hcompiled
  have hroot : job.context.scratchRoot = σ.scratchRoot := by
    rw [hcontext, Site.scratchRoot, hout]
  -- Nothing but the scratch root is new when the tasks begin.
  have hremade : Remade (σ.home ++ [scratchName]) made σ.base := by
    have hrooted := h.rooted
    rw [hcontext] at hrooted
    exact (Site.cases_of_createDirectories (ne_empty_of_createDirectories h.made) hhoused.way
      hhoused.scratch hrooted).2.imp And.right fun h => ⟨h.1, h.2.2⟩
  have hne := (hlaid.plain _ (List.mem_of_getElem? hi) _ hmem).2
  have hsame := hremade.same (m := σ.home ++ [Naming.stateFile id node.kind]) (by simpa using hne)
  have hhome := hremade.same (m := σ.home) (by simp)
  refine (h.emitted hlaid hout rfl hroot hconfined hclear hi rfl hmem).imp_right ?_
  rintro ⟨hkept, hbars⟩
  refine ⟨hkept.trans hsame.1, hbars.imp (fun hwrite => ?_) fun hdir => ?_⟩
  · rwa [← hhome.permits .write]
  · rwa [← hsame.1]

end Job

/-- How a state travels. In every document in which a graph is read, the state of a node is the text
of its `State` value, which is part of the document as it stands, and `null` without one. And in
every run of the graph that gives a report, with block programs that write to their scratch
directories only, the state file of the node holds this text, unless no file could be moved to its
path in the output directory as it was when it had been made. -/
theorem states_travel {s : String} {g : Graph} (hparse : Graph.parse s = .ok g) :
    ((∃ (before : Blanks) (w : Tree) (after : Blanks),
        s = String.ofList (before.chars ++ (w.chars ++ after.chars))) ∧
      ∀ (before : Blanks) (w : Tree) (after : Blanks),
        s = String.ofList (before.chars ++ (w.chars ++ after.chars)) →
          ∀ id node, g.node? id = some node → node.state = Graph.stateText w id ∧
            ∀ v, Graph.stateTree? w id = some v → v.chars <:+: s.toList) ∧
    ∀ {workflow : Workflow} {launcher : Launcher} {directory out : Path} {mode : Mode} {job : Job}
      {files files' : FileTree} {home : Location} {report : Report},
      Job.ofGraph workflow.config directory mode g out = .ok job →
      Engine.IsScheduler (Work.perform launcher) workflow.scheduler →
      launcher.Confined → files.WellFormed →
      let made := (files.createDirectories job.out).1
      g.Housed made job.out home →
      workflow.run directory mode g out files = (files', .ok report) →
        ∀ id node, g.node? id = some node →
          let file := Naming.stateFile id node.kind
          files'.get? (home ++ [file]) = some (.file node.state.toUTF8) ∨
            files'.get? (home ++ [file]) = made.get? (home ++ [file]) ∧ made.Bars home file := by
  refine ⟨⟨Graph.exists_tree_of_parse hparse, fun before w after hs id node hnode => ?_⟩, ?_⟩
  · refine ⟨Graph.state_of_parse hparse hs hnode, fun v hv => ?_⟩
    rw [hs, String.toList_ofList]
    exact (Graph.infix_of_stateTree? hv).trans ⟨before.chars, after.chars, by simp⟩
  · intro workflow launcher directory out mode job files files' home report hjob hscheduler
      hconfined hfiles made hhoused hrun id node hnode file
    obtain ⟨t, base, plan, p, hwent⟩ := Workflow.exists_went hjob
      (fun w => hscheduler job.tasks job.context w) hrun
    have hmade : made = t := congrArg Prod.fst hwent.made
    rw [hmade] at hhoused ⊢
    exact hwent.stateFile hjob hconfined hfiles hhoused hnode

/-! ## The chain and its document -/

namespace Chain

theorem toList_nodes : graph.nodes.toList = [("a", first), ("b", second)] := by cbv

theorem sound_graph : graph.Sound := by
  have hinputs : first.inputs.toList = [] ∧ second.inputs.toList = [("y", .null)] := ⟨rfl, rfl⟩
  intro id n hn
  have hn := SortedMap.mem_toList.2 hn
  simp only [toList_nodes, List.mem_cons, Prod.mk.injEq, List.not_mem_nil, or_false] at hn
  obtain ⟨-, rfl⟩ | ⟨-, rfl⟩ := hn
  · refine ⟨Json.isRaw_null, fun name v hv => ?_⟩
    simpa [hinputs] using SortedMap.mem_toList.2 hv
  · refine ⟨Json.isRaw_null, fun name v hv => ?_⟩
    have hv := SortedMap.mem_toList.2 hv
    simp only [hinputs, List.mem_singleton, Prod.mk.injEq] at hv
    exact hv.2 ▸ Json.settled_null

theorem parse_graph : Graph.parse graph.compact = .ok graph := by
  have hvalues : graph.inputValues = [.null] := by
    rw [Graph.inputValues, SortedMap.values, toList_nodes]
    cbv
  have hplain : ∀ v ∈ graph.inputValues, Decoder.Unreserved v ∧ v.nesting ≤ 123 := by
    simp [hvalues, Decoder.Unreserved, Json.nesting]
  exact (Graph.reads sound_graph (by simp [hvalues, Json.Integral]) hplain).run

/-- Every command writes to the state file of the first node, once that has been published. -/
def spoiling : Launcher := Launcher.changing
  (fun _ files =>
    if files.get? ["o", "k-a.state.json"] = some (.file "null".toUTF8) then
      files.put ["o", "k-a.state.json"] (.file "bad".toUTF8)
    else files)
  ⟨true, "done".toUTF8⟩

end Chain

/-- In a run of the chain in an empty file system, the state of the first node travels from the
document of the chain to its file. -/
theorem chain_states_travel : ∃ (w : Tree) (files' : FileTree) (report : Report),
    Graph.parse Chain.graph.compact = .ok Chain.graph ∧
    Chain.workflow.run "/" .validate Chain.graph "/o" {} = (files', .ok report) ∧
    Chain.first.state = Graph.stateText w "a" ∧
    files'.get? ["o", "k-a.state.json"] = some (.file Chain.first.state.toUTF8) := by
  obtain ⟨⟨⟨before, w, after, hs⟩, htexts⟩, hfiles⟩ := states_travel Chain.parse_graph
  obtain ⟨files', report, hrun, -⟩ := Chain.run_empty
  obtain ⟨job, hjob, hout⟩ : ∃ job, Job.ofGraph Chain.workflow.config "/" .validate Chain.graph
      "/o" = .ok job ∧ job.out = "/o" := ⟨_, rfl, rfl⟩
  have hhoused : Chain.graph.Housed (({} : FileTree).createDirectories job.out).1 job.out
      ["o"] := by
    rw [hout]
    exact Chain.housed_empty
  have hfile := hfiles hjob (Engine.isScheduler_scheduler _) Chain.confined_failing
    wellFormed_empty hhoused hrun "a" Chain.first rfl
  -- The output directory may be written to, and nothing is in it.
  rw [hout, Chain.createDirectories_empty] at hfile
  refine ⟨w, files', report, Chain.parse_graph, hrun, (htexts before w after hs "a" _ rfl).1,
    hfile.resolve_right ?_⟩
  rintro ⟨-, hwrite | hdir⟩
  · exact absurd hwrite (by decide)
  · cases (Chain.get?_made (List.cons_ne_nil _ [])).symm.trans hdir

/-- In a run of the chain in an empty file system, whose commands write to a state file that has been
published, this does not hold the state of the node in the end. -/
theorem state_spoilt : ∃ files' report, Graph.parse Chain.graph.compact = .ok Chain.graph ∧
    (Workflow.ofLauncher Chain.config Chain.spoiling).run "/" .validate Chain.graph "/o" {} =
      (files', .ok report) ∧
    Chain.graph.node? "a" = some Chain.first ∧
    report.tasks.get? (Naming.stateTask "a" "k") = some .succeeded ∧
    files'.get? ["o", "k-a.state.json"] = some (.file "bad".toUTF8) ∧
    "bad".toUTF8 ≠ Chain.first.state.toUTF8 := by
  obtain ⟨files', report, hrun, hget⟩ : ∃ files' report,
      (Workflow.ofLauncher Chain.config Chain.spoiling).run "/" .validate Chain.graph "/o" {} =
        (files', .ok report) ∧
      (report.tasks.get? (Naming.stateTask "a" "k"), files'.get? ["o", "k-a.state.json"]) =
        (some .succeeded, some (.file "bad".toUTF8)) := Chain.exists_run (by decide +kernel)
  obtain ⟨hstate, hfile⟩ := Prod.mk.inj hget
  exact ⟨files', report, Chain.parse_graph, hrun, rfl, hstate, hfile, by decide⟩

end BlockFlow
