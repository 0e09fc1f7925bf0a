import BlockFlow.Proofs.Engine.Commands
import BlockFlow.Proofs.Workflow.Runs

/-!
# How skips spread

Whether a task is skipped depends on the files at its ports, not on how its producers have
ended. A task that has not succeeded publishes nothing, so what its consumers find is what was
in the output directory before. Where that is nothing, skips spread along the edges; a file
that an earlier run has left there stops them.

## Key results

- `skips_spread`: along edges with a file that was not there, skips spread; and what skips a
  node is the lack of a file
- `leftover_stops_skip`: a leftover file keeps the consumer of a failed node from being skipped
-/

namespace BlockFlow

open FileTree

/-- The process task of a node was skipped, or it has failed. -/
def Report.Unsuccessful (r : Report) (g : Graph) (id : NodeId) : Prop :=
  r.state? g id = some .skipped ∨ r.state? g id = some .failed

/-- A regular file stands at a location. -/
def FileTree.HasFile (t : FileTree) (l : Location) : Prop := ∃ c, t.get? l = some (.file c)

namespace Graph

/-- An edge leads from one node to the other, and for one of the files that it moves neither a
file nor a link stands in the directory at `home`. -/
def Starves (g : Graph) (mode : Mode) (t : FileTree) (home : Location) (a b : NodeId) : Prop :=
  ∃ e ∈ g.edges, e.source = a ∧ e.target = b ∧ ∃ f ∈ g.moved mode e,
    t.get? (home ++ [f]) = none ∨ t.get? (home ++ [f]) = some .directory

/-- The output directory is at `home`, and nothing that a node publishes can lead its path
elsewhere: the way does not go through published files, and the scratch root is no link. -/
structure Housed (g : Graph) (t : FileTree) (out : Path) (home : Location) : Prop where
  way : t.Reaches (fun l => ∀ f ∈ g.ofNodes Node.fileNames, ¬home ++ [f] <+: l) []
    (Path.steps out) home
  scratch : ∀ target, t.get? (home ++ [Job.scratchName]) ≠ some (.link target)

/-- Why the process task of a node can have been skipped, between the trees before and after a
run: a regular file was missing. -/
inductive Lacks (g : Graph) (mode : Mode) (report : Report) (before after : FileTree)
    (home : Location) (id : NodeId) (node : Node) : Prop
  | state (hfile : ¬after.HasFile (home ++ [Naming.stateFile id node.kind]))
  | unwired {i : String} (hi : i ∈ node.inputNames) (hedge : g.edgeInto? id i = none)
  /-- A source has succeeded without publishing a file. -/
  | unpublished {e : Edge} {f : String} (he : e ∈ g.edges) (htarget : e.target = id)
      (hsource : report.state? g e.source = some .succeeded) (hf : f ∈ g.moved mode e)
      (hfile : ¬after.HasFile (home ++ [f]))
  /-- A source has not succeeded, and the file was not there before either. -/
  | starved {e : Edge} {f : String} (he : e ∈ g.edges) (htarget : e.target = id)
      (hsource : report.Unsuccessful g e.source) (hf : f ∈ g.moved mode e)
      (hfile : ¬before.HasFile (home ++ [f]))

end Graph

namespace TaskGraph

variable {g : TaskGraph Work} {plan : Plan} {σ : Site} {judged : Nat → Verdict → FileTree → Prop}
  {i : Nat} {state : TaskState} {w : World}

/-- A task with a port at which a file lacks has been skipped, and reports nothing. -/
theorem EndsAs.skipped_of_lacking (h : g.EndsAs plan σ judged i state w) {port : String}
    {v : Option Path} (hport : (plan.inputs[i]?.getD ∅).get? port = some v)
    (hlacking : σ.Lacking w.files v) :
    state = .skipped ∧ ∀ id, (g.stake i).node = some id → w.cell id = none := by
  obtain ⟨t, ht, hends⟩ := h
  have hmem := SortedMap.mem_toList.2 hport
  cases hends with
  | skipped hfresh => exact ⟨rfl, hfresh.cell⟩
  | failed _ hfed => exact absurd hlacking (hfed _ hmem)
  | succeeded hfed => exact absurd hlacking (hfed _ hmem)

/-- A task that has not succeeded has left its files as they were when the run began. -/
theorem EndsAs.same_of_unsuccessful (h : g.EndsAs plan σ judged i state w)
    (hstate : state = .skipped ∨ state = .failed) {f : String} (hf : (g.stake i).owns f) :
    Same σ.base w.files (σ.shelf f) := by
  obtain ⟨t, ht, hends⟩ := h
  cases hends with
  | skipped hfresh => exact hfresh.owned f hf
  | failed howned => exact howned f hf
  | succeeded => rcases hstate with hstate | hstate <;> cases hstate

/-- A task has been skipped because of a port that is not supplied. -/
theorem EndsAs.exists_not_supplied (h : g.EndsAs plan σ judged i .skipped w) :
    ∃ port v, (plan.inputs[i]?.getD ∅).get? port = some v ∧ ¬σ.Supplied w.files v := by
  obtain ⟨t, ht, hends⟩ := h
  cases hends with
  | skipped hfresh hmissing =>
    obtain ⟨⟨port, v⟩, he, hsupplied⟩ := hmissing
    exact ⟨port, v, SortedMap.mem_toList.1 he, hsupplied⟩

/-- How a task ends is one of three ways. -/
theorem EndsAs.cases_state (h : g.EndsAs plan σ judged i state w) :
    state = .skipped ∨ state = .failed ∨ state = .succeeded := by
  obtain ⟨t, ht, hends⟩ := h
  cases hends with
  | skipped => exact .inl rfl
  | failed => exact .inr (.inl rfl)
  | succeeded => exact .inr (.inr rfl)

end TaskGraph

/-! ## Over one edge -/

namespace Job.Settled

variable {job : Job} {g : Graph} {mode : Mode} {modules : BlockModules} {before after : FileTree}
  {home : Location} {report : Report} {plan : Plan} {σ : Site}
  {judged : Nat → Verdict → FileTree → Prop} {w : World} {id a b : NodeId} {node : Node}

/-- How the process task of a node has ended. -/
theorem exists_state (h : job.Settled g mode modules before after home report plan σ judged w)
    (hnode : g.node? id = some node) :
    ∃ i state, job.tasks.tasks[i]? = some (g.processTask mode modules job.out id node) ∧
      report.state? g id = some state ∧ job.tasks.EndsAs plan σ judged i state w := by
  obtain ⟨i, hi⟩ := h.exists_getElem? hnode (.inr rfl)
  obtain ⟨state, hstate, hends⟩ := h.tasks i _ hi
  refine ⟨i, state, hi, ?_, hends⟩
  rw [Report.state?, hnode]
  exact hstate

/-- What was there before the run, and is no directory, was there when the first task began. -/
theorem base_shelf (h : job.Settled g mode modules before after home report plan σ judged w)
    {f : String} {e : Entry} (he : e ≠ .directory) :
    σ.base.get? (σ.shelf f) = some e ↔ before.get? (home ++ [f]) = some e := by
  rw [← h.home_eq]
  exact h.base_iff _ e he

/-- The state task of a node publishes the state. -/
theorem exists_stateFile
    (h : job.Settled g mode modules before after home report plan σ judged w)
    (hnode : g.node? id = some node) :
    ∃ j : Nat, job.tasks.tasks[j]? = some (Graph.stateTask job.out id node) ∧
      Naming.stateFile id node.kind ∈ (Graph.stateTask job.out id node).files := by
  obtain ⟨j, hj⟩ := h.exists_getElem? hnode (.inl rfl)
  refine ⟨j, hj, ?_⟩
  rw [h.accepted.files_stateTask hnode]
  exact List.mem_singleton_self _

/-- A file that an edge moves is published by its source, and is bound to a port of its target. -/
theorem exists_bound (h : job.Settled g mode modules before after home report plan σ judged w)
    {e : Edge} (he : e ∈ g.edges) {source target : Node} (hsource : g.node? e.source = some source)
    (htarget : g.node? e.target = some target) {f : String} (hf : f ∈ g.moved mode e) {i j : Nat}
    (hi : job.tasks.tasks[i]? = some (g.processTask mode modules job.out e.target target))
    (hj : job.tasks.tasks[j]? = some (g.processTask mode modules job.out e.source source)) :
    (job.tasks.stake j).owns f ∧
      ∃ port, (plan.inputs[i]?.getD ∅).get? port = some (some (Path.join job.out f)) := by
  obtain ⟨port, ref, hport, hname, hpath⟩ :=
    h.accepted.exists_port_of_mem_moved he hsource htarget hf
  refine ⟨⟨_, hj, h.accepted.mem_files_of_mem_moved he hsource hf⟩, port, ?_⟩
  exact (h.laid.get?_inputs h.accounts hi hport hj hname.symm hpath).2

/-- A port is bound to the state of the node, or belongs to an input into which no edge leads, or
is bound to a file that an edge moves. -/
theorem bound_cases (h : job.Settled g mode modules before after home report plan σ judged w)
    (hnode : g.node? id = some node) {i : Nat}
    (hi : job.tasks.tasks[i]? = some (g.processTask mode modules job.out id node)) {port : String}
    {v : Option Path} (hbound : (plan.inputs[i]?.getD ∅).get? port = some v) :
    v = some (Path.join job.out (Naming.stateFile id node.kind)) ∨
      (∃ i ∈ node.inputNames, g.edgeInto? id i = none) ∨
      ∃ e ∈ g.edges, e.target = id ∧ ∃ f ∈ g.moved mode e, v = some (Path.join job.out f) := by
  have hinputs := hbound
  rw [h.accounts.inputs i _ hi] at hinputs
  obtain ⟨ref?, hport, -⟩ := Option.map_eq_some_iff.1 hinputs
  -- A port is that of the state, of an unwired input or of an edge.
  rcases h.accepted.port_cases hport with rfl | ⟨-, hunwired⟩ | ⟨e, he, htarget, hfed⟩
  · obtain ⟨j, hj⟩ := h.exists_getElem? hnode (.inl rfl)
    have hbound' := (h.laid.get?_inputs h.accounts hi hport hj rfl Graph.get?_stateOut).2
    exact .inl (Option.some.inj (hbound.symm.trans hbound'))
  · exact .inr (.inl hunwired)
  · obtain ⟨source, ref, f, hsource, rfl, hf, hname, hpath⟩ := hfed
    obtain ⟨j, hj⟩ := h.exists_getElem? hsource (.inr rfl)
    have hbound' := (h.laid.get?_inputs h.accounts hi hport hj hname.symm hpath).2
    exact .inr (.inr ⟨e, he, htarget, f, hf, Option.some.inj (hbound.symm.trans hbound')⟩)

/-- A node is skipped if an edge from a node that has not succeeded moves a file that was not
there. -/
theorem skipped_of_starves
    (h : job.Settled g mode modules before after home report plan σ judged w)
    (hedge : g.Starves mode before home a b) (ha : report.Unsuccessful g a) :
    report.state? g b = some .skipped ∧ report.failures.get? b = none := by
  obtain ⟨e, he, rfl, rfl, f, hf, hfree⟩ := hedge
  obtain ⟨source, target, hsource, htarget, -⟩ := h.accepted.ends e he
  obtain ⟨j, state, hj, hstate, hends⟩ := h.exists_state hsource
  obtain ⟨i, state', hi, hstate', hends'⟩ := h.exists_state htarget
  obtain ⟨howns, port, hbound⟩ := h.exists_bound he hsource htarget hf hi hj
  -- The source has left the file as it was, so the target does not find it.
  have hunsuccessful : state = .skipped ∨ state = .failed := by
    rw [Report.Unsuccessful, hstate] at ha
    exact ha.imp Option.some.inj Option.some.inj
  have hsame := hends.same_of_unsuccessful hunsuccessful howns
  have hlacking : σ.Lacking w.files (some (Path.join job.out f)) := by
    refine .inr ⟨f, (h.plain_of_mem_files howns).1, by rw [Site.published, h.out_eq], ?_⟩
    rw [hsame.1]
    cases hget : σ.base.get? (σ.shelf f) with
    | none => exact .inl rfl
    | some e =>
      by_cases hdir : e = .directory
      · exact .inr (congrArg some hdir)
      · rw [(h.base_shelf hdir).1 hget] at hfree
        rcases hfree with hfree | hfree
        · cases hfree
        · exact absurd (Option.some.inj hfree) hdir
  obtain ⟨rfl, hcell⟩ := hends'.skipped_of_lacking hbound hlacking
  refine ⟨hstate', ?_⟩
  rw [h.failures]
  exact hcell _ (TaskGraph.node?_eq_some.2 ⟨_, hi, rfl⟩)

/-- A published file is found if it stands there when the last task has ended. -/
theorem supplied_of_file
    (h : job.Settled g mode modules before after home report plan σ judged w) {i : Nat}
    {f : String} (howns : (job.tasks.stake i).owns f) {c : ByteArray}
    (hfile : w.files.get? (σ.shelf f) = some (.file c)) :
    σ.Supplied w.files (some (Path.join job.out f)) :=
  ⟨f, c, (h.plain_of_mem_files howns).1, by rw [Site.published, h.out_eq], hfile⟩

/-- A published file is found if it stands there after the run. -/
private theorem supplied_of_hasFile
    (h : job.Settled g mode modules before after home report plan σ judged w) {i : Nat}
    {f : String} (howns : (job.tasks.stake i).owns f) (hfile : after.HasFile (home ++ [f])) :
    σ.Supplied w.files (some (Path.join job.out f)) := by
  obtain ⟨c, hc⟩ := hfile
  refine h.supplied_of_file howns (c := c) ?_
  rw [Site.shelf, h.home_eq, ← h.shelf_eq f (h.plain_of_mem_files howns).2]
  exact hc

/-- What skips a node is the lack of a file. -/
theorem lacks_of_skipped
    (h : job.Settled g mode modules before after home report plan σ judged w)
    (hnode : g.node? id = some node) (hskipped : report.state? g id = some .skipped) :
    g.Lacks mode report before after home id node := by
  obtain ⟨i, state, hi, hstate, hends⟩ := h.exists_state hnode
  obtain rfl := Option.some.inj (hstate.symm.trans hskipped)
  obtain ⟨port, v, hbound, hsupplied⟩ := hends.exists_not_supplied
  rcases h.bound_cases hnode hi hbound with rfl | ⟨i', hi', hedge⟩ | ⟨e, he, htarget, f, hf, rfl⟩
  · -- The port of the state.
    obtain ⟨j, hj, hmem⟩ := h.exists_stateFile hnode
    exact .state (fun hfile => hsupplied (h.supplied_of_hasFile ⟨_, hj, hmem⟩ hfile))
  · exact .unwired hi' hedge
  · -- A port that an edge feeds: the file is not there, whatever has become of the source.
    obtain ⟨source, -, hsource, -⟩ := h.accepted.ends e he
    obtain ⟨j, state, hj, hstate', hends'⟩ := h.exists_state hsource
    have howns : (job.tasks.stake j).owns f :=
      ⟨_, hj, h.accepted.mem_files_of_mem_moved he hsource hf⟩
    have hafter : ¬after.HasFile (home ++ [f]) :=
      fun hfile => hsupplied (h.supplied_of_hasFile howns hfile)
    have hunsuccessful : state = .skipped ∨ state = .failed →
        g.Lacks mode report before after home id node := by
      intro hunsuccessful
      refine .starved he htarget (by rwa [Report.Unsuccessful, hstate', Option.some_inj,
        Option.some_inj]) hf ?_
      rintro ⟨c, hc⟩
      refine hafter ⟨c, ?_⟩
      rw [h.shelf_eq f (h.plain_of_mem_files howns).2, ← h.home_eq]
      exact (hends'.same_of_unsuccessful hunsuccessful howns).1.trans
        ((h.base_shelf (by simp)).2 hc)
    rcases hends'.cases_state with rfl | rfl | rfl
    · exact hunsuccessful (.inl rfl)
    · exact hunsuccessful (.inr rfl)
    · exact .unpublished he htarget hstate' hf hafter

end Job.Settled

/-! ## Along all edges -/

/-- An emitted text is staged as it is, and of commands nothing is known. -/
def TaskGraph.Emits (tasks : TaskGraph Work) (i : Nat) (v : Verdict) (_ : FileTree) : Prop :=
  ∀ t content, tasks.tasks[i]? = some t → t.work = .emit content → v = .emitted content

/-- Of commands that keep to their directories every verdict is allowed. -/
theorem judges_of_confined {tasks : TaskGraph Work} {plan : Plan} {σ : Site}
    {launcher : Launcher} {context : RunContext} (hconfined : launcher.Confined)
    (hclear : ∀ t ∈ tasks.tasks, ∀ f ∈ t.files, ∀ l, σ.fixed l → ¬σ.shelf f <+: l) :
    tasks.Judges plan σ launcher context tasks.Emits False where
  kept _ _ _ _ hv _ := hv
  emitted i t content _ ht hwork t' content' ht' hwork' := by
    obtain rfl := Option.some.inj (ht.symm.trans ht')
    rw [Work.emit.inj (hwork.symm.trans hwork')]
  target t ht f hf hfixed := absurd (List.prefix_refl _) (hclear t ht f hf _ hfixed)
  -- What the command leaves behind is not looked at, since nothing is promised of it.
  launch := by
    intro i t id w ht hwork hended n command w' hcommand hkept hbusy hbare hfed
    have hkeeps := hconfined ⟨context.shell, command, σ.scratch n⟩ w'.files (σ.den n)
      hbusy.steady.wellFormed
      (Site.walk_scratch_of_admits hbusy.steady hbusy.name.plain hbusy.admits hbusy.den) hbusy.den
    refine (Site.meets_launch hbusy.toAtWork rfl (fun p hp => absurd hp List.not_mem_nil)
      hkeeps).mono (fun _ r t' _ result hr => ?_)
    refine ⟨⟨result.succeeded, Text.lossy result.output, fun _ => none⟩, ?_⟩
    exact {
      judged := fun t' content ht' hwork' => by
        obtain rfl := Option.some.inj (ht.symm.trans ht')
        cases hwork.symm.trans hwork'
      succeeded := rfl
      output := rfl
      removable := False.elim
      absent := fun f _ hnone => by cases hnone
      present := fun f _ c hc => by cases hc
      movable := fun f hf => ⟨fun hfixed =>
        absurd (List.prefix_refl _) (hclear t (List.mem_of_getElem? ht) f hf _ hfixed),
        fun _ => hclear t (List.mem_of_getElem? ht) f hf⟩ }

/-- A run whose output directory is its own has a site of which no task publishes a fixed part. -/
theorem Job.Went.exists_housed {job : Job} {launcher : Launcher} {files files' t base : FileTree}
    {plan : Plan} {p : Pool} {report : Report} {config : Config} {directory out : Path}
    {mode : Mode} {g : Graph} {home : Location}
    (hwent : job.Went launcher files t base plan p files' report)
    (hjob : ofGraph config directory mode g out = .ok job) (hfiles : files.WellFormed)
    (hhoused : g.Housed t job.out home) :
    ∃ σ : Site, σ.out = job.out ∧ σ.home = home ∧ σ.base = base ∧
      (∀ l e, e ≠ .directory → (base.get? l = some e ↔ files.get? l = some e)) ∧
      ∀ task ∈ job.tasks.tasks, ∀ f ∈ task.files, ∀ l, σ.fixed l → ¬σ.shelf f <+: l := by
  obtain ⟨haccepted, -, htasks⟩ := of_ofGraph hjob
  have hfileNames : ∀ task ∈ job.tasks.tasks, ∀ f ∈ task.files, f ∈ g.ofNodes Node.fileNames := by
    intro task htask f hf
    rw [htasks] at htask
    obtain ⟨id, node, hnode, htask⟩ := Graph.mem_tasks.1 htask
    exact Graph.mem_ofNodes.2 ⟨id, node, hnode, haccepted.mem_fileNames_of_task hnode htask hf⟩
  -- The files of tasks are beside the scratch directory, none of them on the way to it.
  have hinner : ∀ f ∈ g.ofNodes Node.fileNames, ¬home ++ [f] <+: home ++ [scratchName] := by
    intro f hf hpre
    obtain ⟨id, node, hnode, hf⟩ := Graph.mem_ofNodes.1 hf
    refine (haccepted.plain_of_mem_fileNames hnode hf).2 ?_
    simpa using hpre.eq_of_length (by simp)
  obtain ⟨σ, hout, hhome, hbase, -, hfixed, hiff⟩ :=
    hwent.exists_site hjob hfiles hhoused.way hinner hhoused.scratch
  refine ⟨σ, hout, hhome, hbase, hiff, fun task htask f hf l hl => ?_⟩
  rw [Site.shelf, hhome]
  exact ((hfixed l).1 hl).1 f (hfileNames task htask f hf)

/-- In every run that gives a report, with commands that keep to their scratch directories,
skips spread from a node that has not succeeded along all edges that move a file which was not
in the output directory before the run. And it is nothing but the lack of a file that skips a
node: a source that has not succeeded skips it only if a file was not there before the run. -/
theorem skips_spread {workflow : Workflow} {launcher : Launcher} {directory out : Path}
    {mode : Mode} {g : Graph} {job : Job} {files files' : FileTree} {home : Location}
    {report : Report} (hjob : Job.ofGraph workflow.config directory mode g out = .ok job)
    (hscheduler : Engine.IsScheduler (Work.perform launcher) workflow.scheduler)
    (hconfined : launcher.Confined) (hfiles : files.WellFormed)
    (hhoused : g.Housed (files.createDirectories job.out).1 job.out home)
    (hrun : workflow.run directory mode g out files = (files', .ok report)) :
    (∀ a b, Relation.TransGen (g.Starves mode files home) a b → report.Unsuccessful g a →
        report.state? g b = some .skipped ∧ report.failures.get? b = none) ∧
      ∀ id node, g.node? id = some node → report.state? g id = some .skipped →
        g.Lacks mode report files files' home id node := by
  obtain ⟨t, base, plan, p, hwent⟩ := Workflow.exists_went hjob
    (fun w => hscheduler job.tasks job.context w) hrun
  rw [hwent.made] at hhoused
  obtain ⟨σ, hout, hhome, hbase, hiff, hclear⟩ := hwent.exists_housed hjob hfiles hhoused
  have hsettled := hwent.settled hjob hout hhome hbase hiff (judges_of_confined hconfined hclear)
  refine ⟨fun a b hpath ha => ?_, fun id node hnode hskipped =>
    hsettled.lacks_of_skipped hnode hskipped⟩
  induction hpath with
  | single hedge => exact hsettled.skipped_of_starves hedge ha
  | tail _ hedge ih => exact hsettled.skipped_of_starves hedge (.inl ih.1)

/-! ## A chain whose commands fail -/

namespace Chain

/-- A launcher that touches no file keeps to every directory. -/
theorem confined_failing : failing.Confined := fun _ _ _ _ _ _ _ _ => trivial

/-- A chain in an empty file system has its output directory to itself. -/
theorem housed_empty : graph.Housed (({} : FileTree).createDirectories "/o").1 "/o" ["o"] where
  way := by
    have hnames : ∀ f ∈ graph.ofNodes Node.fileNames, ¬["o"] ++ [f] <+: ["o"] := by
      intro f _ h
      have := h.length_le
      simp at this
    have hroot : ∀ f ∈ graph.ofNodes Node.fileNames, ¬["o"] ++ [f] <+: [] := by
      intro f _ h
      have := h.length_le
      simp at this
    exact .empty (.down hroot ⟨by decide, by decide, by decide⟩ rfl (.here hnames rfl))
  scratch target h := by cases h

/-- The first node has published a file before. -/
def leftover : FileTree :=
  (FileTree.put {} ["o"] .directory).put ["o", "k-a-x.schema"] (.file "old".toUTF8)

end Chain

/-- In the chain, where nothing has been published before, the second node is skipped, since
the first one has failed. -/
theorem chain_skips_spread : ∃ files' report,
    Chain.workflow.run "/" .validate Chain.graph "/o" {} = (files', .ok report) ∧
      Chain.graph.Starves .validate {} ["o"] "a" "b" ∧ report.Unsuccessful Chain.graph "a" ∧
      report.state? Chain.graph "b" = some .skipped ∧ report.failures.get? "b" = none := by
  obtain ⟨files', report, hrun, hreport⟩ := Chain.run_empty
  obtain ⟨-, hstate⟩ := Prod.mk.inj hreport
  obtain ⟨job, hjob, hout⟩ : ∃ job, Job.ofGraph Chain.workflow.config "/" .validate Chain.graph
      "/o" = .ok job ∧ job.out = "/o" := ⟨_, rfl, rfl⟩
  have hhoused : Chain.graph.Housed (({} : FileTree).createDirectories job.out).1 job.out
      ["o"] := by
    rw [hout]
    exact Chain.housed_empty
  have hstarves : Chain.graph.Starves .validate {} ["o"] "a" "b" :=
    ⟨_, List.mem_singleton_self _, rfl, rfl, "k-a-x.schema", by decide, .inl rfl⟩
  obtain ⟨hskipped, hunreported⟩ := (skips_spread hjob (Engine.isScheduler_scheduler _)
    Chain.confined_failing wellFormed_empty hhoused hrun).1 "a" "b" (.single hstarves)
    (.inr hstate)
  exact ⟨files', report, hrun, hstarves, .inr hstate, hskipped, hunreported⟩

/-- With a file that the first node has published before, the second node is not skipped though
the first one has failed: it finds the file of the earlier run. -/
theorem leftover_stops_skip : ∃ files' report,
    Chain.workflow.run "/" .validate Chain.graph "/o" Chain.leftover = (files', .ok report) ∧
      (report.state? Chain.graph "a", report.state? Chain.graph "b") =
        (some .failed, some .failed) :=
  Chain.exists_run (by decide +kernel)

end BlockFlow
