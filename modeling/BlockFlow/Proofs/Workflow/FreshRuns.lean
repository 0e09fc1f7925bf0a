import BlockFlow.Proofs.Workflow.Visits

/-!
# Which nodes a run into an empty directory skips

In an empty output directory nothing is found at a published path but what a task of the run has
left there. So a node is skipped if and only if one of its inputs is not wired, or one of its
sources has not succeeded, or has succeeded without leaving a regular file for the output that is
read. A node that is skipped has missed a file, and no command has been started for it.

## Key results

- `Job.Visit.shelf_cases`: a published path has what its task has left, or nothing
- `fresh_skips_exact`: which nodes are skipped
- `waylaid_output_skips`: a published path may be taken on the way to the output directory
-/

namespace BlockFlow

open FileTree
open Schedule (worldsOf)

namespace Job

/-- In a run with this log, the process task of a node has succeeded, and had left a regular file
at the staging path of the port that it publishes as `f`. -/
def NodeLeft (job : Job) (launcher : Launcher) (plan : Plan) (log : List (Nat × World))
    (id : NodeId) (f : String) : Prop :=
  ∃ t c, t.work = .block id ∧ job.LeftFile launcher plan log t f c

/-- In a run with this log, the task that works for a node has missed some of its files, and has
done nothing after that but to remove its scratch directory and to close its sink. -/
def PassedOver (job : Job) (plan : Plan) (log : List (Nat × World)) (id : NodeId) : Prop :=
  ∃ i t scratch ports removing closing, job.tasks.tasks[i]? = some t ∧ t.work = .block id ∧
    ports ≠ [] ∧ Execution.Looked job.context t (plan.inputs[i]?.getD ∅) (worldsOf log i) scratch
      ports [removing, closing]

variable {launcher : Launcher} {job : Job} {g : Graph} {mode : Mode} {modules : BlockModules}
  {config : Config} {directory out : Path} {files made files' : FileTree} {home : Location}
  {report : Report} {plan : Plan} {p : Progress} {log : List (Nat × World)} {σ : Site}
  {judged : Nat → Verdict → FileTree → Prop} {tidy : Prop} {w : World} {id : NodeId} {node : Node}
  {i : Nat} {t : Task Work} {f : String}

/-- No command is started for a node that is skipped. -/
theorem Logged.passedOver (h : job.Logged launcher files plan log p files' report)
    (hjob : ofGraph config directory mode g out = .ok job)
    (hskipped : report.state? g id = some .skipped) : job.PassedOver plan log id := by
  obtain ⟨-, -, htasks⟩ := of_ofGraph hjob
  obtain ⟨node, hnode, hstate⟩ := Option.bind_eq_some_iff.1 hskipped
  obtain ⟨i, hi⟩ : ∃ i : Nat, job.tasks.tasks[i]? =
      some (g.processTask mode config.modules job.out id node) := by
    rw [htasks]
    exact List.getElem?_of_mem (Graph.mem_tasks.2 ⟨id, node, hnode, .inr rfl⟩)
  obtain ⟨state, hstate', hends⟩ := h.exists_ended hjob hi
  obtain rfl := Option.some.inj (hstate'.symm.trans hstate)
  obtain ⟨scratch, ports, removing, closing, hports, hlooked⟩ :=
    Execution.looked_of_skipped rfl hends
  exact ⟨i, _, scratch, ports, removing, closing, hi, rfl, hports, hlooked⟩

/-! ## What stands at published paths -/

/-- A task has succeeded, and has left a regular file that it publishes as `f`. -/
def Delivers (job : Job) (launcher : Launcher) (plan : Plan) (log : List (Nat × World))
    (report : Report) (t : Task Work) (f : String) : Prop :=
  report.tasks.get? t.name = some .succeeded ∧ ∃ c, job.LeftFile launcher plan log t f c

namespace Visit

variable (h : job.Visit launcher plan σ judged tidy made home log files' report w)
include h

/-- If the output directory is empty, the scratch root has been made, and nothing else is there. -/
theorem bare (hempty : ∀ l, home <+: l → l ≠ home → made.get? l = none) :
    σ.base.permits .write σ.home = true ∧
      ∀ f, f ≠ scratchName → σ.base.get? (σ.shelf f) = none := by
  have hfree : ∀ n, made.get? (home ++ [n]) = none :=
    fun n => hempty _ (List.prefix_append _ _) (by simp)
  rcases h.rooted with ⟨hthere, -⟩ | ⟨-, hwrite, hbase⟩
  · rw [h.inner_eq, hfree] at hthere
    cases hthere
  · rw [hbase]
    refine ⟨h.guards.home ▸ hwrite, fun f hf => ?_⟩
    have hne : σ.inner ≠ σ.shelf f := by
      rw [h.inner_eq, h.shelf_eq]
      simpa using Ne.symm hf
    rw [get?_put _ _ _ _ (by simp [Site.inner]), if_neg hne, h.shelf_eq, hfree]

/-- Where nothing was before, there is a file if its task has left it, and nothing otherwise. -/
theorem shelf_cases (hwrite : σ.base.permits .write σ.home = true)
    (ht : job.tasks.tasks[i]? = some t) (hf : f ∈ t.files)
    (hfree : σ.base.get? (σ.shelf f) = none) :
    (job.Delivers launcher plan log report t f ∧ ∃ c, w.files.get? (σ.shelf f) = some (.file c)) ∨
      (¬job.Delivers launcher plan log report t f ∧ w.files.get? (σ.shelf f) = none) := by
  obtain ⟨state, hstate, hends⟩ := h.exists_state ht
  have hunsuccessful : state = .skipped ∨ state = .failed →
      ¬job.Delivers launcher plan log report t f ∧ w.files.get? (σ.shelf f) = none := by
    intro hunsuccessful
    refine ⟨fun hdelivers => ?_, ?_⟩
    · obtain rfl := Option.some.inj (hstate.symm.trans hdelivers.1)
      rcases hunsuccessful with hstate | hstate <;> cases hstate
    · exact (hends.same_of_unsuccessful hunsuccessful ⟨t, ht, hf⟩).1.trans hfree
  -- Only a task that has succeeded can have moved a file there.
  rcases hends.cases_state with rfl | rfl | rfl
  · exact .inr (hunsuccessful (.inl rfl))
  · exact .inr (hunsuccessful (.inr rfl))
  · rcases h.traced.published h.laid h.guards h.known ht hstate hf with
      ⟨hkept, hleft⟩ | ⟨c, hc, hleft⟩
    · refine .inr ⟨?_, hkept.trans hfree⟩
      rintro ⟨-, c, hc⟩
      have hdir := hleft c hc hwrite
      rw [hfree] at hdir
      cases hdir
    · exact .inl ⟨⟨hstate, c, hleft⟩, c, hc⟩

/-- The state of a node is published. -/
theorem exists_state_file {content : String} (hwrite : σ.base.permits .write σ.home = true)
    (ht : job.tasks.tasks[i]? = some t) (hwork : t.work = .emit content) (hf : f ∈ t.files)
    (hstate : report.tasks.get? t.name = some .succeeded)
    (hfree : σ.base.get? (σ.shelf f) = none) :
    ∃ c, w.files.get? (σ.shelf f) = some (.file c) := by
  obtain ⟨state, n, after, hstate', -, -, hclosed⟩ := h.traced.tasks i t ht
  obtain rfl := Option.some.inj (hstate'.symm.trans hstate)
  obtain ⟨v, hverdict, hstaged, hplaced⟩ := hclosed.staged rfl
  have hemitted := hclosed.emitted content hwork f hf
  -- What has been emitted has been staged, and is then moved to its place.
  cases hv : v.staged f with
  | none => exact absurd hv (h.known i v _ hverdict f)
  | some staged =>
    cases staged with
    | none =>
      have habsent := hstaged.absent f hf hv
      rw [hemitted.staged] at habsent
      cases habsent
    | some c =>
      exact ⟨c, (hplaced f hf).moved c hv ⟨hemitted.fits, hwrite, by simp [hfree]⟩⟩

end Visit

/-! ## Which nodes are skipped -/

/-- If published paths have what the tasks have left, and nothing else, a node is skipped for what
its inputs lack. -/
private theorem Settled.skipped_iff
    (h : job.Settled g mode modules files files' home report plan σ judged w)
    (hshelf : ∀ (i : Nat) (t : Task Work), job.tasks.tasks[i]? = some t → ∀ f ∈ t.files,
      (job.Delivers launcher plan log report t f ∧
        ∃ c, w.files.get? (σ.shelf f) = some (.file c)) ∨
      (¬job.Delivers launcher plan log report t f ∧ w.files.get? (σ.shelf f) = none))
    (hstate : ∃ c, w.files.get? (σ.shelf (Naming.stateFile id node.kind)) = some (.file c))
    (hnode : g.node? id = some node) :
    report.state? g id = some .skipped ↔ (∃ i ∈ node.inputNames, g.edgeInto? id i = none) ∨
      ∃ e ∈ g.edges, e.target = id ∧ ∃ source, g.node? e.source = some source ∧
        ∃ f ∈ g.moved mode e, ¬job.Delivers launcher plan log report
          (g.processTask mode modules job.out e.source source) f := by
  obtain ⟨i, state, hi, hreport, hends⟩ := h.exists_state hnode
  constructor
  · intro hskipped
    obtain rfl := Option.some.inj (hreport.symm.trans hskipped)
    obtain ⟨port, v, hbound, hsupplied⟩ := hends.exists_not_supplied
    rcases h.bound_cases hnode hi hbound with rfl | hunwired | ⟨e, he, htarget, f, hf, rfl⟩
    · -- The state is there.
      obtain ⟨j, hj, hmem⟩ := h.exists_stateFile hnode
      obtain ⟨c, hc⟩ := hstate
      exact absurd (h.supplied_of_file ⟨_, hj, hmem⟩ hc) hsupplied
    · exact .inl hunwired
    · obtain ⟨source, -, hsource, -⟩ := h.accepted.ends e he
      obtain ⟨j, hj⟩ := h.exists_getElem? hsource (.inr rfl)
      have hmem : f ∈ (g.processTask mode modules job.out e.source source).files :=
        h.accepted.mem_files_of_mem_moved he hsource hf
      refine .inr ⟨e, he, htarget, source, hsource, f, hf, fun hdelivers => hsupplied ?_⟩
      rcases hshelf j _ hj f hmem with ⟨-, c, hc⟩ | ⟨hnot, -⟩
      · exact h.supplied_of_file ⟨_, hj, hmem⟩ hc
      · exact absurd hdelivers hnot
  · intro hlacks
    suffices hport : ∃ port v, (plan.inputs[i]?.getD ∅).get? port = some v ∧
        σ.Lacking w.files v by
      obtain ⟨port, v, hbound, hlacking⟩ := hport
      rw [hreport, (hends.skipped_of_lacking hbound hlacking).1]
    rcases hlacks with ⟨i', hi', hedge⟩ | ⟨e, he, rfl, source, hsource, f, hf, hdelivers⟩
    · refine ⟨Naming.schemaIn id i', none, ?_, .inl rfl⟩
      rw [h.accounts.inputs i _ hi, Graph.get?_schemaIn hi', Graph.feed?, hedge]
      rfl
    · obtain ⟨j, hj⟩ := h.exists_getElem? hsource (.inr rfl)
      obtain ⟨howns, port, hbound⟩ := h.exists_bound he hsource hnode hf hi hj
      obtain ⟨u, hu, hmem⟩ := id howns
      obtain rfl := Option.some.inj (hj.symm.trans hu)
      refine ⟨port, _, hbound, .inr ⟨f, (h.plain_of_mem_files howns).1, by
        rw [Site.published, h.out_eq], ?_⟩⟩
      rcases hshelf j _ hj f hmem with ⟨hdelivers', -⟩ | ⟨-, hfree⟩
      · exact absurd hdelivers' hdelivers
      · exact .inl hfree

/-- The process task of a node delivers what the node has left, if it has succeeded. -/
private theorem Settled.delivers_iff
    (h : job.Settled g mode modules files files' home report plan σ judged w)
    (hnode : g.node? id = some node) :
    job.Delivers launcher plan log report (g.processTask mode modules job.out id node) f ↔
      report.state? g id = some .succeeded ∧ job.NodeLeft launcher plan log id f := by
  rw [Report.state?, hnode]
  refine and_congr_right fun _ => ⟨?_, ?_⟩
  · rintro ⟨c, hc⟩
    exact ⟨_, c, rfl, hc⟩
  rintro ⟨t, c, hwork, i, port, scratch, after, hi, hleft⟩
  obtain ⟨j, hj⟩ := h.exists_getElem? hnode (.inr rfl)
  -- No other task works for the node.
  obtain rfl := h.laid.eq_of_node (TaskGraph.node?_eq_some.2 ⟨_, hi, hwork⟩)
    (TaskGraph.node?_eq_some.2 ⟨_, hj, rfl⟩)
  obtain rfl := Option.some.inj (hi.symm.trans hj)
  exact ⟨c, i, port, scratch, after, hi, hleft⟩

/-- If an output directory is empty when it has been made, there were no links in it before. -/
private theorem unlinked_of_empty (hfiles : files.WellFormed)
    (hmade : files.createDirectories out = (made, .ok ())) (hhome : made.walk true out = .ok home)
    (hempty : ∀ l, home <+: l → l ≠ home → made.get? l = none) {l : Location} (target : Path)
    (hl : home <+: l) : files.get? l ≠ some (.link target) := by
  intro hlink
  obtain ⟨hgrows, home', hway⟩ := of_createDirectories hfiles hmade
  obtain rfl := hway.eq_of_walk hhome
  have hkept := (hgrows.get?_eq_some_iff (by simp)).2 hlink
  by_cases hne : l = home
  · rw [hne, hway.goal.2] at hkept
    cases hkept
  · rw [hempty l hl hne] at hkept
    cases hkept

end Job

/-- Which nodes are skipped in an empty directory. Let block programs write to their scratch
directories only, and there nothing but regular files at the staging paths of their outputs, and
let the output directory be empty when it has been made. In every run that gives a report, a node
is skipped if and only if no edge leads into one of its inputs, or an edge leads to it from a
source that has not succeeded, or has succeeded without leaving a regular file at the staging path
of the output that the edge connects; in a mode that moves instances, of its schema or of its
instance. The state task of every node succeeds, and no command is started for a node that is
skipped. -/
theorem fresh_skips_exact {workflow : Workflow} {launcher : Launcher} {directory out : Path}
    {mode : Mode} {g : Graph} {job : Job} {files made files' : FileTree} {home : Location}
    {report : Report} (hjob : Job.ofGraph workflow.config directory mode g out = .ok job)
    (hscheduler : ∀ tasks context w, Engine.MayEnd (Work.perform launcher) tasks context w
      (workflow.scheduler tasks context w))
    (hleaves : job.Leaves launcher Task.StagesFiles) (hfiles : files.WellFormed)
    (hmade : files.createDirectories job.out = (made, .ok ()))
    (hhome : made.walk true job.out = .ok home)
    (hempty : ∀ l, home <+: l → l ≠ home → made.get? l = none)
    (hrun : workflow.run directory mode g out files = (files', .ok report)) :
    ∃ plan log p, job.Logged launcher files plan log p files' report ∧
      ∀ id node, g.node? id = some node →
        (report.state? g id = some .skipped ↔
          (∃ i ∈ node.inputNames, g.edgeInto? id i = none) ∨
            ∃ e ∈ g.edges, e.target = id ∧ (report.state? g e.source ≠ some .succeeded ∨
              ∃ f ∈ g.moved mode e, ¬job.NodeLeft launcher plan log e.source f)) ∧
        report.tasks.get? (Naming.stateTask id node.kind) = some .succeeded ∧
        (report.state? g id = some .skipped → job.PassedOver plan log id) := by
  obtain ⟨job', plan, log, p, hjob', hlogged⟩ := Workflow.exists_logged hscheduler hrun
  obtain rfl := Except.ok.inj (hjob.symm.trans hjob')
  have hlinks := fun l target (hl : home <+: l) =>
    Job.unlinked_of_empty hfiles hmade hhome hempty target hl
  obtain ⟨σ, hiff, hvisit⟩ := hlogged.exists_visit hjob hleaves False.elim hfiles hmade hhome hlinks
  have hsettled := hvisit.settled hjob hiff
  obtain ⟨hwrite, hfree⟩ := hvisit.bare hempty
  refine ⟨plan, log, p, hlogged, fun id node hnode => ?_⟩
  have hsucceeded := hlogged.stateTask_succeeded hjob hnode
  refine ⟨?_, hsucceeded, hlogged.passedOver hjob⟩
  have hshelf := fun (i : Nat) (t : Task Work) (ht : job.tasks.tasks[i]? = some t) f
      (hf : f ∈ t.files) => hvisit.shelf_cases hwrite ht hf
    (hfree f (hvisit.laid.plain t (List.mem_of_getElem? ht) f hf).2)
  have hstate : ∃ c, p.world.files.get? (σ.shelf (Naming.stateFile id node.kind)) =
      some (.file c) := by
    obtain ⟨j, hj, hmem⟩ := hsettled.exists_stateFile hnode
    exact hvisit.exists_state_file hwrite hj rfl hmem hsucceeded
      (hfree _ (hsettled.plain_of_mem_files ⟨_, hj, hmem⟩).2)
  rw [hsettled.skipped_iff hshelf hstate hnode]
  refine or_congr_right (exists_congr fun e => and_congr_right fun he =>
    and_congr_right fun _ => ?_)
  constructor
  · rintro ⟨source, hsource, f, hf, hnot⟩
    rw [hsettled.delivers_iff hsource, not_and_or] at hnot
    exact hnot.imp_right fun hleft => ⟨f, hf, hleft⟩
  · intro hlacks
    obtain ⟨source, -, hsource, -⟩ := hsettled.accepted.ends e he
    rcases hlacks with hstate | ⟨f, hf, hleft⟩
    · obtain ⟨f, hf⟩ := hsettled.accepted.exists_mem_moved he mode
      exact ⟨source, hsource, f, hf, fun h => hstate ((hsettled.delivers_iff hsource).1 h).1⟩
    · exact ⟨source, hsource, f, hf, fun h => hleft ((hsettled.delivers_iff hsource).1 h).2⟩

/-! ## Chains in empty directories -/

namespace Chain

/-- Commands that fail leave nothing at all. -/
theorem stagesFiles_failing (job : Job) : job.Leaves failing Task.StagesFiles := by
  intro plan i t node launch files l _ _ _ hlaunches result _ f _ e he
  rw [hlaunches.bare _ (List.prefix_append _ _) (by simp)] at he
  cases he

/-- On the way to the output directory, the published path of a state is taken. -/
theorem exists_waylaid : ∃ files' report,
    workflow.run "/" .validate graph "/o/k-a.state.json/.." {} = (files', .ok report) ∧
      report.state? graph "a" = some .skipped :=
  exists_run (by decide +kernel)

end Chain

/-- The way to the output directory may go through a published path, and then this is made a
directory. In an empty file system the state of the first node of the chain cannot be published, so
the node is skipped, though it has no inputs. -/
theorem waylaid_output_skips : ∃ job files' report,
    Job.ofGraph Chain.config "/" .validate Chain.graph "/o/k-a.state.json/.." = .ok job ∧
    job.Leaves Chain.failing Task.StagesFiles ∧
    Chain.workflow.run "/" .validate Chain.graph "/o/k-a.state.json/.." {} =
      (files', .ok report) ∧
    report.state? Chain.graph "a" = some .skipped ∧
    Chain.graph.node? "a" = some Chain.first ∧ Chain.first.inputNames = [] ∧
    ∀ e ∈ Chain.graph.edges, e.target ≠ "a" := by
  obtain ⟨job, hjob⟩ : ∃ job, Job.ofGraph Chain.config "/" .validate Chain.graph
      "/o/k-a.state.json/.." = .ok job := ⟨_, rfl⟩
  obtain ⟨files', report, hrun, hstate⟩ := Chain.exists_waylaid
  exact ⟨job, files', report, hjob, Chain.stagesFiles_failing job, hrun, hstate, rfl, rfl,
    by decide⟩

/-- In the chain, whose commands fail, only the second node is skipped, and its command is not
started. -/
theorem chain_fresh_skips : ∃ files' report, ∃ job : Job, ∃ plan log p,
    Chain.workflow.run "/" .validate Chain.graph "/o" {} = (files', .ok report) ∧
      job.Logged Chain.failing {} plan log p files' report ∧
      report.state? Chain.graph "a" ≠ some .skipped ∧
      report.state? Chain.graph "b" = some .skipped ∧ job.PassedOver plan log "b" := by
  obtain ⟨files', report, hrun, hreport⟩ := Chain.run_empty
  obtain ⟨-, hstate⟩ := Prod.mk.inj hreport
  obtain ⟨job, hjob, hout⟩ : ∃ job, Job.ofGraph Chain.workflow.config "/" .validate Chain.graph
      "/o" = .ok job ∧ job.out = "/o" := ⟨_, rfl, rfl⟩
  have hempty : ∀ l, ["o"] <+: l → l ≠ ["o"] →
      (FileTree.put {} ["o"] .directory).get? l = none := by
    rintro l ⟨m, rfl⟩ hne
    exact Chain.get?_made (by rintro rfl; exact hne rfl)
  obtain ⟨plan, log, p, hlogged, hnodes⟩ := fresh_skips_exact hjob (Engine.mayEnd_scheduler _)
    (Chain.stagesFiles_failing job) wellFormed_empty (hout ▸ Chain.createDirectories_empty)
    (hout ▸ Chain.walk_made) hempty hrun
  obtain ⟨hskipped, -, hpassed⟩ := hnodes "b" Chain.second rfl
  have hb : report.state? Chain.graph "b" = some .skipped :=
    hskipped.2 (.inr ⟨_, List.mem_singleton_self _, rfl, .inl (by rw [hstate]; simp)⟩)
  exact ⟨files', report, job, plan, log, p, hrun, hlogged, by rw [hstate]; simp, hb, hpassed hb⟩

end BlockFlow
