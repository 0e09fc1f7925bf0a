import BlockFlow.Proofs.Engine.Sequence
import BlockFlow.Proofs.Files.Creation
import BlockFlow.Proofs.Graph.Wiring
import BlockFlow.Proofs.Workflow.Layout

/-!
# Runs that give a report

A run gives a report only after it has made its two directories and carried out all of its
tasks. What the report says of a task is how the task has ended in its site, and what it says
of a node is what the task of this node has reported.

## Key results

- `Workflow.exists_went`: how a report has come about
- `Job.Went.exists_site`, `Job.Went.settled`: what is known of the run of a graph
-/

namespace BlockFlow

open FileTree

/-- How the process task of a node has ended. -/
def Report.state? (r : Report) (g : Graph) (id : NodeId) : Option TaskState :=
  (g.node? id).bind (fun node => r.tasks.get? (Naming.processTask id node.kind))

variable {launcher : Launcher} {job : Job} {files files' t base : FileTree} {plan : Plan}
  {p : Pool} {report : Report} {σ : Site} {judged : Nat → Verdict → FileTree → Prop}
  {tidy : Prop} {w : World}

namespace Job

/-- How a run has gone: `t` is the tree with the output directory, `base` the one with the
scratch root as well, and in `p` all tasks have finished. -/
structure Went (job : Job) (launcher : Launcher) (files t base : FileTree) (plan : Plan)
    (p : Pool) (files' : FileTree) (report : Report) : Prop where
  made : files.createDirectories job.out = (t, .ok ())
  rooted : t.createDirectories job.context.scratchRoot = (base, .ok ())
  carried : Engine.Carried (Work.perform launcher) job.tasks job.context plan { files := t }
    { files := base } (Engine.cleanUp job.context p.world) p
  files_eq : files' = (Engine.cleanUp job.context p.world).files
  report_eq : report = job.report p.world

/-- How the tasks of a job have ended in its site, and what is reported of them. -/
structure Ended (job : Job) (plan : Plan) (σ : Site) (judged : Nat → Verdict → FileTree → Prop)
    (w : World) (report : Report) : Prop where
  steady : σ.Steady w.files
  tasks : ∀ (i : Nat) (t : Task Work), job.tasks.tasks[i]? = some t →
    ∃ state, report.tasks.get? t.name = some state ∧ job.tasks.EndsAs plan σ judged i state w
  names : ∀ k state, report.tasks.get? k = some state → ∃ t ∈ job.tasks.tasks, t.name = k
  failures : ∀ id, report.failures.get? id = w.cell id
  foreign : ∀ id, (∀ i, (job.tasks.stake i).node ≠ some id) → w.cell id = none

/-- What is known of a run of a graph, from the tree before to the tree after: the tasks have
ended in a site at `home`, and in the world `w` all of them have finished. -/
structure Settled (job : Job) (g : Graph) (mode : Mode) (modules : BlockModules)
    (before after : FileTree) (home : Location) (report : Report) (plan : Plan) (σ : Site)
    (judged : Nat → Verdict → FileTree → Prop) (w : World) : Prop
    extends job.Ended plan σ judged w report where
  accepted : g.Accepted
  compiled : job.tasks.tasks = g.tasks mode modules job.out
  accounts : plan.Accounts job.tasks
  out_eq : σ.out = job.out
  home_eq : σ.home = home
  /-- Making directories has neither added nor removed a file. -/
  base_iff : ∀ l e, e ≠ .directory → (σ.base.get? l = some e ↔ before.get? l = some e)
  shelf_eq : ∀ f, f ≠ Job.scratchName → after.get? (home ++ [f]) = w.files.get? (home ++ [f])

/-- What a graph is compiled to. -/
theorem of_ofGraph {config : Config} {directory out : Path} {mode : Mode} {g : Graph}
    (h : ofGraph config directory mode g out = .ok job) :
    g.Accepted ∧ job.context = ⟨Path.join job.out scratchName, config.shell⟩ ∧
      job.tasks = {
        name := mode.name
        mode
        maxConcurrency := config.maxConcurrency
        tasks := g.tasks mode config.modules job.out } := by
  unfold ofGraph at h
  split at h
  · cases h
  · split at h
    · cases h
    · next hcompile =>
      obtain rfl := Except.ok.inj h
      obtain ⟨haccepted, htasks⟩ := Graph.of_compile hcompile
      exact ⟨haccepted, rfl, htasks⟩

end Job

/-- Only a run that has made its output directory and in which the scheduler has succeeded
gives a report. -/
theorem Workflow.of_run {workflow : Workflow} {directory out : Path} {mode : Mode} {g : Graph}
    (h : workflow.run directory mode g out files = (files', .ok report)) :
    ∃ job t w, Job.ofGraph workflow.config directory mode g out = .ok job ∧
      files.createDirectories job.out = (t, .ok ()) ∧
      workflow.scheduler job.tasks job.context { files := t } = (w, .ok ()) ∧
      files' = w.files ∧ report = job.report w := by
  rw [run] at h
  split at h
  · cases (Prod.mk.inj h).2
  · next job hjob =>
    rw [Job.run] at h
    split at h
    · cases (Prod.mk.inj h).2
    · next t hmade =>
      split at h
      · cases (Prod.mk.inj h).2
      · next w hend =>
        obtain ⟨hfiles, hreport⟩ := Prod.mk.inj h
        exact ⟨job, t, w, hjob, hmade, hend, hfiles.symm, (Except.ok.inj hreport).symm⟩

/-- The tasks of a compiled graph have names of their own. -/
theorem Job.nodup_names {config : Config} {directory out : Path} {mode : Mode} {g : Graph}
    (h : ofGraph config directory mode g out = .ok job) :
    (job.tasks.tasks.map (·.name)).Nodup := by
  obtain ⟨haccepted, -, htasks⟩ := of_ofGraph h
  rw [htasks]
  exact haccepted.nodup_taskNames mode _ _

/-- Preparing a run makes the scratch root, and does nothing else. -/
theorem Engine.of_prepare {context : RunContext} {w w' : World}
    (h : prepare context w = (w', .ok ())) :
    ∃ base, w.files.createDirectories context.scratchRoot = (base, .ok ()) ∧
      w' = { w with files := base } := by
  unfold prepare at h
  split at h
  · next base hrooted => exact ⟨base, hrooted, (Prod.mk.inj h).1.symm⟩
  · cases (Prod.mk.inj h).2

/-- A run that gives a report has carried out all tasks in one pool. -/
theorem Workflow.exists_went {workflow : Workflow} {directory out : Path} {mode : Mode}
    {g : Graph} (hjob : Job.ofGraph workflow.config directory mode g out = .ok job)
    (hcarries : ∀ w, Engine.CarriesOut (Work.perform launcher) job.tasks job.context w
      (workflow.scheduler job.tasks job.context w))
    (h : workflow.run directory mode g out files = (files', .ok report)) :
    ∃ t base plan p, job.Went launcher files t base plan p files' report := by
  obtain ⟨job', t, w', hjob', hmade, hend, rfl, rfl⟩ := of_run h
  obtain rfl := Except.ok.inj (hjob.symm.trans hjob')
  have hcarries := hcarries { files := t }
  rw [hend] at hcarries
  obtain ⟨plan, w₁, p, hcarried⟩ := Engine.exists_carried (Job.nodup_names hjob)
    (leavesStates_perform launcher) rfl hcarries
  obtain ⟨base, hrooted, rfl⟩ := Engine.of_prepare hcarried.prepared
  refine ⟨t, base, plan, p, hmade, hrooted, hcarried.cleaned ▸ hcarried, ?_, ?_⟩
  · rw [hcarried.cleaned]
  · rw [hcarried.cleaned]
    rfl

/-- In its site all tasks of a run keep to their stakes, from a beginning in which nothing is
touched. -/
theorem Job.Went.sheltered (h : job.Went launcher files t base plan p files' report)
    (hlaid : job.tasks.Laid job.out) (hout : σ.out = job.out) (hbase : σ.base = base)
    (hroot : job.context.scratchRoot = σ.scratchRoot)
    (hjudges : job.tasks.Judges plan σ launcher job.context judged tidy) :
    ∃ trail, Pool.Sheltered σ job.tasks job.tasks.stake
      (job.tasks.ComesTo plan σ judged tidy launcher job.context) trail p := by
  have hplan := TaskGraph.accounts_of_plan h.carried.planned
  have hconduct : Pool.Conduct σ (Engine.schedule (Work.perform launcher) job.tasks job.context
      plan) job.tasks job.tasks.stake
      (job.tasks.ComesTo plan σ judged tidy launcher job.context) :=
    hlaid.conduct hplan hout rfl hroot rfl hjudges
  have hbegin : Pool.Sheltered σ job.tasks job.tasks.stake
      (job.tasks.ComesTo plan σ judged tidy launcher job.context) (fun _ => {})
      { world := { files := base } } :=
    Pool.sheltered_begin hbase.symm (fun _ => rfl)
  exact Pool.sheltered_of_runs hconduct ⟨_, hbegin⟩ h.carried.runs

/-- Judged in its site, every task of a run has ended by a verdict on it. -/
theorem Job.Went.ended (h : job.Went launcher files t base plan p files' report)
    (hlaid : job.tasks.Laid job.out) (hout : σ.out = job.out) (hbase : σ.base = base)
    (hroot : job.context.scratchRoot = σ.scratchRoot)
    (hjudges : job.tasks.Judges plan σ launcher job.context judged tidy) :
    job.Ended plan σ judged p.world report := by
  obtain ⟨trail, hend⟩ := h.sheltered hlaid hout hbase hroot hjudges
  refine ⟨hend.steady, fun i task htask => ?_, fun k state hk => ?_, fun id => ?_, hend.foreign⟩
  · obtain ⟨state, hmem, hstate⟩ := h.carried.completed i task htask
    exact ⟨state, by rw [h.report_eq]; exact hstate, (hend.ended _ hmem).ends⟩
  · rw [h.report_eq] at hk
    exact h.carried.names k state hk
  · rw [h.report_eq]
    rfl

/-- Removing the scratch root leaves alone what is published. -/
theorem Job.Went.get?_shelf (h : job.Went launcher files t base plan p files' report)
    (hroot : job.context.scratchRoot = σ.scratchRoot) (hsteady : σ.Steady p.world.files)
    {f : String} (hf : f ≠ Job.scratchName) :
    files'.get? (σ.shelf f) = p.world.files.get? (σ.shelf f) := by
  rw [h.files_eq, Engine.cleanUp, hroot]
  cases hremove : p.world.files.rmdir σ.scratchRoot with
  | error e => rfl
  | ok t' =>
    rw [Site.of_rmdir hsteady hremove]
    have hne : σ.inner ≠ σ.shelf f :=
      fun heq => hf (by simpa [Site.shelf, Site.inner] using heq.symm)
    exact (get?_drop _ _ _ (by simp [Site.inner])).trans (if_neg hne)

namespace Job.Went

variable {g : Graph} {mode : Mode} {config : Config} {directory out : Path} {home : Location}

/-- Making the directories has neither added nor removed a file. -/
theorem base_iff (h : job.Went launcher files t base plan p files' report)
    (hfiles : files.WellFormed) (l : Location) (e : Entry) (he : e ≠ .directory) :
    base.get? l = some e ↔ files.get? l = some e := by
  have hgrows := (of_createDirectories hfiles h.made).1
  have hgrows' := (of_createDirectories hgrows.wellFormed h.rooted).1
  rw [hgrows'.get?_eq_some_iff he, hgrows.get?_eq_some_iff he]

/-- A run works in a site, of which those directories and links are fixed that `allowed` holds
of. -/
theorem exists_site (h : job.Went launcher files t base plan p files' report)
    (hjob : Job.ofGraph config directory mode g out = .ok job) (hfiles : files.WellFormed)
    {allowed : Location → Prop} (hway : t.Reaches allowed [] (Path.steps job.out) home)
    (hinner : allowed (home ++ [Job.scratchName]))
    (hlink : ∀ target, t.get? (home ++ [Job.scratchName]) ≠ some (.link target)) :
    ∃ σ : Site, σ.out = job.out ∧ σ.home = home ∧ σ.base = base ∧
      (∃ k, σ.inward σ.scratchRoot = .ok k) ∧ (∀ l, σ.fixed l ↔ allowed l ∧ base.IsPassage l) ∧
      ∀ l e, e ≠ .directory → (base.get? l = some e ↔ files.get? l = some e) := by
  obtain ⟨-, hcontext, -⟩ := Job.of_ofGraph hjob
  -- First the output directory is made, then the scratch root in it.
  have hgrows := (of_createDirectories hfiles h.made).1
  have hrooted := h.rooted
  rw [hcontext] at hrooted
  obtain ⟨-, σ, hout, hhome, hbase, hinward, hfixed⟩ := Site.exists_of_createDirectories
    hgrows.wellFormed (ne_empty_of_createDirectories h.made) hway hinner hlink hrooted
  exact ⟨σ, hout, hhome, hbase, hinward, hfixed, h.base_iff hfiles⟩

/-- Judged in its site, the run is settled. -/
theorem settled (h : job.Went launcher files t base plan p files' report)
    (hjob : Job.ofGraph config directory mode g out = .ok job) (hout : σ.out = job.out)
    (hhome : σ.home = home) (hbase : σ.base = base)
    (hiff : ∀ l e, e ≠ .directory → (base.get? l = some e ↔ files.get? l = some e))
    (hjudges : job.tasks.Judges plan σ launcher job.context judged tidy) :
    job.Settled g mode config.modules files files' home report plan σ judged p.world := by
  obtain ⟨haccepted, hcontext, htasks⟩ := Job.of_ofGraph hjob
  have hcompiled : job.tasks.tasks = g.tasks mode config.modules job.out := by rw [htasks]
  have hroot : job.context.scratchRoot = σ.scratchRoot := by
    rw [hcontext, Site.scratchRoot, hout]
  have hended := h.ended (haccepted.laid_tasks hcompiled) hout hbase hroot hjudges
  exact {
    toEnded := hended
    accepted := haccepted
    compiled := hcompiled
    accounts := TaskGraph.accounts_of_plan h.carried.planned
    out_eq := hout
    home_eq := hhome
    base_iff := hbase ▸ hiff
    shelf_eq := fun f hf => hhome ▸ h.get?_shelf hroot hended.steady hf }

end Job.Went

namespace Job.Settled

variable {g : Graph} {mode : Mode} {modules : BlockModules} {before after : FileTree}
  {home : Location} {id : NodeId} {node : Node}

theorem laid (h : job.Settled g mode modules before after home report plan σ judged w) :
    job.tasks.Laid job.out :=
  h.accepted.laid_tasks h.compiled

/-- Both tasks of a node are among the tasks. -/
theorem exists_getElem? (h : job.Settled g mode modules before after home report plan σ judged w)
    (hnode : g.node? id = some node) {t : Task Work}
    (ht : t = Graph.stateTask job.out id node ∨ t = g.processTask mode modules job.out id node) :
    ∃ i : Nat, job.tasks.tasks[i]? = some t := by
  rw [h.compiled]
  exact List.getElem?_of_mem (Graph.mem_tasks.2 ⟨id, node, hnode, ht⟩)

theorem plain_of_mem_files
    (h : job.Settled g mode modules before after home report plan σ judged w) {i : Nat} {f : String}
    (hf : (job.tasks.stake i).owns f) : Path.Plain f ∧ f ≠ Job.scratchName := by
  obtain ⟨t, ht, hf⟩ := hf
  exact h.laid.plain t (List.mem_of_getElem? ht) f hf

end Job.Settled

/-! ## Two nodes, one after the other -/

namespace Chain

/-- A node with an output. -/
def first : Node where
  kind := "k"
  outputs := SortedMap.ofList [("x", [])]

/-- A node with an input. -/
def second : Node where
  kind := "k"
  inputs := SortedMap.ofList [("y", .null)]

/-- The second node reads what the first one writes. -/
def graph : Graph where
  nodes := SortedMap.ofList [("a", first), ("b", second)]
  edges := [⟨"a", "x", "b", "y"⟩]

def config : Config := { modules := ⟨"m", "p", "i", "e"⟩ }

theorem unlinked_empty {home : Location} (l : Location) (target : Path) (_ : home <+: l) :
    ({} : FileTree).get? l ≠ some (.link target) := by
  cases l <;> exact nofun

/-- The output directory is made in an empty file system. -/
theorem createDirectories_empty :
    FileTree.createDirectories {} "/o" = (FileTree.put {} ["o"] .directory, .ok ()) := rfl

theorem walk_made : (FileTree.put {} ["o"] .directory).walk true "/o" = .ok ["o"] := by
  decide +kernel

/-- Nothing is in it then. -/
theorem get?_made {m : Location} (hm : m ≠ []) :
    (FileTree.put {} ["o"] .directory).get? ("o" :: m) = none := by
  rw [get?_put _ _ _ _ (by simp), if_neg (by simpa using Ne.symm hm)]
  rfl

/-- Every command fails. -/
def failing : Launcher := fun _ => pure (.ok ⟨false, "no".toUTF8⟩)

def workflow : Workflow := .ofLauncher config failing

/-- A run of which `f` can be computed gives a report. -/
theorem exists_report {α : Type} {f : FileTree → Report → α} {v : α}
    {r : FileTree × Except WorkflowError Report} (h : r.2.toOption.map (f r.1) = some v) :
    ∃ files report, r = (files, .ok report) ∧ f files report = v := by
  obtain ⟨files, e | report⟩ := r
  · cases h
  · exact ⟨files, report, rfl, Option.some.inj h⟩

/-- Instead of a run of the chain, one with a scheduler that computes can be looked at. -/
theorem exists_run {launcher : Launcher} {out : Path} {files : FileTree} {α : Type}
    {f : FileTree → Report → α} {v : α}
    (h : (fun r => r.2.toOption.map (f r.1))
      ((Workflow.mk config (Engine.schedulerWithin 100 (Work.perform launcher))).run "/"
        .validate graph out files) = some v) :
    ∃ files' report, (Workflow.ofLauncher config launcher).run "/" .validate graph out files =
      (files', .ok report) ∧ f files' report = v := by
  rw [← Engine.scheduler_eq_within] at h
  exact exists_report h

/-- Where nothing has been published before, the first node is reported, and the second one
is not. -/
theorem run_empty : ∃ files' report,
    workflow.run "/" .validate graph "/o" {} = (files', .ok report) ∧
      (report.failures.toList, report.state? graph "a") = ([("a", "no")], some .failed) :=
  exists_run (by decide +kernel)

end Chain

end BlockFlow
