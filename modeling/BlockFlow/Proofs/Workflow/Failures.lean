import BlockFlow.Proofs.Engine.Fairness
import BlockFlow.Proofs.Engine.Reports
import BlockFlow.Proofs.Engine.Sinks
import BlockFlow.Proofs.Workflow.Runs

/-!
# What the failures of a report say

A report has two records of how the tasks have ended: the states of the tasks, which the
engine writes, and the failures of the nodes, which the tasks send to the collector. However
the steps of the tasks and those of the collector follow each other, the two agree.

## Key results

- `Job.Logged.exists_ended`: every task has gone through its whole execution
- `Job.Logged.failures_get?`: a failure is what the command of its node has written
- `failures_exact`: the failures of a report are those of the nodes whose tasks have failed
-/

namespace BlockFlow

open Schedule (worldsOf)

namespace Job

/-- How a run that has given a report has gone, move by move: `log` has the steps of the tasks,
and in `p` nothing is left to do. -/
structure Logged (job : Job) (launcher : Launcher) (files : FileTree) (plan : Plan)
    (log : List (Nat × World)) (p : Progress) (files' : FileTree) (report : Report) : Prop where
  planned : job.tasks.plan = .ok plan
  ran : ∃ t base, files.createDirectories job.out = (t, .ok ()) ∧
    t.createDirectories job.context.scratchRoot = (base, .ok ()) ∧
    (Engine.schedule (Work.perform launcher) job.tasks job.context plan).Ran (fun _ => True)
      ((Engine.schedule (Work.perform launcher) job.tasks job.context plan).begin
        { files := base }) log p
  finished : Schedule.isFinished p = true
  files_eq : files' = (Engine.cleanUp job.context p.world).files
  report_eq : report = job.report p.world

/-- In a run with this log, the task that works for a node has found all of its files and has
run its command, which has ended with `result`. -/
def Answered (job : Job) (launcher : Launcher) (plan : Plan) (log : List (Nat × World))
    (id : NodeId) (result : CommandResult) : Prop :=
  ∃ i t, job.tasks.tasks[i]? = some t ∧ t.work = .block id ∧
    Execution.Answered launcher job.context t (plan.inputs[i]?.getD ∅) (worldsOf log i) result

end Job

variable {launcher : Launcher} {job : Job} {g : Graph} {config : Config} {directory out : Path}
  {mode : Mode} {files files' : FileTree} {plan : Plan} {log : List (Nat × World)}
  {p : Progress} {report : Report}

/-- A run that gives a report has gone by moves in some order. -/
theorem Workflow.exists_logged {workflow : Workflow}
    (hscheduler : ∀ tasks context w, Engine.MayEnd (Work.perform launcher) tasks context w
      (workflow.scheduler tasks context w))
    (h : workflow.run directory mode g out files = (files', .ok report)) :
    ∃ job plan log p, Job.ofGraph workflow.config directory mode g out = .ok job ∧
      job.Logged launcher files plan log p files' report := by
  obtain ⟨job, t, w, hjob, hmade, hend, rfl, rfl⟩ := of_run h
  have hmay := hscheduler job.tasks job.context { files := t }
  rw [hend] at hmay
  generalize hr : (w, Except.ok ()) = r at hmay
  -- A run without an error has carried the plan out to its end.
  cases hmay with
  | unplanned => cases (Prod.mk.inj hr).2
  | unprepared => cases (Prod.mk.inj hr).2
  | @carriedOut plan w' log p hplan hprepare hran hover =>
    obtain ⟨base, hrooted, rfl⟩ := Engine.of_prepare hprepare
    have hfault : p.fault = none := by
      cases hfault : p.fault with
      | none => rfl
      | some e => rw [Engine.conclude, hfault] at hr; cases (Prod.mk.inj hr).2
    rw [Engine.conclude, hfault] at hr
    obtain ⟨rfl, -⟩ := Prod.mk.inj hr
    refine ⟨job, plan, log, p, hjob, hplan, ⟨t, base, hmade, hrooted, hran⟩, ?_, rfl, rfl⟩
    rwa [Schedule.isOver, hfault] at hover

namespace Job.Logged

/-- At the end of the run nothing has gone wrong, and no task is in flight. -/
theorem idle (h : job.Logged launcher files plan log p files' report) :
    p.fault = none ∧ p.inFlight = [] := by
  have hfinished := h.finished
  simp only [Schedule.isFinished, Bool.and_eq_true, Option.isNone_iff_eq_none,
    List.isEmpty_iff] at hfinished
  exact ⟨hfinished.1.1, hfinished.2⟩

/-- Every task is completed, in the state that the report gives it. -/
private theorem exists_completed (h : job.Logged launcher files plan log p files' report)
    (hjob : ofGraph config directory mode g out = .ok job) {i : Nat} {t : Task Work}
    (ht : job.tasks.tasks[i]? = some t) :
    ∃ state, report.tasks.get? t.name = some state ∧ (i, state) ∈ p.completed := by
  obtain ⟨-, base, -, -, hran⟩ := h.ran
  have hs := Schedule.serves_schedule (Work.perform launcher) job.context h.planned
  have hdone := Schedule.accomplished_of_ran hs (nodup_names hjob)
    (leavesStates_perform launcher) rfl hran h.finished
  obtain ⟨state, hmem, hstate⟩ := hdone.states i t ht
  refine ⟨state, ?_, hmem⟩
  rw [h.report_eq]
  rw [show Engine.conclude _ p = (Engine.cleanUp job.context p.world, .ok ()) by
    rw [Engine.conclude, h.idle.1]; rfl] at hstate
  exact hstate

/-- Every task has gone through its whole execution, which has ended with the state that the
report gives it. -/
theorem exists_ended (h : job.Logged launcher files plan log p files' report)
    (hjob : ofGraph config directory mode g out = .ok job) {i : Nat} {t : Task Work}
    (ht : job.tasks.tasks[i]? = some t) :
    ∃ state, report.tasks.get? t.name = some state ∧
      (Execution.execute (Work.perform launcher) job.context t (plan.inputs[i]?.getD ∅)).Ends
        (worldsOf log i) (.ok state) := by
  obtain ⟨-, base, -, -, hran⟩ := h.ran
  have hs := Schedule.serves_schedule (Work.perform launcher) job.context h.planned
  obtain ⟨state, hstate, hmem⟩ := h.exists_completed hjob ht
  obtain ⟨u, hu, hends⟩ := (Schedule.recorded_of_ran hs hran).completed i state hmem
  obtain rfl := Option.some.inj (ht.symm.trans hu)
  exact ⟨state, hstate, hends⟩

/-- Every task has ended as it has told, and so the report says. -/
private theorem exists_told (h : job.Logged launcher files plan log p files' report)
    (hjob : ofGraph config directory mode g out = .ok job) :
    (∀ (i : Nat) (t : Task Work), job.tasks.tasks[i]? = some t → ∃ state,
      report.tasks.get? t.name = some state ∧
        Execution.Told launcher job.context t (plan.inputs[i]?.getD ∅) (worldsOf log i) state
          p.world) ∧
      ∀ id, (∀ t ∈ job.tasks.tasks, t.work.node? ≠ some id) → p.world.cell id = none := by
  obtain ⟨haccepted, -, htasks⟩ := of_ofGraph hjob
  have hlaid : job.tasks.Laid job.out := haccepted.laid_tasks (by rw [htasks])
  obtain ⟨-, base, -, -, hran⟩ := h.ran
  have hs := Schedule.serves_schedule (Work.perform launcher) job.context h.planned
  have hapart : (Engine.schedule (Work.perform launcher) job.tasks job.context plan).NodesApart :=
    fun i j t u id ht hu hid hid' => hlaid.eq_of_node
      (Option.bind_eq_some_iff.2 ⟨t, ht, hid⟩) (Option.bind_eq_some_iff.2 ⟨u, hu, hid'⟩)
  have htold := Schedule.toldAt_of_ran hs rfl hapart (fun _ => rfl) hran
  refine ⟨fun i t ht => ?_, htold.foreign⟩
  obtain ⟨state, hstate, hmem⟩ := h.exists_completed hjob ht
  obtain ⟨u, hu, htold⟩ := htold.completed i state hmem
  obtain rfl := Option.some.inj (ht.symm.trans hu)
  exact ⟨state, hstate, htold⟩

/-- No state task has failed, and none has been skipped. -/
theorem stateTask_succeeded (h : job.Logged launcher files plan log p files' report)
    (hjob : ofGraph config directory mode g out = .ok job) {id : NodeId} {node : Node}
    (hnode : g.node? id = some node) :
    report.tasks.get? (Naming.stateTask id node.kind) = some .succeeded := by
  obtain ⟨-, -, htasks⟩ := of_ofGraph hjob
  obtain ⟨i, hi⟩ : ∃ i : Nat, job.tasks.tasks[i]? = some (Graph.stateTask job.out id node) := by
    rw [htasks]
    exact List.getElem?_of_mem (Graph.mem_tasks.2 ⟨id, node, hnode, .inl rfl⟩)
  obtain ⟨state, hstate, htold⟩ := (h.exists_told hjob).1 i _ hi
  rw [htold.succeeded_of_emit rfl] at hstate
  exact hstate

theorem failures_get? (h : job.Logged launcher files plan log p files' report) (id : NodeId) :
    report.failures.get? id = p.world.cell id := by
  rw [h.report_eq]
  rfl

/-- The collector finishes with the failures of the report. -/
theorem finish? (h : job.Logged launcher files plan log p files' report) :
    p.world.failures.closeSink.finish? = some report.failures := by
  obtain ⟨t, base, -, -, hran⟩ := h.ran
  rw [Schedule.finish?_of_idle (Schedule.sinks_of_ran rfl rfl hran) h.idle.2, h.report_eq]
  rfl

/-- A node has failed if its process task has, and then with what its command has written. -/
private theorem failures_of_node (h : job.Logged launcher files plan log p files' report)
    (hjob : ofGraph config directory mode g out = .ok job) {id : NodeId} {node : Node}
    (hnode : g.node? id = some node) :
    ((report.failures.get? id).isSome ↔ report.state? g id = some .failed) ∧
      ∀ output, report.failures.get? id = some output ↔ ∃ result,
        job.Answered launcher plan log id result ∧ result.succeeded = false ∧
          output = Text.lossy result.output := by
  obtain ⟨haccepted, -, htasks⟩ := of_ofGraph hjob
  have hlaid : job.tasks.Laid job.out := haccepted.laid_tasks (by rw [htasks])
  obtain ⟨i, hi⟩ : ∃ i : Nat, job.tasks.tasks[i]? =
      some (g.processTask mode config.modules job.out id node) := by
    rw [htasks]
    exact List.getElem?_of_mem (Graph.mem_tasks.2 ⟨id, node, hnode, .inr rfl⟩)
  obtain ⟨state, hstate, htold⟩ := (h.exists_told hjob).1 i _ hi
  rw [h.failures_get?]
  refine ⟨?_, fun output => ?_⟩
  · rw [htold.isSome_cell_iff rfl, Report.state?, hnode, Option.bind_some]
    exact Option.some_inj.symm.trans (by rw [← hstate]; rfl)
  · rw [htold.cell_eq_some_iff rfl]
    refine exists_congr fun result => and_congr_left fun _ => ?_
    refine ⟨fun hanswer => ⟨i, _, hi, rfl, hanswer⟩, ?_⟩
    -- No other task works for the node.
    rintro ⟨j, t, hj, hwork, hanswer⟩
    obtain rfl := hlaid.eq_of_node (TaskGraph.node?_eq_some.2 ⟨_, hi, rfl⟩)
      (TaskGraph.node?_eq_some.2 ⟨t, hj, hwork⟩)
    obtain rfl := Option.some.inj (hi.symm.trans hj)
    exact hanswer

/-- What is no node has not failed, and has no command. -/
private theorem failures_of_foreign (h : job.Logged launcher files plan log p files' report)
    (hjob : ofGraph config directory mode g out = .ok job) {id : NodeId}
    (hnode : g.node? id = none) :
    report.failures.get? id = none ∧ ∀ result, ¬job.Answered launcher plan log id result := by
  obtain ⟨-, -, htasks⟩ := of_ofGraph hjob
  -- The failures come from process tasks, each of which belongs to a node of the graph.
  have hforeign : ∀ t ∈ job.tasks.tasks, t.work.node? ≠ some id := by
    intro t ht hwork
    rw [htasks] at ht
    obtain ⟨id', node, hnode', rfl | rfl⟩ := Graph.mem_tasks.1 ht
    · cases hwork
    · obtain rfl := Option.some.inj hwork
      rw [hnode] at hnode'
      cases hnode'
  refine ⟨(h.failures_get? id).trans ((h.exists_told hjob).2 id hforeign), ?_⟩
  rintro result ⟨i, t, ht, hwork, -⟩
  exact hforeign t (List.mem_of_getElem? ht) (by rw [hwork]; rfl)

end Job.Logged

/-- However the moves of a run follow each other, the collector is finished when the run gives
its report, and the failures of the report are those of the nodes whose process tasks have
failed. Each is what the command of the node has written in this run, and every command that
has not succeeded is there. No state task has failed. -/
theorem failures_exact {workflow : Workflow}
    (hscheduler : ∀ tasks context w, Engine.MayEnd (Work.perform launcher) tasks context w
      (workflow.scheduler tasks context w))
    (hrun : workflow.run directory mode g out files = (files', .ok report)) :
    ∃ job plan log p, Job.ofGraph workflow.config directory mode g out = .ok job ∧
      job.Logged launcher files plan log p files' report ∧
      p.world.failures.closeSink.finish? = some report.failures ∧
      (∀ id, id ∈ report.failures.keys ↔ report.state? g id = some .failed) ∧
      (∀ id output, report.failures.get? id = some output ↔ ∃ result,
        job.Answered launcher plan log id result ∧ result.succeeded = false ∧
          output = Text.lossy result.output) ∧
      ∀ id node, g.node? id = some node →
        report.tasks.get? (Naming.stateTask id node.kind) = some .succeeded := by
  obtain ⟨job, plan, log, p, hjob, hlogged⟩ := Workflow.exists_logged hscheduler hrun
  refine ⟨job, plan, log, p, hjob, hlogged, hlogged.finish?, fun id => ?_, fun id output => ?_,
    fun id node hnode => hlogged.stateTask_succeeded hjob hnode⟩
  · rw [SortedMap.mem_keys, SortedMap.contains]
    cases hnode : g.node? id with
    | some node => exact (hlogged.failures_of_node hjob hnode).1
    | none => simp [(hlogged.failures_of_foreign hjob hnode).1, Report.state?, hnode]
  · cases hnode : g.node? id with
    | some node => exact (hlogged.failures_of_node hjob hnode).2 output
    | none =>
      obtain ⟨hfailure, hanswer⟩ := hlogged.failures_of_foreign hjob hnode
      simp [hfailure, hanswer]

/-- In a chain whose commands all fail, the first node is reported with what its command has
written, and the second one, which is skipped, is not. -/
theorem chain_failures_exact : ∃ files' report, ∃ job : Job, ∃ plan log p,
    Chain.workflow.run "/" .validate Chain.graph "/o" {} = (files', .ok report) ∧
      job.Logged Chain.failing {} plan log p files' report ∧
      report.state? Chain.graph "a" = some .failed ∧ "b" ∉ report.failures.keys ∧
      ∃ result : CommandResult, job.Answered Chain.failing plan log "a" result ∧
        "no" = Text.lossy result.output := by
  obtain ⟨files', report, hrun, hreport⟩ := Chain.run_empty
  obtain ⟨hlist, hstate⟩ := Prod.mk.inj hreport
  have hscheduler : ∀ tasks context w, Engine.MayEnd (Work.perform Chain.failing) tasks context
      w (Chain.workflow.scheduler tasks context w) := Engine.mayEnd_scheduler _
  obtain ⟨job, plan, log, p, -, hlogged, -, hkeys, hfailures, -⟩ := failures_exact hscheduler hrun
  have hget : report.failures.get? "a" = some "no" := SortedMap.mem_toList.1 (by simp [hlist])
  obtain ⟨result, hanswer, -, houtput⟩ := (hfailures "a" "no").1 hget
  refine ⟨files', report, job, plan, log, p, hrun, hlogged, hstate, ?_, result, hanswer, houtput⟩
  simp [SortedMap.keys, hlist]

end BlockFlow
