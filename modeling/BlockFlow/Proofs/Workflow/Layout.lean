import BlockFlow.Proofs.Engine.Endings
import BlockFlow.Proofs.Engine.Pool
import BlockFlow.Proofs.Engine.Staging
import BlockFlow.Proofs.Graph.Tasks

/-!
# How the tasks of a workflow share the output directory

`TaskGraph.Laid` says that tasks have names, published files and nodes of their own. The
stake of a task is then what it publishes and what its producers publish, and no two tasks
in flight get into each other's way: a pool of such tasks conducts itself.

## Key results

- `Graph.Accepted.laid_tasks`: the tasks of an accepted graph are laid out so
- `Graph.Accepted.separate_tasks`: they stage each of their files in a place of its own
- `TaskGraph.Laid.conduct`: in a site, such tasks keep to their stakes
-/

namespace BlockFlow

open FileTree

namespace TaskGraph

/-- Tasks with names, published files and nodes of their own. -/
structure Laid (g : TaskGraph Work) (out : Path) : Prop where
  names : (g.tasks.map (·.name)).Nodup
  published : ∀ t ∈ g.tasks, t.files.map (Path.join out) = t.outputPorts.values
  plain : ∀ t ∈ g.tasks, ∀ f ∈ t.files, Path.Plain f ∧ f ≠ Job.scratchName
  nodup : ∀ t ∈ g.tasks, t.files.Nodup
  apart : ∀ t ∈ g.tasks, ∀ u ∈ g.tasks, ∀ f, f ∈ t.files → f ∈ u.files → t.name = u.name
  nodes : ∀ t ∈ g.tasks, ∀ u ∈ g.tasks, ∀ id, t.work = .block id → u.work = .block id →
    t.name = u.name
  emits : ∀ t ∈ g.tasks, ∀ content, t.work = .emit content →
    t.inputPorts = ∅ ∧ ∃ f, t.files = [f]

variable {g : TaskGraph Work} {out : Path}

theorem Laid.eq_of_name (h : g.Laid out) {i j : Nat} {t u : Task Work}
    (ht : g.tasks[i]? = some t) (hu : g.tasks[j]? = some u) (hname : t.name = u.name) :
    i = j :=
  TaskGraph.eq_of_name h.names ht hu hname

/-- What a task has a stake in: the files that it publishes, those that its producers
publish, and the node that it works for. -/
def stake (g : TaskGraph Work) (i : Nat) : Stake where
  owns f := ∃ t, g.tasks[i]? = some t ∧ f ∈ t.files
  reads f := ∃ j u, g.Feeds j i ∧ g.tasks[j]? = some u ∧ f ∈ u.files
  node := g.tasks[i]?.bind (·.work.node?)

theorem Laid.eq_of_owns (h : g.Laid out) {i j : Nat} {f : String} (hi : (g.stake i).owns f)
    (hj : (g.stake j).owns f) : i = j := by
  obtain ⟨t, ht, hft⟩ := hi
  obtain ⟨u, hu, hfu⟩ := hj
  exact h.eq_of_name ht hu
    (h.apart t (List.mem_of_getElem? ht) u (List.mem_of_getElem? hu) f hft hfu)

theorem node?_eq_some {i : Nat} {id : NodeId} :
    (g.stake i).node = some id ↔ ∃ t, g.tasks[i]? = some t ∧ t.work = .block id := by
  show g.tasks[i]?.bind (·.work.node?) = some id ↔ _
  rw [Option.bind_eq_some_iff]
  refine exists_congr (fun t => and_congr_right (fun _ => ?_))
  cases hwork : t.work <;> simp [Work.node?]

theorem Laid.eq_of_node (h : g.Laid out) {i j : Nat} {id : NodeId}
    (hi : (g.stake i).node = some id) (hj : (g.stake j).node = some id) : i = j := by
  obtain ⟨t, ht, hwork⟩ := node?_eq_some.1 hi
  obtain ⟨u, hu, hwork'⟩ := node?_eq_some.1 hj
  exact h.eq_of_name ht hu
    (h.nodes t (List.mem_of_getElem? ht) u (List.mem_of_getElem? hu) id hwork hwork')

/-- A port is bound to the path at which the task that it refers to publishes. -/
theorem Laid.get?_inputs (h : g.Laid out) {plan : Plan} (hplan : plan.Accounts g) {i j : Nat}
    {t u : Task Work} {port : String} {ref : PortRef} {path : Path} (ht : g.tasks[i]? = some t)
    (hport : t.inputPorts.get? port = some (some ref)) (hu : g.tasks[j]? = some u)
    (hname : u.name = ref.task) (hpath : u.outputPorts.get? ref.port = some path) :
    g.Feeds j i ∧ (plan.inputs[i]?.getD ∅).get? port = some (some path) := by
  obtain ⟨⟨j', path'⟩, hresolve⟩ :=
    Option.isSome_iff_exists.1 (hplan.resolved i t port ref ht hport)
  obtain ⟨u', hu', hname', hpath'⟩ := of_resolve? hresolve
  obtain rfl := h.eq_of_name hu hu' (hname.trans hname'.symm)
  obtain rfl := Option.some.inj (hu.symm.trans hu')
  obtain rfl := Option.some.inj (hpath.symm.trans hpath')
  refine ⟨⟨t, port, ref, path, ht, hport, hresolve⟩, ?_⟩
  rw [hplan.inputs i t ht, hport, Option.map_some, Option.bind_some, hresolve]
  rfl

/-- A port reads what its producer publishes. -/
theorem Laid.readsFrom (h : g.Laid out) {plan : Plan} (hplan : plan.Accounts g) {σ : Site}
    (hout : σ.out = out) {i : Nat} {t : Task Work} (ht : g.tasks[i]? = some t) :
    σ.ReadsFrom (g.stake i) (plan.inputs[i]?.getD ∅).toList := by
  rintro ⟨port, v⟩ he path rfl
  have hport := SortedMap.mem_toList.1 he
  rw [hplan.inputs i t ht] at hport
  obtain ⟨ref?, href, hbind⟩ := Option.map_eq_some_iff.1 hport
  obtain ⟨ref, rfl, hresolve⟩ := Option.bind_eq_some_iff.1 hbind
  obtain ⟨⟨j, path'⟩, hsource, rfl⟩ := Option.map_eq_some_iff.1 hresolve
  obtain ⟨u, hu, -, hpath⟩ := of_resolve? hsource
  -- The port is resolved to a path at which the task `u` publishes.
  have hmem : path' ∈ u.files.map (Path.join out) := by
    rw [h.published u (List.mem_of_getElem? hu)]
    exact List.mem_map.2 ⟨_, SortedMap.mem_toList.2 hpath, rfl⟩
  obtain ⟨f, hf, rfl⟩ := List.mem_map.1 hmem
  refine ⟨f, (h.plain u (List.mem_of_getElem? hu) f hf).1, by rw [Site.published, hout], j, u,
    ?_, hu, hf⟩
  exact ⟨t, port, ref, _, ht, href, hsource⟩

/-- A task publishes the files that it owns. -/
theorem Laid.publishes (h : g.Laid out) {σ : Site} (hout : σ.out = out) {i : Nat} {t : Task Work}
    (ht : g.tasks[i]? = some t) : σ.Publishes (g.stake i) t.outputPorts.toList t.files := by
  have hmem := List.mem_of_getElem? ht
  refine ⟨?_, h.nodup t hmem, fun f hf => (h.plain t hmem f hf).1,
    fun f hf => (h.plain t hmem f hf).2, fun f => ?_⟩
  · show t.outputPorts.values = _
    rw [← h.published t hmem, ← hout]
    rfl
  · refine ⟨?_, fun hf => ⟨t, ht, hf⟩⟩
    rintro ⟨u, hu, hf⟩
    obtain rfl := Option.some.inj (ht.symm.trans hu)
    exact hf

/-- The outputs of a task are staged each for itself. -/
theorem Laid.separate (h : g.Laid out) {t : Task Work} (ht : t ∈ g.tasks) :
    Execution.Separate t.outputPorts := by
  have hvalues := h.published t ht
  -- Each output is staged under the name of its file.
  have hname : ∀ e ∈ t.outputPorts.toList, ∃ f ∈ t.files, Path.join out f = e.2 ∧
      Execution.stagingName? e.1 e.2 = some f := by
    intro e he
    have hmem : e.2 ∈ t.files.map (Path.join out) := by
      rw [hvalues]
      exact List.mem_map_of_mem he
    obtain ⟨f, hf, heq⟩ := List.mem_map.1 hmem
    refine ⟨f, hf, heq, ?_⟩
    rw [← heq, Execution.stagingName?, Path.fileName?_join (h.plain t ht f hf).1]
  have hnodup : (t.outputPorts.toList.map (·.2)).Nodup := by
    refine (congrArg List.Nodup hvalues).mp (List.Nodup.map_on (fun f hf f' hf' heq => ?_)
      (h.nodup t ht))
    exact Path.join_inj (h.plain t ht f hf).1 (h.plain t ht f' hf').1 out heq
  refine Execution.separate_iff.2 ⟨fun e he => ?_, ?_⟩
  · obtain ⟨f, -, -, hstaged⟩ := hname e he
    rw [hstaged, Option.isSome_some]
  · refine (List.pairwise_map.1 hnodup).imp_of_mem fun {e e'} he he' hne heq => hne ?_
    obtain ⟨f, -, hpath, hstaged⟩ := hname e he
    obtain ⟨f', -, hpath', hstaged'⟩ := hname e' he'
    obtain rfl := Option.some.inj (hstaged.symm.trans (heq.trans hstaged'))
    exact hpath.symm.trans hpath'

/-! ## Conduct -/

/-- How the task at a position ends, if `judged` says which verdicts on it are allowed. -/
def EndsAs (g : TaskGraph Work) (plan : Plan) (σ : Site) (judged : Nat → Verdict → FileTree → Prop)
    (i : Nat) (state : TaskState) (w : World) : Prop :=
  ∃ t, g.tasks[i]? = some t ∧
    σ.Ends (g.stake i) t.name (plan.inputs[i]?.getD ∅).toList (judged i) state w

/-- What the task at a position has come to, and what its trail tells. -/
def ComesTo (g : TaskGraph Work) (plan : Plan) (σ : Site) (judged : Nat → Verdict → FileTree → Prop)
    (tidy : Prop) (launcher : Launcher) (context : RunContext) (i : Nat) (state : TaskState)
    (r : Site.Trail) (w : World) : Prop :=
  ∃ t, g.tasks[i]? = some t ∧ σ.Concluded (g.stake i) (judged i) tidy launcher context t
    (plan.inputs[i]?.getD ∅) t.files state r w

theorem ComesTo.ends {plan : Plan} {σ : Site} {judged : Nat → Verdict → FileTree → Prop}
    {tidy : Prop} {launcher : Launcher} {context : RunContext} {i : Nat} {state : TaskState}
    {r : Site.Trail} {w : World}
    (h : g.ComesTo plan σ judged tidy launcher context i state r w) :
    g.EndsAs plan σ judged i state w := by
  obtain ⟨t, ht, n, after, -, hclosed⟩ := h
  exact ⟨t, ht, hclosed.ends⟩

/-- What a pool of tasks needs to know of the verdicts on them, and of their commands; `tidy`
tells whether these leave nothing that cannot be removed. -/
structure Judges (g : TaskGraph Work) (plan : Plan) (σ : Site) (launcher : Launcher)
    (context : RunContext) (judged : Nat → Verdict → FileTree → Prop) (tidy : Prop) : Prop where
  kept : ∀ i v t t', judged i v t → σ.Kept (g.stake i) t t' → judged i v t'
  emitted : ∀ i t content files, g.tasks[i]? = some t → t.work = .emit content →
    judged i (.emitted content) files
  /-- What can be published does not replace what is fixed. -/
  target : ∀ t ∈ g.tasks, ∀ f ∈ t.files, σ.fixed (σ.shelf f) →
    σ.base.get? (σ.shelf f) = some .directory
  /-- A command that is run after all producers have ended comes to a verdict. -/
  launch : ∀ i t id w, g.tasks[i]? = some t → t.work = .block id →
    (∀ j, g.Feeds j i → ∃ state, g.EndsAs plan σ judged j state w) →
    ∀ n command w', (Execution.bindRun t (plan.inputs[i]?.getD ∅) (σ.scratch n)
        context).renderCommand = .ok command → σ.Kept (g.stake i) w.files w'.files →
      σ.Busy (g.stake i) t.name n (some n) w' → σ.Bare n w'.files →
      (∀ e ∈ (plan.inputs[i]?.getD ∅).toList, σ.Found w'.files e.2) →
      (launcher ⟨context.shell, command, σ.scratch n⟩).Meets
        (fun (_ : Unit) => σ.Undisturbed (g.stake i) n) (fun _ _ => σ.Within n)
        (fun _ r t' => ∀ result, r = .ok result →
          ∃ v, σ.Promised (judged i) tidy t.files n v result t') () w'.files

/-- Tasks that are laid out keep to their stakes. -/
theorem Laid.conduct (h : g.Laid out) {plan : Plan} (hplan : plan.Accounts g) {σ : Site}
    (hout : σ.out = out) {launcher : Launcher} {judged : Nat → Verdict → FileTree → Prop}
    {tidy : Prop} {s : Schedule Work} (hs : s.plan = plan)
    (hroot : s.context.scratchRoot = σ.scratchRoot)
    (hperform : s.perform = Work.perform launcher)
    (hjudges : g.Judges plan σ launcher s.context judged tidy) :
    Pool.Conduct σ s g g.stake (g.ComesTo plan σ judged tidy launcher s.context) where
  owned i j f hij hi hj := hij (h.eq_of_owns hi hj)
  node i j id hij hi hj := hij (h.eq_of_node hi hj)
  read i j f hi := by
    rintro ⟨k, u, hfeeds, hu, hf⟩
    exact h.eq_of_owns hi ⟨u, hu, hf⟩ ▸ hfeeds
  notScratch := by
    rintro i f ⟨t, ht, hf⟩
    exact (h.plain t (List.mem_of_getElem? ht) f hf).2
  stable := by
    rintro i state r w w' ⟨t, ht, hconcluded⟩ hw
    exact ⟨t, ht, hconcluded.of_rely (h.readsFrom hplan hout ht) (fun f hf => ⟨t, ht, hf⟩)
      (hjudges.kept i) hw⟩
  meets := by
    intro i t ht w hw hfresh hended
    -- A task does not feed itself, so it reads nothing that it owns.
    have hself : ∀ f, (g.stake i).owns f → ¬(g.stake i).reads f := by
      rintro f hi ⟨j, u, hfeeds, hu, hf⟩
      obtain rfl := h.eq_of_owns hi ⟨u, hu, hf⟩
      exact hplan.not_feeds_self i hfeeds
    have hpublishes := h.publishes hout ht
    have hended' : ∀ j, g.Feeds j i → ∃ state, g.EndsAs plan σ judged j state w := by
      intro j hj
      obtain ⟨state, r, hcomes⟩ := hended j hj
      exact ⟨state, hcomes.ends⟩
    show (Execution.execute s.perform s.context t (s.plan.inputs[i]?.getD ∅)).Meets _ _ _ _ _
    rw [hperform, hs]
    suffices hmeets : (Execution.execute (Work.perform launcher) s.context t
        (plan.inputs[i]?.getD ∅)).Meets (fun r => σ.Rely (g.stake i) r.held)
        (σ.Course (g.stake i)) (fun r outcome w => r.held = none ∧ ∀ state,
          outcome = .ok state → σ.Concluded (g.stake i) (judged i) tidy launcher s.context t
            (plan.inputs[i]?.getD ∅) t.files state r w) {} w from
      hmeets.mono (fun r outcome w hr => ⟨hr.1, fun state hstate => ⟨t, ht, hr.2 state hstate⟩⟩)
    cases hwork : t.work with
    | block id =>
      exact Site.meets_block hroot hwork (node?_eq_some.2 ⟨t, ht, hwork⟩)
        (h.readsFrom hplan hout ht) hself hpublishes (hjudges.kept i)
        (hjudges.launch i t id w ht hwork hended') hfresh
    | emit content =>
      obtain ⟨hports, f, hf⟩ := h.emits t (List.mem_of_getElem? ht) content hwork
      have hinputs : plan.inputs[i]?.getD ∅ = ∅ := by
        refine SortedMap.ext (fun port => ?_)
        rw [hplan.inputs i t ht, hports]
        rfl
      rw [hf] at hpublishes ⊢
      refine Site.meets_emit hroot hwork hinputs hpublishes ?_
        (fun files => hjudges.emitted i t content files ht hwork) (hjudges.kept i)
        (hjudges.target t (List.mem_of_getElem? ht) f (hf ▸ List.mem_singleton_self f)) hfresh
      rintro f' ⟨j, u, ⟨t', port, ref, path, ht', hport, -⟩, -, -⟩
      obtain rfl := Option.some.inj (ht.symm.trans ht')
      rw [hports] at hport
      cases hport

end TaskGraph

/-! ## Accepted graphs -/

namespace Graph

variable {g : Graph} {mode : Mode} {modules : BlockModules} {out : Path}

/-- Two tasks that publish one file are one task. -/
private theorem eq_of_mem_files (h : g.Accepted) {t u : Task Work}
    (ht : t ∈ g.tasks mode modules out) (hu : u ∈ g.tasks mode modules out) {f : String}
    (hft : f ∈ t.files) (hfu : f ∈ u.files) : t = u := by
  obtain ⟨id, node, hnode, ht⟩ := mem_tasks.1 ht
  obtain ⟨id', node', hnode', hu⟩ := mem_tasks.1 hu
  -- A process task does not publish the state of its node.
  have hstate : ∀ id node, g.node? id = some node →
      Naming.stateFile id node.kind ∉ (g.processTask mode modules out id node).files := by
    intro id node hnode hmem
    have hnodup := node.nodup_fileNames id
    unfold Node.fileNames at hnodup
    rw [List.nodup_cons] at hnodup
    refine hnodup.1 ((portsFor_sublist mode _ _ _).subset ?_)
    exact (h.files_processTask_perm hnode).mem_iff.1 hmem
  have hsame : id = id' ∧ node = node' :=
    eq_of_nodup_ofNodes h.fileNames hnode hnode' (h.mem_fileNames_of_task hnode ht hft)
      (h.mem_fileNames_of_task hnode' hu hfu)
  obtain ⟨rfl, rfl⟩ := hsame
  rcases ht with rfl | rfl <;> rcases hu with rfl | rfl
  · rfl
  · rw [h.files_stateTask hnode, List.mem_singleton] at hft
    exact absurd (hft ▸ hfu) (hstate id node hnode)
  · rw [h.files_stateTask hnode, List.mem_singleton] at hfu
    exact absurd (hfu ▸ hft) (hstate id node hnode)
  · rfl

/-- The tasks of an accepted graph have names, published files and nodes of their own. -/
theorem Accepted.laid_tasks (h : g.Accepted) {tasks : TaskGraph Work}
    (htasks : tasks.tasks = g.tasks mode modules out) : tasks.Laid out := by
  have hmem : ∀ t ∈ tasks.tasks, ∃ id node, g.node? id = some node ∧
      (t = stateTask out id node ∨ t = g.processTask mode modules out id node) :=
    fun t ht => mem_tasks.1 (htasks ▸ ht)
  -- A task is the state task or the process task of a node.
  refine {
    names := htasks ▸ h.nodup_taskNames mode modules out
    published := fun t ht => ?published
    plain := fun t ht f hf => ?plain
    nodup := fun t ht => ?nodup
    apart := fun t ht u hu f hft hfu => ?apart
    nodes := fun t ht u hu id hwork hwork' => ?nodes
    emits := fun t ht content hwork => ?emits }
  case published =>
    obtain ⟨id, node, hnode, rfl | rfl⟩ := hmem t ht
    · refine Task.map_join_files (fun p hp => ?_)
      obtain rfl := List.mem_singleton.1 hp
      exact ⟨_, (h.plain_of_mem_fileNames hnode List.mem_cons_self).1, rfl⟩
    · exact Task.map_join_files (h.values_processTask hnode)
  case plain =>
    obtain ⟨id, node, hnode, htask⟩ := hmem t ht
    exact h.plain_of_mem_fileNames hnode (h.mem_fileNames_of_task hnode htask hf)
  case nodup =>
    obtain ⟨id, node, hnode, rfl | rfl⟩ := hmem t ht
    · rw [h.files_stateTask hnode]
      exact List.nodup_singleton _
    · exact h.nodup_files_processTask hnode
  case apart => exact congrArg _ (eq_of_mem_files h (htasks ▸ ht) (htasks ▸ hu) hft hfu)
  case nodes =>
    obtain ⟨id', node, hnode, rfl | rfl⟩ := hmem t ht
    · cases hwork
    · obtain ⟨id'', node', hnode', rfl | rfl⟩ := hmem u hu
      · cases hwork'
      · obtain rfl := Work.block.inj hwork
        obtain rfl := Work.block.inj hwork'
        rw [Option.some.inj (hnode.symm.trans hnode')]
  case emits =>
    obtain ⟨id, node, hnode, rfl | rfl⟩ := hmem t ht
    · exact ⟨rfl, _, h.files_stateTask hnode⟩
    · cases hwork

/-- No two files of a task of an accepted graph are staged in one place. -/
theorem Accepted.separate_tasks (h : g.Accepted) {t : Task Work}
    (ht : t ∈ g.tasks mode modules out) : Execution.Separate t.outputPorts := by
  have hlaid : (⟨"", mode, 0, g.tasks mode modules out⟩ : TaskGraph Work).Laid out :=
    h.laid_tasks rfl
  exact hlaid.separate ht

end Graph

end BlockFlow
