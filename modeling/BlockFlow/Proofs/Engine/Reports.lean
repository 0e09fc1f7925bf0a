import BlockFlow.Proofs.Engine.Meets
import BlockFlow.Proofs.Engine.Stages

/-!
# What a task reports

A block task reports at most one failure, and only of its own node: it has found all of its
input files, has run its command, and the command has not succeeded. So the collector has of
a node what the task of the node has reported, whatever the other tasks do.

## Key results

- `Execution.Answered.unique`: a task runs its command once
- `Execution.looked_of_skipped`: a skipped task runs none
- `Execution.meets_told`: how an execution ends, and what it has reported
- `Schedule.toldAt_of_ran`: what the collector has of the tasks of a run
-/

namespace BlockFlow

/-- Others leave alone what has been reported of a node. -/
def Heeds (node : Option NodeId) (_ : List World) (w w' : World) : Prop :=
  ∀ id, node = some id → w'.cell id = w.cell id

/-- A step is written down, and reports nothing of other nodes. -/
def Minds (node : Option NodeId) (ws ws' : List World) (w w' : World) : Prop :=
  ws' = ws ++ [w] ∧ ∀ id, node ≠ some id → w'.cell id = w.cell id

/-- What reports nothing goes through its steps, and they are written down. -/
theorem Fiber.meets_quiet {α : Type} {node : Option NodeId} {p : Fiber World α}
    (hp : p.Always (fun w w' => ∀ id, w'.cell id = w.cell id)) (ws : List World) (w : World) :
    p.Meets (Heeds node) (Minds node) (fun ws' a w' => (∃ vs, ws' = ws ++ vs ∧ p.Ends vs a) ∧
      ∀ id, node = some id → w'.cell id = w.cell id) ws w := by
  induction p generalizing ws w with
  | done a => exact ⟨⟨[], (List.append_nil ws).symm, rfl, rfl⟩, fun _ _ => rfl⟩
  | step act next ih =>
    intro w' hw'
    refine ⟨ws ++ [w'], ⟨rfl, fun id _ => hp.1 w' id⟩, ?_⟩
    refine (ih _ (hp.2 _) (ws ++ [w']) (act w').1).mono ?_
    rintro ws' a w'' ⟨⟨vs, rfl, hends⟩, hcell⟩
    refine ⟨⟨w' :: vs, by simp, hends⟩, fun id hid => ?_⟩
    exact (hcell id hid).trans ((hp.1 w' id).trans (hw' id hid))

namespace Execution

variable {β : Type}

/-- In the worlds `ws` a task was started, got a scratch directory, and found no file at
`ports`; the worlds `rest` came after that. -/
def Looked (context : RunContext) (task : Task β) (inputs : NameMap (Option Path))
    (ws : List World) (scratch : Path) (ports : List String) (rest : List World) : Prop :=
  ∃ begun made looking files, ws = begun :: made :: (looking ++ rest) ∧
    made.files.mkdirFresh context.scratchRoot (scratchStem task.name) = .ok (files, scratch) ∧
    (bindRun task inputs scratch context).missingInputs.onWorld.run.Ends looking (.ok ports)

/-- In the worlds `ws` a task found all of its files and then ran its command, which has ended
with `result`. -/
def Answered (launcher : Launcher) (context : RunContext) (task : Task β)
    (inputs : NameMap (Option Path)) (ws : List World) (result : CommandResult) : Prop :=
  ∃ scratch running rest command, Looked context task inputs ws scratch [] (running ++ rest) ∧
    (bindRun task inputs scratch context).renderCommand = .ok command ∧
    (launcher ⟨context.shell, command, scratch⟩).onFiles.Ends running (.ok result)

variable {launcher : Launcher} {context : RunContext} {inputs : NameMap (Option Path)}
  {ws vs rest rest' : List World} {scratch scratch' : Path} {ports ports' : List String}
  {result result' : CommandResult}

section Telling

variable {task : Task β}

theorem Looked.append (h : Looked context task inputs ws scratch ports rest) (vs : List World) :
    Looked context task inputs (ws ++ vs) scratch ports (rest ++ vs) := by
  obtain ⟨begun, made, looking, files, rfl, hmade, hlooking⟩ := h
  exact ⟨begun, made, looking, files, by simp, hmade, hlooking⟩

theorem Looked.unique (h : Looked context task inputs ws scratch ports rest)
    (h' : Looked context task inputs ws scratch' ports' rest') :
    scratch = scratch' ∧ ports = ports' ∧ rest = rest' := by
  obtain ⟨begun, made, looking, files, rfl, hmade, hlooking⟩ := h
  obtain ⟨begun', made', looking', files', hws, hmade', hlooking'⟩ := h'
  obtain ⟨-, hmades⟩ := List.cons.inj hws
  obtain ⟨rfl, hlooks⟩ := List.cons.inj hmades
  obtain ⟨rfl, rfl⟩ := Prod.mk.inj (Except.ok.inj (hmade.symm.trans hmade'))
  obtain ⟨-, hports, hrest⟩ := hlooking.unique hlooking' hlooks
  exact ⟨rfl, Except.ok.inj hports, hrest⟩

theorem Answered.append (h : Answered launcher context task inputs ws result)
    (vs : List World) : Answered launcher context task inputs (ws ++ vs) result := by
  obtain ⟨scratch, running, rest, command, hlooked, hcommand, hrunning⟩ := h
  refine ⟨scratch, running, rest ++ vs, command, ?_, hcommand, hrunning⟩
  rw [← List.append_assoc]
  exact hlooked.append vs

/-- A task runs its command once. -/
theorem Answered.unique (h : Answered launcher context task inputs ws result)
    (h' : Answered launcher context task inputs ws result') : result = result' := by
  obtain ⟨scratch, running, rest, command, hlooked, hcommand, hrunning⟩ := h
  obtain ⟨scratch', running', rest', command', hlooked', hcommand', hrunning'⟩ := h'
  obtain ⟨rfl, -, hrest⟩ := hlooked.unique hlooked'
  obtain rfl := Except.ok.inj (hcommand.symm.trans hcommand')
  exact Except.ok.inj (hrunning.unique hrunning' hrest).2.1

end Telling

variable {task : Task Work} {state : TaskState} {w w' : World} {node : NodeId}

/-- A block program that is skipped has looked for its files and missed some. -/
private theorem ends_runBlock_skipped {run : TaskRun}
    (h : (run.runBlock launcher node).run.Ends ws (.ok .skipped)) :
    ∃ ports, ports ≠ [] ∧ run.missingInputs.onWorld.run.Ends ws (.ok ports) := by
  obtain ⟨looking, found, rest, rfl, hlooking, h⟩ := TaskRun.ends_runBlock h
  rcases found with e | _ | ⟨port, ports⟩
  · cases h.2
  · rcases h .skipped rfl with h | h <;> cases h
  · obtain ⟨rfl, -⟩ := h
    exact ⟨port :: ports, List.cons_ne_nil _ _, by rwa [List.append_nil]⟩

/-- A skipped task has missed some of its files, and has done no more than to give up its scratch
directory and to close its sink. -/
theorem looked_of_skipped (hwork : task.work = .block node)
    (h : (execute (Work.perform launcher) context task inputs).Ends ws (.ok .skipped)) :
    ∃ scratch ports removing closing, ports ≠ [] ∧
      Looked context task inputs ws scratch ports [removing, closing] := by
  cases taken_of_ends h with
  | @worked begun made removing closing work publishing files scratch _ hmade hperformed _ hothers =>
    obtain rfl := hothers (by simp)
    rw [hwork] at hperformed
    obtain ⟨ports, hports, hlooking⟩ := ends_runBlock_skipped hperformed
    exact ⟨scratch, ports, removing, closing, hports, begun, made, work, files, rfl, hmade,
      hlooking⟩

/-- How a task has ended in the worlds `ws`, and what has been reported of its node. -/
inductive Told (launcher : Launcher) (context : RunContext) (task : Task Work)
    (inputs : NameMap (Option Path)) (ws : List World) : TaskState → World → Prop
  | emitted {w : World} (hwork : task.work.node? = none) :
      Told launcher context task inputs ws .succeeded w
  | skipped {w : World} {node : NodeId} {scratch : Path} {ports : List String}
      {rest : List World} (hwork : task.work.node? = some node)
      (hlooked : Looked context task inputs ws scratch ports rest) (hports : ports ≠ [])
      (hcell : w.cell node = none) : Told launcher context task inputs ws .skipped w
  | succeeded {w : World} {node : NodeId} {result : CommandResult}
      (hwork : task.work.node? = some node)
      (hanswer : Answered launcher context task inputs ws result)
      (hstatus : result.succeeded = true) (hcell : w.cell node = none) :
      Told launcher context task inputs ws .succeeded w
  | failed {w : World} {node : NodeId} {result : CommandResult}
      (hwork : task.work.node? = some node)
      (hanswer : Answered launcher context task inputs ws result)
      (hstatus : result.succeeded = false)
      (hcell : w.cell node = some (Text.lossy result.output)) :
      Told launcher context task inputs ws .failed w

/-- What has been told stands, as long as nobody else reports of the node. -/
theorem Told.append (h : Told launcher context task inputs ws state w) (vs : List World)
    (hcell : ∀ id, task.work.node? = some id → w'.cell id = w.cell id) :
    Told launcher context task inputs (ws ++ vs) state w' := by
  cases h with
  | emitted hwork => exact .emitted hwork
  | skipped hwork hlooked hports hnone =>
    exact .skipped hwork (hlooked.append vs) hports ((hcell _ hwork).trans hnone)
  | succeeded hwork hanswer hstatus hnone =>
    exact .succeeded hwork (hanswer.append vs) hstatus ((hcell _ hwork).trans hnone)
  | failed hwork hanswer hstatus hsome =>
    exact .failed hwork (hanswer.append vs) hstatus ((hcell _ hwork).trans hsome)

/-- A task without a command succeeds. -/
theorem Told.succeeded_of_emit (h : Told launcher context task inputs ws state w)
    (hwork : task.work.node? = none) : state = .succeeded := by
  cases h with
  | emitted => rfl
  | skipped hnode => rw [hwork] at hnode; cases hnode
  | succeeded => rfl
  | failed hnode => rw [hwork] at hnode; cases hnode

/-- There is a report of a node if and only if its task has failed. -/
theorem Told.isSome_cell_iff (h : Told launcher context task inputs ws state w) {id : NodeId}
    (hid : task.work.node? = some id) : (w.cell id).isSome ↔ state = .failed := by
  cases h with
  | emitted hwork => rw [hwork] at hid; cases hid
  | skipped hwork _ _ hcell =>
    obtain rfl := Option.some.inj (hwork.symm.trans hid)
    simp [hcell]
  | succeeded hwork _ _ hcell =>
    obtain rfl := Option.some.inj (hwork.symm.trans hid)
    simp [hcell]
  | failed hwork _ _ hcell =>
    obtain rfl := Option.some.inj (hwork.symm.trans hid)
    simp [hcell]

/-- The report of a node is what its command has written, if that has not succeeded. -/
theorem Told.cell_eq_some_iff (h : Told launcher context task inputs ws state w) {id : NodeId}
    (hid : task.work.node? = some id) {output : String} :
    w.cell id = some output ↔ ∃ result, Answered launcher context task inputs ws result ∧
      result.succeeded = false ∧ output = Text.lossy result.output := by
  cases h with
  | emitted hwork => rw [hwork] at hid; cases hid
  | skipped hwork hlooked hports hcell =>
    obtain rfl := Option.some.inj (hwork.symm.trans hid)
    rw [hcell]
    refine ⟨fun hnone => (Option.some_ne_none _ hnone.symm).elim, ?_⟩
    rintro ⟨result, ⟨scratch, running, rest, command, hlooked', -⟩, -, -⟩
    -- The task has looked once, and has not run its command.
    exact absurd (hlooked.unique hlooked').2.1 hports
  | succeeded hwork hanswer hstatus hcell =>
    obtain rfl := Option.some.inj (hwork.symm.trans hid)
    rw [hcell]
    refine ⟨fun hnone => (Option.some_ne_none _ hnone.symm).elim, ?_⟩
    rintro ⟨result, hanswer', hstatus', -⟩
    rw [hanswer.unique hanswer', hstatus'] at hstatus
    cases hstatus
  | failed hwork hanswer hstatus hcell =>
    obtain rfl := Option.some.inj (hwork.symm.trans hid)
    rw [hcell, Option.some.injEq]
    constructor
    · rintro rfl
      exact ⟨_, hanswer, hstatus, rfl⟩
    · rintro ⟨result, hanswer', -, rfl⟩
      rw [hanswer.unique hanswer']

/-- What is known when an execution, or a part of it, has ended. -/
def Telling (launcher : Launcher) (context : RunContext) (task : Task Work)
    (inputs : NameMap (Option Path)) (ws : List World) (r : Except ExecutionError TaskState)
    (w : World) : Prop :=
  ∀ state, r = .ok state → Told launcher context task inputs ws state w

/-- What follows the work of a task, and reports nothing, changes nothing of what is told. -/
private theorem meets_telling {α : Type} {r : Except ExecutionError TaskState}
    {p : Fiber World α} (hp : p.Always (fun w w' => ∀ id, w'.cell id = w.cell id))
    (h : Telling launcher context task inputs ws r w) :
    (p >>= fun _ => pure r).Meets (Heeds task.work.node?) (Minds task.work.node?)
      (Telling launcher context task inputs) ws w := by
  refine Fiber.meets_bind (Fiber.meets_quiet hp ws w) ?_
  rintro ws' a w' ⟨⟨vs, rfl, -⟩, hcell⟩
  exact fun state hs => (h state hs).append vs hcell

/-- The work of a block task in its scratch directory tells how it has ended. -/
private theorem meets_runBlock {node : NodeId} (hwork : task.work.node? = some node)
    {begun made : World} {files : FileTree}
    (hmade : made.files.mkdirFresh context.scratchRoot (scratchStem task.name) =
      .ok (files, scratch)) (hfresh : w.cell node = none) :
    ((bindRun task inputs scratch context).runBlock launcher node).run.Meets
      (Heeds task.work.node?) (Minds task.work.node?)
      (Telling launcher context task inputs) [begun, made] w := by
  have hfiles : ∀ (w : World) files, ∀ id, ({ w with files } : World).cell id = w.cell id :=
    fun _ _ _ => rfl
  have hlooked : ∀ {looking : List World} {ports : List String},
      (bindRun task inputs scratch context).missingInputs.onWorld.run.Ends looking (.ok ports) →
        Looked context task inputs ([begun, made] ++ looking) scratch ports [] :=
    fun hlooking => ⟨begun, made, _, files, by simp, hmade, hlooking⟩
  refine TaskRun.meets_runBlock (Q := fun ws answer w' =>
      (∀ result, answer = .ok result → Answered launcher context task inputs ws result) ∧
        w'.cell node = none) (Fiber.meets_quiet (Fiber.always_onFiles hfiles _) _ w) ?skipped ?ran
    ?succeeded ?failed (fun _ _ _ _ _ hs => by cases hs) (fun _ _ _ _ _ hs => by cases hs)
    (fun _ _ _ _ _ hs => by cases hs)
  case skipped =>
    rintro _ ports w' ⟨⟨looking, rfl, hlooking⟩, hcell⟩ hne state hs
    obtain rfl := Except.ok.inj hs
    exact .skipped hwork (hlooked hlooking) hne ((hcell node hwork).trans hfresh)
  case ran =>
    rintro _ w' command ⟨⟨looking, rfl, hlooking⟩, hcell⟩ hcommand
    -- The command reports nothing itself: it only changes files.
    refine (Fiber.meets_quiet (Fiber.always_onFiles hfiles _) _ w').mono ?_
    rintro _ answer w'' ⟨⟨running, rfl, hrunning⟩, hcell'⟩
    refine ⟨fun result hresult => ?_,
      (hcell' node hwork).trans ((hcell node hwork).trans hfresh)⟩
    refine ⟨scratch, running, [], command, ?_, hcommand, hresult ▸ hrunning⟩
    rw [List.append_nil]
    exact (hlooked hlooking).append running
  case succeeded =>
    rintro ws' result w' ⟨hanswered, hfresh'⟩ hstatus state hs
    obtain rfl := Except.ok.inj hs
    exact .succeeded hwork (hanswered result rfl) hstatus hfresh'
  case failed =>
    rintro ws' result w' ⟨hanswered, -⟩ hstatus
    refine Fiber.meets_change fun w'' hw'' => ⟨ws' ++ [w''], ⟨rfl, fun id hid => ?_⟩, ?_⟩
    · exact World.cell_emit_of_ne (fun heq => hid (hwork.trans (congrArg some heq)))
    · rintro state hs
      obtain rfl := Except.ok.inj hs
      exact .failed hwork ((hanswered result rfl).append _) hstatus (World.cell_emit _ _ _)

/-- An execution of a compiled task tells how it has ended: what it reports is what its command
has written, if that has not succeeded. -/
theorem meets_told (hfresh : ∀ id, task.work.node? = some id → w.cell id = none) :
    (execute (Work.perform launcher) context task inputs).Meets (Heeds task.work.node?)
      (Minds task.work.node?) (Telling launcher context task inputs) [] w := by
  have hfiles : ∀ (w : World) files, ∀ id, ({ w with files } : World).cell id = w.cell id :=
    fun _ _ _ => rfl
  rw [execute_eq]
  -- Before the work no step touches the cell of the node, and none after it.
  refine Fiber.meets_bind (Fiber.meets_quiet (Fiber.always_act fun _ _ => rfl) [] w) ?_
  rintro ws' u w₁ ⟨⟨vs, rfl, hbegun⟩, hcell₁⟩
  obtain ⟨begun, rfl, -⟩ := Fiber.ends_act.1 hbegun
  refine Fiber.meets_bind (Fiber.meets_quiet (Fiber.always_onFiles hfiles _) _ w₁) ?_
  rintro ws' attempted w₂ ⟨⟨vs, rfl, hattempt⟩, hcell₂⟩
  obtain ⟨made, rfl, hmade⟩ := Fiber.ends_onFiles_attempt.1 hattempt
  have hfresh₂ : ∀ id, task.work.node? = some id → w₂.cell id = none := fun id hid =>
    (hcell₂ id hid).trans ((hcell₁ id hid).trans (hfresh id hid))
  refine Fiber.meets_bind (Q := Telling launcher context task inputs) ?_
    (fun ws' r w' htold => meets_telling (Fiber.always_act fun _ _ => rfl) htold)
  cases attempted with
  | error cause => exact fun state hs => by cases hs
  | ok scratch =>
    obtain ⟨files, hmade⟩ := hmade
    refine Fiber.meets_bind (Q := Telling launcher context task inputs) ?_
      (fun ws' r w' htold => meets_telling (Fiber.always_onFiles hfiles _) htold)
    refine Fiber.meets_bind (Q := Telling launcher context task inputs) ?_
      (fun ws' r w' htold => ?_)
    · cases hwork : task.work with
      | emit content =>
        refine Fiber.meets_exceptT_bind (Q := fun _ _ _ => True)
          ((Fiber.meets_quiet (Fiber.always_onFiles hfiles _) _ w₂).mono fun _ _ _ _ => trivial)
          (fun ws' u w' _ state hs => ?_) (fun ws' e w' _ state hs => by cases hs)
        obtain rfl := Except.ok.inj hs
        exact .emitted (by rw [hwork]; rfl)
      | block node =>
        have hnode : task.work.node? = some node := by rw [hwork]; rfl
        show ((bindRun task inputs scratch context).runBlock launcher node).run.Meets _ _ _ _ _
        rw [← hwork]
        exact meets_runBlock hnode hmade (hfresh₂ node hnode)
    · split
      · exact meets_telling (Fiber.always_onFiles hfiles _) htold
      · exact htold

end Execution

/-! ## Side by side -/

namespace Schedule

/-- Tasks at different positions work for different nodes. -/
def NodesApart (s : Schedule Work) : Prop :=
  ∀ (i j : Nat) (t u : Task Work) (id : NodeId), s.tasks[i]? = some t → s.tasks[j]? = some u →
    t.work.node? = some id → u.work.node? = some id → i = j

/-- What the collector has of the tasks in flight and of the completed ones. -/
structure ToldAt (s : Schedule Work) (launcher : Launcher) (log : List (Nat × World))
    (p : Progress) : Prop where
  /-- Nobody has reported of a node that no task works for. -/
  foreign : ∀ id, (∀ t ∈ s.tasks, t.work.node? ≠ some id) → p.world.cell id = none
  completed : ∀ i state, (i, state) ∈ p.completed → ∃ t, s.tasks[i]? = some t ∧
    Execution.Told launcher s.context t (s.plan.inputs[i]?.getD ∅) (worldsOf log i) state p.world

/-- What is reported of the tasks, stage by stage. -/
private def reportStages (s : Schedule Work) (launcher : Launcher) : Stages where
  common w := ∀ id, (∀ t ∈ s.tasks, t.work.node? ≠ some id) → w.cell id = none
  waiting i w := ∀ t, s.tasks[i]? = some t → ∀ id, t.work.node? = some id → w.cell id = none
  inFlight i ws fiber w := ∃ t, s.tasks[i]? = some t ∧
    fiber.Meets (Heeds t.work.node?) (Minds t.work.node?)
      (Execution.Telling launcher s.context t (s.plan.inputs[i]?.getD ∅)) ws w
  completed i ws state w := ∃ t, s.tasks[i]? = some t ∧
    Execution.Told launcher s.context t (s.plan.inputs[i]?.getD ∅) ws state w

variable {launcher : Launcher} {s : Schedule Work}

/-- What leaves alone the node of a task leaves alone what is said of the task. -/
private theorem outlasts_of_cell {i : Nat} {w w' : World}
    (hcell : ∀ t, s.tasks[i]? = some t → ∀ id, t.work.node? = some id →
      w'.cell id = w.cell id) : (reportStages s launcher).Outlasts i w w' where
  waiting h t ht id hid := (hcell t ht id hid).trans (h t ht id hid)
  -- What is told of a task depends on the cell of its node, and on no other part of the world.
  inFlight := by
    rintro ws fiber ⟨t, ht, hmeets⟩
    refine ⟨t, ht, hmeets.of_rely (fun _ _ _ _ h h' id hid => (h' id hid).trans (h id hid)) ?_
      (hcell t ht)⟩
    intro ws r w w' htold hheeds state hs
    have := (htold state hs).append [] hheeds
    rwa [List.append_nil] at this
  completed := by
    rintro ws state ⟨t, ht, htold⟩
    have := htold.append [] (hcell t ht)
    rw [List.append_nil] at this
    exact ⟨t, ht, this⟩

private theorem kept_reportStages (hperform : s.perform = Work.perform launcher)
    (hapart : s.NodesApart) : (reportStages s launcher).Kept s where
  start i t w ht hwaiting := by
    refine ⟨t, ht, ?_⟩
    rw [Schedule.fiberAt, hperform]
    exact Execution.meets_told (hwaiting t ht)
  advance i ws γ act next w := by
    rintro ⟨t, ht, hmeets⟩
    obtain ⟨ws', ⟨rfl, -⟩, hnext⟩ := hmeets w (fun _ _ => rfl)
    exact ⟨t, ht, hnext⟩
  join i ws state w := fun ⟨t, ht, htold⟩ => ⟨t, ht, htold state rfl⟩
  others i j ws γ act next w hij := by
    rintro ⟨t, ht, hmeets⟩
    obtain ⟨ws', ⟨-, hcell⟩, -⟩ := hmeets w (fun _ _ => rfl)
    refine outlasts_of_cell (fun u hu id hid => hcell id (fun hid' => ?_))
    -- No other task reports for the same node.
    exact hij (hapart i j t u id ht hu hid' hid)
  engine j w w' _ hcell := outlasts_of_cell (fun _ _ id _ => hcell id)
  commonStep i ws γ act next w := by
    rintro ⟨t, ht, hmeets⟩ hcommon id hid
    obtain ⟨ws', ⟨-, hcell⟩, -⟩ := hmeets w (fun _ _ => rfl)
    exact (hcell id (hid t (List.mem_of_getElem? ht))).trans (hcommon id hid)
  commonEngine w w' _ hcell hcommon id hid := (hcell id).trans (hcommon id hid)

/-- Throughout a run the collector has, or will have, exactly what the completed tasks have
reported. -/
theorem toldAt_of_ran {g : TaskGraph Work} (hs : s.Serves g)
    (hperform : s.perform = Work.perform launcher) (hapart : s.NodesApart)
    {P : Progress → Prop} {w : World} (hcell : ∀ id, w.cell id = none) {p : Progress}
    {log : List (Nat × World)} (h : s.Ran P (s.begin w) log p) : s.ToldAt launcher log p := by
  have hholds := Stages.holds_of_ran hs (kept_reportStages hperform hapart)
    (fun id _ => hcell id) (fun _ _ _ id _ => hcell id) h
  exact ⟨hholds.common, hholds.completed⟩

end Schedule

end BlockFlow
