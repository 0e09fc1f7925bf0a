import BlockFlow.Proofs.Engine.Aborts

/-!
# Outputs that are not published

No publication ends a run: what cannot be moved stays where it is, and the task has succeeded all
the same. A block task that reads an output that is not there looks at the paths of its input
files one after the other. It is skipped if looking at each path gives an answer, and it ends the
run if looking at one of them fails otherwise than because nothing is there, as it does when the
path leads through a file, or has too long a name.

## Key results

- `TaskRun.sought_of_ends`: what comes of looking for files
- `Execution.unfed_of_ends`: how an execution ends that lacks one of its files
- `unpublished_skips_or_aborts`: what becomes of a run when an output is not there
-/

namespace BlockFlow

/-- Looking at a path gives an answer, which may be that nothing is there. -/
def FileTree.Answers (files : FileTree) (path : Path) : Prop :=
  ∀ cause, files.stat path = .error cause → cause = .notFound

/-! ## Looking for files -/

namespace TaskRun

variable {task : String} {ports : List (String × Option Path)} {seen : List FileTree}
  {r : Except ExecutionError (List String)}

/-- What comes of looking for the files at some ports, in the trees `seen`: each path has given an
answer, and its port is among the missing ones unless there was a file; or one path has given
none, and the run is to be aborted. -/
def Sought (task : String) (ports : List (String × Option Path)) (seen : List FileTree) :
    Except ExecutionError (List String) → Prop
  | .ok missing => ∀ port path, (port, some path) ∈ ports → ∃ files ∈ seen,
      files.Answers path ∧ (files.isFile path = true ∨ port ∈ missing)
  | .error e => ∃ port path files cause, (port, some path) ∈ ports ∧ files ∈ seen ∧
      files.stat path = .error cause ∧ cause ≠ .notFound ∧ e = .io task cause

/-- One more port is looked at before the others, and does not end the search. -/
theorem Sought.cons {e : String × Option Path} {first : List FileTree} {missing : List String}
    (hfirst : ∀ port path, e = (port, some path) → ∃ files ∈ first,
      files.Answers path ∧ (files.isFile path = true ∨ port ∈ missing))
    (h : Sought task ports seen r) :
    Sought task (e :: ports) (first ++ seen) (r.map (missing ++ ·)) := by
  cases r with
  | error cause =>
    obtain ⟨port, path, files, cause, hport, hfiles, hstat⟩ := h
    exact ⟨port, path, files, cause, List.mem_cons_of_mem e hport,
      List.mem_append_right first hfiles, hstat⟩
  | ok others =>
    intro port path hport
    -- Either the first port is asked for, or one of the others.
    rcases List.mem_cons.1 hport with heq | hport
    · obtain ⟨files, hfiles, hanswers, hfound⟩ := hfirst port path heq.symm
      exact ⟨files, List.mem_append_left seen hfiles, hanswers,
        hfound.imp_right (List.mem_append_left others)⟩
    · obtain ⟨files, hfiles, hanswers, hfound⟩ := h port path hport
      exact ⟨files, List.mem_append_right first hfiles, hanswers,
        hfound.imp_right (List.mem_append_right missing)⟩

/-- To look takes one step, and cannot fail. -/
private theorem ends_lift_look {α : Type} {f : FileTree → α} {seen : List FileTree}
    {outcome : Except ExecutionError α}
    (h : (ExceptT.lift (Fiber.look f) : FileFiber α).run.Ends seen outcome) :
    ∃ files, seen = [files] ∧ outcome = .ok (f files) := by
  change (Fiber.look f >>= fun a => pure (Except.ok a)).Ends seen outcome at h
  obtain ⟨_, _, _, rfl, hlook, hpure⟩ := Fiber.ends_bind.1 h
  obtain ⟨files, rfl, rfl⟩ := Fiber.ends_act.1 hlook
  obtain ⟨rfl, rfl⟩ := Fiber.ends_pure.1 hpure
  exact ⟨files, rfl, rfl⟩

/-- A port that is missing goes in front of those that are missing after it. -/
private theorem sought_of_missed {e : String × Option Path} {first : List FileTree} {port : String}
    (ih : ∀ {seen r}, (missingFrom task ports).run.Ends seen r → Sought task ports seen r)
    (hfirst : ∀ port' path, e = (port', some path) → ∃ files ∈ first,
      files.Answers path ∧ (files.isFile path = true ∨ port' ∈ [port]))
    (h : (do return port :: (← missingFrom task ports) : FileFiber (List String)).run.Ends seen
      r) : Sought task (e :: ports) (first ++ seen) r := by
  obtain ⟨looking, outcome, _, rfl, hlooking, hlast⟩ := Fiber.ends_exceptT_bind h
  have hcons : Sought task (e :: ports) (first ++ looking) (outcome.map ([port] ++ ·)) :=
    (ih hlooking).cons hfirst
  cases outcome with
  | error e =>
    obtain ⟨rfl, rfl⟩ := hlast
    rwa [List.append_nil]
  | ok others =>
    obtain ⟨rfl, rfl⟩ := Fiber.ends_pure.1 hlast
    rwa [List.append_nil]

/-- A search ends with an answer for every path, or with the first path that gives none. -/
theorem sought_of_ends (h : (missingFrom task ports).run.Ends seen r) :
    Sought task ports seen r := by
  induction ports generalizing seen r with
  | nil =>
    obtain ⟨-, rfl⟩ := Fiber.ends_pure.1 h
    exact fun port path hport => absurd hport List.not_mem_nil
  | cons e rest ih =>
    obtain ⟨port, _ | path⟩ := e
    · -- Without a path nothing is looked at, and the port is missing.
      have hnone : ∀ port' path, (port, (none : Option Path)) = (port', some path) →
          ∃ files ∈ ([] : List FileTree), files.Answers path ∧
            (files.isFile path = true ∨ port' ∈ [port]) := fun _ _ heq => nomatch heq
      exact sought_of_missed ih hnone h
    rw [missingFrom] at h
    obtain ⟨_, _, after, rfl, hlook, hlooked⟩ := Fiber.ends_exceptT_bind h
    obtain ⟨files, rfl, rfl⟩ := ends_lift_look hlook
    have hfirst : ∀ {missing : List String}, files.Answers path →
        (files.isFile path = true ∨ port ∈ missing) →
        ∀ port' path', (port, some path) = (port', some path') →
          ∃ seen ∈ ([files] : List FileTree), seen.Answers path' ∧
            (seen.isFile path' = true ∨ port' ∈ missing) := by
      rintro missing hanswers hfound _ _ ⟨⟩
      exact ⟨files, List.mem_singleton_self files, hanswers, hfound⟩
    have hanswers : ∀ {entry}, files.stat path = .ok entry → files.Answers path :=
      fun hstat cause hcause => nomatch hstat.symm.trans hcause
    simp only at hlooked
    split at hlooked
    · next c hstat =>
      have hfile : files.isFile path = true := by rw [FileTree.isFile, hstat]
      have hcons : Sought task ((port, some path) :: rest) ([files] ++ after) (r.map ([] ++ ·)) :=
        (ih hlooked).cons (hfirst (hanswers hstat) (.inl hfile))
      cases r with
      | error e => exact hcons
      | ok others => exact hcons
    · next hstat =>
      exact sought_of_missed ih
        (hfirst (hanswers hstat) (.inr (List.mem_singleton_self port))) hlooked
    · next hstat =>
      have hnothing : files.Answers path := fun cause hcause =>
        (Except.error.inj (hstat.symm.trans hcause)).symm
      exact sought_of_missed ih (hfirst hnothing (.inr (List.mem_singleton_self port))) hlooked
    · next cause hcause hstat =>
      obtain ⟨rfl, rfl⟩ := Fiber.ends_pure.1 hlooked
      exact ⟨port, path, files, cause, List.mem_cons_self, List.mem_append_left _
        (List.mem_singleton_self files), hstat, hcause, rfl⟩

end TaskRun

/-! ## Executions that lack a file -/

namespace Execution

variable {β : Type} {context : RunContext} {task : Task β} {inputs : NameMap (Option Path)}
  {ws ws' : List World} {r : Except ExecutionError TaskState}

/-- How a block task ends in the worlds `ws` if one of its files is not there: it gets no scratch
directory, or each of its paths has given an answer and it is skipped, or one has given none. -/
inductive Unfed (context : RunContext) (task : Task β) (inputs : NameMap (Option Path))
    (ws : List World) : Except ExecutionError TaskState → Prop
  | unhoused {w : World} {cause : FileError} (hw : w ∈ ws)
      (hmade : w.files.mkdirFresh context.scratchRoot (scratchStem task.name) = .error cause) :
      Unfed context task inputs ws (.error (.setup context.scratchRoot cause))
  | skipped (hanswers : ∀ port path, inputs.get? port = some (some path) →
      ∃ w ∈ ws, w.files.Answers path) : Unfed context task inputs ws (.ok .skipped)
  | unanswered {w : World} {port : String} {path : Path} {cause : FileError} (hw : w ∈ ws)
      (hport : inputs.get? port = some (some path)) (hstat : w.files.stat path = .error cause)
      (hcause : cause ≠ .notFound) : Unfed context task inputs ws (.error (.io task.name cause))

theorem Unfed.mono (hws : ∀ w ∈ ws, w ∈ ws') (h : Unfed context task inputs ws r) :
    Unfed context task inputs ws' r := by
  cases h with
  | unhoused hw hmade => exact .unhoused (hws _ hw) hmade
  | skipped hanswers =>
    refine .skipped fun port path hport => ?_
    obtain ⟨w, hw, hanswers⟩ := hanswers port path hport
    exact ⟨w, hws w hw, hanswers⟩
  | unanswered hw hport hstat hcause => exact .unanswered (hws _ hw) hport hstat hcause

variable {launcher : Launcher} {node : NodeId} {port : String} {path : Path} {scratch : Path}

/-- A block program without one of its files is not run. -/
theorem unfed_of_ends_runBlock
    (h : ((bindRun task inputs scratch context).runBlock launcher node).run.Ends ws r)
    (hport : inputs.get? port = some (some path))
    (hvacant : ∀ w ∈ ws, w.files.isFile path = false) : Unfed context task inputs ws r := by
  obtain ⟨looking, found, rest, rfl, hlooking, hlooked⟩ := TaskRun.ends_runBlock h
  have hsought := TaskRun.sought_of_ends (Fiber.ends_onFiles.1 hlooking)
  rcases found with e | _ | ⟨port', ports⟩
  · obtain ⟨port', path', files, cause, hport', hfiles, hstat, hcause, rfl⟩ := hsought
    obtain ⟨w, hw, rfl⟩ := List.mem_map.1 hfiles
    obtain ⟨rfl, rfl⟩ := hlooked
    exact .unanswered (List.mem_append_left [] hw) (SortedMap.mem_toList.1 hport') hstat hcause
  · -- The port has no file, so it would be among those that are missing.
    obtain ⟨files, hfiles, -, hfound⟩ := hsought port path (SortedMap.mem_toList.2 hport)
    obtain ⟨w, hw, rfl⟩ := List.mem_map.1 hfiles
    have hfree := hvacant w (List.mem_append_left rest hw)
    rcases hfound with hfile | hmem
    · exact absurd (hfile.symm.trans hfree) (by decide)
    · exact absurd hmem List.not_mem_nil
  · obtain ⟨rfl, rfl⟩ := hlooked
    refine .skipped fun port' path' hport' => ?_
    obtain ⟨files, hfiles, hanswers, -⟩ := hsought port' path' (SortedMap.mem_toList.2 hport')
    obtain ⟨w, hw, rfl⟩ := List.mem_map.1 hfiles
    exact ⟨w, List.mem_append_left [] hw, hanswers⟩

/-- So ends the execution of a block task at one of whose input ports no file ever stands. -/
theorem unfed_of_ends {perform : Performer β}
    (hblock : ∀ run, perform task.work run = run.runBlock launcher node)
    (h : (execute perform context task inputs).Ends ws r)
    (hport : inputs.get? port = some (some path))
    (hvacant : ∀ w ∈ ws, w.files.isFile path = false) : Unfed context task inputs ws r := by
  cases taken_of_ends h with
  | @unhoused begun made closing cause hmade => exact .unhoused (w := made) (by simp) hmade
  | @worked begun made removing closing work publishing files scratch _ hmade hwork =>
    have hmem : ∀ w ∈ work, w ∈ begun :: made :: (work ++ (publishing ++ [removing, closing])) :=
      fun w hw => by simp [hw]
    rw [hblock] at hwork
    exact (unfed_of_ends_runBlock hwork hport fun w hw => hvacant w (hmem w hw)).mono hmem

end Execution

/-! ## Runs in which an output is not there -/

open Schedule

/-- No publication ends a run. If no file stands at the published path of an output when a block
task reads it, this task ends as one does that lacks a file: if its execution comes to a state, then
each of its paths has given an answer and it is skipped. A run that is over has completed it as
skipped or has ended with an error, and it has ended with an error if one of the paths never gives
an answer. -/
theorem unpublished_skips_or_aborts {β : Type} {g : TaskGraph β} {perform : Performer β}
    {context : RunContext} {plan : Plan} {P : Progress → Prop} {w : World}
    {log : List (Nat × World)} {p : Progress} (hplan : g.plan = .ok plan)
    (hran : (Engine.schedule perform g context plan).Ran P
      ((Engine.schedule perform g context plan).begin w) log p)
    {launcher : Launcher} {node : NodeId} {i k : Nat} {t : Task β} {port : String} {ref : PortRef}
    {published : Path} (ht : g.tasks[k]? = some t)
    (hblock : ∀ run, perform t.work run = run.runBlock launcher node)
    (hport : t.inputPorts.get? port = some (some ref)) (href : g.resolve? ref = some (i, published))
    (hvacant : ∀ w ∈ worldsOf log k, w.files.isFile published = false) :
    (∀ e, p.fault = some e → ∃ j u, g.tasks[j]? = some u ∧
      Execution.Broken perform context u (plan.inputs[j]?.getD ∅) (worldsOf log j) e) ∧
    (∀ r, ((Engine.schedule perform g context plan).fiberAt k t).Ends (worldsOf log k) r →
      Execution.Unfed context t (plan.inputs[k]?.getD ∅) (worldsOf log k) r) ∧
    (isOver p = true → (k, .skipped) ∈ p.completed ∨ ∃ e, p.fault = some e) ∧
    ((∃ port' path, (plan.inputs[k]?.getD ∅).get? port' = some (some path) ∧
        ∀ w ∈ worldsOf log k, ¬w.files.Answers path) →
      k ∉ p.finished ∧ (isOver p = true → ∃ e, p.fault = some e)) := by
  have hs := serves_schedule perform context hplan
  have hr := recorded_of_ran hs hran
  have hbound : (plan.inputs[k]?.getD ∅).get? port = some (some published) := by
    rw [(g.accounts_of_plan hplan).inputs k t ht, hport]
    simp [href]
  have hunfed : ∀ r, ((Engine.schedule perform g context plan).fiberAt k t).Ends (worldsOf log k)
      r → Execution.Unfed context t (plan.inputs[k]?.getD ∅) (worldsOf log k) r :=
    fun r hends => Execution.unfed_of_ends hblock hends hbound hvacant
  have hcompleted : ∀ state, (k, state) ∈ p.completed →
      Execution.Unfed context t (plan.inputs[k]?.getD ∅) (worldsOf log k) (.ok state) := by
    intro state hstate
    obtain ⟨u, hu, hends⟩ := hr.completed k state hstate
    obtain rfl := Option.some.inj (ht.symm.trans hu)
    exact hunfed _ hends
  have hfault : isOver p = true → k ∈ p.finished ∨ ∃ e, p.fault = some e := by
    intro hover
    cases hfault : p.fault with
    | some e => exact .inr ⟨e, rfl⟩
    | none =>
      rw [isOver, hfault] at hover
      have hall := (balanced_of_ran hs hran).finished_of_isFinished hs hover
      exact .inl (hall k (List.getElem?_eq_some_iff.1 ht).1)
  refine ⟨fun e he => ?_, hunfed, fun hover => (hfault hover).imp_left fun hk => ?_, ?_⟩
  · obtain ⟨j, u, hu, hends⟩ := exists_errs_of_fault hs hran he
    exact ⟨j, u, hu, Execution.broken_of_ends hends⟩
  · -- Of the three ways to end, only to be skipped gives a state.
    obtain ⟨⟨_, state⟩, hmem, rfl⟩ := List.mem_map.1 hk
    cases hcompleted state hmem with
    | skipped => exact hmem
  · rintro ⟨port', path, hpath, hsilent⟩
    have hk : k ∉ p.finished := by
      intro hk
      obtain ⟨⟨_, state⟩, hmem, rfl⟩ := List.mem_map.1 hk
      cases hcompleted state hmem with
      | skipped hanswers =>
        obtain ⟨w, hw, hanswer⟩ := hanswers port' path hpath
        exact hsilent w hw hanswer
    exact ⟨hk, fun hover => (hfault hover).resolve_left hk⟩

/-! ## An output without a directory -/

namespace Handover

/-- A block task that reads an output of another task. -/
def reader : Task Work :=
  ⟨"b", "b", .process, "", SortedMap.ofList [("y", some ⟨"a", "x"⟩)], ∅, .block "b"⟩

/-- A task that publishes a file below a path where there may be no directory, and its reader. -/
def graph : TaskGraph Work where
  name := "handover"
  mode := .validate
  maxConcurrency := 0
  tasks := [
    ⟨"a", "a", .process, "", ∅, SortedMap.ofList [("x", "/f/x")], .emit "c"⟩, reader]

def plan : Plan where
  dependents := [[1], []]
  remaining := [0, 1]
  inputs := [∅, SortedMap.ofList [("y", some "/f/x")]]
  order := [0, 1]

def context : RunContext := ⟨"/scratch", "sh"⟩

/-- No command can be started. -/
def launcher : Launcher := fun _ => pure (.error .notFound)

def schedule : Schedule Work := Engine.schedule (Work.perform launcher) graph context plan

def start (files : FileTree) : Progress := schedule.begin (Engine.prepare context { files }).1

/-- No file stands at the published path. -/
def Vacant (p : Progress) : Prop := p.world.files.isFile "/f/x" = false

instance (p : Progress) : Decidable (Vacant p) := inferInstanceAs (Decidable (_ = _))

/-- Each task is started, takes its steps, and is joined; the first one takes three steps more, to
write its output, to look for it, and to move it. -/
def moves : List Move :=
  (.start :: List.replicate 7 (.advance 0) ++ [.join 0]) ++
    (.start :: List.replicate 5 (.advance 0) ++ [.join 0])

theorem completed_of_moves : (schedule.replay? Vacant moves (start {})).any (fun p =>
    p.completed = [(0, .succeeded), (1, .skipped)]) = true := by
  decide +kernel

/-- A file stands where the path needs a directory. -/
def blocked : FileTree := FileTree.put {} ["f"] (.file "v".toUTF8)

theorem fault_of_moves : (schedule.replay? Vacant moves (start blocked)).any (fun p =>
    p.completed = [(0, .succeeded)] ∧ p.fault = some (.io "b" .notADirectory)) = true := by
  decide +kernel

end Handover

/-- Where there is no directory for an output, its reader is skipped. -/
theorem handover_skips : ∃ log p,
    Handover.schedule.Ran Handover.Vacant (Handover.start {}) log p ∧
    (∀ w ∈ worldsOf log 1, w.files.isFile "/f/x" = false) ∧
    p.completed = [(0, .succeeded), (1, .skipped)] ∧
    ∃ w ∈ worldsOf log 1, w.files.Answers "/f/x" := by
  obtain ⟨p, hmoves, hcompleted⟩ := (Option.any_eq_true _ _).1 Handover.completed_of_moves
  obtain ⟨log, hran⟩ := ran_of_replay? hmoves
  have hvacant : ∀ w ∈ worldsOf log 1, w.files.isFile "/f/x" = false := by
    intro w hw
    obtain ⟨e, he, rfl⟩ := List.mem_map.1 hw
    obtain ⟨q, hq, hworld⟩ := hran.exists_of_mem_log (List.mem_filter.1 he).1
    rw [← hworld]
    exact hq
  have hplan : Handover.graph.plan = .ok Handover.plan := rfl
  have ht : Handover.graph.tasks[1]? = some Handover.reader := rfl
  have hport : Handover.reader.inputPorts.get? "y" = some (some ⟨"a", "x"⟩) := rfl
  have href : Handover.graph.resolve? ⟨"a", "x"⟩ = some (0, "/f/x") := rfl
  obtain ⟨-, hunfed, -⟩ :=
    unpublished_skips_or_aborts hplan hran ht (fun _ => rfl) hport href hvacant
  have hcompleted := of_decide_eq_true hcompleted
  have hmem : (1, TaskState.skipped) ∈ p.completed := by simp [hcompleted]
  obtain ⟨t, ht', hends⟩ :=
    (recorded_of_ran (serves_schedule _ _ hplan) hran).completed 1 .skipped hmem
  obtain rfl := Option.some.inj (ht.symm.trans ht')
  cases hunfed _ hends with
  | skipped hanswers => exact ⟨log, p, hran, hvacant, hcompleted, hanswers "y" "/f/x" rfl⟩

/-- Where a file stands in the way of an output, its reader ends the run. -/
theorem blocked_handover_aborts : ∃ log p,
    Handover.schedule.Ran Handover.Vacant (Handover.start Handover.blocked) log p ∧
    p.completed = [(0, .succeeded)] ∧
    Engine.conclude Handover.context p = (p.world, .error (.io "b" .notADirectory)) := by
  obtain ⟨p, hmoves, hend⟩ := (Option.any_eq_true _ _).1 Handover.fault_of_moves
  obtain ⟨log, hran⟩ := ran_of_replay? hmoves
  obtain ⟨hcompleted, hfault⟩ := of_decide_eq_true hend
  exact ⟨log, p, hran, hcompleted, conclude_of_fault Handover.context hfault⟩

end BlockFlow
