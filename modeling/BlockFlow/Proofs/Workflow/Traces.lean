import BlockFlow.Proofs.Workflow.Agreement
import BlockFlow.Proofs.Workflow.Failures

/-!
# What a run leaves behind

If block programs keep to their scratch directories, and leave nothing but regular files under the
names of their outputs, then a run touches nothing but the paths at which its tasks publish, and
its scratch root. `Job.Guards` describes the site in which everything else is fixed, and
`Job.Traced` what has become of the files and of the tasks when the last task has ended.

## Key results

- `Job.Went.traced`: what a run has come to, task by task and location by location
- `Job.Traced.published`: at its published paths, a task that has succeeded has put what it has left
  in its scratch directory, or nothing
- `Site.cleanUp_cases`, `Site.same_cleanUp`: what happens to the scratch root in the end
-/

namespace BlockFlow

open FileTree
open Schedule (worldsOf)

/-- Under the names of the files that a task publishes, nothing but regular files is in the
directory at `l`. -/
def Task.StagesFiles (t : Task Work) (l : Location) (files : FileTree) : Prop :=
  ∀ f ∈ t.files, ∀ e, files.get? (l ++ [f]) = some e → ∃ c, e = .file c

/-- What a regular file holds. -/
def Entry.content? : Entry → Option ByteArray
  | .file c => some c
  | _ => none

/-- It is known what is staged for every output. -/
def Verdict.Known (v : Verdict) : Prop := ∀ f, v.staged f ≠ none

namespace Job

/-- In a run with this log, a task that has succeeded had left a regular file with this content at
the staging path of the port that it publishes as `f`, when its work was over. -/
def LeftFile (job : Job) (launcher : Launcher) (plan : Plan) (log : List (Nat × World))
    (t : Task Work) (f : String) (c : ByteArray) : Prop :=
  ∃ i port scratch after, job.tasks.tasks[i]? = some t ∧
    t.outputPorts.get? port = some (Path.join job.out f) ∧
    Execution.Worked (Work.perform launcher) job.context t (plan.inputs[i]?.getD ∅)
      (worldsOf log i) .succeeded scratch after ∧
    after.files.stat (Execution.stagingPath scratch port (Path.join job.out f)) = .ok (.file c)

/-- A site without links in which everything is fixed, but for files at the paths at which tasks
publish. -/
structure Guards (job : Job) (base : FileTree) (home : Location) (σ : Site) : Prop where
  out : σ.out = job.out
  home : σ.home = home
  base : σ.base = base
  inward : ∃ k, σ.inward σ.scratchRoot = .ok k
  fixed : ∀ l, σ.fixed l ↔ σ.base.get? l ≠ none ∧
    (σ.base.get? l = some .directory ∨ ∀ i f, (job.tasks.stake i).owns f → l ≠ σ.shelf f)
  unlinked : ∀ f target, σ.base.get? (σ.shelf f) ≠ some (.link target)

/-- What a run has come to in its site when the last task has ended: what the tasks have done, as
the log tells, and what has become of the files. -/
structure Traced (job : Job) (launcher : Launcher) (plan : Plan) (σ : Site)
    (judged : Nat → Verdict → FileTree → Prop) (tidy : Prop) (log : List (Nat × World))
    (report : Report) (w : World) : Prop where
  steady : σ.Steady w.files
  tasks : ∀ (i : Nat) (t : Task Work), job.tasks.tasks[i]? = some t → ∃ state n after,
    report.tasks.get? t.name = some state ∧
    Execution.Worked (Work.perform launcher) job.context t (plan.inputs[i]?.getD ∅)
      (worldsOf log i) state (σ.scratch n) after ∧
    σ.AtWork t.name n (some n) after ∧
    σ.Closed (job.tasks.stake i) (judged i) tidy t (plan.inputs[i]?.getD ∅) t.files n state after w
  /-- What no task publishes is as it was, but for what may be left in the scratch root. -/
  same : ∀ l, (∀ i f, (job.tasks.stake i).owns f → l ≠ σ.shelf f) →
    (σ.inner <+: l → σ.base.get? l = none → tidy) → Same σ.base w.files l

end Job

/-! ## Sites with more that is fixed -/

namespace Site

/-- The same site with more of its tree fixed. -/
def widen (σ : Site) (fixed : Location → Prop) (hwider : ∀ l, σ.fixed l → fixed l)
    (hused : ∀ l, fixed l → σ.base.get? l ≠ none) : Site :=
  { σ with
    fixed
    fixed_home := hwider _ σ.fixed_home
    fixed_scratch := hwider _ σ.fixed_scratch
    used := hused
    walkFrom_way := fun t hsame => σ.walkFrom_way t (fun l hl => hsame l (hwider l hl)) }

/-! ## The scratch root in the end -/

variable {σ : Site} {context : RunContext} {w : World}

/-- Removing the scratch root changes nothing else. -/
theorem same_cleanUp (hw : σ.Steady w.files) (hroot : context.scratchRoot = σ.scratchRoot)
    {l : Location} (hl : l ≠ σ.inner) : Same w.files (Engine.cleanUp context w).files l := by
  rw [Engine.cleanUp, hroot]
  cases hremove : w.files.rmdir σ.scratchRoot with
  | error e => exact Same.refl _ _
  | ok t =>
    rw [of_rmdir hw hremove]
    show Same w.files (w.files.drop σ.inner) l
    refine ⟨?_, ?_⟩
    · rw [get?_drop _ _ _ (by simp [inner]), if_neg (Ne.symm hl)]
    · rw [detail_drop, if_neg (Ne.symm hl)]

/-- Nothing keeps the scratch root from being removed. -/
structure Clear (σ : Site) (t : FileTree) : Prop where
  write : σ.base.permits .write σ.home = true
  empty : ∀ n, t.get? (σ.inner ++ [n]) = none

/-- The scratch root goes if nothing keeps it. -/
theorem cleanUp_cases (hw : σ.Steady w.files) (hinward : ∃ k, σ.inward σ.scratchRoot = .ok k)
    (hroot : context.scratchRoot = σ.scratchRoot) :
    (σ.Clear w.files ∧ (Engine.cleanUp context w).files = w.files.drop σ.inner) ∨
      (¬σ.Clear w.files ∧ (Engine.cleanUp context w).files = w.files) := by
  have hwrite : w.files.permits .write σ.home = σ.base.permits .write σ.home :=
    (hw.same _ σ.fixed_home).permits .write
  rw [Engine.cleanUp, hroot, rmdir_scratchRoot hw hinward, hwrite]
  split
  · next hpermits =>
    split
    · next hempty => exact .inl ⟨⟨hpermits, free_of_below_isEmpty hempty⟩, rfl⟩
    · next hempty => exact .inr ⟨fun h => hempty (below_isEmpty h.empty), rfl⟩
  · next hpermits => exact .inr ⟨fun h => hpermits h.write, rfl⟩

end Site

variable {launcher : Launcher} {job : Job} {files files' t base : FileTree} {plan : Plan}
  {p : Pool} {report : Report} {σ : Site} {judged : Nat → Verdict → FileTree → Prop}
  {tidy : Prop} {w : World} {home : Location} {log : List (Nat × World)}
  {config : Config} {directory out : Path} {mode : Mode} {g : Graph} {i : Nat} {f : String}

namespace Job

/-- What a run with a log has gone through. -/
theorem Logged.exists_went {q : Progress} (h : job.Logged launcher files plan log q files' report)
    (hjob : ofGraph config directory mode g out = .ok job) :
    ∃ t base, job.Went launcher files t base plan (Pool.ofProgress log q) files' report := by
  obtain ⟨t, base, hmade, hrooted, hran⟩ := h.ran
  have hover : Schedule.isOver q = true := by
    rw [Schedule.isOver, h.idle.1]
    exact h.finished
  have hprepare : Engine.prepare job.context { files := t } = ({ files := base }, .ok ()) := by
    rw [Engine.prepare, hrooted]
  have hend : Engine.conclude job.context q = (Engine.cleanUp job.context q.world, .ok ()) := by
    rw [Engine.conclude, h.idle.1]
  exact ⟨t, base, hmade, hrooted, Engine.carried_of_ran (nodup_names hjob)
    (leavesStates_perform launcher) rfl h.planned hprepare hran hover hend, h.files_eq,
    h.report_eq⟩

/-! ## The site of a run -/

/-- A run without links in its output directory works in a site in which everything is fixed, but
for files at published paths. -/
theorem Went.exists_guards (h : job.Went launcher files t base plan p files' report)
    (hjob : ofGraph config directory mode g out = .ok job) (hfiles : files.WellFormed)
    (hway : t.Reaches t.IsPassage [] (Path.steps job.out) home)
    (hlinks : ∀ l target, home <+: l → files.get? l ≠ some (.link target)) :
    ∃ σ : Site, job.Guards base home σ := by
  obtain ⟨σ, hout, hσhome, hbase, hinward, hfixed, hunlinked, -⟩ :=
    h.exists_site_of_way hjob hfiles hway hlinks
  refine ⟨σ.widen (fun l => σ.base.get? l ≠ none ∧ (σ.base.get? l = some .directory ∨
    ∀ i f, (job.tasks.stake i).owns f → l ≠ σ.shelf f)) (fun l hl => ?_) (fun l hl => hl.1),
    hout, hσhome, hbase, hinward, fun l => Iff.rfl, hunlinked⟩
  -- The way to the output directory leads through directories, and through links elsewhere.
  rcases hfixed l hl with hdir | ⟨target, hlink⟩
  · exact ⟨by simp [hdir], .inl hdir⟩
  · refine ⟨by simp [hlink], .inr fun i f _ heq => hunlinked f target ?_⟩
    rw [← heq]
    exact hlink

/-- The scratch root is made in an output directory that may be written to, unless it is there. -/
theorem Went.rooted_cases (h : job.Went launcher files t base plan p files' report)
    (hjob : ofGraph config directory mode g out = .ok job) (hfiles : files.WellFormed)
    (hway : t.Reaches t.IsPassage [] (Path.steps job.out) home)
    (hlinks : ∀ l target, home <+: l → files.get? l ≠ some (.link target)) :
    (t.get? (home ++ [scratchName]) = some .directory ∧ base = t) ∨
      (t.get? (home ++ [scratchName]) = none ∧ t.permits .write home = true ∧
        base = t.put (home ++ [scratchName]) .directory) := by
  obtain ⟨-, hcontext, -⟩ := of_ofGraph hjob
  have hgrows := (of_createDirectories hfiles h.made).1
  have hrooted := h.rooted
  rw [hcontext] at hrooted
  refine (Site.cases_of_createDirectories (ne_empty_of_createDirectories h.made) hway ?_
    hrooted).2
  intro target hlink
  exact hlinks _ target (List.prefix_append _ _) ((hgrows.get?_eq_some_iff (by simp)).1 hlink)

namespace Guards

variable (h : job.Guards base home σ)
include h

theorem root (hcontext : job.context.scratchRoot = Path.join job.out scratchName) :
    job.context.scratchRoot = σ.scratchRoot := by
  rw [hcontext, Site.scratchRoot, h.out]

/-- Only a directory at a published path is fixed. -/
theorem target {i : Nat} (hf : (job.tasks.stake i).owns f) (hfixed : σ.fixed (σ.shelf f)) :
    σ.base.get? (σ.shelf f) = some .directory :=
  ((h.fixed _).1 hfixed).2.resolve_right (fun hne => hne i f hf rfl)

end Guards

/-- In such a site, commands that leave regular files come to verdicts. -/
theorem judges_of_leaves (hlaid : job.tasks.Laid job.out) (hplanned : job.tasks.plan = .ok plan)
    (hguards : job.Guards base home σ) (hroot : job.context.scratchRoot = σ.scratchRoot)
    (hleaves : job.Leaves launcher Task.StagesFiles)
    (htidy : tidy → job.Leaves launcher (fun _ l files => files.Loose l)) :
    job.tasks.Judges plan σ launcher job.context (fun _ v _ => v.Known) tidy := by
  have htarget : ∀ t ∈ job.tasks.tasks, ∀ f ∈ t.files, σ.fixed (σ.shelf f) →
      σ.base.get? (σ.shelf f) = some .directory := by
    intro t ht f hf hfixed
    obtain ⟨i, hi⟩ := List.getElem?_of_mem ht
    exact hguards.target (i := i) ⟨t, hi, hf⟩ hfixed
  refine judges_of_keeps hlaid hplanned hguards.out hroot hguards.unlinked htarget
    (fun _ _ _ _ hv _ => hv) (fun _ _ _ _ _ _ f => Option.some_ne_none _) (fun _ _ _ hv => hv) ?_
  intro i t node launch files n ht hwork hlaunches hsteady hunlinked
  have hstages := hleaves plan i t node _ _ _ hplanned ht hwork hlaunches
  have hloose := fun h => htidy h plan i t node _ _ _ hplanned ht hwork hlaunches
  refine Fiber.Meets.mono ?_ (hstages.and_of hloose)
  rintro - r files' hend result hr
  obtain ⟨hstaged, hloose⟩ := hend result hr
  -- The verdict says what stands in the directory.
  refine ⟨hloose, ⟨result.succeeded, Text.lossy result.output,
    fun f => some ((files'.get? (σ.den n ++ [f])).bind Entry.content?)⟩,
    fun f => Option.some_ne_none _, rfl, rfl, fun f hf => ⟨_, rfl, ?_⟩⟩
  cases hget : files'.get? (σ.den n ++ [f]) with
  | none => rfl
  | some e =>
    obtain ⟨c, rfl⟩ := hstaged f hf e hget
    rfl

/-- Commands that come to what answers say leave nothing but regular files under the names of
the outputs. -/
theorem AnsweredBy.stagesFiles {answers : Answers} (h : job.AnsweredBy launcher answers) :
    job.Leaves launcher Task.StagesFiles := by
  intro plan i t node launch files l hplanned ht hwork hlaunches
  refine Fiber.Meets.mono (fun _ r files' hend result hr f hf e he => ?_)
    (h plan i t node launch files l hplanned ht hwork hlaunches)
  obtain ⟨-, -, hwritten⟩ := hend result hr
  rw [hwritten f hf] at he
  obtain ⟨c, -, rfl⟩ := Option.map_eq_some_iff.1 he
  exact ⟨c, rfl⟩

/-! ## What has become of the files -/

/-- What a run leaves behind in its site. -/
theorem Went.traced (h : job.Went launcher files t base plan p files' report)
    (hlaid : job.tasks.Laid job.out) (hguards : job.Guards base home σ)
    (hroot : job.context.scratchRoot = σ.scratchRoot)
    (hjudges : job.tasks.Judges plan σ launcher job.context judged tidy)
    (hknown : ∀ i v t, judged i v t → v.Known) :
    job.Traced launcher plan σ judged tidy p.log report p.world := by
  obtain ⟨trail, hend⟩ := h.sheltered hlaid hguards.out hguards.base hroot hjudges
  have hcomes : ∀ i state, (i, state) ∈ p.completed → ∃ t, job.tasks.tasks[i]? = some t ∧
      ∃ n after, σ.Passed (Work.perform launcher) job.context t (plan.inputs[i]?.getD ∅) state n
        after (trail i) ∧ σ.Closed (job.tasks.stake i) (judged i) tidy t
          (plan.inputs[i]?.getD ∅) t.files n state after p.world :=
    fun i state hmem => hend.ended (i, state) hmem
  have hall : ∀ i < job.tasks.tasks.length, ∃ state, (i, state) ∈ p.completed := by
    intro i hi
    obtain ⟨state, hmem, -⟩ := h.carried.completed i _ (List.getElem?_eq_getElem hi)
    exact ⟨state, hmem⟩
  refine ⟨hend.steady, fun i t ht => ?_, fun l hl htidy => ?_⟩
  · obtain ⟨state, hmem, hstate⟩ := h.carried.completed i t ht
    obtain ⟨t', ht', n, after, hpassed, hclosed⟩ := hcomes i state hmem
    obtain rfl := Option.some.inj (ht.symm.trans ht')
    refine ⟨state, n, after, ?_, hend.seen i ▸ hpassed.worked, hpassed.atWork, hclosed⟩
    rw [h.report_eq]
    exact hstate
  by_cases hbase : σ.base.get? l = none
  · suffices hfree : p.world.files.get? l = none from
      ⟨hfree.trans hbase.symm,
        (hend.steady.wellFormed.known l hfree).trans (σ.wellFormed.known l hbase).symm⟩
    by_contra hnew
    rcases hend.novel_of_finished hall hbase hnew with
      ⟨i, f, howns, hfixed, hpre⟩ | ⟨i, state, n, t', hmem, hleft, hpre, ht'⟩
    · -- Below a published path there is nothing new, for nobody makes a directory there.
      obtain ⟨t, ht, -⟩ := id howns
      obtain ⟨state, hmem⟩ := hall i (List.getElem?_eq_some_iff.1 ht).1
      obtain ⟨t', -, n, after, -, hclosed⟩ := hcomes i state hmem
      refine hnew (hend.steady.wellFormed.free_below (fun hdir => ?_) hpre (Ne.symm (hl i f howns)))
      rcases hclosed.ends.kept_or_file (hknown i) howns with hkept | ⟨c, hc⟩
      · rw [hkept] at hdir
        exact hfixed ((hguards.fixed _).2 ⟨by simp [hdir], .inl hdir⟩)
      · rw [hdir] at hc
        cases hc
    · obtain ⟨t, -, m, after, hpassed, hclosed⟩ := hcomes i state hmem
      obtain ⟨t'', hleft', hgone⟩ := hpassed.left
      obtain ⟨rfl, rfl⟩ := Prod.mk.inj (Option.some.inj (hleft.symm.trans hleft'))
      have hinner : σ.inner <+: l := (List.prefix_append _ _).trans hpre
      exact ht' (hgone (hclosed.removable (htidy hinner hbase)) l hpre)
  · exact hend.steady.same l ((hguards.fixed l).2 ⟨hbase, .inr hl⟩)

/-! ## What has been published -/

namespace Traced

variable {t : Task Work} {n : String} {state : TaskState} {after : World} {c : ByteArray}

/-- What a task has left for an output is what stands in its scratch directory when its work is
over, if the path of the file is possible. -/
private theorem leftFile_iff (hlaid : job.tasks.Laid job.out) (hguards : job.Guards base home σ)
    (ht : job.tasks.tasks[i]? = some t) (hf : f ∈ t.files)
    (hworked : Execution.Worked (Work.perform launcher) job.context t (plan.inputs[i]?.getD ∅)
      (worldsOf log i) .succeeded (σ.scratch n) after)
    (hat : σ.AtWork t.name n (some n) after)
    (hlink : ∀ target, after.files.get? (σ.den n ++ [f]) ≠ some (.link target)) :
    job.LeftFile launcher plan log t f c ↔
      σ.Fits n f ∧ after.files.get? (σ.den n ++ [f]) = some (.file c) := by
  have hmem := List.mem_of_getElem? ht
  have hplain := (hlaid.plain t hmem f hf).1
  have hsearch : after.files.permits .search (σ.den n) = true := by
    rw [FileTree.permits, hat.plain]
    rfl
  have hstaging : ∀ port, Execution.stagingPath (σ.scratch n) port (Path.join job.out f) =
      σ.staged n f := fun port => hguards.out ▸ Site.stagingPath_published hplain port
  rw [← Site.stat_staged_iff hat.steady hat.name.plain hplain hat.admits hat.den hsearch hlink]
  constructor
  · -- A task does its work once, so what its log shows is this directory and this world.
    rintro ⟨j, port, scratch, after', hj, -, hworked', hstat⟩
    obtain rfl := hlaid.eq_of_name ht hj rfl
    obtain ⟨-, rfl, rfl⟩ := hworked.unique hworked'
    rwa [hstaging port] at hstat
  · intro hstat
    have hpath : Path.join job.out f ∈ t.outputPorts.values := by
      rw [← hlaid.published t hmem]
      exact List.mem_map.2 ⟨f, hf, rfl⟩
    obtain ⟨⟨port, -⟩, he, rfl⟩ := List.mem_map.1 hpath
    exact ⟨i, port, σ.scratch n, after, ht, SortedMap.mem_toList.1 he, hworked,
      (hstaging port).symm ▸ hstat⟩

/-- What a task that has succeeded has published: what it has left, if it could be moved. -/
theorem published (h : job.Traced launcher plan σ judged tidy log report w)
    (hlaid : job.tasks.Laid job.out) (hguards : job.Guards base home σ)
    (hknown : ∀ i v t, judged i v t → v.Known) (ht : job.tasks.tasks[i]? = some t)
    (hstate : report.tasks.get? t.name = some .succeeded) (hf : f ∈ t.files) :
    (w.files.get? (σ.shelf f) = σ.base.get? (σ.shelf f) ∧
        ∀ c, job.LeftFile launcher plan log t f c → σ.base.permits .write σ.home = true →
          σ.base.get? (σ.shelf f) = some .directory) ∨
      ∃ c, w.files.get? (σ.shelf f) = some (.file c) ∧ job.LeftFile launcher plan log t f c := by
  obtain ⟨state, n, after, hstate', hworked, hat, hclosed⟩ := h.tasks i t ht
  obtain rfl := Option.some.inj (hstate'.symm.trans hstate)
  obtain ⟨v, hverdict, hstaged, hplaced⟩ := hclosed.staged rfl
  have hplaced := hplaced f hf
  cases hv : v.staged f with
  | none => exact absurd hv (hknown i v _ hverdict f)
  | some staged =>
    cases staged with
    | none =>
      -- Nothing was there.
      have hnone := hstaged.absent f hf hv
      have hleft := fun c => leftFile_iff (c := c) hlaid hguards ht hf hworked hat (by simp [hnone])
      refine .inl ⟨hplaced.kept hv, fun c hc => ?_⟩
      rw [hleft, hnone] at hc
      cases hc.2
    | some c =>
      have hfile := hstaged.present f hf c hv
      have hleft := fun c => leftFile_iff (c := c) hlaid hguards ht hf hworked hat (by simp [hfile])
      by_cases hpub : σ.Publishable n f
      · exact .inr ⟨c, hplaced.moved c hv hpub, (hleft c).2 ⟨hpub.fits, hfile⟩⟩
      · refine .inl ⟨hplaced.stuck c hv hpub, fun c' hc' hwrite => ?_⟩
        by_contra htarget
        exact hpub ⟨((hleft c').1 hc').1, hwrite, htarget⟩

end Traced

end Job

end BlockFlow
