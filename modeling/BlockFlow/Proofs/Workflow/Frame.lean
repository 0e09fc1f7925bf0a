import BlockFlow.Proofs.Workflow.Visits

/-!
# Only tasks that succeed change the output directory

Whatever a run does in its scratch root, what it leaves in the output directory is what was there
once this was made, but for the published paths of the tasks that have succeeded: there stands
what was there, or the file that the task itself has left for that output.

The scratch root is removed at the end, but only if nothing is left in it: what a block program has
left there that cannot be removed keeps it.

## Key results

- `only_successes_change`: what a run changes in the output directory
- `scratch_stays`: what keeps the scratch root though nothing was in it
-/

namespace BlockFlow

open FileTree

namespace Job.Visit

variable {launcher : Launcher} {job : Job} {made files' : FileTree} {plan : Plan}
  {report : Report} {σ : Site} {judged : Nat → Verdict → FileTree → Prop} {tidy : Prop} {w : World}
  {home l : Location} {log : List (Nat × World)}
  (h : job.Visit launcher plan σ judged tidy made home log files' report w)
include h

/-- But for what tasks that have succeeded publish, everything is as it was. -/
private theorem same_unpublished
    (hl : ∀ t ∈ job.tasks.tasks, report.tasks.get? t.name = some .succeeded → ∀ f ∈ t.files,
      l ≠ home ++ [f]) (htidy : σ.inner <+: l → σ.base.get? l = none → tidy) :
    Same σ.base w.files l := by
  by_cases howned : ∃ i f, (job.tasks.stake i).owns f ∧ l = σ.shelf f
  · obtain ⟨i, f, ⟨t, ht, hf⟩, rfl⟩ := howned
    obtain ⟨state, hstate, hends⟩ := h.exists_state ht
    refine hends.same_of_unsuccessful ?_ ⟨t, ht, hf⟩
    rcases hends.cases_state with rfl | rfl | rfl
    · exact .inl rfl
    · exact .inr rfl
    · exact absurd (h.shelf_eq f) (hl t (List.mem_of_getElem? ht) hstate f hf)
  · exact h.traced.same l (fun i f hf heq => howned ⟨i, f, hf, heq⟩) htidy

/-- So it is in the end, and so it was when the output directory had been made, but for the scratch
root. -/
private theorem same_made (hinner : l ≠ σ.inner)
    (hl : ∀ t ∈ job.tasks.tasks, report.tasks.get? t.name = some .succeeded → ∀ f ∈ t.files,
      l ≠ home ++ [f]) (htidy : σ.inner <+: l → made.get? l = none → tidy) :
    Same made files' l := by
  have hbegin := h.remade.same hinner
  refine (hbegin.trans ?_).trans (h.same_end hinner)
  exact h.same_unpublished hl (fun hpre hfree => htidy hpre (hbegin.1.symm.trans hfree))

/-- A task that has succeeded has put there what it has left, or nothing. -/
private theorem kept_or_left {t : Task Work} {f : String} (ht : t ∈ job.tasks.tasks)
    (hstate : report.tasks.get? t.name = some .succeeded) (hf : f ∈ t.files) :
    files'.get? (σ.shelf f) = made.get? (σ.shelf f) ∨
      ∃ c, files'.get? (σ.shelf f) = some (.file c) ∧ job.LeftFile launcher plan log t f c := by
  obtain ⟨i, hi⟩ := List.getElem?_of_mem ht
  have hinner := h.shelf_ne_inner ⟨t, hi, hf⟩
  rw [(h.same_end hinner).1, ← (h.remade.same hinner).1]
  exact (h.traced.published h.laid h.guards h.known hi hstate hf).imp_left And.left

/-- The scratch root is gone if nothing was in it, and nothing keeps it. -/
private theorem inner_gone (hempty : ∀ n, made.get? (σ.inner ++ [n]) = none)
    (hwrite : made.get? σ.inner ≠ none → made.permits .write home = true) (htidy : tidy) :
    files'.get? σ.inner = none := by
  suffices hclear : σ.Clear w.files by
    rcases h.inner_cases with ⟨-, hgone⟩ | ⟨hkept, -⟩
    · exact hgone
    · exact absurd hclear hkept
  refine ⟨?_, fun n => ?_⟩
  · have hne : home ≠ σ.inner := by simp [h.inner_eq]
    rw [h.guards.home, (h.remade.same hne).permits .write]
    rcases h.rooted with ⟨hthere, -⟩ | ⟨-, hpermits, -⟩
    · exact hwrite (by rw [hthere]; exact Option.some_ne_none _)
    · exact hpermits
  · -- What was not there is not there now, for no task has left anything.
    have hunowned : ∀ i f, (job.tasks.stake i).owns f → σ.inner ++ [n] ≠ σ.shelf f := by
      intro i f _ heq
      have hlength := congrArg List.length heq
      simp [h.inner_eq, h.shelf_eq] at hlength
    rw [(h.traced.same _ hunowned (fun _ _ => htidy)).1, (h.remade.same (by simp)).1, hempty]

end Job.Visit

/-- What a run changes. Let block programs write to their scratch directories only, and there
nothing but regular files at the staging paths of their outputs, and let no link be in the output
directory. In every run that gives a report, starting from the tree with the output directory made:

- what stands in the output directory stays as it is, but for the scratch root and for the
  published paths of tasks that have succeeded; and nothing new is in the scratch root, if
  block programs leave nothing that cannot be removed;
- at a published path of a task that has succeeded stands what stood there, or the regular file
  that this task itself has left at the staging path;
- the scratch root is gone if nothing was in it, if the output directory may be written to, and if
  block programs leave nothing that cannot be removed. -/
theorem only_successes_change {workflow : Workflow} {launcher : Launcher} {directory out : Path}
    {mode : Mode} {g : Graph} {job : Job} {files made files' : FileTree} {home : Location}
    {report : Report} (hjob : Job.ofGraph workflow.config directory mode g out = .ok job)
    (hscheduler : ∀ tasks context w, Engine.MayEnd (Work.perform launcher) tasks context w
      (workflow.scheduler tasks context w))
    (hleaves : job.Leaves launcher Task.StagesFiles) (hfiles : files.WellFormed)
    (hmade : files.createDirectories job.out = (made, .ok ()))
    (hhome : made.walk true job.out = .ok home)
    (hlinks : ∀ l target, home <+: l → files.get? l ≠ some (.link target))
    (hrun : workflow.run directory mode g out files = (files', .ok report)) :
    let scratch := home ++ [Job.scratchName]
    let tidy := job.Leaves launcher (fun _ l files => files.Loose l)
    (∀ l, files.get? l ≠ none → Same files made l) ∧
    ∃ plan log p, job.Logged launcher files plan log p files' report ∧
      (∀ l, home <+: l → l ≠ scratch →
        (∀ t ∈ job.tasks.tasks, report.tasks.get? t.name = some .succeeded → ∀ f ∈ t.files,
          l ≠ home ++ [f]) →
        (scratch <+: l → made.get? l = none → tidy) → Same made files' l) ∧
      (∀ t ∈ job.tasks.tasks, report.tasks.get? t.name = some .succeeded → ∀ f ∈ t.files,
        files'.get? (home ++ [f]) = made.get? (home ++ [f]) ∨
          ∃ c, files'.get? (home ++ [f]) = some (.file c) ∧
            job.LeftFile launcher plan log t f c) ∧
      ((∀ n, made.get? (scratch ++ [n]) = none) →
        (made.get? scratch ≠ none → made.permits .write home = true) → tidy →
          files'.get? scratch = none) := by
  intro scratch tidy
  obtain ⟨job', plan, log, p, hjob', hlogged⟩ := Workflow.exists_logged hscheduler hrun
  obtain rfl := Except.ok.inj (hjob.symm.trans hjob')
  obtain ⟨σ, -, hvisit⟩ := hlogged.exists_visit hjob hleaves id hfiles hmade hhome hlinks
  have hinner : σ.inner = scratch := hvisit.inner_eq
  refine ⟨fun l hl => (of_createDirectories hfiles hmade).1.of_used hl, plan, log, p, hlogged,
    fun l _ hne hl htidy => ?_, fun t ht hstate f hf => ?_, fun hempty hwrite htidy => ?_⟩
  · exact hvisit.same_made (hinner ▸ hne) hl (hinner ▸ htidy)
  · exact hvisit.shelf_eq f ▸ hvisit.kept_or_left ht hstate hf
  · rw [← hinner] at hempty hwrite ⊢
    exact hvisit.inner_gone hempty hwrite htidy

/-! ## Chains that leave something behind -/

namespace Chain

/-- Every command makes a directory that may not be used in any way. -/
def littering : Launcher := Launcher.changing
  (fun l files => (files.put (l ++ ["d"]) .directory).withDetail (l ++ ["d"]) { mode := some 0 })
  ⟨true, "done".toUTF8⟩

/-- The directory is not at a staging path. -/
theorem stagesFiles_littering {job : Job} (hd : ∀ t ∈ job.tasks.tasks, "d" ∉ t.files) :
    job.Leaves littering Task.StagesFiles := by
  intro plan i t node launch files l _ ht _ hlaunches
  refine hlaunches.keeps_changing fun files' hfiles' hscratch hbare => ⟨⟨?_, fun m hm => ?_⟩, ?_⟩
  · exact (hfiles'.put hscratch (hbare _ (List.prefix_append _ _) (by simp))).withDetail
      (by simp [get?_put]) rfl
  · -- Only the directory `d` is new, and no task stages a file of that name.
    have hne : ¬l ++ ["d"] = m := fun h => hm ⟨h ▸ List.prefix_append _ _, by simp [← h]⟩
    refine ⟨?_, ?_⟩
    · rw [get?_withDetail, get?_put _ _ _ _ (by simp), if_neg hne]
    · rw [detail_withDetail, if_neg hne, detail_put]
  · intro f hf e he
    have hne : ¬l ++ ["d"] = l ++ [f] := by
      intro h
      obtain rfl : "d" = f := by simpa using h
      exact hd t (List.mem_of_getElem? ht) hf
    rw [get?_withDetail, get?_put _ _ _ _ (by simp), if_neg hne,
      hbare _ (List.prefix_append _ _) (by simp)] at he
    cases he

/-- The output directory may not be written to, and in it an empty scratch root is left. -/
def locked : FileTree :=
  ((FileTree.put {} ["o"] .directory).put ["o", Job.scratchName] .directory).withDetail ["o"]
    { mode := some 0o555 }

theorem wellFormed_locked : locked.WellFormed := by
  have ho : (FileTree.put {} ["o"] .directory).WellFormed :=
    wellFormed_empty.put (m := []) rfl rfl
  have hscratch : ((FileTree.put {} ["o"] .directory).put ["o", Job.scratchName]
      .directory).WellFormed := ho.put (m := ["o"]) rfl rfl
  exact hscratch.withDetail (by decide) rfl

theorem locked_free (n : String) : locked.get? ["o", Job.scratchName, n] = none := by
  rw [locked, get?_withDetail, get?_put _ _ _ _ (by simp), if_neg (by simp),
    get?_put _ _ _ _ (by simp), if_neg (by simp)]
  rfl

/-- A run into this directory leaves the scratch root there. -/
theorem exists_locked : ∃ files' report,
    (Workflow.ofLauncher config writing).run "/" .validate graph "/o" locked =
      (files', .ok report) ∧ files'.get? ["o", Job.scratchName] = some .directory :=
  exists_run (by decide +kernel)

end Chain

/-- The scratch root may stay though nothing was in it before: if a block program has made a
directory there that may not be used, or if the output directory may not be written to. And a
directory in the output directory may be new, if the way to the output directory goes through
it. -/
theorem scratch_stays :
    (∃ job files' report,
      Job.ofGraph Chain.config "/" .validate Chain.graph "/o/x/.." = .ok job ∧
      job.Leaves Chain.littering Task.StagesFiles ∧
      (Workflow.ofLauncher Chain.config Chain.littering).run "/" .validate Chain.graph "/o/x/.."
          {} =
        (files', .ok report) ∧
      files'.get? ["o", Job.scratchName] = some .directory ∧
      (∀ t ∈ job.tasks.tasks, "x" ∉ t.files) ∧ files'.get? ["o", "x"] = some .directory) ∧
    ∃ job files' report, Job.ofGraph Chain.config "/" .validate Chain.graph "/o" = .ok job ∧
      job.Leaves Chain.writing Task.StagesFiles ∧ Chain.locked.WellFormed ∧
      (∀ n, Chain.locked.get? ["o", Job.scratchName, n] = none) ∧
      (Workflow.ofLauncher Chain.config Chain.writing).run "/" .validate Chain.graph "/o"
        Chain.locked = (files', .ok report) ∧
      files'.get? ["o", Job.scratchName] = some .directory := by
  refine ⟨?_, ?_⟩
  · obtain ⟨job, hjob, hout⟩ : ∃ job, Job.ofGraph Chain.config "/" .validate Chain.graph
        "/o/x/.." = .ok job ∧ job.out = "/o/x/.." := ⟨_, rfl, rfl⟩
    have hfiles : ∀ t ∈ job.tasks.tasks, "d" ∉ t.files ∧ "x" ∉ t.files := by
      obtain ⟨-, -, htasks⟩ := Job.of_ofGraph hjob
      rw [htasks, hout]
      decide +kernel
    obtain ⟨files', report, hrun, hget⟩ : ∃ files' report,
        (Workflow.ofLauncher Chain.config Chain.littering).run "/" .validate Chain.graph
          "/o/x/.." {} = (files', .ok report) ∧
        (files'.get? ["o", Job.scratchName], files'.get? ["o", "x"]) =
          (some .directory, some .directory) := Chain.exists_run (by decide +kernel)
    obtain ⟨hscratch, hx⟩ := Prod.mk.inj hget
    exact ⟨job, files', report, hjob, Chain.stagesFiles_littering fun t ht => (hfiles t ht).1, hrun,
      hscratch, fun t ht => (hfiles t ht).2, hx⟩
  · obtain ⟨job, hjob, hout⟩ := Chain.exists_job
    obtain ⟨files', report, hrun, hget⟩ := Chain.exists_locked
    exact ⟨job, files', report, hjob, (Chain.answeredBy_writing hjob hout).stagesFiles,
      Chain.wellFormed_locked, Chain.locked_free, hrun, hget⟩

/-- In the chain the first node succeeds, what stands at its published path is the file that it
has left, and the scratch root is gone. -/
theorem chain_successes_change : ∃ files' report, ∃ job : Job, ∃ plan log p, ∃ t ∈ job.tasks.tasks,
    (Workflow.ofLauncher Chain.config Chain.writing).run "/" .validate Chain.graph "/o" {} =
      (files', .ok report) ∧
    job.Logged Chain.writing {} plan log p files' report ∧
    report.state? Chain.graph "a" = some .succeeded ∧
    files'.get? ["o", "k-a-x.schema"] = some (.file "v".toUTF8) ∧
    job.LeftFile Chain.writing plan log t "k-a-x.schema" "v".toUTF8 ∧
    files'.get? ["o", Job.scratchName] = none := by
  obtain ⟨job, hjob, hout⟩ := Chain.exists_job
  obtain ⟨files', report, hrun, hget⟩ := Chain.exists_written
  obtain ⟨hstate, hfile⟩ := Prod.mk.inj hget
  have hmade : FileTree.createDirectories {} job.out = (FileTree.put {} ["o"] .directory, .ok ()) :=
    hout ▸ Chain.createDirectories_empty
  have hhome : (FileTree.put {} ["o"] .directory).walk true job.out = .ok ["o"] :=
    hout ▸ Chain.walk_made
  obtain ⟨t, ht, hname, hf⟩ : ∃ t ∈ job.tasks.tasks, t.name = "k-a" ∧ "k-a-x.schema" ∈ t.files := by
    rw [Chain.tasks_eq hjob hout]
    decide +kernel
  have hjob' : Job.ofGraph (Workflow.ofLauncher Chain.config Chain.writing).config "/" .validate
    Chain.graph "/o" = .ok job := hjob
  obtain ⟨-, plan, log, p, hlogged, -, hpublished, hgone⟩ := only_successes_change hjob'
    (Engine.mayEnd_scheduler _) (Chain.answeredBy_writing hjob hout).stagesFiles
    wellFormed_empty hmade hhome Chain.unlinked_empty hrun
  refine ⟨files', report, job, plan, log, p, t, ht, hrun, hlogged, hstate, hfile, ?_, ?_⟩
  · rcases hpublished t ht (hname ▸ hstate) "k-a-x.schema" hf with hkept | ⟨c, hc, hleft⟩
    · have hnone : files'.get? ["o", "k-a-x.schema"] = none :=
        hkept.trans (Chain.get?_made (List.cons_ne_nil _ _))
      cases hfile.symm.trans hnone
    · obtain rfl := Entry.file.inj (Option.some.inj (hc.symm.trans hfile))
      exact hleft
  · exact hgone (fun n => Chain.get?_made (List.cons_ne_nil _ _))
      (fun h => absurd (Chain.get?_made (List.cons_ne_nil _ _)) h) (Chain.loose_writing job)

end BlockFlow
