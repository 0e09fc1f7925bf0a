import BlockFlow.Proofs.Workflow.Visits

/-!
# Running again changes nothing

What block programs come to may depend on their nodes, on the mode and on the contents of their
input files alone, and they may leave nothing that cannot be removed. Then a run that starts with
what another run has left comes to the same report, and leaves everything as it is.

The second run begins with what the first one has published. A task that found a file found it
after its producers had published theirs, or had left alone what was there before; in the second
run it finds the same, for the producers publish the same again, or leave alone what they have
left alone before. So the two runs agree from the producers on.

## Key results

- `Job.Visit.follows`: the site of the second run
- `Job.Visit.agree`: the two runs agree
- `rerun_unchanged`: a second run gives the same report and changes nothing
-/

namespace BlockFlow

open FileTree

namespace Job

variable {job : Job} {launcher : Launcher} {answers : Answers} {plan : Plan} {σ σ' : Site}
  {made made' base files files' files'' : FileTree} {home l : Location}
  {log log' : List (Nat × World)} {report report' : Report} {w w' : World} {p : Pool} {k : Nat}
  {config : Config} {directory out : Path} {mode : Mode} {g : Graph} {i : Nat} {f : String}

/-- A run without links in its output directory is a visit in which block programs come to what
`answers` says, whatever the limit is. -/
theorem Went.exists_answered
    (h : (job.withLimit k).Went launcher files made base plan p files' report)
    (hjob : ofGraph config directory mode g out = .ok job)
    (hanswered : job.AnsweredBy launcher answers)
    (hloose : job.Leaves launcher (fun _ l files => files.Loose l)) (hfiles : files.WellFormed)
    (hway : made.Reaches made.IsPassage [] (Path.steps job.out) home)
    (hlinks : ∀ l target, home <+: l → files.get? l ≠ some (.link target)) :
    ∃ σ, σ.base = base ∧ job.Visit launcher plan σ (job.Judged plan σ answers) True made home p.log
      files' report p.world := by
  refine Went.exists_visit h hjob hfiles hway hlinks
    (fun σ i v t (hv : job.Judged plan σ answers i v t) => hv.staged_ne_none)
    fun σ hlaid hplanned hguards hroot => ?_
  refine judges_of_answeredBy hlaid hplanned hguards.out hroot hguards.unlinked ?_ hanswered
    (fun _ => hloose)
  intro t ht f hf hfixed
  obtain ⟨i, hi⟩ := List.getElem?_of_mem ht
  exact hguards.target (i := i) ⟨t, hi, hf⟩ hfixed

namespace Visit

section

variable {judged : Nat → Verdict → FileTree → Prop}
  (h : job.Visit launcher plan σ judged True made home log files' report w)
include h

/-- Where no task publishes, everything is as it was. -/
theorem same_unowned (hl : ∀ i f, (job.tasks.stake i).owns f → l ≠ σ.shelf f) :
    Same σ.base w.files l :=
  h.traced.same l hl (fun _ _ => trivial)

/-- The run leaves no links. -/
theorem unlinked_end (target : Path) (hl : home <+: l) : files'.get? l ≠ some (.link target) := by
  intro hlink
  by_cases hinner : l = σ.inner
  · rcases h.inner_cases with ⟨-, hnone⟩ | ⟨-, hdir⟩
    · rw [hinner, hnone] at hlink
      cases hlink
    · rw [hinner, hdir] at hlink
      cases hlink
  · rw [(h.same_end hinner).1] at hlink
    -- What tasks own is kept or a file; all else is as it was before the run.
    by_cases howned : ∃ i f, (job.tasks.stake i).owns f ∧ l = σ.shelf f
    · obtain ⟨i, f, hf, rfl⟩ := howned
      rcases h.kept_or_file hf with hkept | ⟨c, hc⟩
      · exact h.unlinked _ target hl (hkept ▸ hlink)
      · rw [hc] at hlink
        cases hlink
    · have hsame := h.same_unowned (fun i f hf heq => howned ⟨i, f, hf, heq⟩)
      exact h.unlinked _ target hl (hsame.1 ▸ hlink)

/-- Directories and links on which the run has relied are left, but perhaps not the scratch
root. -/
theorem allBut : σ.base.AllBut σ.base.IsPassage σ.inner files' where
  wellFormed := h.wellFormed_end
  directory := σ.directory_scratch
  kept m hm hne := by
    have hfixed : σ.fixed m := by
      rw [h.guards.fixed]
      rcases hm with hdir | ⟨target, hlink⟩
      · exact ⟨by simp [hdir], .inl hdir⟩
      · exact ⟨by simp [hlink], .inr fun i f _ heq => h.guards.unlinked f target (heq ▸ hlink)⟩
    rw [(h.same_end hne).1, (h.traced.steady.same m hfixed).1]
  gone := h.inner_cases.imp And.right And.right

/-- What a second run begins with, but for the scratch root, is what the last task of the first run
has left. -/
theorem begins (hremade : Remade σ.inner files' base) (hl : l ≠ σ.inner) : Same w.files base l :=
  (h.same_end hl).trans (hremade.same hl)

/-- A second run may write to the output directory if the first one might. -/
theorem write_eq (hremade : Remade σ.inner files' base) :
    base.permits .write home = σ.base.permits .write home := by
  have hne : home ≠ σ.inner := by simp [h.inner_eq]
  have hfixed := h.traced.steady.same home (h.guards.home ▸ σ.fixed_home)
  rw [(h.begins hremade hne).permits .write, hfixed.permits .write]

end

/-! ## Two visits -/

variable
  (h : job.Visit launcher plan σ (job.Judged plan σ answers) True made home log files' report w)
  (h' : job.Visit launcher plan σ' (job.Judged plan σ' answers) True made' home log' files'' report'
    w')
  (hremade : Remade σ.inner files' σ'.base)
include h h' hremade

/-- In the site of the second run, a task begins with what it has left in the first one. -/
theorem follows (i : Nat) : σ.Follows σ' (job.tasks.stake i) w.files := by
  have hbegins : ∀ f, (job.tasks.stake i).owns f →
      σ'.base.get? (σ.shelf f) = w.files.get? (σ.shelf f) :=
    fun f hf => (h.begins hremade (h.shelf_ne_inner hf)).1
  refine ⟨h'.guards.out.trans h.guards.out.symm, h'.guards.home.trans h.guards.home.symm,
    h.guards.home ▸ h.write_eq hremade, fun f hf hkept => (hbegins f hf).trans hkept,
    fun f hf => ?_⟩
  rw [hbegins f hf]
  rcases h.kept_or_file hf with hkept | ⟨c, hc⟩
  · rw [hkept]
  · -- Where a file has been published, there was no directory.
    refine ⟨fun hdir => (by rw [hc] at hdir; cases hdir), fun hdir => ?_⟩
    have hfixed : σ.fixed (σ.shelf f) := (h.guards.fixed _).2 ⟨by simp [hdir], .inl hdir⟩
    exact (h.traced.steady.same _ hfixed).1.trans hdir

/-- The two runs agree on every task. -/
theorem agree {t : Task Work} (ht : job.tasks.tasks[i]? = some t) :
    report.tasks.get? t.name = report'.tasks.get? t.name ∧
      σ.Alike (job.tasks.stake i) w w' :=
  Ended.agree_of_follows h.laid h.accounts h.guards.out h.guards.unlinked
    (h.follows h' hremade) h.ended h'.ended ht

/-- The second run has changed nothing that the first one has left, but perhaps the scratch
root. -/
theorem get?_eq (hl : l ≠ σ.inner) : w'.files.get? l = w.files.get? l := by
  have hhome : σ'.home = σ.home := h'.guards.home.trans h.guards.home.symm
  by_cases howned : ∃ i f, (job.tasks.stake i).owns f ∧ l = σ.shelf f
  · obtain ⟨i, f, hf, rfl⟩ := howned
    obtain ⟨t, ht, -⟩ := id hf
    exact (h.agree h' hremade ht).2.owned f hf
  · have hsame := h'.same_unowned (l := l) (fun i f hf heq => howned ⟨i, f, hf, by
      rw [heq, Site.shelf, Site.shelf, hhome]⟩)
    exact hsame.1.trans (h.begins hremade hl).1

/-- Nor has it changed the scratch root. -/
theorem unchanged (l : Location) : files''.get? l = files'.get? l := by
  have hhome : σ'.home = σ.home := h'.guards.home.trans h.guards.home.symm
  have hinner : σ'.inner = σ.inner := by rw [Site.inner, Site.inner, hhome]
  by_cases hl : l = σ.inner
  · -- What keeps it in one run keeps it in the other.
    have hclear : σ'.Clear w'.files ↔ σ.Clear w.files := by
      have hbelow : ∀ n, w'.files.get? (σ'.inner ++ [n]) = w.files.get? (σ.inner ++ [n]) := by
        intro n
        rw [hinner]
        exact h.get?_eq h' hremade (by simp)
      have hwrite := h.write_eq hremade
      rw [← h.guards.home] at hwrite
      constructor
      · exact fun hc => ⟨hwrite ▸ hhome ▸ hc.write, fun n => (hbelow n).symm.trans (hc.empty n)⟩
      · refine fun hc => ⟨?_, fun n => (hbelow n).trans (hc.empty n)⟩
        rw [hhome, hwrite]
        exact hc.write
    have hcases' := h'.inner_cases
    rw [hclear, hinner] at hcases'
    rw [hl]
    rcases h.inner_cases with ⟨hgoes, hnone⟩ | ⟨hstays, hdir⟩
    · exact (hcases'.resolve_right (fun h => h.1 hgoes)).2.trans hnone.symm
    · exact (hcases'.resolve_left (fun h => hstays h.1)).2.trans hdir.symm
  · rw [(h'.same_end (hinner ▸ hl)).1, h.get?_eq h' hremade hl, (h.same_end hl).1]

end Visit

/-- After a first run, a second one is a visit to the same place, and makes nothing there but the
scratch root before its tasks begin. -/
theorem Visit.exists_again
    (h : job.Visit launcher plan σ (job.Judged plan σ answers) True made home log files' report w)
    (hway : σ.base.Reaches σ.base.IsPassage [] (Path.steps job.out) home)
    (hagain : (job.withLimit k).Went launcher files' made' base plan p files'' report')
    (hjob : ofGraph config directory mode g out = .ok job)
    (hanswered : job.AnsweredBy launcher answers)
    (hloose : job.Leaves launcher (fun _ l files => files.Loose l)) :
    ∃ σ', Remade σ.inner files' σ'.base ∧ job.Visit launcher plan σ'
      (job.Judged plan σ' answers) True made' home p.log files'' report' p.world := by
  -- The way of the first run is still there, so it leads where it has led before.
  have hbut := h.allBut
  have hremade : Remade σ.inner files' made' := hbut.of_createDirectories hway hagain.made
  obtain ⟨hgrows, l, hleads⟩ := of_createDirectories h.wellFormed_end hagain.made
  obtain rfl := (hbut.of_remade hremade hgrows.wellFormed).eq_of_reaches hway hleads
  obtain ⟨σ', -, h'⟩ := hagain.exists_answered hjob hanswered hloose h.wellFormed_end hleads
    (fun l target hl => h.unlinked_end target hl)
  exact ⟨σ', hremade.trans (h.inner_eq.trans h'.inner_eq.symm ▸ h'.remade), h'⟩

end Job

/-- Running again changes nothing. Let block programs come to what `answers` says, and leave
nothing that cannot be removed, and let no link be in the output directory. Let a run give a
report, and let another run start with the files that it has left, with any two limits, each by a
scheduler that carries out the tasks: side by side, by moves in any order, or one at a time. If it
gives a report as well, this is the same, in the failures and in the states of all tasks, and every
location holds what it has held after the first run. -/
theorem rerun_unchanged {config : Config} {launcher : Launcher} {answers : Answers}
    {directory out : Path} {mode : Mode} {g : Graph} {job : Job} {k₁ k₂ : Nat}
    {scheduler₁ scheduler₂ : Scheduler Work} {files files₁ files₂ : FileTree} {home : Location}
    {report₁ report₂ : Report} (hjob : Job.ofGraph config directory mode g out = .ok job)
    (hscheduler₁ : ∀ w, Engine.CarriesOut (Work.perform launcher) (job.withLimit k₁).tasks
      job.context w (scheduler₁ (job.withLimit k₁).tasks job.context w))
    (hscheduler₂ : ∀ w, Engine.CarriesOut (Work.perform launcher) (job.withLimit k₂).tasks
      job.context w (scheduler₂ (job.withLimit k₂).tasks job.context w))
    (hanswered : job.AnsweredBy launcher answers)
    (hloose : job.Leaves launcher (fun _ l files => files.Loose l)) (hfiles : files.WellFormed)
    (hhome : (files.createDirectories job.out).1.walk true job.out = .ok home)
    (hlinks : ∀ l target, home <+: l → files.get? l ≠ some (.link target))
    (hrun₁ : Workflow.run ⟨{ config with maxConcurrency := k₁ }, scheduler₁⟩ directory mode g out
      files = (files₁, .ok report₁))
    (hrun₂ : Workflow.run ⟨{ config with maxConcurrency := k₂ }, scheduler₂⟩ directory mode g out
      files₁ = (files₂, .ok report₂)) :
    report₂ = report₁ ∧ ∀ l, files₂.get? l = files₁.get? l := by
  obtain ⟨t, base, plan, p₁, h₁⟩ := Job.exists_went_withLimit hjob hscheduler₁ hrun₁
  obtain ⟨t', base', plan', p₂, h₂⟩ := Job.exists_went_withLimit hjob hscheduler₂ hrun₂
  obtain rfl := Except.ok.inj (h₁.carried.planned.symm.trans h₂.carried.planned)
  have hmade : files.createDirectories job.out = (t, .ok ()) := h₁.made
  rw [hmade] at hhome
  have hway : t.Reaches t.IsPassage [] (Path.steps job.out) home := h₁.way hfiles hhome
  obtain ⟨σ, rfl, hvisit₁⟩ := h₁.exists_answered hjob hanswered hloose hfiles hway hlinks
  have hgrows := (of_createDirectories (of_createDirectories hfiles h₁.made).1.wellFormed
    h₁.rooted).1
  have hway' : σ.base.Reaches σ.base.IsPassage [] (Path.steps job.out) home :=
    (hway.of_same (fun m hm => (hgrows.passage hm).1)).mono (fun m hm => (hgrows.passage hm).2)
  obtain ⟨σ', hremade, hvisit₂⟩ := hvisit₁.exists_again hway' h₂ hjob hanswered hloose
  have hmode : report₁.mode = report₂.mode := by rw [h₁.report_eq, h₂.report_eq]; rfl
  have hreport : report₁ = report₂ := hvisit₁.ended.report_eq hvisit₂.ended hmode
    (fun i u hu => hvisit₁.agree hvisit₂ hremade hu)
  exact ⟨hreport.symm, hvisit₁.unchanged hvisit₂ hremade⟩

/-! ## A chain that is run again -/

/-- One after the other, the tasks of the chain can be carried out where they have been carried out
side by side before. -/
theorem Chain.exists_again : ∃ files report,
    Workflow.run ⟨{ config with maxConcurrency := 1 },
      Engine.oneByOne (Work.perform writing) [2, 0, 1, 3]⟩ "/" .validate graph "/o"
        (runWith 4 (Engine.scheduler (Work.perform writing))).1 = (files, .ok report) ∧
      report.state? graph "b" = some .succeeded := by
  rw [Engine.scheduler_eq_within 100]
  exact exists_report (by decide +kernel)

/-- Run a second time, with another limit and in another order, the chain comes to the same report,
and everything stands as it stood. -/
theorem chain_rerun : ∃ files₁ files₂ report,
    Chain.runWith 4 (Engine.scheduler (Work.perform Chain.writing)) = (files₁, .ok report) ∧
      Workflow.run ⟨{ Chain.config with maxConcurrency := 1 },
        Engine.oneByOne (Work.perform Chain.writing) [2, 0, 1, 3]⟩ "/" .validate Chain.graph "/o"
          files₁ = (files₂, .ok report) ∧
      report.state? Chain.graph "b" = some .succeeded ∧
      files₂.get? ["o", "k-a-x.schema"] = files₁.get? ["o", "k-a-x.schema"] := by
  obtain ⟨job, hjob, hout⟩ := Chain.exists_job
  obtain ⟨files₁, report₁, hrun₁⟩ := Chain.exists_sideBySide
  obtain ⟨files₂, report₂, hrun₂, hstate⟩ := Chain.exists_again
  rw [hrun₁] at hrun₂
  have hhome : (FileTree.createDirectories {} job.out).1.walk true job.out = .ok ["o"] := by
    rw [hout, Chain.createDirectories_empty]
    exact Chain.walk_made
  obtain ⟨rfl, hsame⟩ := rerun_unchanged hjob
    (fun w => Engine.isScheduler_scheduler (Work.perform Chain.writing) _ _ w)
    (fun w => .oneByOne (Chain.tasks_withLimit hjob hout ▸ Chain.isOrder_tasks))
    (Chain.answeredBy_writing hjob hout) (Chain.loose_writing job) wellFormed_empty hhome
    Chain.unlinked_empty hrun₁ hrun₂
  exact ⟨files₁, files₂, report₂, hrun₁, hrun₂, hstate, hsame _⟩

end BlockFlow
