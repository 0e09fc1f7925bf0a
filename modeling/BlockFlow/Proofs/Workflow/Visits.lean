import BlockFlow.Proofs.Files.Remaking
import BlockFlow.Proofs.Workflow.Skips
import BlockFlow.Proofs.Workflow.Traces

/-!
# Runs as visits to their sites

A run begins with the tree in which its output directory has been made, makes its scratch root
there unless it is there already, carries out its tasks, and removes the scratch root again if
nothing keeps it. `Job.Visit` puts together what is known of such a run in its site.

## Key results

- `Job.Went.exists_visit`: a run without links in its output directory is a visit
- `Job.Visit.remade`, `Job.Visit.same_end`: but for the scratch root, the site begins with the tree
  in which the output directory has been made, and what the last task leaves stays
- `Job.Visit.inner_cases`: what becomes of the scratch root
-/

namespace BlockFlow

open FileTree

namespace Job

/-- A run has been in its site at `home`. In the tree `made` its output directory has been made, in
the world `w` its last task has ended, and `files'` is what it has left. -/
structure Visit (job : Job) (launcher : Launcher) (plan : Plan) (σ : Site)
    (judged : Nat → Verdict → FileTree → Prop) (tidy : Prop) (made : FileTree) (home : Location)
    (log : List (Nat × World)) (files' : FileTree) (report : Report) (w : World) : Prop where
  laid : job.tasks.Laid job.out
  accounts : plan.Accounts job.tasks
  root : job.context.scratchRoot = σ.scratchRoot
  guards : job.Guards σ.base home σ
  unlinked : ∀ l target, home <+: l → σ.base.get? l ≠ some (.link target)
  /-- The scratch root was there, or it has been made. -/
  rooted : (made.get? σ.inner = some .directory ∧ σ.base = made) ∨
    (made.get? σ.inner = none ∧ made.permits .write home = true ∧
      σ.base = made.put σ.inner .directory)
  known : ∀ i v t, judged i v t → v.Known
  ended : job.Ended plan σ judged w report
  traced : job.Traced launcher plan σ judged tidy log report w
  files_eq : files' = (Engine.cleanUp job.context w).files

variable {job : Job} {launcher : Launcher} {plan : Plan} {σ : Site}
  {judged : Nat → Verdict → FileTree → Prop} {tidy : Prop} {made base files files' : FileTree}
  {home l : Location} {log : List (Nat × World)} {report : Report} {w : World} {p : Pool} {k : Nat}
  {config : Config} {directory out : Path} {mode : Mode} {g : Graph} {i : Nat} {f : String}

/-- A run without links in its output directory is a visit, whatever the limit is, if its commands
come to verdicts in the site. -/
theorem Went.exists_visit {judged : Site → Nat → Verdict → FileTree → Prop}
    (h : (job.withLimit k).Went launcher files made base plan p files' report)
    (hjob : ofGraph config directory mode g out = .ok job) (hfiles : files.WellFormed)
    (hway : made.Reaches made.IsPassage [] (Path.steps job.out) home)
    (hlinks : ∀ l target, home <+: l → files.get? l ≠ some (.link target))
    (hknown : ∀ σ i v t, judged σ i v t → v.Known)
    (hjudges : ∀ σ, job.tasks.Laid job.out → job.tasks.plan = .ok plan → job.Guards σ.base home σ →
      job.context.scratchRoot = σ.scratchRoot →
        job.tasks.Judges plan σ launcher job.context (judged σ) tidy) :
    ∃ σ, σ.base = base ∧
      job.Visit launcher plan σ (judged σ) tidy made home p.log files' report p.world := by
  obtain ⟨haccepted, hcontext, htasks⟩ := of_ofGraph hjob
  have hlaid : job.tasks.Laid job.out := haccepted.laid_tasks (by rw [htasks])
  have hplanned : job.tasks.plan = .ok plan := h.carried.planned
  have hjob' := ofGraph_withLimit hjob k
  obtain ⟨σ, hguards⟩ := h.exists_guards hjob' hfiles hway hlinks
  obtain rfl := hguards.base
  have hguards' : job.Guards σ.base home σ := ⟨hguards.out, hguards.home, rfl, hguards.inward,
    hguards.fixed, hguards.unlinked⟩
  have hroot := hguards'.root (by rw [hcontext])
  have hinner : σ.inner = home ++ [scratchName] := by rw [Site.inner, hguards.home]
  have hjudges' := judges_withLimit (hjudges σ hlaid hplanned hguards' hroot) k
  -- Nothing else looks at the limit either.
  have hlaid' : (job.withLimit k).tasks.Laid (job.withLimit k).out := ⟨hlaid.names,
    hlaid.published, hlaid.plain, hlaid.nodup, hlaid.apart, hlaid.nodes, hlaid.emits⟩
  have hended := h.ended hlaid' hguards.out rfl hroot hjudges'
  have htraced := h.traced hlaid' hguards hroot hjudges' (hknown σ)
  exact ⟨σ, rfl, {
    laid := hlaid
    accounts := TaskGraph.accounts_of_plan hplanned
    root := hroot
    guards := hguards'
    unlinked := fun l target hl hlink =>
      hlinks l target hl ((h.base_iff hfiles l _ (by simp)).1 hlink)
    rooted := hinner ▸ h.rooted_cases hjob' hfiles hway hlinks
    known := hknown σ
    ended := hended.of_withLimit
    traced := ⟨htraced.steady, htraced.tasks, htraced.same⟩
    files_eq := h.files_eq }⟩

/-- So is a run whose commands leave regular files. -/
theorem Logged.exists_visit {q : Progress}
    (h : job.Logged launcher files plan log q files' report)
    (hjob : ofGraph config directory mode g out = .ok job)
    (hleaves : job.Leaves launcher Task.StagesFiles)
    (htidy : tidy → job.Leaves launcher (fun _ l files => files.Loose l))
    (hfiles : files.WellFormed) (hmade : files.createDirectories job.out = (made, .ok ()))
    (hhome : made.walk true job.out = .ok home)
    (hlinks : ∀ l target, home <+: l → files.get? l ≠ some (.link target)) :
    ∃ σ, (∀ l e, e ≠ .directory → (σ.base.get? l = some e ↔ files.get? l = some e)) ∧
      job.Visit launcher plan σ (fun _ v _ => v.Known) tidy made home log files' report q.world := by
  obtain ⟨made', base, hwent⟩ := h.exists_went hjob
  obtain ⟨rfl, -⟩ := Prod.mk.inj (hmade.symm.trans hwent.made)
  have hway := hwent.way hfiles hhome
  obtain ⟨σ, hbase, hvisit⟩ : ∃ σ : Site, σ.base = base ∧ job.Visit launcher plan σ
      (fun _ v _ => v.Known) tidy made home log files' report q.world :=
    Went.exists_visit (k := job.tasks.maxConcurrency) hwent hjob hfiles hway hlinks
      (fun _ _ _ _ hv => hv) (fun _ hlaid hplanned hguards hroot =>
        judges_of_leaves hlaid hplanned hguards hroot hleaves htidy)
  exact ⟨σ, hbase ▸ hwent.base_iff hfiles, hvisit⟩

namespace Visit

variable (h : job.Visit launcher plan σ judged tidy made home log files' report w)
include h

theorem inner_eq : σ.inner = home ++ [scratchName] := by
  rw [Site.inner, h.guards.home]

theorem shelf_eq (f : String) : σ.shelf f = home ++ [f] := by
  rw [Site.shelf, h.guards.home]

/-- No task publishes the scratch root. -/
theorem shelf_ne_inner (hf : (job.tasks.stake i).owns f) : σ.shelf f ≠ σ.inner := by
  obtain ⟨t, ht, hf⟩ := hf
  have hne := (h.laid.plain t (List.mem_of_getElem? ht) f hf).2
  rw [h.shelf_eq, h.inner_eq]
  simpa using hne

/-! ## The beginning and the end -/

/-- Before the first task, nothing but the scratch root has been made in the output directory. -/
theorem remade : Remade σ.inner made σ.base :=
  h.rooted.imp And.right (fun h => ⟨h.1, h.2.2⟩)

/-- Everything but the scratch root is left as it was when the last task had ended. -/
theorem same_end (hl : l ≠ σ.inner) : Same w.files files' l := by
  rw [h.files_eq]
  exact Site.same_cleanUp h.traced.steady h.root hl

theorem end_cases : (σ.Clear w.files ∧ files' = w.files.drop σ.inner) ∨
    (¬σ.Clear w.files ∧ files' = w.files) := by
  rw [h.files_eq]
  exact Site.cleanUp_cases h.traced.steady h.guards.inward h.root

theorem wellFormed_end : files'.WellFormed := by
  rcases h.end_cases with ⟨hclear, rfl⟩ | ⟨-, rfl⟩
  · exact h.traced.steady.wellFormed.drop (by simp [Site.inner]) hclear.empty
  · exact h.traced.steady.wellFormed

/-- The scratch root is gone if nothing has kept it, and is a directory still otherwise. -/
theorem inner_cases : (σ.Clear w.files ∧ files'.get? σ.inner = none) ∨
    (¬σ.Clear w.files ∧ files'.get? σ.inner = some .directory) := by
  rcases h.end_cases with ⟨hclear, rfl⟩ | ⟨hkept, rfl⟩
  · exact .inl ⟨hclear, (get?_drop _ _ _ (by simp [Site.inner])).trans (if_pos rfl)⟩
  · exact .inr ⟨hkept, h.traced.steady.directory_inner⟩

/-! ## What the tasks have left -/

/-- How a task has ended. -/
theorem exists_state {t : Task Work} (ht : job.tasks.tasks[i]? = some t) :
    ∃ state, report.tasks.get? t.name = some state ∧
      job.tasks.EndsAs plan σ judged i state w := by
  obtain ⟨state, n, after, hstate, -, -, hclosed⟩ := h.traced.tasks i t ht
  exact ⟨state, hstate, t, ht, hclosed.ends⟩

/-- A task leaves what was at its published path, or a regular file. -/
theorem kept_or_file (hf : (job.tasks.stake i).owns f) :
    w.files.get? (σ.shelf f) = σ.base.get? (σ.shelf f) ∨
      ∃ c, w.files.get? (σ.shelf f) = some (.file c) := by
  obtain ⟨t, ht, -⟩ := id hf
  obtain ⟨state, -, t', -, hends⟩ := h.ended.tasks i t ht
  exact hends.kept_or_file (h.known i) hf

/-- A graph's run is settled. -/
theorem settled (hjob : ofGraph config directory mode g out = .ok job)
    (hiff : ∀ l e, e ≠ .directory → (σ.base.get? l = some e ↔ files.get? l = some e)) :
    job.Settled g mode config.modules files files' home report plan σ judged w := by
  obtain ⟨haccepted, -, htasks⟩ := of_ofGraph hjob
  exact {
    toEnded := h.ended
    accepted := haccepted
    compiled := by rw [htasks]
    accounts := h.accounts
    out_eq := h.guards.out
    home_eq := h.guards.home
    base_iff := hiff
    shelf_eq := fun f hf => by
      have hne : home ++ [f] ≠ σ.inner := by
        rw [h.inner_eq]
        simpa using hf
      rw [← (h.same_end hne).1] }

end Visit

end Job

end BlockFlow
