import BlockFlow.Proofs.Engine.Work

/-!
# What is asked of commands

Commands are run by a launcher, of which only so much is known: as long as the others leave
alone the directory that a command runs in, and the files that it reads, the command changes
nothing outside that directory. In the scratch directory of a task this is what the task
needs.

## Key results

- `Site.meets_launch`: a command that keeps to its directory, among other tasks
-/

namespace BlockFlow

open FileTree

/-- What the others leave alone while a command runs in the directory at `l`: the directory,
the way to it, and the files that the command reads. -/
structure Launch.Undisturbed (launch : Launch) (l : Location) (reads : List Path)
    (t t' : FileTree) : Prop where
  wellFormed : t'.WellFormed
  walk : t'.walk true launch.directory = .ok l
  inside : ∀ m, l <+: m → Same t t' m
  read : ∀ p ∈ reads, t'.stat p = t.stat p

/-- Run from `t`, in the directory at `l`, a command that reads these files changes nothing
but what is in its directory, and its result is such as `promise` says, as long as the others
leave it undisturbed. -/
def Launcher.Keeps (launcher : Launcher) (launch : Launch) (l : Location) (reads : List Path)
    (promise : CommandResult → FileTree → Prop) (t : FileTree) : Prop :=
  (launcher launch).Meets (fun (_ : Unit) => launch.Undisturbed l reads)
    (fun _ _ t t' => t.Changes t' (fun m => l <+: m ∧ m ≠ l))
    (fun _ r t' => ∀ result, r = .ok result → promise result t') () t

/-- A command keeps two promises if it keeps each of them, the second one perhaps only under a
condition. -/
theorem Launcher.Keeps.and_of {launcher : Launcher} {launch : Launch} {l : Location}
    {reads : List Path} {promise promise' : CommandResult → FileTree → Prop} {t : FileTree}
    {tidy : Prop} (h : launcher.Keeps launch l reads promise t)
    (h' : tidy → launcher.Keeps launch l reads promise' t) :
    launcher.Keeps launch l reads
      (fun result t' => promise result t' ∧ (tidy → promise' result t')) t := by
  by_cases htidy : tidy
  · refine (Fiber.Meets.and h (h' htidy)).mono (fun _ r t' hend result hr => ?_)
    exact ⟨hend.1 result hr, fun _ => hend.2 result hr⟩
  · exact Fiber.Meets.mono (fun _ r t' hend result hr =>
      ⟨hend result hr, fun h => absurd h htidy⟩) h

/-- Every command of the launcher changes nothing but what is in its directory. -/
def Launcher.Confined (launcher : Launcher) : Prop :=
  ∀ launch t l, t.WellFormed → t.walk true launch.directory = .ok l →
    t.get? l = some .directory → launcher.Keeps launch l [] (fun _ _ => True) t

namespace Site

variable {σ : Site} {χ : Stake} {w : World} {task n : String} {launcher : Launcher}
  {launch : Launch} {reads : List Path} {promise : CommandResult → FileTree → Prop}

/-- These files are published ones that the task has a stake in, and no links. -/
def Unlinked (σ : Site) (χ : Stake) (reads : List Path) (t : FileTree) : Prop :=
  ∀ p ∈ reads, ∃ f, Path.Plain f ∧ p = σ.published f ∧ χ.reads f ∧
    ∀ target, t.get? (σ.shelf f) ≠ some (.link target)

theorem Unlinked.of_same {t t' : FileTree} (h : σ.Unlinked χ reads t)
    (hsame : ∀ f, χ.reads f → Same t t' (σ.shelf f)) : σ.Unlinked χ reads t' := by
  intro p hp
  obtain ⟨f, hf, hpath, hread, hlink⟩ := h p hp
  exact ⟨f, hf, hpath, hread, fun target => (hsame f hread).1 ▸ hlink target⟩

/-- What is found at these files is found there as long as they stay as they are. -/
theorem Unlinked.stat_eq {t t' : FileTree} (h : σ.Unlinked χ reads t) (ht : σ.Steady t)
    (hkept : σ.Kept χ t t') {p : Path} (hp : p ∈ reads) : t'.stat p = t.stat p := by
  obtain ⟨f, hf, rfl, hread, hlink⟩ := h p hp
  exact stat_published_congr ht hkept.steady hf (hkept.read f hread).1 hlink

/-- In the scratch directory of a task, among other tasks, a command keeps to what is in the
directory, and neither the directory itself changes nor the files that the task reads. -/
theorem meets_launch (h : σ.AtWork task n (some n) w) (hdirectory : launch.directory = σ.scratch n)
    (hreads : σ.Unlinked χ reads w.files)
    (hkeeps : launcher.Keeps launch (σ.den n) reads promise w.files) :
    (launcher launch).Meets (fun (_ : Unit) => σ.Undisturbed χ n) (fun _ _ => σ.Within n)
      (fun _ r t' => (σ.Kept χ w.files t' ∧ Same w.files t' (σ.den n)) ∧
        ∀ result, r = .ok result → promise result t') () w.files := by
  have hbegin : σ.Kept χ w.files w.files := ⟨h.steady, fun _ _ => Same.refl _ _⟩
  refine (Fiber.Meets.weaken (J := fun t => σ.Kept χ w.files t ∧
    Same w.files t (σ.den n) ∧ σ.Unlinked χ reads t) ?_ ?_ ⟨hbegin, Same.refl _ _, hreads⟩
      hkeeps).mono (fun _ _ _ hend => ⟨⟨hend.1.1, hend.1.2.1⟩, hend.2⟩)
  · -- The command keeps its promise among others who do no more than these.
    rintro - t t' ⟨hkept, hden, hunlinked⟩ hw
    have hden' := hden.trans (hw.den _ (List.prefix_refl _))
    refine ⟨⟨hw.steady.wellFormed, ?_, hw.den, fun p hp => ?_⟩, hkept.trans hw.toKept, hden',
      hunlinked.of_same hw.read⟩
    · rw [hdirectory]
      exact walk_scratch_of_admits hw.steady h.name.plain h.admits (hden'.1.trans h.den)
    · exact hunlinked.stat_eq hkept.steady hw.toKept hp
  · -- What the command does stays within its directory.
    rintro - - t t' ⟨hkept, hden, hunlinked⟩ hchanges
    have hread : ∀ f, χ.reads f → Same t t' (σ.shelf f) := fun f _ =>
      hchanges.same _ (fun hin => not_den_prefix_shelf hin.1)
    have hsteady := hkept.steady.of_changes hchanges (fun l hl hin => h.apart l hl hin.1)
    refine ⟨hchanges, hkept.trans ⟨hsteady, hread⟩, ?_, hunlinked.of_same hread⟩
    exact hden.trans (hchanges.same _ (fun hin => hin.2 rfl))

end Site

end BlockFlow
