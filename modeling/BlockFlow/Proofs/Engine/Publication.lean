import BlockFlow.Proofs.Engine.Work

/-!
# How outputs are published among others

The outputs of a task are moved from its scratch directory to their published paths, one
after the other. A staged file comes to stand there if that is possible at all, which does
not depend on what the others do; otherwise the published path keeps what it has.

## Key results

- `Site.meets_publishAll`: what becomes of the staged outputs
- `Site.meets_emitText`: a text is staged for the output of a task
-/

namespace BlockFlow

open FileTree

namespace Site

variable {σ : Site} {χ : Stake} {k : Option String} {w w' : World} {t t' : FileTree}
  {task n f : String}

/-- Others leave the scratch directory and the published files of a task alone, and what it
reads. -/
structure Aloof (σ : Site) (χ : Stake) (n : String) (t t' : FileTree) : Prop
    extends σ.Undisturbed χ n t t' where
  owned : ∀ f, χ.owns f → Same t t' (σ.shelf f)

theorem Aloof.refl (ht : σ.Steady t) : σ.Aloof χ n t t :=
  ⟨⟨⟨ht, fun _ _ => Same.refl _ _⟩, fun _ _ => Same.refl _ _⟩, fun _ _ => Same.refl _ _⟩

theorem Aloof.trans {t'' : FileTree} (h : σ.Aloof χ n t t') (h' : σ.Aloof χ n t' t'') :
    σ.Aloof χ n t t'' :=
  ⟨h.toUndisturbed.trans h'.toUndisturbed, fun f hf => (h.owned f hf).trans (h'.owned f hf)⟩

/-- A task takes something out of its scratch directory, and changes its published files. -/
structure Outgoing (σ : Site) (χ : Stake) (n : String) (t t' : FileTree) : Prop where
  steady : σ.Steady t'
  den : Same t t' (σ.den n)
  fewer : ∀ l, σ.den n <+: l → t'.get? l = none ∨ Same t t' l
  elsewhere : ∀ l, (∀ f, χ.owns f → ¬σ.fixed (σ.shelf f) → ¬σ.shelf f <+: l) →
    ¬σ.den n <+: l → Same t t' l

/-- What has become of a staged output: a file has come to stand at its published path, if it
could, and without one that path has kept what it had. -/
def Published (σ : Site) (n : String) (t t' : FileTree) (f : String) : Prop :=
  (t.get? (σ.den n ++ [f]) = none → t'.get? (σ.shelf f) = t.get? (σ.shelf f)) ∧
    ∀ c, t.get? (σ.den n ++ [f]) = some (.file c) →
      (σ.Publishable n f → t'.get? (σ.shelf f) = some (.file c)) ∧
        (¬σ.Publishable n f → t'.get? (σ.shelf f) = t.get? (σ.shelf f))

/-- The outputs with these file names have been dealt with, and nothing else of the task. -/
structure Delivered (σ : Site) (χ : Stake) (n : String) (fs : List String) (t t' : FileTree) :
    Prop where
  steady : σ.Steady t'
  den : Same t t' (σ.den n)
  published : ∀ f ∈ fs, σ.Published n t t' f
  staged : ∀ f, f ∉ fs → Same t t' (σ.den n ++ [f])
  owned : ∀ f, χ.owns f → f ∉ fs → Same t t' (σ.shelf f)

/-- What is moved to a published path leaves the fixed part alone: only a directory may be
fixed there, and then no directory is moved. -/
structure Movable (σ : Site) (n : String) (t : FileTree) (f : String) : Prop where
  target : σ.fixed (σ.shelf f) → σ.base.get? (σ.shelf f) = some .directory
  directory : t.get? (σ.den n ++ [f]) = some .directory → ∀ l, σ.fixed l → ¬σ.shelf f <+: l

theorem prefix_of_den_append {f f' : String} {l : Location} (h : σ.den n ++ [f] <+: l)
    (h' : σ.den n ++ [f'] <+: l) : f = f' := by
  have hlength : (σ.den n ++ [f]).length = (σ.den n ++ [f']).length := by simp
  have hpre := List.prefix_of_prefix_length_le h h' (Nat.le_of_eq hlength)
  simpa using hpre.eq_of_length hlength

theorem not_shelf_prefix_of_den {f : String} (hf : f ≠ Job.scratchName) {l : Location}
    (hl : σ.den n <+: l) : ¬σ.shelf f <+: l :=
  fun h => hf (shelf_prefix_den h hl)

/-- Moving an output changes nothing but that output. -/
private theorem changes_rename (ht : σ.Steady t) (hn : Path.Plain n) (hf : Path.Plain f)
    (hden : t.get? (σ.den n) = some .directory)
    (h : t.rename (σ.staged n f) (σ.published f) = .ok t') :
    t.Changes t' (fun l => σ.den n ++ [f] <+: l ∨ σ.shelf f <+: l) := by
  obtain ⟨e, -, ⟨-, -, -, hchanges⟩ | ⟨-, hchanges⟩⟩ := of_rename ht hn hf hden h
  · refine hchanges.mono (fun l hl => ?_)
    rcases hl with rfl | rfl
    · exact .inl (List.prefix_refl _)
    · exact .inr (List.prefix_refl _)
  · exact hchanges

/-- Moving an output leaves the fixed part alone. -/
private theorem steady_rename (ht : σ.Steady t) (hn : Path.Plain n) (hf : Path.Plain f)
    (hden : t.get? (σ.den n) = some .directory) (hapart : ∀ l, σ.fixed l → ¬σ.den n <+: l)
    (hmovable : σ.Movable n t f)
    (h : t.rename (σ.staged n f) (σ.published f) = .ok t') : σ.Steady t' := by
  obtain ⟨e, he, ⟨-, htarget, -, hchanges⟩ | ⟨rfl, hchanges⟩⟩ := of_rename ht hn hf hden h
  · refine ht.of_changes hchanges (fun l hl => ?_)
    rintro (rfl | rfl)
    · exact hapart _ hl (List.prefix_append _ _)
    · exact htarget ((ht.same _ hl).1.trans (hmovable.target hl))
  · refine ht.of_changes hchanges (fun l hl => ?_)
    rintro (hpre | hpre)
    · exact hapart l hl ((List.prefix_append _ _).trans hpre)
    · exact hmovable.directory he l hl hpre

/-- What is moved goes to a place that is not fixed. -/
private theorem not_fixed_of_rename (ht : σ.Steady t) (hn : Path.Plain n) (hf : Path.Plain f)
    (hden : t.get? (σ.den n) = some .directory) (hmovable : σ.Movable n t f)
    (h : t.rename (σ.staged n f) (σ.published f) = .ok t') : ¬σ.fixed (σ.shelf f) := by
  intro hfixed
  obtain ⟨e, he, ⟨-, htarget, -⟩ | ⟨rfl, -⟩⟩ := of_rename ht hn hf hden h
  · exact htarget ((ht.same _ hfixed).1.trans (hmovable.target hfixed))
  · exact hmovable.directory he _ hfixed (List.prefix_refl _)

/-- A scratch directory as its task has got it. -/
structure Ready (σ : Site) (n : String) (t : FileTree) : Prop where
  steady : σ.Steady t
  name : Path.Plain n
  admits : σ.Admits n
  apart : ∀ l, σ.fixed l → ¬σ.den n <+: l
  den : t.get? (σ.den n) = some .directory
  plain : t.detail (σ.den n) = {}

theorem Ready.of_same (h : σ.Ready n t) (ht' : σ.Steady t') (hden : Same t t' (σ.den n)) :
    σ.Ready n t' :=
  ⟨ht', h.name, h.admits, h.apart, hden.1.trans h.den, hden.2.trans h.plain⟩

/-- A file that is there is found there, or cannot be looked at. -/
private theorem stat_staged_ne (h : σ.Ready n t) (hf : Path.Plain f) {c : ByteArray}
    (hc : t.get? (σ.den n ++ [f]) = some (.file c)) :
    t.stat (σ.staged n f) ≠ .error .notFound := by
  intro hstat
  rcases walk_staged h.steady h.name hf h.den true with ⟨e, he, hwalk⟩ | hwalk | ⟨-, target, hlink⟩
  · rw [stat_of_walk_error hwalk] at hstat
    exact he (Except.error.inj hstat)
  · rw [stat_of_walk hwalk, hc] at hstat
    cases hstat
  · rw [hc] at hlink
    cases hlink

/-- An output that cannot be moved could not be published. -/
private theorem delivered_of_stuck (h : σ.Ready n t) (hf : Path.Plain f)
    (hbase : Same σ.base t (σ.shelf f)) {e : FileError}
    (hrename : t.rename (σ.staged n f) (σ.published f) = .error e) :
    σ.Delivered χ n [f] t t := by
  refine ⟨h.steady, Same.refl _ _, fun f' hf' => ?_, fun _ _ => Same.refl _ _,
    fun _ _ _ => Same.refl _ _⟩
  obtain rfl := List.mem_singleton.1 hf'
  refine ⟨fun _ => rfl, fun c hc => ⟨fun hpub => ?_, fun _ => rfl⟩⟩
  -- What can be published would have been moved.
  have htarget : t.get? (σ.shelf f') ≠ some .directory := fun hdir =>
    hpub.target (hbase.1.symm.trans hdir)
  obtain ⟨t', ht'⟩ := rename_of_publishable h.steady h.name hf h.admits hpub h.den h.plain hc
    (by simp) htarget
  rw [hrename] at ht'
  cases ht'

section Moved

variable (h : σ.Ready n t) (hf : Path.Plain f) (hscratch : f ≠ Job.scratchName)
  (hmovable : σ.Movable n t f) (hrename : t.rename (σ.staged n f) (σ.published f) = .ok t')
include h hf hscratch hrename

private theorem same_den_of_rename : Same t t' (σ.den n) := by
  refine (changes_rename h.steady h.name hf h.den hrename).same _ ?_
  rintro (hpre | hpre)
  · have hle := hpre.length_le
    rw [List.length_append, List.length_singleton] at hle
    omega
  · exact not_shelf_prefix_of_den hscratch (List.prefix_refl _) hpre

include hmovable

/-- What is moved is an output of the task. -/
private theorem outgoing_of_rename (howns : χ.owns f) : σ.Outgoing χ n t t' := by
  have hchanges := changes_rename h.steady h.name hf h.den hrename
  refine ⟨steady_rename h.steady h.name hf h.den h.apart hmovable hrename,
    same_den_of_rename h hf hscratch hrename, fun l hl => ?_,
    fun l howned hl => hchanges.same l ?_⟩
  · -- What was moved is gone, and the rest of the directory is as it was.
    rcases gone_of_rename h.steady h.name hf h.den
      (not_shelf_prefix_of_den hscratch (List.prefix_append _ _)) hrename with rfl | hgone
    · exact .inr (Same.refl _ _)
    · by_cases hpre : σ.den n ++ [f] <+: l
      · exact .inl (hgone l hpre)
      · refine .inr (hchanges.same l ?_)
        rintro (hpre' | hpre')
        · exact hpre hpre'
        · exact not_shelf_prefix_of_den hscratch hl hpre'
  · rintro (hpre | hpre)
    · exact hl ((List.prefix_append _ _).trans hpre)
    · exact howned f howns (not_fixed_of_rename h.steady h.name hf h.den hmovable hrename) hpre

/-- A file that can be published stands at the published path. -/
private theorem delivered_of_rename (hbase : Same σ.base t (σ.shelf f)) :
    σ.Delivered χ n [f] t t' := by
  have hchanges := changes_rename h.steady h.name hf h.den hrename
  -- One output is moved, and everything else stays as it was.
  refine {
    steady := steady_rename h.steady h.name hf h.den h.apart hmovable hrename
    den := same_den_of_rename h hf hscratch hrename
    published := fun f' hf' => ?published
    staged := fun f' hf' => hchanges.same _ ?staged
    owned := fun f' _ hf' => hchanges.same _ ?owned }
  case published =>
    obtain rfl := List.mem_singleton.1 hf'
    obtain ⟨e, he, hmoved⟩ := of_rename h.steady h.name hf h.den hrename
    refine ⟨fun hnone => ?_, fun c hc => ⟨fun _ => ?_, fun hpub => ?_⟩⟩
    · rw [he] at hnone
      cases hnone
    · rw [he] at hc
      rcases hmoved with ⟨-, -, hget, -⟩ | ⟨rfl, -⟩
      · rw [hget, hc]
      · cases hc
    · rw [rename_of_not_publishable h.steady h.name hf hpub h.den hc (by simp)
        (fun hdir => hbase.1.trans hdir) hrename]
  case staged =>
    rintro (hpre | hpre)
    · exact hf' (List.mem_singleton.2 (prefix_of_den_append (List.prefix_refl _) hpre))
    · exact not_shelf_prefix_of_den hscratch (List.prefix_append _ _) hpre
  case owned =>
    rintro (hpre | hpre)
    · exact not_den_prefix_shelf ((List.prefix_append _ _).trans hpre)
    · exact hf' (List.mem_singleton.2 (shelf_prefix_shelf hpre).symm)

end Moved

/-- An output is staged under the name of its published file. -/
theorem stagingPath_published (hf : Path.Plain f) (port : String) :
    Execution.stagingPath (σ.scratch n) port (σ.published f) = σ.staged n f := by
  rw [Execution.stagingPath, published, Path.fileName?_join hf σ.out]
  rfl

/-! ## One output after the other -/

theorem Delivered.cons {fs : List String} {t'' : FileTree} (hf : f ∉ fs) (howns : χ.owns f)
    (h : σ.Delivered χ n [f] t t') (h' : σ.Delivered χ n fs t' t'')
    (hfs : ∀ f' ∈ fs, χ.owns f') : σ.Delivered χ n (f :: fs) t t'' := by
  have hne : ∀ f' ∈ fs, f' ∉ [f] := by
    intro f' hf' hmem
    exact hf (List.mem_singleton.1 hmem ▸ hf')
  refine ⟨h'.steady, h.den.trans h'.den, fun f' hf' => ?_, fun f' hf' => ?_,
    fun f' howns' hf' => ?_⟩
  · -- The first output is left alone later, and the others were left alone before.
    have hsame : σ.Published n t t' f → f = f' → σ.Published n t t'' f' := by
      rintro ⟨hnone, hfile⟩ rfl
      have hget := (h'.owned f howns hf).1
      exact ⟨fun hn => hget.trans (hnone hn), fun c hc =>
        ⟨fun hpub => hget.trans ((hfile c hc).1 hpub),
          fun hpub => hget.trans ((hfile c hc).2 hpub)⟩⟩
    rcases List.mem_cons.1 hf' with rfl | hf'
    · exact hsame (h.published f' (List.mem_singleton_self _)) rfl
    · have hstaged := (h.staged f' (hne f' hf')).1
      have hshelf := (h.owned f' (hfs f' hf') (hne f' hf')).1
      obtain ⟨hnone, hfile⟩ := h'.published f' hf'
      rw [Published, ← hstaged, ← hshelf]
      exact ⟨hnone, hfile⟩
  · rw [List.mem_cons, not_or] at hf'
    exact (h.staged f' (fun hmem => hf'.1 (List.mem_singleton.1 hmem))).trans
      (h'.staged f' hf'.2)
  · rw [List.mem_cons, not_or] at hf'
    exact (h.owned f' howns' (fun hmem => hf'.1 (List.mem_singleton.1 hmem))).trans
      (h'.owned f' howns' hf'.2)

theorem Delivered.of_aloof {fs : List String} {t'' : FileTree} (hfs : ∀ f ∈ fs, χ.owns f)
    (h : σ.Aloof χ n t t') (h' : σ.Delivered χ n fs t' t'') : σ.Delivered χ n fs t t'' := by
  refine ⟨h'.steady, (h.den _ (List.prefix_refl _)).trans h'.den, fun f hf => ?_,
    fun f hf => (h.den _ (List.prefix_append _ _)).trans (h'.staged f hf),
    fun f howns hf => (h.owned f howns).trans (h'.owned f howns hf)⟩
  obtain ⟨hnone, hfile⟩ := h'.published f hf
  rw [Published, ← (h.den _ (List.prefix_append _ [f])).1, ← (h.owned f (hfs f hf)).1]
  exact ⟨hnone, hfile⟩

theorem Movable.of_aloof (h : σ.Aloof χ n t t') (hmovable : σ.Movable n t f) :
    σ.Movable n t' f :=
  ⟨hmovable.target, fun hdir =>
    hmovable.directory ((h.den _ (List.prefix_append _ [f])).1.symm.trans hdir)⟩

theorem meets_publishOne (h : σ.Ready n t) (hf : Path.Plain f) (howns : χ.owns f)
    (hscratch : f ≠ Job.scratchName) (hbase : Same σ.base t (σ.shelf f))
    (hmovable : σ.Movable n t f) :
    (Execution.publishOne (σ.staged n f) (σ.published f)).Meets
      (fun (_ : Unit) => σ.Aloof χ n) (fun _ _ => σ.Outgoing χ n)
      (fun _ _ => σ.Delivered χ n [f] t) () t := by
  have hsingle : ∀ f' ∈ [f], χ.owns f' := fun f' hf' => List.mem_singleton.1 hf' ▸ howns
  refine Fiber.meets_bind (Q := fun _ r t' => σ.Aloof χ n t t' ∧ r = t'.stat (σ.staged n f))
    (Fiber.meets_look fun t' ht' => ⟨(), ⟨ht'.steady, Same.refl _ _,
      fun _ _ => .inr (Same.refl _ _), fun _ _ _ => Same.refl _ _⟩, ht', rfl⟩) ?_
  rintro ⟨⟩ found t₁ ⟨haloof, rfl⟩
  have hready := h.of_same haloof.steady (haloof.den _ (List.prefix_refl _))
  split
  · next hnotFound =>
    -- Nothing is staged, and nothing is moved.
    refine .of_aloof hsingle haloof ⟨haloof.steady, Same.refl _ _, fun f' hf' => ?_,
      fun _ _ => Same.refl _ _, fun _ _ _ => Same.refl _ _⟩
    obtain rfl := List.mem_singleton.1 hf'
    exact ⟨fun _ => rfl, fun c hc => absurd hnotFound (stat_staged_ne hready hf hc)⟩
  · -- Others may have done something between the look and the move.
    refine Fiber.meets_change (fun t₂ haloof₂ => ⟨(), ?_⟩)
    have hready₂ := hready.of_same haloof₂.steady (haloof₂.den _ (List.prefix_refl _))
    have haloof := haloof.trans haloof₂
    have hmovable₂ := hmovable.of_aloof haloof
    have hbase₂ := hbase.trans (haloof.owned f howns)
    cases hrename : t₂.rename (σ.staged n f) (σ.published f) with
    | error e =>
      exact ⟨⟨hready₂.steady, Same.refl _ _, fun _ _ => .inr (Same.refl _ _),
          fun _ _ _ => Same.refl _ _⟩,
        .of_aloof hsingle haloof (delivered_of_stuck hready₂ hf hbase₂ hrename)⟩
    | ok t₃ =>
      exact ⟨outgoing_of_rename hready₂ hf hscratch hmovable₂ hrename howns,
        .of_aloof hsingle haloof
          (delivered_of_rename hready₂ hf hscratch hmovable₂ hrename hbase₂)⟩

/-- All outputs are published, or stay where they are. -/
theorem meets_publishAll {outputs : List (String × Path)} {fs : List String}
    (houtputs : outputs.map (·.2) = fs.map σ.published) (hfs : fs.Nodup) (h : σ.Ready n t)
    (hplain : ∀ f ∈ fs, Path.Plain f) (howns : ∀ f ∈ fs, χ.owns f)
    (hscratch : ∀ f ∈ fs, f ≠ Job.scratchName)
    (hbase : ∀ f ∈ fs, Same σ.base t (σ.shelf f)) (hmovable : ∀ f ∈ fs, σ.Movable n t f) :
    (Execution.publishAll (σ.scratch n) outputs).Meets
      (fun (_ : Unit) => σ.Aloof χ n) (fun _ _ => σ.Outgoing χ n)
      (fun _ _ => σ.Delivered χ n fs t) () t := by
  induction outputs generalizing fs t with
  | nil =>
    obtain rfl : fs = [] := by simpa using houtputs.symm
    exact ⟨h.steady, Same.refl _ _, fun f hf => absurd hf List.not_mem_nil,
      fun _ _ => Same.refl _ _, fun _ _ _ => Same.refl _ _⟩
  | cons e outputs ih =>
    obtain ⟨port, path⟩ := e
    cases fs with
    | nil => simp at houtputs
    | cons f fs =>
      rw [List.map_cons, List.map_cons, List.cons.injEq] at houtputs
      obtain ⟨rfl, houtputs⟩ := houtputs
      rw [List.nodup_cons] at hfs
      have hmem : ∀ f' ∈ fs, f' ∈ f :: fs := fun f' => List.mem_cons_of_mem f
      have hf := hplain f List.mem_cons_self
      rw [Execution.publishAll, stagingPath_published hf]
      refine Fiber.meets_bind (meets_publishOne h hf (howns f List.mem_cons_self)
        (hscratch f List.mem_cons_self) (hbase f List.mem_cons_self)
        (hmovable f List.mem_cons_self)) ?_
      rintro ⟨⟩ u t₁ hdelivered
      -- The other outputs are as they were, since the names are different.
      have hne : ∀ f' ∈ fs, f' ∉ [f] := by
        intro f' hf' hmem
        exact hfs.1 (List.mem_singleton.1 hmem ▸ hf')
      refine (ih houtputs hfs.2 (h.of_same hdelivered.steady hdelivered.den)
        (fun f' hf' => hplain f' (hmem f' hf')) (fun f' hf' => howns f' (hmem f' hf'))
        (fun f' hf' => hscratch f' (hmem f' hf')) (fun f' hf' => ?_) (fun f' hf' => ?_)).mono
        (fun _ _ t₂ hrest => hdelivered.cons hfs.1 (howns f List.mem_cons_self) hrest
          (fun f' hf' => howns f' (hmem f' hf')))
      · exact (hbase f' (hmem f' hf')).trans
          (hdelivered.owned f' (howns f' (hmem f' hf')) (hne f' hf'))
      · refine ⟨(hmovable f' (hmem f' hf')).target, fun hdir => ?_⟩
        refine (hmovable f' (hmem f' hf')).directory ?_
        rw [← (hdelivered.staged f' (hne f' hf')).1]
        exact hdir

/-- Publication keeps to the stake of the task, which reads nothing of its own. -/
theorem meets_publication {α : Type} {ends : Unit → α → FileTree → Prop} {p : Fiber FileTree α}
    (hself : ∀ f, χ.owns f → ¬χ.reads f) (h : σ.AtWork task n k w)
    (hp : p.Meets (fun _ => σ.Aloof χ n) (fun _ _ => σ.Outgoing χ n) ends () w.files) :
    p.onFiles.Meets (σ.Rely χ) (σ.Legal χ) (fun k' a w' => k' = k ∧
      (σ.AtWork task n k w' ∧ σ.Kept χ w.files w'.files ∧
        (w.files.Removable (σ.den n) → w'.files.Removable (σ.den n)) ∧
          ∀ id, χ.node = some id → w'.cell id = w.cell id) ∧ ends () a w'.files) k w := by
  refine Fiber.meets_onPart (R := fun _ => σ.Aloof χ n)
    (L := fun _ _ => σ.Outgoing χ n) (J := fun w' => σ.AtWork task n k w' ∧
      σ.Kept χ w.files w'.files ∧ (w.files.Removable (σ.den n) →
        w'.files.Removable (σ.den n)) ∧ ∀ id, χ.node = some id → w'.cell id = w.cell id)
    (fun _ _ => rfl) ?_ ?_ ⟨h, ⟨h.steady, fun _ _ => Same.refl _ _⟩, id, fun _ _ => rfl⟩ hp
  · -- What the others do.
    rintro w₁ w₂ ⟨hat, hkept, hremovable, hcell⟩ hw
    exact ⟨⟨.of_rely hat hw, hw.owned⟩, hat.of_rely hw, hkept.trans ⟨hw.steady, hw.read⟩,
      fun h => (hremovable h).of_fewer (fun m hm => .inr (hw.den n hat.holds m hm)),
      fun id hid => (hw.cell id hid).trans (hcell id hid)⟩
  · -- What the task itself does.
    rintro w₁ t₁ ⟨hat, hkept, hremovable, hcell⟩ hout
    have hdirectory := hout.den.1.trans hat.den
    refine ⟨⟨⟨hout.steady, fun l howned hl => hout.elsewhere l howned (hl n (.inl hat.holds)),
      fun _ _ => rfl, fun m hm => ?_⟩, .inl rfl⟩, ⟨hout.steady, hat.holds, hat.name, hat.admits,
      hdirectory, hout.den.2.trans hat.plain, hat.apart⟩, ⟨hout.steady, fun f hf => ?_⟩,
      fun h => (hremovable h).of_fewer hout.fewer, hcell⟩
    · obtain rfl := Option.some.inj (hat.holds.symm.trans hm)
      exact hdirectory
    · -- A file below one that the task owns is that one, and the task does not read it.
      refine (hkept.read f hf).trans (hout.elsewhere _ (fun f' hf' _ hpre => ?_)
        not_den_prefix_shelf)
      exact hself f' hf' (shelf_prefix_shelf hpre ▸ hf)

/-! ## Emitted texts -/

theorem Bare.removable (h : σ.Bare n t) (hplain : t.detail (σ.den n) = {}) :
    t.Removable (σ.den n) :=
  (loose_of_files fun m hm hne => by simp [h m hm hne.symm]).removable hplain

/-- A text has been staged for an output, and nothing else. -/
structure Emitted (σ : Site) (n f : String) (content : ByteArray) (t : FileTree) : Prop where
  fits : σ.Fits n f
  staged : t.get? (σ.den n ++ [f]) = some (.file content)
  removable : t.Removable (σ.den n)

theorem Emitted.of_undisturbed {content : ByteArray} (h : σ.Emitted n f content t)
    (ht : σ.Undisturbed χ n t t') : σ.Emitted n f content t' where
  fits := h.fits
  staged := (ht.den _ (List.prefix_append _ _)).1.trans h.staged
  removable := h.removable.of_fewer (fun m hm => .inr (ht.den m hm))

private theorem meets_writeAll {name : String} {content : ByteArray} (h : σ.Ready n t)
    (hf : Path.Plain f) (hbare : σ.Bare n t) :
    (TaskRun.writeAll name content [σ.staged n f]).run.Meets
      (fun (_ : Unit) => σ.Undisturbed χ n) (fun _ _ => σ.Within n)
      (fun _ r t' => ∀ u, r = .ok u → σ.Emitted n f content t') () t := by
  refine Fiber.meets_exceptT_lift_bind (Q := fun _ outcome t' => ∀ u, outcome = .ok u →
    σ.Emitted n f content t') (fun t₁ ht₁ => ⟨(), ?_⟩) ?_
  · -- The directory has been bare so far, so the place of the output is free.
    have hready := h.of_same ht₁.steady (ht₁.den _ (List.prefix_refl _))
    have hfree : t₁.get? (σ.den n ++ [f]) = none :=
      (ht₁.den _ (List.prefix_append _ _)).1.trans (hbare _ (List.prefix_append _ _) (by simp))
    cases hwrite : t₁.write (σ.staged n f) content with
    | error e =>
      simp only [hwrite, Except.map]
      exact ⟨.refl ht₁.steady.wellFormed, fun u hu => by cases hu⟩
    | ok t₂ =>
      simp only [hwrite, Except.map]
      obtain ⟨hfits, hget, hchanges⟩ :=
        of_write_staged hready.steady hready.name hf hready.den hfree hwrite
      refine ⟨hchanges.mono (fun l hl => ?_), fun _ _ => ⟨hfits, hget, ?_⟩⟩
      · exact ⟨hl ▸ List.prefix_append _ _, by simp [hl]⟩
      · refine (loose_of_files fun m hm hne => ?_).removable
          ((hchanges.same _ (by simp)).2.trans hready.plain)
        by_cases hmf : m = σ.den n ++ [f]
        · simp [hmf, hget]
        · rw [(hchanges.same m hmf).1, (ht₁.den m hm).1, hbare m hm hne.symm]
          simp
  · intro _ outcome t' hcontent
    cases outcome with
    | ok u => exact fun _ _ => hcontent u rfl
    | error e => exact fun u hu => by cases hu

/-- A text that a task emits is staged for its output. -/
theorem meets_emitText {run : TaskRun} {content : String} (hf : Path.Plain f)
    (houtputs : run.outputs.values = [σ.staged n f]) (h : σ.Busy χ task n (some n) w)
    (hbare : σ.Bare n w.files) :
    (run.emitText content).run.Meets (σ.Rely χ) (σ.Legal χ)
      (fun k r w => σ.AtWork task n k w ∧ ∀ state, r = .ok state → state = .succeeded ∧
        σ.Fresh χ w ∧ σ.Emitted n f content.toUTF8 w.files) (some n) w := by
  unfold TaskRun.emitText
  rw [houtputs]
  have hready : σ.Ready n w.files :=
    ⟨h.steady, h.name.plain, h.admits, h.apart, h.den, h.plain⟩
  refine Fiber.meets_exceptT_bind (meets_within h (meets_writeAll hready hf hbare)) ?_ ?_
  · rintro k u w ⟨rfl, ⟨hbusy, -⟩, hcontent⟩
    refine ⟨hbusy.toAtWork, fun state hs => ?_⟩
    obtain rfl := Except.ok.inj hs
    exact ⟨rfl, hbusy.fresh, hcontent u rfl⟩
  · rintro k e w ⟨rfl, ⟨hbusy, -⟩, -⟩
    exact ⟨hbusy.toAtWork, fun state hs => by cases hs⟩

end Site

end BlockFlow
