import BlockFlow.Proofs.Engine.Endings

/-!
# Tasks that find the same end the same

How a task ends is settled by what it reads, if the verdict on it is: in two worlds in which
the same stands at the files that it reads, it has ended in the same state, has reported the
same, and has left the same at its published paths. In which scratch directory it has worked
makes no difference. One of the worlds may be that of a later run, which begins with what the
other one has left.

## Key results

- `Site.Publishable.congr`: the name of the scratch directory does not matter
- `Site.Ends.agree`: what a task reads settles how it ends
-/

namespace BlockFlow

open FileTree

namespace Site

variable {σ σ' : Site} {χ : Stake} {w w' : World} {t t' : FileTree} {task n n' f : String}
  {ports : List (String × Option Path)} {judged judged' : Verdict → FileTree → Prop}
  {state state' : TaskState}

/-! ## Sites of two runs -/

/-- The site of a run at the same place: at its published files a task with this stake begins
with what it began with in the other site, or with what it has left there in the tree `t`. -/
structure Follows (σ σ' : Site) (χ : Stake) (t : FileTree) : Prop where
  out : σ'.out = σ.out
  home : σ'.home = σ.home
  write : σ'.base.permits .write σ.home = σ.base.permits .write σ.home
  kept : ∀ f, χ.owns f → t.get? (σ.shelf f) = σ.base.get? (σ.shelf f) →
    σ'.base.get? (σ.shelf f) = σ.base.get? (σ.shelf f)
  directory : ∀ f, χ.owns f → (σ'.base.get? (σ.shelf f) = some .directory ↔
    σ.base.get? (σ.shelf f) = some .directory)

/-- Two runs may work in one site. -/
theorem Follows.refl (σ : Site) (χ : Stake) (t : FileTree) : σ.Follows σ χ t :=
  ⟨rfl, rfl, rfl, fun _ _ _ => rfl, fun _ _ => Iff.rfl⟩

theorem Follows.shelf (h : σ.Follows σ' χ t) (f : String) : σ'.shelf f = σ.shelf f := by
  rw [Site.shelf, h.home, Site.shelf]

theorem Follows.published (h : σ.Follows σ' χ t) (f : String) :
    σ'.published f = σ.published f := by
  rw [Site.published, h.out, Site.published]

theorem Follows.lacking (h : σ.Follows σ' χ t) {v : Option Path} :
    σ'.Lacking t' v ↔ σ.Lacking t' v := by
  simp only [Lacking, h.shelf, h.published]

theorem Follows.supplied (h : σ.Follows σ' χ t) {v : Option Path} :
    σ'.Supplied t' v ↔ σ.Supplied t' v := by
  simp only [Supplied, h.shelf, h.published]

/-! ## Scratch directories -/

/-- The paths of a file in the scratch directories of a task are equally long. -/
private theorem size_staged (hn : Execution.IsScratchName task n)
    (hn' : Execution.IsScratchName task n') (hf : Path.Plain f) :
    (σ.staged n' f).utf8ByteSize = (σ.staged n f).utf8ByteSize := by
  have hsize : ∀ m, Path.Plain m → (σ.staged m f).utf8ByteSize =
      (Path.join σ.scratchRoot m).utf8ByteSize + 1 + f.utf8ByteSize := by
    intro m hm
    have hslash : (σ.scratch m).endsWithSlash = false := Path.endsWithSlash_join hm scratchRoot_ne
    rw [staged, Path.utf8ByteSize_join hf (scratch_ne hm), hslash, scratch]
    rfl
  rw [hsize n hn.plain, hsize n' hn'.plain, Path.utf8ByteSize_join hn.plain scratchRoot_ne,
    Path.utf8ByteSize_join hn'.plain scratchRoot_ne, hn.utf8ByteSize, hn'.utf8ByteSize]

/-- What can be moved from one scratch directory of a task can be moved from another one. -/
theorem Publishable.congr (hfollows : σ.Follows σ' χ t) (howns : χ.owns f)
    (hn : Execution.IsScratchName task n) (hn' : Execution.IsScratchName task n')
    (hf : Path.Plain f) : σ'.Publishable n' f ↔ σ.Publishable n f := by
  have hstaged : σ'.staged n' f = σ.staged n' f := by
    rw [staged, scratch, scratchRoot, hfollows.out, staged, scratch, scratchRoot]
  -- Names of scratch directories of one task have the same length, and so have the staged paths.
  have hsize : (σ'.staged n' f).utf8ByteSize = (σ.staged n f).utf8ByteSize := by
    rw [hstaged, size_staged hn hn' hf]
  have htarget := not_congr (hfollows.directory f howns)
  constructor
  · intro h
    exact ⟨⟨h.fits.noNul, hsize ▸ h.fits.shortPath, h.fits.short⟩,
      hfollows.write ▸ hfollows.home ▸ h.write, htarget.1 (hfollows.shelf f ▸ h.target)⟩
  · intro h
    refine ⟨⟨h.fits.noNul, hsize ▸ h.fits.shortPath, h.fits.short⟩, ?_, ?_⟩
    · rw [hfollows.home, hfollows.write]
      exact h.write
    · rw [hfollows.shelf f]
      exact htarget.2 h.target

/-! ## What is read -/

/-- In both trees the same stands at the files that a task reads, and it is no link. -/
structure SameReads (σ : Site) (χ : Stake) (t t' : FileTree) : Prop where
  same : ∀ f, χ.reads f → t'.get? (σ.shelf f) = t.get? (σ.shelf f)
  unlinked : ∀ f, χ.reads f → ∀ target, t.get? (σ.shelf f) ≠ some (.link target)

theorem SameReads.symm (h : σ.SameReads χ t t') : σ.SameReads χ t' t :=
  ⟨fun f hf => (h.same f hf).symm, fun f hf target => h.same f hf ▸ h.unlinked f hf target⟩

/-- Where links are out of the question, what does not supply a port is lacking. -/
theorem SameReads.lacking {v : Option Path} (h : σ.SameReads χ t t')
    (hread : ∀ path, v = some path → ∃ f, Path.Plain f ∧ path = σ.published f ∧ χ.reads f)
    (hsupplied : ¬σ.Supplied t v) : σ.Lacking t' v := by
  cases v with
  | none => exact .inl rfl
  | some path =>
    obtain ⟨f, hf, rfl, hreads⟩ := hread path rfl
    refine .inr ⟨f, hf, rfl, ?_⟩
    rw [h.same f hreads]
    -- No link stands at what is read, so without a file nothing can be read there.
    cases hget : t.get? (σ.shelf f) with
    | none => exact .inl rfl
    | some e =>
      cases e with
      | directory => exact .inr rfl
      | link target => exact absurd hget (h.unlinked f hreads target)
      | file c => exact absurd ⟨f, c, hf, rfl, hget⟩ hsupplied

/-! ## How a task ends -/

/-- In both worlds a task has reported the same, and the same stands at its published paths. -/
structure Alike (σ : Site) (χ : Stake) (w w' : World) : Prop where
  owned : ∀ f, χ.owns f → w'.files.get? (σ.shelf f) = w.files.get? (σ.shelf f)
  cell : ∀ id, χ.node = some id → w'.cell id = w.cell id

/-- Where a task has left its files as they were in both runs, the same stands in the end. -/
private theorem owned_eq (hfollows : σ.Follows σ' χ w.files)
    (h : ∀ f, χ.owns f → Same σ.base w.files (σ.shelf f))
    (h' : ∀ f, χ.owns f → Same σ'.base w'.files (σ'.shelf f)) (f : String) (hf : χ.owns f) :
    w'.files.get? (σ.shelf f) = w.files.get? (σ.shelf f) := by
  have hbase := hfollows.kept f hf (h f hf).1
  rw [← hfollows.shelf f, (h' f hf).1, hfollows.shelf f, hbase, (h f hf).1]

theorem Fresh.alike (hfollows : σ.Follows σ' χ w.files) (h : σ.Fresh χ w)
    (h' : σ'.Fresh χ w') : σ.Alike χ w w' :=
  ⟨owned_eq hfollows h.owned h'.owned, fun id hid => (h'.cell id hid).trans (h.cell id hid).symm⟩

/-- Where a file has been staged in the same way, the same stands in the end. -/
theorem Placed.agree {staged : Option (Option ByteArray)} (hfollows : σ.Follows σ' χ t)
    (howns : χ.owns f) (hn : Execution.IsScratchName task n)
    (hn' : Execution.IsScratchName task n') (hf : Path.Plain f) (hknown : staged ≠ none)
    (h : σ.Placed n staged t f) (h' : σ'.Placed n' staged t' f) :
    t'.get? (σ.shelf f) = t.get? (σ.shelf f) := by
  have hpub := Publishable.congr hfollows howns hn hn' hf
  -- What the first run has kept, the second one has begun with.
  have hkept : t.get? (σ.shelf f) = σ.base.get? (σ.shelf f) →
      t'.get? (σ'.shelf f) = σ'.base.get? (σ'.shelf f) →
        t'.get? (σ.shelf f) = t.get? (σ.shelf f) := by
    intro hget hget'
    rw [hfollows.shelf f] at hget'
    rw [hget', hfollows.kept f howns hget, hget]
  cases staged with
  | none => exact absurd rfl hknown
  | some staged =>
    cases staged with
    | none => exact hkept (h.kept rfl) (h'.kept rfl)
    | some c =>
      by_cases hmoved : σ.Publishable n f
      · rw [h.moved c rfl hmoved, ← hfollows.shelf f]
        exact h'.moved c rfl (hpub.2 hmoved)
      · exact hkept (h.stuck c rfl hmoved) (h'.stuck c rfl (fun hmoved' => hmoved (hpub.1 hmoved')))

/-- A task whose reads are supplied has not been skipped. -/
private theorem Ends.fed (h : σ.Ends χ task ports judged state w) (hne : state ≠ .skipped) :
    ∀ e ∈ ports, ¬σ.Lacking w.files e.2 := by
  cases h with
  | skipped => exact absurd rfl hne
  | failed _ hfed => exact hfed
  | succeeded hfed => exact hfed

/-- What is missing in one world is missing in the other. -/
private theorem SameReads.missing (hreads : σ.ReadsFrom χ ports)
    (hsame : σ.SameReads χ w.files w'.files) (hmissing : ∃ e ∈ ports, ¬σ.Supplied w.files e.2)
    (hfed : ∀ e ∈ ports, ¬σ.Lacking w'.files e.2) : False := by
  obtain ⟨e, he, hsupplied⟩ := hmissing
  exact hfed e he (hsame.lacking (hreads e he) hsupplied)

/-- If the verdict on a task is settled by what the task reads, so is how it ends. -/
theorem Ends.agree (hfollows : σ.Follows σ' χ w.files) (hplain : ∀ f, χ.owns f → Path.Plain f)
    (hreads : σ.ReadsFrom χ ports) (hsame : σ.SameReads χ w.files w'.files)
    (hjudged : ∀ v v', judged v w.files → judged' v' w'.files → v = v')
    (hknown : ∀ v t, judged v t → ∀ f, v.staged f ≠ none)
    (h : σ.Ends χ task ports judged state w) (h' : σ'.Ends χ task ports judged' state' w') :
    state = state' ∧ σ.Alike χ w w' := by
  -- A file that is missing in one run is missing in the other.
  have hfed : state ≠ .skipped → ∀ e ∈ ports, ¬σ.Lacking w.files e.2 := h.fed
  have hfed' : state' ≠ .skipped → ∀ e ∈ ports, ¬σ.Lacking w'.files e.2 :=
    fun hne e he hlacking => h'.fed hne e he (hfollows.lacking.2 hlacking)
  cases h with
  | skipped hfresh hmissing =>
    cases h' with
    | skipped hfresh' => exact ⟨rfl, hfresh.alike hfollows hfresh'⟩
    | failed => exact (hsame.missing hreads hmissing (hfed' (by simp))).elim
    | succeeded => exact (hsame.missing hreads hmissing (hfed' (by simp))).elim
  | @failed _ v howned _ hverdict hstatus hcell =>
    cases h' with
    | skipped _ hmissing' =>
      obtain ⟨e, he, hsupplied⟩ := hmissing'
      exact (hsame.symm.missing hreads
        ⟨e, he, fun h => hsupplied (hfollows.supplied.2 h)⟩ (hfed (by simp))).elim
    | @failed _ v' howned' _ hverdict' _ hcell' =>
      -- Both commands come to one verdict, which tells a failure from a success.
      obtain rfl := hjudged v v' hverdict hverdict'
      exact ⟨rfl, owned_eq hfollows howned howned',
        fun id hid => (hcell' id hid).trans (hcell id hid).symm⟩
    | @succeeded _ v' _ _ hverdict' hstatus' =>
      obtain rfl := hjudged v v' hverdict hverdict'
      rw [hstatus] at hstatus'
      cases hstatus'
  | @succeeded _ v n _ hverdict hstatus hcell hname hplaced =>
    cases h' with
    | skipped _ hmissing' =>
      obtain ⟨e, he, hsupplied⟩ := hmissing'
      exact (hsame.symm.missing hreads
        ⟨e, he, fun h => hsupplied (hfollows.supplied.2 h)⟩ (hfed (by simp))).elim
    | @failed _ v' _ _ hverdict' hstatus' =>
      obtain rfl := hjudged v v' hverdict hverdict'
      rw [hstatus] at hstatus'
      cases hstatus'
    | @succeeded _ v' n' _ hverdict' _ hcell' hname' hplaced' =>
      obtain rfl := hjudged v v' hverdict hverdict'
      exact ⟨rfl, fun f hf => Placed.agree hfollows hf hname hname' (hplain f hf)
        (hknown v _ hverdict f) (hplaced f hf) (hplaced' f hf),
        fun id hid => (hcell' id hid).trans (hcell id hid).symm⟩

/-- A task has left its files as they were, or has put regular files there. -/
theorem Ends.kept_or_file (hknown : ∀ v t, judged v t → ∀ f, v.staged f ≠ none)
    (howns : χ.owns f) (h : σ.Ends χ task ports judged state w) :
    w.files.get? (σ.shelf f) = σ.base.get? (σ.shelf f) ∨
      ∃ c, w.files.get? (σ.shelf f) = some (.file c) := by
  cases h with
  | skipped hfresh => exact .inl (hfresh.owned f howns).1
  | failed howned => exact .inl (howned f howns).1
  | @succeeded _ v n _ hverdict _ _ _ hplaced =>
    have hplaced := hplaced f howns
    -- What is published is a file, and what is not leaves the entry as it was.
    cases hstaged : v.staged f with
    | none => exact absurd hstaged (hknown v _ hverdict f)
    | some staged =>
      cases staged with
      | none => exact .inl (hplaced.kept hstaged)
      | some c =>
        by_cases hpub : σ.Publishable n f
        · exact .inr ⟨c, hplaced.moved c hstaged hpub⟩
        · exact .inl (hplaced.stuck c hstaged hpub)

/-- Where no link was, a task does not leave one. -/
theorem Ends.not_link (hbase : ∀ target, σ.base.get? (σ.shelf f) ≠ some (.link target))
    (hknown : ∀ v t, judged v t → ∀ f, v.staged f ≠ none) (howns : χ.owns f)
    (h : σ.Ends χ task ports judged state w) (target : Path) :
    w.files.get? (σ.shelf f) ≠ some (.link target) := by
  rcases h.kept_or_file hknown howns with hkept | ⟨c, hc⟩
  · exact hkept ▸ hbase target
  · simp [hc]

end Site

end BlockFlow
