import BlockFlow.Proofs.Files.Site

/-!
# What the tasks of a run do to files

Every operation of a task changes a few locations of a steady tree and leaves the others as
they are; `FileTree.Changes` says so. A file is moved to its published path whenever that
path is possible, writable and not taken by a directory.

## Key results

- `Site.of_mkdirFresh`: a fresh scratch directory
- `Site.of_write_staged`: a file in a scratch directory
- `Site.of_rename`, `Site.rename_of_publishable`, `Site.rename_of_not_publishable`: publication
- `Site.changes_removeAll`, `Site.gone_of_removeAll`: the end of a scratch directory
-/

namespace BlockFlow

open FileTree

/-- Only locations of which `P` holds have changed, and the tree is well-formed. -/
structure FileTree.Changes (t t' : FileTree) (P : Location → Prop) : Prop where
  wellFormed : t'.WellFormed
  same : ∀ l, ¬P l → Same t t' l

namespace FileTree

variable {t t' t'' : FileTree} {P Q : Location → Prop}

theorem Changes.refl (ht : t.WellFormed) : t.Changes t P := ⟨ht, fun l _ => Same.refl t l⟩

theorem Changes.mono (hPQ : ∀ l, P l → Q l) (h : t.Changes t' P) : t.Changes t' Q :=
  ⟨h.wellFormed, fun l hl => h.same l (fun hp => hl (hPQ l hp))⟩

theorem Changes.trans (h : t.Changes t' P) (h' : t'.Changes t'' P) : t.Changes t'' P :=
  ⟨h'.wellFormed, fun l hl => (h.same l hl).trans (h'.same l hl)⟩

/-- Names begin with their stem. -/
theorem freshName_eq (t : FileTree) (l : Location) (stem : String) :
    ∃ m, t.freshName l stem = stem ++ sixDigits m := by
  unfold freshName
  simp only
  generalize hfound : List.find? _ _ = found
  cases found with
  | none => exact ⟨0, rfl⟩
  | some n =>
    obtain ⟨m, -, hm⟩ := List.mem_map.1 (List.mem_of_find?_eq_some hfound)
    exact ⟨m, hm.symm⟩

theorem changes_put (ht : t.WellFormed) {l : Location} {n : String} {e : Entry}
    (hl : t.get? l = some .directory) (hfree : t.get? (l ++ [n]) = none) :
    t.Changes (t.put (l ++ [n]) e) (· = l ++ [n]) := by
  refine ⟨ht.put hl hfree, fun m hm => ⟨?_, detail_put _ _ _ _⟩⟩
  rw [get?_put _ _ _ _ (by simp), if_neg (Ne.symm hm)]

theorem changes_shift (ht : t.WellFormed) {s b : Location} {y : String} {e : Entry}
    (hs : s ≠ []) (he : t.get? s = some e) (hb : t.get? b = some .directory)
    (hsource : e ≠ .directory) (htarget : t.get? (b ++ [y]) ≠ some .directory) :
    t.Changes (t.shift s (b ++ [y]) e) (fun l => l = s ∨ l = b ++ [y]) := by
  refine ⟨ht.shift hs he hb hsource htarget, fun l hl => ?_⟩
  have hls : ¬s = l := fun h => hl (.inl h.symm)
  have hld : ¬b ++ [y] = l := fun h => hl (.inr h.symm)
  refine ⟨?_, ?_⟩
  · rw [get?_shift _ hs (by simp), if_neg hld, if_neg hls]
  · rw [detail_shift, if_neg hld, if_neg hls]

theorem changes_relocate (ht : t.WellFormed) {s b : Location} {y : String} (hs : s ≠ [])
    (hb : t.get? b = some .directory) (hfree : t.get? (b ++ [y]) = none)
    (hsd : ¬s <+: b ++ [y]) :
    t.Changes (t.relocate s (b ++ [y])) (fun l => s <+: l ∨ b ++ [y] <+: l) := by
  refine ⟨ht.relocate hs hb hfree hsd, fun l hl => ?_⟩
  obtain ⟨hls, hld⟩ := not_or.1 hl
  refine ⟨?_, ?_⟩
  · rw [get?_relocate _ hs (by simp) (fun m => ht.free_of_free hfree), if_neg hld, if_neg hls]
  · rw [detail_relocate_of_outside _ hld, if_neg hls]

theorem changes_drop (ht : t.WellFormed) {a : Location} (ha : a ≠ [])
    (hempty : (t.below a).isEmpty = true) : t.Changes (t.drop a) (· = a) := by
  refine ⟨ht.drop ha (free_of_below_isEmpty hempty), fun l hl => ⟨?_, ?_⟩⟩
  · rw [get?_drop _ _ _ ha, if_neg (Ne.symm hl)]
  · rw [detail_drop, if_neg (Ne.symm hl)]

/-- Below a location some entries go, each with all that is in it. -/
theorem changes_filtered (ht : t.WellFormed) {a : Location} {p : Location → Bool} (ha : a ≠ [])
    (hentries : t'.entries = t.entries.filter (fun l _ => p l))
    (hdetails : t'.details = t.details.filter (fun l _ => p l))
    (hkept : ∀ l, p l = false → a <+: l)
    (hparent : ∀ l n, p (l ++ [n]) = true → p l = true) : t.Changes t' (a <+: ·) := by
  have hroot : p [] = true := by
    by_contra hroot
    exact ha (List.prefix_nil.1 (hkept [] (by simpa using hroot)))
  refine ⟨ht.filtered hentries hdetails hroot hparent, fun l hl => ?_⟩
  have hp : p l = true := by
    by_contra hp
    exact hl (hkept l (by simpa using hp))
  refine ⟨?_, ?_⟩
  · rw [get?_filtered t hentries hroot, if_pos hp]
  · rw [detail_filtered t hdetails, if_pos hp]

/-! ## Removing everything -/

/-- Nothing at a location or below it is kept from being removed. -/
def Removable (t : FileTree) (l : Location) : Prop := ∀ m, l <+: m → t.isStuck m = false

/-- Nothing in a directory keeps the directory from being removed. -/
def Loose (t : FileTree) (l : Location) : Prop :=
  ∀ m, l <+: m → m ≠ l → t.isStuck m = false

/-- So it is where there are no directories in it. -/
theorem loose_of_files {l : Location}
    (h : ∀ m, l <+: m → m ≠ l → t.get? m ≠ some .directory) : t.Loose l :=
  fun m hm hne => by simp [isStuck, h m hm hne]

/-- A directory with the usual permissions can be removed if what is in it can. -/
theorem Loose.removable {l : Location} (h : t.Loose l) (hl : t.detail l = {}) :
    t.Removable l := by
  intro m hm
  by_cases hne : m = l
  · rw [hne, isStuck, hl]
    rfl
  · exact h m hm hne

/-- Where there is less, less is kept from being removed. -/
theorem Removable.of_fewer {l : Location} (h : t.Removable l)
    (hfewer : ∀ m, l <+: m → t'.get? m = none ∨ Same t t' m) : t'.Removable l := by
  intro m hm
  rcases hfewer m hm with hfree | hsame
  · simp [isStuck, hfree]
  · have hempty : (t.below m).isEmpty = true → (t'.below m).isEmpty = true := by
      intro hempty
      refine below_isEmpty (fun n => ?_)
      rcases hfewer (m ++ [n]) (hm.trans (List.prefix_append _ _)) with hfree | hsame
      · exact hfree
      · exact hsame.1.trans (free_of_below_isEmpty hempty n)
    have hstuck := h m hm
    simp only [isStuck, hsame.1, hsame.2, hsame.permits, Bool.and_eq_false_iff,
      Bool.or_eq_false_iff, Bool.not_eq_false'] at hstuck ⊢
    rcases hstuck with hstuck | ⟨hread, hstuck⟩
    · exact .inl hstuck
    · exact .inr ⟨hread, hstuck.imp_right hempty⟩

/-- A directory from which everything can be removed goes with everything in it. -/
theorem get?_removeAll {p : Path} {l : Location} (h : t.Removable l)
    (hwalk : t.walk false p = .ok l) (hl : l ≠ []) {m : Location} (hm : l <+: m) :
    (t.removeAll p).get? m = none := by
  have hstuck : t.details.keys.filter (fun m => l.isPrefixOf m && t.isStuck m) = [] := by
    rw [List.filter_eq_nil_iff]
    intro m _ hm
    rw [Bool.and_eq_true, List.isPrefixOf_iff_prefix] at hm
    rw [h m hm.1] at hm
    cases hm.2
  unfold removeAll
  simp only [hwalk, if_neg hl, hstuck]
  exact (get?_dropAll _ hl m).trans (if_pos hm)

/-! ## Renaming -/

theorem of_rename {p q : Path} (h : t.rename p q = .ok t') :
    ∃ s d e, t.walkToName p = .ok s ∧ t.walkToName q = .ok d ∧ t.get? s = some e := by
  unfold rename at h
  cases hs : t.walkToName p with
  | error e => rw [hs] at h; cases h
  | ok s =>
    rw [hs] at h
    cases hd : t.walkToName q with
    | error e => rw [hd] at h; cases h
    | ok d =>
      rw [hd] at h
      cases he : t.get? s with
      | none => simp only [bind, Except.bind, he] at h; cases h
      | some e => exact ⟨s, d, e, rfl, rfl, he⟩

/-- The names of one file hold the same entry. -/
theorem get?_of_isSame (ht : t.WellFormed) {s d : Location} (h : t.isSame s d = true) :
    t.get? d = t.get? s := by
  rw [isSame, Bool.or_eq_true, decide_eq_true_eq] at h
  rcases h with rfl | h
  · rfl
  · rw [List.contains_iff_mem, namesOf] at h
    split at h
    · rw [List.mem_singleton.1 h]
    · next k hk =>
      obtain ⟨x, hx, rfl⟩ := List.mem_map.1 h
      obtain ⟨hmem, hshared⟩ := List.mem_filter.1 hx
      refine ht.twins _ _ k ?_ hk
      rw [detail, SortedMap.mem_toList.1 hmem]
      simpa using hshared

theorem mayChange_eq (t : FileTree) (l : Location) :
    t.mayChange l = if t.permits .write l.dropLast then .ok () else .error .permissionDenied := rfl

/-- A file or a link is moved over anything but a directory. -/
theorem rename_nonDirectory {p q : Path} {s d : Location} {e : Entry}
    (hp : p.endsWithSlash = false) (hq : q.endsWithSlash = false) (hs : t.walkToName p = .ok s)
    (hd : t.walkToName q = .ok d) (he : t.get? s = some e) (hdir : e ≠ .directory) :
    t.rename p q =
      if t.isSame s d then .ok t
      else if t.permits .write s.dropLast && t.permits .write d.dropLast then
        if t.get? d = some .directory then .error .isADirectory else .ok (t.shift s d e)
      else .error .permissionDenied := by
  unfold rename
  simp only [bind, Except.bind, hs, hd, he, hp, hq, Bool.or_self, Bool.and_false, mayChange_eq]
  rw [if_neg (by decide)]
  -- To move a file onto itself needs no permission; else both directories must be writable.
  split
  · rfl
  · cases hws : t.permits .write s.dropLast with
    | false => rfl
    | true =>
      cases hwd : t.permits .write d.dropLast with
      | false => rfl
      | true =>
        simp only [Bool.and_self, if_true]
        split
        · exact absurd rfl hdir
        · exact absurd rfl hdir
        · exact absurd rfl hdir
        · next h => rw [if_pos h]; rfl
        · rw [if_neg (by assumption)]; rfl

/-- A directory is moved to a free location, or over an empty directory. -/
theorem of_rename_directory {p q : Path} {s d : Location} (hs : t.walkToName p = .ok s)
    (hd : t.walkToName q = .ok d) (he : t.get? s = some .directory)
    (h : t.rename p q = .ok t') :
    t' = t ∨ (¬s <+: d ∧ t.get? d = none ∧ t' = t.relocate s d) ∨
      (¬s <+: d ∧ (t.below d).isEmpty = true ∧ t' = (t.drop d).relocate s d) := by
  unfold rename at h
  simp only [bind, Except.bind, hs, hd, he, ne_eq, not_true_eq_false, decide_false,
    Bool.false_and, Bool.false_eq_true, if_false, mayChange_eq] at h
  split at h
  · exact .inl (Except.ok.inj h).symm
  · cases hws : t.permits .write s.dropLast with
    | false => rw [hws] at h; cases h
    | true =>
      cases hwd : t.permits .write d.dropLast with
      | false => rw [hws, hwd] at h; cases h
      | true =>
        rw [hws, hwd] at h
        simp only [if_true] at h
        -- A directory replaces only an empty directory, or nothing, and never goes below itself.
        split at h
        · split at h
          · cases h
          · next hpre =>
            rw [List.isPrefixOf_iff_prefix] at hpre
            split at h
            · next hempty => exact .inr (.inr ⟨hpre, hempty, (Except.ok.inj h).symm⟩)
            · cases h
        · cases h
        · next hfree =>
          split at h
          · cases h
          · next hpre =>
            rw [List.isPrefixOf_iff_prefix] at hpre
            exact .inr (.inl ⟨hpre, hfree, (Except.ok.inj h).symm⟩)
        · simp_all
        · cases hget : t.get? d <;> simp_all

/-! ## Making a directory -/

/-- A directory is made where nothing is, in a directory that may be written to. -/
theorem of_mkdir {p : Path} (h : t.mkdir p = .ok t') :
    ∃ l, t.walkToName p = .ok l ∧ t.get? l = none ∧ t.permits .write l.dropLast = true ∧
      t' = t.put l .directory := by
  unfold FileTree.mkdir at h
  cases hwalk : t.walkToName p with
  | error e => rw [hwalk] at h; cases h
  | ok l =>
    rw [hwalk] at h
    simp only [bind, Except.bind] at h
    cases hget : t.get? l with
    | some e => rw [hget] at h; cases h
    | none =>
      rw [hget] at h
      simp only at h
      rw [mayChange_eq] at h
      split at h
      · next hwrite => exact ⟨l, rfl, hget, hwrite, (Except.ok.inj h).symm⟩
      · cases h

end FileTree

/-! ## Names of scratch directories -/

namespace Execution

/-- The name of a scratch directory of a task. -/
def IsScratchName (task n : String) : Prop := ∃ m, n = scratchStem task ++ sixDigits m

theorem toList_scratchStem (task : String) :
    (scratchStem task).toList =
      task.toList.map (fun c => if isScratchChar c then c else '_') ++ ['-'] := by
  rw [scratchStem, String.toList_append, String.toList_ofList]
  rfl

theorem toList_sixDigits (m : Nat) :
    (sixDigits m).toList =
      [5, 4, 3, 2, 1, 0].map (fun k => Nat.digitChar (m / Nat.pow 10 k % 10)) := by
  rw [sixDigits, String.toList_ofList]

private theorem digitChar_spec :
    ∀ d < 10, Nat.digitChar d ≠ '/' ∧ (Nat.digitChar d).utf8Size = 1 := by
  decide

theorem IsScratchName.plain {task n : String} (h : IsScratchName task n) : Path.Plain n := by
  obtain ⟨m, rfl⟩ := h
  have hdash : '-' ∈ (scratchStem task ++ sixDigits m).toList := by
    simp [toList_scratchStem]
  have hne : ∀ s : String, '-' ∉ s.toList → scratchStem task ++ sixDigits m ≠ s :=
    fun s hs heq => hs (heq ▸ hdash)
  refine ⟨hne "" (by decide), hne "." (by decide), hne ".." (by decide), ?_⟩
  rw [String.toList_append, toList_scratchStem, toList_sixDigits]
  intro hslash
  rcases List.mem_append.1 hslash with hslash | hslash
  · rcases List.mem_append.1 hslash with hslash | hslash
    · -- A slash in the name of the task is replaced.
      obtain ⟨c, -, hc⟩ := List.mem_map.1 hslash
      split at hc
      · next hchar => rw [hc] at hchar; exact absurd hchar (by decide)
      · exact absurd hc (by decide)
    · exact absurd hslash (by decide)
  · obtain ⟨k, -, hk⟩ := List.mem_map.1 hslash
    exact (digitChar_spec _ (Nat.mod_lt _ (by decide))).1 hk

/-- Characters of one byte each. -/
private theorem utf8ByteSize_ofList {cs : List Char} (h : ∀ c ∈ cs, c.utf8Size = 1) :
    (String.ofList cs).utf8ByteSize = cs.length := by
  induction cs with
  | nil => rfl
  | cons c cs ih =>
    rw [show c :: cs = [c] ++ cs from rfl, String.ofList_append, String.utf8ByteSize_append,
      ih (fun d hd => h d (List.mem_cons_of_mem _ hd)), ← String.singleton_eq_ofList,
      String.utf8ByteSize_singleton, h c List.mem_cons_self, List.length_append,
      List.length_singleton]

theorem IsScratchName.utf8ByteSize {task n : String} (h : IsScratchName task n) :
    n.utf8ByteSize = (scratchStem task).utf8ByteSize + 6 := by
  obtain ⟨m, rfl⟩ := h
  rw [String.utf8ByteSize_append]
  congr 1
  rw [sixDigits, utf8ByteSize_ofList]
  · rfl
  · intro c hc
    obtain ⟨k, -, rfl⟩ := List.mem_map.1 hc
    exact (digitChar_spec _ (Nat.mod_lt _ (by decide))).2

end Execution

namespace Site

variable {σ : Site} {t t' : FileTree} {n f task : String}

/-! ## Making a scratch directory -/

/-- Who gets to a scratch directory can get there again. -/
private theorem admits_of_walk (ht : σ.Steady t) (hn : Path.Plain n) {l : Location}
    (h : t.walk false (σ.scratch n) = .ok l) : σ.Admits n := by
  have hsearch' : t.permits .search σ.inner = σ.base.permits .search σ.inner :=
    (ht.same _ σ.fixed_scratch).permits .search
  rw [walk_inward ht (scratch_ne hn) (pieces_scratch hn)] at h
  cases hin : σ.inward (σ.scratch n) with
  | error e => rw [hin] at h; cases h
  | ok k =>
    rw [hin] at h
    simp only [Except.bind] at h
    cases hsearch : t.permits .search σ.inner with
    | false => rw [walkFrom_denied hn.ne_empty hsearch] at h; cases h
    | true =>
      refine ⟨⟨k, hin⟩, hsearch'.symm.trans hsearch, ?_⟩
      by_contra hlong
      rw [walkFrom_long (named_of_plain hn) hsearch (Nat.not_le.1 hlong)] at h
      cases h

/-- A fresh directory is made in the scratch root, at a free location. -/
theorem of_mkdirFresh (ht : σ.Steady t) {p : Path}
    (h : t.mkdirFresh σ.scratchRoot (Execution.scratchStem task) = .ok (t', p)) :
    ∃ n, Execution.IsScratchName task n ∧ p = σ.scratch n ∧ σ.Admits n ∧
      t.get? (σ.den n) = none ∧ t' = t.put (σ.den n) .directory := by
  unfold FileTree.mkdirFresh at h
  cases hwalk : t.walk true σ.scratchRoot with
  | error e => rw [hwalk] at h; cases h
  | ok l =>
    obtain rfl := walk_scratchRoot ht hwalk
    rw [hwalk] at h
    obtain ⟨m, hm⟩ := t.freshName_eq σ.inner (Execution.scratchStem task)
    simp only [bind, Except.bind, hm] at h
    have hname : Execution.IsScratchName task (Execution.scratchStem task ++ sixDigits m) :=
      ⟨m, rfl⟩
    -- Of the name that is tried, only its form matters from here on.
    generalize Execution.scratchStem task ++ sixDigits m = n at h hname
    cases hmkdir : t.mkdir (Path.join σ.scratchRoot n) with
    | error e => rw [hmkdir] at h; cases h
    | ok t'' =>
      rw [hmkdir] at h
      obtain ⟨rfl, rfl⟩ := Prod.mk.inj (Except.ok.inj h)
      obtain ⟨l, hl, hfree, -, rfl⟩ := of_mkdir hmkdir
      rw [show Path.join σ.scratchRoot n = σ.scratch n from rfl,
        walkToName_scratch hname.plain] at hl
      obtain rfl := walk_scratch ht hname.plain hl
      exact ⟨n, hname, rfl, admits_of_walk ht hname.plain hl, hfree, rfl⟩

/-! ## Writing into a scratch directory -/

/-- Writing at a free location of a scratch directory makes a file there. -/
theorem of_write_staged (ht : σ.Steady t) (hn : Path.Plain n) (hf : Path.Plain f)
    (hden : t.get? (σ.den n) = some .directory) (hfree : t.get? (σ.den n ++ [f]) = none)
    {content : ByteArray} (h : t.write (σ.staged n f) content = .ok t') :
    σ.Fits n f ∧ t'.get? (σ.den n ++ [f]) = some (.file content) ∧
      t.Changes t' (· = σ.den n ++ [f]) := by
  -- Whatever keeps the walk from the place keeps the file from being written.
  have hreached : ∀ e, e ≠ .notFound → t.walk true (σ.staged n f) ≠ .error e := by
    intro e he hwalk
    rw [FileTree.write, hwalk] at h
    cases e <;> first | exact absurd rfl he | cases h
  have hfits : σ.Fits n f := by
    by_contra hfits
    obtain ⟨e, he, hwalk⟩ := walk_staged_of_not_fits true ht hn hf hfits hden
    exact hreached e he hwalk
  refine ⟨hfits, ?_⟩
  rcases walk_staged ht hn hf hden true with ⟨e, he, hwalk⟩ | hwalk | ⟨-, target, hlink⟩
  · exact absurd hwalk (hreached e he)
  · rw [FileTree.write, hwalk] at h
    simp only [hfree] at h
    cases hmay : t.mayChange (σ.den n ++ [f]) with
    | error e => rw [hmay] at h; cases h
    | ok u =>
      rw [hmay] at h
      obtain rfl := Except.ok.inj h
      rw [fill_of_free ht.wellFormed hfree]
      have hne : σ.den n ++ [f] ≠ [] := by simp
      have hput := changes_put ht.wellFormed (e := .file content) hden hfree
      -- A new file is put there, and then filled under the only name it has.
      have hagain : ∀ l, Same (t.put (σ.den n ++ [f]) (.file content))
          ((t.put (σ.den n ++ [f]) (.file content)).put (σ.den n ++ [f]) (.file content)) l := by
        intro l
        refine ⟨?_, detail_put _ _ _ _⟩
        rw [get?_put _ _ _ _ hne]
        split
        · next hl => rw [← hl, get?_put _ _ _ _ hne, if_pos rfl]
        · rfl
      refine ⟨by rw [get?_put _ _ _ _ hne, if_pos rfl], hput.wellFormed.of_same hagain, ?_⟩
      exact fun l hl => (hput.same l hl).trans (hagain l)
  · rw [hfree] at hlink
    cases hlink

/-! ## Publishing -/

private theorem not_prefix_of_length {l m : Location} (h : m.length < l.length) : ¬l <+: m :=
  fun hlm => Nat.not_le.2 h hlm.length_le

theorem length_den (σ : Site) (n : String) : (σ.den n).length = σ.home.length + 2 := by
  simp [den, inner]

theorem length_shelf (σ : Site) (f : String) : (σ.shelf f).length = σ.home.length + 1 := by
  simp [shelf]

private theorem of_walkToNames (ht : σ.Steady t) (hn : Path.Plain n) (hf : Path.Plain f)
    (hden : t.get? (σ.den n) = some .directory) {s d : Location}
    (hs : t.walkToName (σ.staged n f) = .ok s) (hd : t.walkToName (σ.published f) = .ok d) :
    s = σ.den n ++ [f] ∧ d = σ.shelf f := by
  rw [walkToName_staged hn hf] at hs
  rw [walkToName_published hf] at hd
  refine ⟨?_, ?_⟩
  · rcases walk_staged ht hn hf hden false with ⟨e, -, hwalk⟩ | hwalk | ⟨hfollow, -⟩
    · rw [hwalk] at hs
      cases hs
    · rw [hwalk] at hs
      exact (Except.ok.inj hs).symm
    · cases hfollow
  · rcases walk_published ht hf false with ⟨e, -, hwalk⟩ | hwalk | ⟨hfollow, -⟩
    · rw [hwalk] at hd
      cases hd
    · rw [hwalk] at hd
      exact (Except.ok.inj hd).symm
    · cases hfollow

/-- What is moved to a published path is a file or a link, which then stands there, or a
directory. Nothing changes but where it was and where it goes. -/
theorem of_rename (ht : σ.Steady t) (hn : Path.Plain n) (hf : Path.Plain f)
    (hden : t.get? (σ.den n) = some .directory)
    (h : t.rename (σ.staged n f) (σ.published f) = .ok t') :
    ∃ e, t.get? (σ.den n ++ [f]) = some e ∧
      ((e ≠ .directory ∧ t.get? (σ.shelf f) ≠ some .directory ∧ t'.get? (σ.shelf f) = some e ∧
          t.Changes t' (fun l => l = σ.den n ++ [f] ∨ l = σ.shelf f)) ∨
        (e = .directory ∧
          t.Changes t' (fun l => σ.den n ++ [f] <+: l ∨ σ.shelf f <+: l))) := by
  obtain ⟨s, d, e, hs, hd, he⟩ := FileTree.of_rename h
  obtain ⟨rfl, rfl⟩ := of_walkToNames ht hn hf hden hs hd
  refine ⟨e, he, ?_⟩
  have hhome := ht.directory_home
  have hs_ne : σ.den n ++ [f] ≠ [] := by simp
  have hsd : ¬σ.den n ++ [f] <+: σ.shelf f := by
    refine not_prefix_of_length ?_
    rw [List.length_append, length_den, length_shelf]
    omega
  by_cases hdir : e = .directory
  · refine .inr ⟨hdir, ?_⟩
    rw [hdir] at he
    rcases of_rename_directory hs hd he h with rfl | ⟨-, hfree, rfl⟩ | ⟨-, hempty, rfl⟩
    · exact .refl ht.wellFormed
    · exact changes_relocate ht.wellFormed hs_ne hhome hfree hsd
    · -- The empty directory goes first, then there is room for the other one.
      have hd_ne : σ.shelf f ≠ [] := by simp [shelf]
      have hdrop := changes_drop ht.wellFormed hd_ne hempty
      have hhome' : (t.drop (σ.shelf f)).get? σ.home = some .directory := by
        rw [(hdrop.same σ.home (by simp [shelf])).1, hhome]
      have hfree : (t.drop (σ.shelf f)).get? (σ.shelf f) = none := by
        rw [get?_drop _ _ _ hd_ne, if_pos rfl]
      refine (hdrop.mono (fun l hl => .inr ?_)).trans
        (changes_relocate hdrop.wellFormed hs_ne hhome' hfree hsd)
      exact hl ▸ List.prefix_refl _
  · refine .inl ⟨hdir, ?_⟩
    rw [rename_nonDirectory (endsWithSlash_staged hn hf) (endsWithSlash_published hf) hs hd he
      hdir] at h
    split at h
    · next hsame =>
      obtain rfl := Except.ok.inj h
      -- Two names of one file: nothing is moved.
      have hget := get?_of_isSame ht.wellFormed hsame
      rw [he] at hget
      refine ⟨?_, hget, .refl ht.wellFormed⟩
      rw [hget]
      simpa using hdir
    · split at h
      · split at h
        · cases h
        · next htarget =>
          obtain rfl := Except.ok.inj h
          refine ⟨htarget, ?_, changes_shift ht.wellFormed hs_ne he hhome hdir htarget⟩
          rw [get?_shift _ hs_ne (by simp [shelf]), if_pos rfl]
      · cases h

/-- Whether a file that a task stages under a name can be moved to its published path. -/
structure Publishable (σ : Site) (n f : String) : Prop where
  fits : σ.Fits n f
  write : σ.base.permits .write σ.home = true
  target : σ.base.get? (σ.shelf f) ≠ some .directory

/-- A staged file takes the published path, if that can be. -/
theorem rename_of_publishable (ht : σ.Steady t) (hn : Path.Plain n) (hf : Path.Plain f)
    (hadmits : σ.Admits n) (hpub : σ.Publishable n f) (hden : t.get? (σ.den n) = some .directory)
    (hplain : t.detail (σ.den n) = {}) {e : Entry} (he : t.get? (σ.den n ++ [f]) = some e)
    (hdir : e ≠ .directory) (htarget : t.get? (σ.shelf f) ≠ some .directory) :
    ∃ t', t.rename (σ.staged n f) (σ.published f) = .ok t' := by
  have hpermits : ∀ a, t.permits a (σ.den n) = true := by
    intro a
    rw [FileTree.permits, hplain]
    rfl
  -- Both names are found, and both directories may be written to.
  have hs : t.walkToName (σ.staged n f) = .ok (σ.den n ++ [f]) := by
    rw [walkToName_staged hn hf]
    exact walk_staged_of_fits ht hn hf hadmits hpub.fits hden (hpermits _) (.inl rfl)
  have hd : t.walkToName (σ.published f) = .ok (σ.shelf f) := by
    rw [walkToName_published hf]
    exact walk_published_of_fits ht hn hf hadmits hpub.fits
  have hwrite : t.permits .write σ.home = true :=
    ((ht.same _ σ.fixed_home).permits .write).trans hpub.write
  rw [rename_nonDirectory (endsWithSlash_staged hn hf) (endsWithSlash_published hf) hs hd he hdir]
  split
  · exact ⟨t, rfl⟩
  · have hboth : (t.permits .write (σ.den n ++ [f]).dropLast &&
        t.permits .write (σ.shelf f).dropLast) = true := by
      rw [List.dropLast_concat, shelf, List.dropLast_concat, hpermits, hwrite]
      rfl
    rw [if_pos hboth]
    exact ⟨_, rfl⟩

/-- A staged file that cannot take the published path changes nothing. -/
theorem rename_of_not_publishable (ht : σ.Steady t) (hn : Path.Plain n) (hf : Path.Plain f)
    (hpub : ¬σ.Publishable n f) (hden : t.get? (σ.den n) = some .directory) {e : Entry}
    (he : t.get? (σ.den n ++ [f]) = some e) (hdir : e ≠ .directory)
    (htarget : σ.base.get? (σ.shelf f) = some .directory →
      t.get? (σ.shelf f) = some .directory)
    (h : t.rename (σ.staged n f) (σ.published f) = .ok t') : t' = t := by
  obtain ⟨s, d, e', hs, hd, he'⟩ := FileTree.of_rename h
  obtain ⟨rfl, rfl⟩ := of_walkToNames ht hn hf hden hs hd
  -- The walk has found both names, so they are short enough.
  have hfits : σ.Fits n f := by
    by_contra hfits
    obtain ⟨x, -, hx⟩ := walk_staged_of_not_fits false ht hn hf hfits hden
    rw [walkToName_staged hn hf, hx] at hs
    cases hs
  rw [rename_nonDirectory (endsWithSlash_staged hn hf) (endsWithSlash_published hf) hs hd he
    hdir] at h
  split at h
  · exact (Except.ok.inj h).symm
  · split at h
    · next hwrite =>
      rw [Bool.and_eq_true] at hwrite
      split at h
      · cases h
      · next hnone =>
        -- Everything that publication needs is given.
        refine absurd ⟨hfits, ?_, fun hbase => hnone (htarget hbase)⟩ hpub
        rw [← (ht.same _ σ.fixed_home).permits .write]
        rw [List.dropLast_concat, shelf, List.dropLast_concat] at hwrite
        exact hwrite.2
    · cases h

/-- What has been moved is no longer where it was. -/
theorem gone_of_rename (ht : σ.Steady t) (hn : Path.Plain n) (hf : Path.Plain f)
    (hden : t.get? (σ.den n) = some .directory) (hapart : ¬σ.shelf f <+: σ.den n ++ [f])
    (h : t.rename (σ.staged n f) (σ.published f) = .ok t') :
    t' = t ∨ ∀ l, σ.den n ++ [f] <+: l → t'.get? l = none := by
  have ht' : t'.WellFormed := by
    obtain ⟨e, -, ⟨-, -, -, hchanges⟩ | ⟨-, hchanges⟩⟩ := of_rename ht hn hf hden h <;>
      exact hchanges.wellFormed
  obtain ⟨s, d, e, hs, hd, he⟩ := FileTree.of_rename h
  obtain ⟨rfl, rfl⟩ := of_walkToNames ht hn hf hden hs hd
  have hs_ne : σ.den n ++ [f] ≠ [] := by simp
  have hd_ne : σ.shelf f ≠ [] := by simp [shelf]
  have hne : σ.shelf f ≠ σ.den n ++ [f] := fun heq => hapart (heq ▸ List.prefix_refl _)
  -- A directory is relocated with all that is below it, and anything else is shifted alone.
  by_cases hdir : e = .directory
  · rw [hdir] at he
    have hrelocate : ∀ u : FileTree, (∀ l, σ.shelf f <+: l → u.get? l = none) →
        (u.relocate (σ.den n ++ [f]) (σ.shelf f)).get? (σ.den n ++ [f]) = none := by
      intro u hfree
      rw [get?_relocate _ hs_ne hd_ne hfree, if_neg hapart, if_pos (List.prefix_refl _)]
    rcases of_rename_directory hs hd he h with rfl | ⟨-, hfree, rfl⟩ | ⟨-, hempty, rfl⟩
    · exact .inl rfl
    · refine .inr (fun l hl => ht'.free_of_free ?_ hl)
      exact hrelocate t (fun m => ht.wellFormed.free_of_free hfree)
    · have hdrop := changes_drop ht.wellFormed hd_ne hempty
      have hfree : (t.drop (σ.shelf f)).get? (σ.shelf f) = none := by
        rw [get?_drop _ _ _ hd_ne, if_pos rfl]
      refine .inr (fun l hl => ht'.free_of_free ?_ hl)
      exact hrelocate _ (fun m => hdrop.wellFormed.free_of_free hfree)
  · rw [rename_nonDirectory (endsWithSlash_staged hn hf) (endsWithSlash_published hf) hs hd he
      hdir] at h
    split at h
    · exact .inl (Except.ok.inj h).symm
    · split at h
      · split at h
        · cases h
        · obtain rfl := Except.ok.inj h
          refine .inr (fun l hl => ht'.free_of_free ?_ hl)
          rw [get?_shift _ hs_ne hd_ne, if_neg hne, if_pos rfl]
      · cases h

/-! ## Removing -/

/-- Only a scratch directory and what is in it goes at the end of a task. -/
theorem changes_removeAll (ht : σ.Steady t) (hn : Path.Plain n) :
    t.Changes (t.removeAll (σ.scratch n)) (σ.den n <+: ·) := by
  have hne : σ.den n ≠ [] := by simp [den]
  unfold FileTree.removeAll
  cases hwalk : t.walk false (σ.scratch n) with
  | error e => exact .refl ht.wellFormed
  | ok l =>
    obtain rfl := walk_scratch ht hn hwalk
    simp only [if_neg hne]
    generalize List.filter _ t.details.keys = stuck
    split
    · refine changes_filtered ht.wellFormed (p := fun l => !(σ.den n).isPrefixOf l) hne rfl rfl
        (fun l hl => ?_) (fun l x hx => ?_)
      · rw [Bool.not_eq_false'] at hl
        exact List.isPrefixOf_iff_prefix.1 hl
      · rw [Bool.not_eq_true', ← Bool.not_eq_true, List.isPrefixOf_iff_prefix] at hx ⊢
        exact fun h => hx (h.trans (List.prefix_append _ _))
    · -- What cannot be removed stays, with what is above and below it.
      refine changes_filtered ht.wellFormed (p := fun l => !((σ.den n).isPrefixOf l &&
        !stuck.any (fun s => l.isPrefixOf s || s.isPrefixOf l))) hne rfl rfl (fun l hl => ?_)
        (fun l x hx => ?_)
      · rw [Bool.not_eq_false', Bool.and_eq_true] at hl
        exact List.isPrefixOf_iff_prefix.1 hl.1
      · rw [Bool.not_eq_true', Bool.and_eq_false_iff] at hx ⊢
        rcases hx with hx | hx
        · refine .inl ?_
          rw [← Bool.not_eq_true, List.isPrefixOf_iff_prefix] at hx ⊢
          exact fun h => hx (h.trans (List.prefix_append _ _))
        · refine .inr ?_
          rw [Bool.not_eq_false', List.any_eq_true] at hx ⊢
          obtain ⟨s, hs, hnear⟩ := hx
          refine ⟨s, hs, ?_⟩
          simp only [Bool.or_eq_true, List.isPrefixOf_iff_prefix] at hnear ⊢
          rcases hnear with hbelow | habove
          · exact .inl ((List.prefix_append _ _).trans hbelow)
          · rcases List.prefix_concat_iff.1 habove with heq | habove
            · exact .inl (heq ▸ List.prefix_append _ _)
            · exact .inr habove

/-- A scratch directory from which everything can be removed goes with everything in it. -/
theorem gone_of_removeAll (ht : σ.Steady t) (hn : Path.Plain n) (hadmits : σ.Admits n)
    (hden : t.get? (σ.den n) = some .directory) (h : t.Removable (σ.den n)) {l : Location}
    (hl : σ.den n <+: l) : (t.removeAll (σ.scratch n)).get? l = none :=
  get?_removeAll h (walk_scratch_of_admits ht hn hadmits hden) (by simp [den]) hl

/-- Only the scratch root goes at the end of a run. -/
theorem of_rmdir (ht : σ.Steady t) (h : t.rmdir σ.scratchRoot = .ok t') :
    t' = t.drop σ.inner := by
  unfold FileTree.rmdir at h
  rw [walkToName_scratchRoot] at h
  cases hwalk : t.walk false σ.scratchRoot with
  | error e => rw [hwalk] at h; cases h
  | ok l =>
    obtain rfl := walk_scratchRoot ht hwalk
    rw [hwalk] at h
    simp only [bind, Except.bind, ht.directory_inner] at h
    cases hmay : t.mayChange σ.inner with
    | error e => rw [hmay] at h; cases h
    | ok u =>
      rw [hmay] at h
      simp only at h
      split at h
      · exact (Except.ok.inj h).symm
      · cases h

/-- The scratch root can be removed if the output directory may be written to and nothing is left
in it. -/
theorem rmdir_scratchRoot (ht : σ.Steady t) (hinward : ∃ k, σ.inward σ.scratchRoot = .ok k) :
    t.rmdir σ.scratchRoot =
      if t.permits .write σ.home = true then
        if (t.below σ.inner).isEmpty = true then .ok (t.drop σ.inner) else .error .directoryNotEmpty
      else .error .permissionDenied := by
  obtain ⟨k, hk⟩ := hinward
  have hwalk : t.walk false σ.scratchRoot = .ok σ.inner := by
    rw [walk_inward ht scratchRoot_ne pieces_scratchRoot, hk]
    exact walkFrom_nil
  have hparent : σ.inner.dropLast = σ.home := List.dropLast_concat
  unfold FileTree.rmdir
  rw [walkToName_scratchRoot, hwalk]
  simp only [bind, Except.bind, ht.directory_inner, mayChange, hparent]
  cases t.permits .write σ.home with
  | false => rfl
  | true =>
    simp only [if_true]
    split <;> rfl

end Site

end BlockFlow
