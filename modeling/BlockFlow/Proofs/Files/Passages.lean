import BlockFlow.Proofs.Files.Operations

/-!
# Trees with the same passages

Where a path leads depends on the directories and links on the way, and on nothing else. So a file
that is moved over something that is neither leaves all paths leading where they led; only what
stands at the two ends of the move is another thing.

## Key results

- `SamePassages.walkToName_eq_ok_iff`: paths lead to the same places
- `fileName?_of_walkToName`: what is no directory stands at the last name of its path
- `entryAt?_of_rename_file`: what has changed when a file has been moved
-/

namespace BlockFlow

namespace FileTree

variable {t t' t'' : FileTree} {follow : Bool} {k : Nat} {at_ l : Location} {names : List String}
  {p q : Path}

/-- The directories and links of the one tree are those of the other. -/
def SamePassages (t t' : FileTree) : Prop :=
  ∀ m, t.IsPassage m ∨ t'.IsPassage m → Same t t' m

theorem SamePassages.symm (h : t.SamePassages t') : t'.SamePassages t :=
  fun m hm => (h m hm.symm).symm

private theorem isPassage_link {target : Path} (h : t.get? l = some (.link target)) :
    t.IsPassage l := .inr ⟨target, h⟩

/-- A walk that gets through in one tree gets through in the other, and to the same place. -/
theorem SamePassages.walkFrom (h : t.SamePassages t') (hwf : t.WellFormed)
    (hat : t.get? at_ = some .directory) (hwalk : t.walkFrom follow k at_ names = .ok l) :
    t'.walkFrom follow k at_ names = .ok l := by
  -- On the number of links that are left, and for each of them on the names.
  induction k using Nat.strongRecOn generalizing at_ names with
  | ind k ihk =>
    induction names generalizing at_ with
    | nil =>
      rw [walkFrom_nil] at hwalk ⊢
      exact hwalk
    | cons n rest ih =>
      by_cases hempty : n = ""
      · rw [hempty, walkFrom_empty] at hwalk ⊢
        exact ih hat hwalk
      have hsearch := search_of_walkFrom hempty hwalk
      have hsearch' : t'.permits .search at_ = true :=
        ((h at_ (.inl (.inl hat))).permits .search).trans hsearch
      by_cases hdot : n = "."
      · rw [hdot, walkFrom_dot hsearch] at hwalk
        rw [hdot, walkFrom_dot hsearch']
        exact ih hat hwalk
      by_cases hdots : n = ".."
      · rw [hdots, walkFrom_dots hsearch] at hwalk
        rw [hdots, walkFrom_dots hsearch']
        exact ih (directory_dropLast hwf hat) hwalk
      have hn : Named n := ⟨hempty, hdot, hdots⟩
      have hlong : ¬maxNameBytes < n.utf8ByteSize := by
        intro hlong
        rw [walkFrom_long hn hsearch hlong] at hwalk
        cases hwalk
      rcases cases_of_walkFrom hn hwalk with
        ⟨hentry, hwalk⟩ | ⟨rfl, hlink, rfl⟩ | ⟨target, k, rfl, hentry, htarget, hgo, hwalk⟩
      · have hentry' := (h _ (.inl (.inl hentry))).1.trans hentry
        rw [walkFrom_directory hn hsearch' hlong hentry']
        exact ih hentry hwalk
      · -- The end of the way: what counts is that no link is to be followed here.
        refine walkFrom_last hn hsearch' hlong (hlink.imp_right fun hlink target htarget => ?_)
        exact hlink target ((h _ (.inr (isPassage_link htarget))).1.symm.trans htarget)
      · have hentry' := (h _ (.inl (isPassage_link hentry))).1.trans hentry
        rw [walkFrom_link hn hsearch' hlong hentry' hgo, if_neg htarget]
        refine ihk k (Nat.lt_succ_self k) ?_ hwalk
        split
        · rfl
        · exact hat

theorem SamePassages.walkToName (h : t.SamePassages t') (hwf : t.WellFormed)
    (hwalk : t.walkToName p = .ok l) : t'.walkToName p = .ok l := by
  unfold FileTree.walkToName walk at hwalk ⊢
  -- The two walks share every check that depends on the text of the path alone.
  split at hwalk
  · cases hwalk
  · next hsize =>
    rw [if_neg hsize]
    split at hwalk
    · cases hwalk
    · next hnul =>
      rw [if_neg hnul]
      split at hwalk
      · cases hwalk
      · next hempty =>
        rw [if_neg hempty]
        split at hwalk
        · cases hwalk
        · next hlong =>
          rw [if_neg hlong]
          exact h.walkFrom hwf rfl hwalk

theorem SamePassages.walkToName_eq_ok_iff (h : t.SamePassages t') (hwf : t.WellFormed)
    (hwf' : t'.WellFormed) : t'.walkToName p = .ok l ↔ t.walkToName p = .ok l :=
  ⟨fun hwalk => h.symm.walkToName hwf' hwalk, fun hwalk => h.walkToName hwf hwalk⟩

/-! ## The last name of a path -/

private theorem pieces_of_walkToName (h : t.walkToName p = .ok l) :
    t.walkFrom false maxLinks [] (withoutSlashes p).pieces = .ok l := by
  unfold FileTree.walkToName walk at h
  split at h
  · cases h
  · split at h
    · cases h
    · split at h
      · cases h
      · split at h
        · cases h
        · exact h

/-- The way to what is no directory: through directories and links to a directory, and there to
the last name. Slashes at the end of the path come after that. -/
theorem exists_way (hwf : t.WellFormed) (h : t.walkToName p = .ok l)
    (hl : t.get? l ≠ some .directory) :
    ∃ ns n m j, l = m ++ [n] ∧ p.pieces = ns ++ n :: List.replicate j "" ∧ Named n ∧
      t.Reaches t.IsPassage [] ns m := by
  have hwalk := pieces_of_walkToName h
  obtain ⟨ns, n, m, hpieces, hn, rfl, hway⟩ := (arrives_of_walkFrom hwalk).lastName hwf rfl hl
  have hroot : withoutSlashes p ≠ "/" := by
    -- The path of the root ends with an empty piece, and not with a name.
    intro hroot
    rw [hroot, show Path.pieces "/" = [""] ++ [""] by decide] at hpieces
    exact hn.ne_empty (List.singleton_inj.1 (List.append_inj' hpieces rfl).2).symm
  obtain ⟨j, hj⟩ := Path.pieces_withoutSlashes hroot
  exact ⟨ns, n, m, j, rfl, by rw [hj, hpieces, List.append_assoc]; rfl, hn, hway⟩

/-- What is no directory stands in a directory, under the last name of its path. -/
theorem fileName?_of_walkToName (hwf : t.WellFormed) (h : t.walkToName p = .ok l)
    (hl : t.get? l ≠ some .directory) :
    ∃ m n, l = m ++ [n] ∧ p.fileName? = some n ∧ t.get? m = some .directory := by
  obtain ⟨ns, n, m, j, hlm, hpieces, hn, hway⟩ := exists_way hwf h hl
  refine ⟨m, n, hlm, ?_, hway.goal.2⟩
  have hblanks : (List.replicate j "").filter (fun n => n ≠ "" && n ≠ ".") = [] := by simp
  have hlast : p.names.getLast? = some n := by
    rw [Path.names, hpieces, List.filter_append, List.filter_cons, hblanks]
    simp [hn.ne_empty, hn.ne_dot]
  rw [Path.fileName?, hlast]
  split
  · next hdots => exact absurd (Option.some.inj hdots) hn.ne_dots
  · rfl

/-! ## What stands at a path -/

/-- What stands at a path; a link at the end of the path is not followed. -/
def entryAt? (t : FileTree) (p : Path) : Option Entry :=
  match t.walkToName p with
  | .ok l => t.get? l
  | .error _ => none

theorem entryAt?_of_walkToName (h : t.walkToName p = .ok l) : t.entryAt? p = t.get? l := by
  rw [entryAt?, h]

theorem exists_of_entryAt? {e : Entry} (h : t.entryAt? p = some e) :
    ∃ l, t.walkToName p = .ok l ∧ t.get? l = some e := by
  unfold entryAt? at h
  split at h
  · next l hl => exact ⟨l, hl, h⟩
  · cases h

/-- A file that stands at a path is found there, or the path cannot be looked at. -/
theorem stat_ne_notFound {c : ByteArray} (hwf : t.WellFormed)
    (h : t.entryAt? p = some (.file c)) : t.stat p ≠ .error .notFound := by
  obtain ⟨l, hl, hc⟩ := exists_of_entryAt? h
  obtain ⟨ns, n, m, j, rfl, hpieces, hn, hway⟩ := exists_way hwf hl (by simp [hc])
  -- The last name is there, so the last step fails for other reasons, or finds it.
  have hlast : ∀ k, (∃ e, e ≠ .notFound ∧
      t.walkFrom true k m (n :: List.replicate j "") = .error e) ∨
        t.walkFrom true k m (n :: List.replicate j "") = .ok (m ++ [n]) := by
    intro k
    cases hsearch : t.permits .search m with
    | false => exact .inl ⟨_, by simp, walkFrom_denied hn.ne_empty hsearch⟩
    | true =>
      by_cases hlong : maxNameBytes < n.utf8ByteSize
      · exact .inl ⟨_, by simp, walkFrom_long hn hsearch hlong⟩
      · cases j with
        | zero => exact .inr (walkFrom_last hn hsearch hlong (.inr (by simp [hc])))
        | succ j => exact .inl ⟨_, by simp, walkFrom_file hn hsearch hlong hc (by simp)⟩
  have hfrom : (∃ e, e ≠ .notFound ∧ t.walkFrom true maxLinks [] p.pieces = .error e) ∨
      t.walkFrom true maxLinks [] p.pieces = .ok (m ++ [n]) := by
    obtain ⟨r, hr, hleads⟩ := hway.leads maxLinks
    rw [hpieces, hleads t (fun _ _ => Same.refl t _) true _ (.inr rfl)]
    cases r with
    | error e => exact .inl ⟨e, fun he => hr (by rw [he]), rfl⟩
    | ok k => exact hlast k
  have hne : p ≠ "" := by
    rintro rfl
    cases hl
  unfold stat walk
  rw [if_neg hne]
  split
  · simp [bind, Except.bind]
  · split
    · simp [bind, Except.bind]
    · rcases hfrom with ⟨e, he, hfrom⟩ | hfrom
      · rw [hfrom]
        exact fun h => he (Except.error.inj h)
      · simp [hfrom, hc, bind, Except.bind, pure, Except.pure]

/-- What stands at paths stays where it is, except at these locations. -/
theorem SamePassages.entryAt?_eq (h : t.SamePassages t') (hwf : t.WellFormed)
    (hwf' : t'.WellFormed) (hp : ∀ l, t.walkToName p = .ok l → t'.get? l = t.get? l) :
    t'.entryAt? p = t.entryAt? p := by
  cases hwalk : t.walkToName p with
  | ok l =>
    rw [entryAt?_of_walkToName hwalk,
      entryAt?_of_walkToName ((h.walkToName_eq_ok_iff hwf hwf').2 hwalk), hp l hwalk]
  | error e =>
    have hnone : t.entryAt? p = none := by rw [entryAt?, hwalk]
    rw [hnone, entryAt?]
    split
    · next l hl => cases hwalk.symm.trans ((h.walkToName_eq_ok_iff hwf hwf').1 hl)
    · rfl

/-! ## Moving a file -/

/-- A file goes where no directory is, or is there already under another name. -/
theorem of_rename_file {s : Location} {c : ByteArray} (hs : t.walkToName p = .ok s)
    (hc : t.get? s = some (.file c)) (h : t.rename p q = .ok t') :
    ∃ d, t.walkToName q = .ok d ∧ ((t.isSame s d = true ∧ t' = t) ∨
      (t.get? d ≠ some .directory ∧ t' = t.shift s d (.file c))) := by
  obtain ⟨s', d, e, hs', hd, -⟩ := of_rename h
  refine ⟨d, hd, ?_⟩
  have hslash : p.endsWithSlash = false ∧ q.endsWithSlash = false := by
    rw [← Bool.or_eq_false_iff, ← Bool.not_eq_true]
    intro hslash
    unfold rename at h
    simp [bind, Except.bind, hs, hd, hc, hslash] at h
  rw [rename_nonDirectory hslash.1 hslash.2 hs hd hc (by simp)] at h
  split at h
  · next hsame => exact .inl ⟨hsame, (Except.ok.inj h).symm⟩
  · split at h
    · split at h
      · cases h
      · next hdir => exact .inr ⟨hdir, (Except.ok.inj h).symm⟩
    · cases h

theorem samePassages_shift {s d : Location} {c : ByteArray} (hs : s ≠ []) (hd : d ≠ [])
    (hsource : ¬t.IsPassage s) (htarget : ¬t.IsPassage d) :
    t.SamePassages (t.shift s d (.file c)) := by
  intro m hm
  have hfile : ¬(t.shift s d (.file c)).IsPassage d := by
    simp [IsPassage, get?_shift _ hs hd]
  have hmd : d ≠ m := by
    rintro rfl
    exact hm.elim htarget hfile
  have hms : s ≠ m := by
    rintro rfl
    refine hm.elim hsource fun hpassage => ?_
    simp [IsPassage, get?_shift _ hs hd, hmd] at hpassage
  constructor
  · rw [get?_shift _ hs hd, if_neg hmd, if_neg hms]
  · rw [detail_shift, if_neg hmd, if_neg hms]

/-- When a file has been moved over something that is no link, it stands at the new path. What has
changed are only things under the last names of the two paths. -/
theorem entryAt?_of_rename_file {c : ByteArray} (hwf : t.WellFormed)
    (hp : t.entryAt? p = some (.file c)) (hq : ∀ target, t.entryAt? q ≠ some (.link target))
    (h : t.rename p q = .ok t') :
    t'.WellFormed ∧ t'.entryAt? q = some (.file c) ∧
      ∃ n n', p.fileName? = some n ∧ q.fileName? = some n' ∧
        ∀ r : Path, r.fileName? ≠ some n → r.fileName? ≠ some n' →
          t'.entryAt? r = t.entryAt? r := by
  obtain ⟨s, hs, hc⟩ := exists_of_entryAt? hp
  obtain ⟨d, hd, hmoved⟩ := of_rename_file hs hc h
  obtain ⟨m, n, rfl, hn, -⟩ := fileName?_of_walkToName hwf hs (by simp [hc])
  have hdir : t.get? d ≠ some .directory := by
    rcases hmoved with ⟨hsame, -⟩ | ⟨hdir, -⟩
    · rw [get?_of_isSame hwf hsame, hc]
      simp
    · exact hdir
  obtain ⟨m', n', rfl, hn', hup⟩ := fileName?_of_walkToName hwf hd hdir
  rcases hmoved with ⟨hsame, rfl⟩ | ⟨-, rfl⟩
  · refine ⟨hwf, ?_, n, n', hn, hn', fun r _ _ => rfl⟩
    rw [entryAt?_of_walkToName hd, get?_of_isSame hwf hsame, hc]
  · have hwf' := hwf.shift (by simp) hc hup (by simp) hdir
    have hsource : ¬t.IsPassage (m ++ [n]) := by simp [IsPassage, hc]
    have htarget : ¬t.IsPassage (m' ++ [n']) := by
      rintro (hdir' | ⟨target, hlink⟩)
      · exact hdir hdir'
      · exact hq target ((entryAt?_of_walkToName hd).trans hlink)
    have hsame : t.SamePassages (t.shift (m ++ [n]) (m' ++ [n']) (.file c)) :=
      samePassages_shift (by simp) (by simp) hsource htarget
    refine ⟨hwf', ?_, n, n', hn, hn', fun r hr hr' => hsame.entryAt?_eq hwf hwf' fun l hl => ?_⟩
    · rw [entryAt?_of_walkToName ((hsame.walkToName_eq_ok_iff hwf hwf').2 hd),
        get?_shift _ (by simp) (by simp), if_pos rfl]
    · -- A path to one of the two locations has the last name of that location.
      have hlast : ∀ {k x}, t.get? (k ++ [x]) ≠ some .directory → r.fileName? ≠ some x →
          k ++ [x] ≠ l := by
        rintro k x hfile hrx rfl
        obtain ⟨_, y, hxy, hry, -⟩ := fileName?_of_walkToName hwf hl hfile
        obtain rfl := List.singleton_inj.1 (List.append_inj' hxy rfl).2
        exact hrx hry
      have hls : m ++ [n] ≠ l := hlast (by simp [hc]) hr
      have hld : m' ++ [n'] ≠ l := hlast hdir hr'
      rw [get?_shift _ (by simp) (by simp), if_neg hld, if_neg hls]

end FileTree

end BlockFlow
