import BlockFlow.Proofs.Files.Operations

/-!
# Making the directories of a run

Making a directory with all that is missing above it adds directories where nothing was, and
changes nothing else. If it succeeds, the path leads to a directory. So a run that gets its
output directory and its scratch root has a site to work in.

## Key results

- `FileTree.of_createDirectories`: what making directories changes
- `Site.exists_of_createDirectories`: the site of a run
-/

namespace BlockFlow

namespace FileTree

variable {t t' : FileTree} {p : Path} {l : Location}

/-! ## Growing trees -/

/-- Directories have been added where nothing was. -/
structure Grows (t t' : FileTree) : Prop where
  wellFormed : t'.WellFormed
  same : ∀ l, Same t t' l ∨ (t.get? l = none ∧ t'.get? l = some .directory)

namespace Grows

theorem refl (ht : t.WellFormed) : t.Grows t := ⟨ht, fun l => .inl (Same.refl t l)⟩

theorem of_used (h : t.Grows t') (hl : t.get? l ≠ none) : Same t t' l :=
  (h.same l).resolve_right (fun hnew => hl hnew.1)

theorem trans {t'' : FileTree} (h : t.Grows t') (h' : t'.Grows t'') : t.Grows t'' := by
  refine ⟨h'.wellFormed, fun l => ?_⟩
  rcases h.same l with hsame | ⟨hfree, hnew⟩
  · rcases h'.same l with hsame' | ⟨hfree', hnew'⟩
    · exact .inl (hsame.trans hsame')
    · exact .inr ⟨hsame.1.symm.trans hfree', hnew'⟩
  · have hkept := h'.of_used (l := l) (by rw [hnew]; exact Option.some_ne_none _)
    exact .inr ⟨hfree, hkept.1.trans hnew⟩

theorem passage (h : t.Grows t') (hl : t.IsPassage l) : Same t t' l ∧ t'.IsPassage l := by
  have hused : t.get? l ≠ none := by
    rcases hl with hl | ⟨target, hl⟩ <;> simp [hl]
  have hsame := h.of_used hused
  exact ⟨hsame, hl.imp hsame.1.trans (fun ⟨target, ht⟩ => ⟨target, hsame.1.trans ht⟩)⟩

/-- Files and links are those that were there. -/
theorem get?_eq_some_iff (h : t.Grows t') {e : Entry} (he : e ≠ .directory) :
    t'.get? l = some e ↔ t.get? l = some e := by
  rcases h.same l with hsame | ⟨hfree, hnew⟩
  · rw [hsame.1]
  · rw [hfree, hnew]
    simpa using he.symm

end Grows

/-! ## One directory -/

theorem of_walk {follow : Bool} (h : t.walk follow p = .ok l) :
    p ≠ "" ∧ t.walkFrom follow maxLinks [] p.pieces = .ok l := by
  unfold walk at h
  split at h
  · cases h
  · split at h
    · cases h
    · next hp =>
      split at h
      · cases h
      · exact ⟨hp, h⟩

theorem of_walkToName (h : t.walkToName p = .ok l) : t.walk false (withoutSlashes p) = .ok l := by
  unfold walkToName at h
  split at h
  · cases h
  · exact h

theorem of_isDirectory (h : t.isDirectory p = true) :
    ∃ l, t.walk true p = .ok l ∧ t.get? l = some .directory := by
  unfold isDirectory at h
  split at h
  · next hstat =>
    unfold stat at hstat
    cases hwalk : t.walk true p with
    | error e => rw [hwalk] at hstat; cases hstat
    | ok l =>
      rw [hwalk] at hstat
      simp only [bind, Except.bind] at hstat
      cases hget : t.get? l with
      | none => rw [hget] at hstat; cases hstat
      | some e =>
        rw [hget] at hstat
        exact ⟨l, rfl, hget.trans (congrArg some (Except.ok.inj hstat))⟩
  · cases h

/-- A directory that is made is put where nothing was, and its path leads there. -/
theorem reaches_of_mkdir (ht : t.WellFormed) (h : t.mkdir p = .ok t') :
    t.Grows t' ∧ ∃ l, t'.Reaches t'.IsPassage [] (Path.steps p) l := by
  obtain ⟨l, hwalk, hfree, -, rfl⟩ := of_mkdir h
  have harrives := arrives_of_walkFrom (of_walk (of_walkToName hwalk)).2
  obtain ⟨ns, n, m, hpieces, hn, rfl, hway⟩ := harrives.free ht rfl hfree
  have hput := changes_put (e := .directory) ht hway.goal.2 hfree
  have hnew : (t.put (m ++ [n]) .directory).get? (m ++ [n]) = some .directory := by
    rw [get?_put _ _ _ _ (by simp), if_pos rfl]
  have hgrows : t.Grows (t.put (m ++ [n]) .directory) := by
    refine ⟨hput.wellFormed, fun l => ?_⟩
    by_cases hl : l = m ++ [n]
    · exact .inr ⟨hl ▸ hfree, hl ▸ hnew⟩
    · exact .inl (hput.same l hl)
  refine ⟨hgrows, m ++ [n], ?_⟩
  -- The way to the new directory, and then through the slashes at the end of its path.
  have hway' := (hway.of_same (fun _ hm => (hgrows.passage hm).1)).mono
    (fun _ hm => (hgrows.passage hm).2)
  have hslash : withoutSlashes p ≠ "/" := by
    intro hp
    rw [hp] at hpieces
    have hlast := congrArg List.getLast? hpieces
    rw [List.getLast?_concat] at hlast
    exact hn.ne_empty (Option.some.inj hlast).symm
  obtain ⟨j, hj⟩ := Path.pieces_withoutSlashes hslash
  have hall := hway'.append (.down hway'.goal.1 hn hnew (.blanks (.inl hnew) hnew j))
  rw [show ns ++ n :: List.replicate j "" = p.pieces by rw [hj, hpieces]; simp] at hall
  rcases Path.pieces_eq p with hp | hp
  · rwa [hp] at hall
  · rw [hp] at hall
    exact hall.of_append_empty

/-! ## All that is missing -/

private theorem reaches_of_settle (ht : t.WellFormed)
    (h : mkdirUnder.settle p t = (t', .ok ())) :
    t.Grows t' ∧ ∃ l, t'.Reaches t'.IsPassage [] (Path.steps p) l := by
  unfold mkdirUnder.settle at h
  split at h
  · next hmkdir =>
    obtain ⟨rfl, -⟩ := Prod.mk.inj h
    exact reaches_of_mkdir ht hmkdir
  · -- It could not be made, but is there: nothing changes.
    split at h
    · next hdirectory =>
      obtain ⟨rfl, -⟩ := Prod.mk.inj h
      obtain ⟨l, hwalk, hl⟩ := of_isDirectory hdirectory
      have hreaches := (arrives_of_walkFrom (of_walk hwalk).2).reaches ht rfl hl
      refine ⟨.refl ht, l, ?_⟩
      rcases Path.pieces_eq p with hp | hp
      · rwa [hp] at hreaches
      · rw [hp] at hreaches
        exact hreaches.of_append_empty
    · cases (Prod.mk.inj h).2

/-- Making a directory with all that is missing above it adds directories, and then its path
leads to one. -/
theorem of_mkdirUnder (ht : t.WellFormed) {up : List String}
    (h : t.mkdirUnder p up = (t', .ok ())) :
    t.Grows t' ∧ ∃ l, t'.Reaches t'.IsPassage [] (Path.steps p) l := by
  induction up generalizing p t' with
  | nil => exact reaches_of_settle ht h
  | cons n up ih =>
    rw [mkdirUnder] at h
    split at h
    · split at h
      · next hup =>
        obtain ⟨hgrows, -⟩ := ih hup
        obtain ⟨hgrows', hreaches⟩ := reaches_of_settle hgrows.wellFormed h
        exact ⟨hgrows.trans hgrows', hreaches⟩
      · next hfailed => exact absurd h (fun heq => hfailed _ heq)
    · exact reaches_of_settle ht h

theorem of_createDirectories (ht : t.WellFormed) (h : t.createDirectories p = (t', .ok ())) :
    t.Grows t' ∧ ∃ l, t'.Reaches t'.IsPassage [] (Path.steps p) l :=
  of_mkdirUnder ht h

/-- The empty path is that of no directory. -/
theorem ne_empty_of_createDirectories (h : t.createDirectories p = (t', .ok ())) : p ≠ "" := by
  rintro rfl
  have hnone : t.createDirectories "" = (t, .error .notFound) := rfl
  rw [hnone] at h
  cases (Prod.mk.inj h).2

/-! ## In a directory -/

namespace Reaches

variable {ok : Location → Prop} {n : String}

/-- A name in a directory that a path leads to. -/
theorem walk_join (h : t.Reaches ok [] (Path.steps p) l) (hp : p ≠ "") (hn : Path.Plain n)
    (follow : Bool) : (∃ e, e ≠ .notFound ∧ t.walk follow (Path.join p n) = .error e) ∨
      t.walk follow (Path.join p n) = .ok (l ++ [n]) ∨
        (follow = true ∧ ∃ target, t.get? (l ++ [n]) = some (.link target)) := by
  obtain ⟨r, hr, hwalk⟩ := h.leads maxLinks
  unfold walk
  split
  · exact .inl ⟨_, by simp, rfl⟩
  · rw [if_neg (Path.join_ne_empty hn hp)]
    split
    · exact .inl ⟨_, by simp, rfl⟩
    · rw [Path.pieces_join hn hp, hwalk t (fun _ _ => Same.refl _ _) follow [n] (.inl (by simp))]
      cases r with
      | error e => exact .inl ⟨e, fun he => hr (by rw [he]), rfl⟩
      | ok k => exact walkFrom_last_cases (named_of_plain hn)

/-- A path that leads to a directory leads nowhere else. -/
theorem eq_of_walk {m : Location} (h : t.Reaches ok [] (Path.steps p) l)
    (hwalk : t.walk true p = .ok m) : m = l := by
  obtain ⟨-, hwalk⟩ := of_walk hwalk
  obtain ⟨r, -, hself⟩ := h.leads maxLinks
  have hself := hself t (fun _ _ => Same.refl _ _) true
  have hend : ∀ rest, rest = [] ∨ rest = [""] → p.pieces = Path.steps p ++ rest → m = l := by
    intro rest hrest hpieces
    rw [hpieces, hself rest (.inr rfl)] at hwalk
    cases r with
    | error e => cases hwalk
    | ok k =>
      rcases hrest with rfl | rfl
      · exact (Except.ok.inj (walkFrom_nil.symm.trans hwalk)).symm
      · exact (Except.ok.inj ((walkFrom_empty.trans walkFrom_nil).symm.trans hwalk)).symm
  rcases Path.pieces_eq p with hpieces | hpieces
  · exact hend [] (.inl rfl) (by rw [List.append_nil, ← hpieces])
  · exact hend [""] (.inr rfl) hpieces

end Reaches

end FileTree

/-! ## The site of a run -/

open FileTree

namespace Site

section

variable {t base : FileTree} {out : Path} {home : Location} {allowed : Location → Prop}

/-- Where the directory above is there, nothing above has to be made. -/
private theorem mkdir_join_ne (hout : out ≠ "")
    (hway : t.Reaches allowed [] (Path.steps out) home) :
    t.mkdir (Path.join out Job.scratchName) ≠ .error .notFound := by
  intro hmkdir
  unfold FileTree.mkdir at hmkdir
  rw [walkToName_join plain_scratchName hout] at hmkdir
  rcases hway.walk_join hout plain_scratchName false with ⟨e, hne, he⟩ | he | ⟨hfollow, -⟩
  · rw [he] at hmkdir
    exact hne (Except.error.inj hmkdir)
  · rw [he] at hmkdir
    simp only [bind, Except.bind] at hmkdir
    split at hmkdir
    · cases hmkdir
    · unfold mayChange at hmkdir
      split at hmkdir <;> cases hmkdir
  · cases hfollow

/-- Where there is no link, a path below an output directory leads to its own location. -/
private theorem eq_of_walk_join {follow : Bool} {l : Location} (hout : out ≠ "")
    (hway : t.Reaches allowed [] (Path.steps out) home)
    (hlink : ∀ target, t.get? (home ++ [Job.scratchName]) ≠ some (.link target))
    (h : t.walk follow (Path.join out Job.scratchName) = .ok l) :
    l = home ++ [Job.scratchName] := by
  rcases hway.walk_join hout plain_scratchName follow with ⟨e, -, he⟩ | he | ⟨-, target, htarget⟩
  · rw [he] at h
    cases h
  · exact Except.ok.inj (h.symm.trans he)
  · exact absurd htarget (hlink target)

/-- A directory in one that is there is made, if that one may be written to, or is there
already. -/
theorem cases_of_createDirectories (hout : out ≠ "")
    (hway : t.Reaches allowed [] (Path.steps out) home)
    (hlink : ∀ target, t.get? (home ++ [Job.scratchName]) ≠ some (.link target))
    (h : t.createDirectories (Path.join out Job.scratchName) = (base, .ok ())) :
    (∃ follow, t.walk follow (Path.join out Job.scratchName) = .ok (home ++ [Job.scratchName])) ∧
      ((t.get? (home ++ [Job.scratchName]) = some .directory ∧ base = t) ∨
        (t.get? (home ++ [Job.scratchName]) = none ∧ t.permits .write home = true ∧
          base = t.put (home ++ [Job.scratchName]) .directory)) := by
  have hsettle : mkdirUnder.settle (Path.join out Job.scratchName) t = (base, .ok ()) := by
    unfold createDirectories at h
    cases hnames : (Path.join out Job.scratchName).names.reverse with
    | nil => rwa [hnames] at h
    | cons n up =>
      rw [hnames, mkdirUnder] at h
      split at h
      · next hmkdir => exact absurd hmkdir (mkdir_join_ne hout hway)
      · exact h
  -- Either the directory is made now, or it stands there already.
  unfold mkdirUnder.settle at hsettle
  split at hsettle
  · next hmkdir =>
    obtain ⟨rfl, -⟩ := Prod.mk.inj hsettle
    obtain ⟨l, hl, hfree, hwrite, rfl⟩ := of_mkdir hmkdir
    rw [walkToName_join plain_scratchName hout] at hl
    obtain rfl := eq_of_walk_join hout hway hlink hl
    rw [List.dropLast_concat] at hwrite
    exact ⟨⟨false, hl⟩, .inr ⟨hfree, hwrite, rfl⟩⟩
  · split at hsettle
    · next hdirectory =>
      obtain ⟨rfl, -⟩ := Prod.mk.inj hsettle
      obtain ⟨l, hl, hget⟩ := of_isDirectory hdirectory
      obtain rfl := eq_of_walk_join hout hway hlink hl
      exact ⟨⟨true, hl⟩, .inl ⟨hget, rfl⟩⟩
    · cases (Prod.mk.inj hsettle).2

end

/-- So the tree grows to one with that directory. -/
private theorem grows_of_createDirectories {t base : FileTree} {out : Path} {home : Location}
    {allowed : Location → Prop} (ht : t.WellFormed) (hout : out ≠ "")
    (hway : t.Reaches allowed [] (Path.steps out) home)
    (hlink : ∀ target, t.get? (home ++ [Job.scratchName]) ≠ some (.link target))
    (h : t.createDirectories (Path.join out Job.scratchName) = (base, .ok ())) :
    t.Grows base ∧ base.get? (home ++ [Job.scratchName]) = some .directory := by
  refine ⟨(FileTree.of_createDirectories ht h).1, ?_⟩
  rcases (cases_of_createDirectories hout hway hlink h).2 with ⟨hthere, rfl⟩ | ⟨-, -, rfl⟩
  · exact hthere
  · rw [get?_put _ _ _ _ (by simp), if_pos rfl]

/-- Who gets to the scratch root can always get there. -/
private theorem inward_of_walk {σ : Site} {t : FileTree} {follow : Bool} {l : Location}
    (hway : t.walkFrom follow maxLinks [] (Path.steps σ.out ++ [Job.scratchName]) =
      σ.way.bind (fun k => t.walkFrom follow k σ.home [Job.scratchName]))
    (hhome : Same t σ.base σ.home) (h : t.walk follow σ.scratchRoot = .ok l) :
    ∃ k, σ.inward σ.scratchRoot = .ok k := by
  unfold FileTree.walk at h
  unfold inward gate
  split at h
  · cases h
  · next hnul =>
    rw [if_neg hnul]
    rw [if_neg scratchRoot_ne] at h
    split at h
    · cases h
    · next hlong =>
      rw [if_neg hlong]
      rw [pieces_scratchRoot, hway] at h
      -- The walk comes first to the output directory, and looks for the last name there.
      cases hk : σ.way with
      | error e => rw [hk] at h; cases h
      | ok k =>
        rw [hk] at h
        have hsearch := search_of_walkFrom (named_of_plain plain_scratchName).ne_empty h
        exact ⟨k, if_pos ((hhome.permits .search).trans hsearch)⟩

/-- A run that gets its scratch root works in a site, of which those directories and links are
fixed that `allowed` holds of. -/
theorem exists_of_createDirectories {t base : FileTree} {out : Path} {home : Location}
    {allowed : Location → Prop} (ht : t.WellFormed) (hout : out ≠ "")
    (hway : t.Reaches allowed [] (Path.steps out) home)
    (hinner : allowed (home ++ [Job.scratchName]))
    (hlink : ∀ target, t.get? (home ++ [Job.scratchName]) ≠ some (.link target))
    (h : t.createDirectories (Path.join out Job.scratchName) = (base, .ok ())) :
    t.Grows base ∧ ∃ σ : Site, σ.out = out ∧ σ.home = home ∧ σ.base = base ∧
      (∃ k, σ.inward σ.scratchRoot = .ok k) ∧ ∀ l, σ.fixed l ↔ allowed l ∧ base.IsPassage l := by
  obtain ⟨hgrows, hdirectory⟩ := grows_of_createDirectories ht hout hway hlink h
  obtain ⟨⟨follow, hwalk⟩, -⟩ := cases_of_createDirectories hout hway hlink h
  have hhome := hgrows.passage (.inl hway.goal.2)
  obtain ⟨way, hway_ne, hway'⟩ := (hway.passage ht rfl).leads maxLinks
  have hself := hway' t (fun _ _ => Same.refl _ _) follow [Job.scratchName] (.inl (by simp))
  refine ⟨hgrows, {
    out := out
    home := home
    base := base
    fixed := fun l => allowed l ∧ base.IsPassage l
    way := way
    out_ne := hout
    wellFormed := hgrows.wellFormed
    fixed_home := ⟨hway.goal.1, hhome.2⟩
    fixed_scratch := ⟨hinner, .inl hdirectory⟩
    directory_scratch := hdirectory
    used := ?_
    way_ne := hway_ne
    walkFrom_way := ?_ }, rfl, rfl, rfl, inward_of_walk hself hhome.1 hwalk, fun _ => Iff.rfl⟩
  · rintro l ⟨-, hl | ⟨target, hl⟩⟩ <;> simp [hl]
  · intro t' hsame
    -- A tree that has kept the passages of the site has kept the way.
    refine hway' t' (fun m hm => ?_)
    have hkept := hgrows.passage hm.2
    exact hkept.1.trans (hsame m ⟨hm.1, hkept.2⟩)

end Site

end BlockFlow
