import BlockFlow.Proofs.Files.Creation

/-!
# Making directories again

Where a path has led to a directory before, there is nothing left to be made on the way to it.
A run also removes a directory that may be on that way, its scratch root. If everything else on
the way is still there, then making the directories of the path makes nothing but this one.

## Key results

- `AllBut.used_or_gone`: names that have led to a directory now lead to what is there, or to the
  directory that is gone
- `AllBut.eq_of_reaches`: where names lead now, they have led before
- `AllBut.of_createDirectories`: making directories again makes no other directory
-/

namespace BlockFlow

namespace FileTree

/-! ## Abridged ways -/

/-- Going through the second names is going through the first ones, perhaps not up to their end,
and without some that count for nothing. -/
inductive Abridges : List String → List String → Prop
  | stop {names : List String} : Abridges names []
  | skip {n : String} {names ns : List String} (hn : n = "" ∨ n = ".") (h : Abridges names ns) :
      Abridges (n :: names) ns
  | keep {n : String} {names ns : List String} (h : Abridges names ns) :
      Abridges (n :: names) (n :: ns)

namespace Abridges

variable {names ns ns' : List String}

theorem refl (names : List String) : Abridges names names := by
  induction names with
  | nil => exact .stop
  | cons n names ih => exact .keep ih

theorem of_prefix (h : Abridges names ns) (hpre : ns' <+: ns) : Abridges names ns' := by
  induction h generalizing ns' with
  | stop =>
    rw [List.prefix_nil.1 hpre]
    exact .stop
  | skip hn _ ih => exact .skip hn (ih hpre)
  | keep _ ih =>
    cases ns' with
    | nil => exact .stop
    | cons n' ns' =>
      obtain ⟨rfl, hpre'⟩ := List.cons_prefix_cons.1 hpre
      exact .keep (ih hpre')

theorem append (pre : List String) (h : Abridges names ns) :
    Abridges (pre ++ names) (pre ++ ns) := by
  induction pre with
  | nil => exact h
  | cons n pre ih => exact .keep ih

end Abridges

/-- The names of a path are its pieces without those that count for nothing. -/
theorem abridges_names (p : Path) : Abridges p.pieces p.names := by
  rw [Path.names]
  induction p.pieces with
  | nil => exact .stop
  | cons n pieces ih =>
    rw [List.filter_cons]
    split
    · exact .keep ih
    · next hn =>
      simp only [ne_eq, Bool.and_eq_true, decide_eq_true_eq, not_and, Decidable.not_not] at hn
      by_cases hempty : n = ""
      · exact .skip (.inl hempty) ih
      · exact .skip (.inr (hn hempty)) ih

variable {t t' t'' : FileTree} {ok : Location → Prop} {x at_ l m : Location}
  {names ns : List String} {p : Path}

/-- Before the first name that counts, an abridged way has left out nothing but what counts for
nothing. -/
theorem Abridges.exists_reaches {n : String} (h : Abridges names (n :: ns))
    (hway : t.Reaches ok at_ names l) :
    ∃ names', t.Reaches ok at_ (n :: names') l ∧ Abridges names' ns := by
  generalize hall : n :: ns = all at h
  induction h with
  | stop => cases hall
  | skip hblank _ ih => exact ih (hway.of_blank hblank) hall
  | keep h =>
    obtain ⟨rfl, rfl⟩ := List.cons.inj hall
    exact ⟨_, hway, h⟩

/-! ## What is left of a way -/

/-- What stands in `t` where `ok` holds still stands in `t'`, but for the directory at `x`, which
may be gone. -/
structure AllBut (t : FileTree) (ok : Location → Prop) (x : Location) (t' : FileTree) : Prop where
  wellFormed : t'.WellFormed
  directory : t.get? x = some .directory
  kept : ∀ m, ok m → m ≠ x → t'.get? m = t.get? m
  gone : t'.get? x = none ∨ t'.get? x = some .directory

namespace AllBut

/-- A directory on the way is a directory still, unless it is gone. -/
private theorem directory_or_free (h : t.AllBut ok x t') (hm : ok m)
    (hdir : t.get? m = some .directory) :
    t'.get? m = some .directory ∨ (m = x ∧ t'.get? m = none) := by
  by_cases hx : m = x
  · subst hx
    exact h.gone.symm.imp_right (fun hfree => ⟨rfl, hfree⟩)
  · exact .inl ((h.kept m hm hx).trans hdir)

/-- A link on the way is there still, for the directory that may be gone was no link. -/
private theorem link (h : t.AllBut ok x t') (hm : ok m) {target : Path}
    (hlink : t.get? m = some (.link target)) : t'.get? m = some (.link target) := by
  refine (h.kept m hm ?_).trans hlink
  rintro rfl
  rw [h.directory] at hlink
  cases hlink

/-- Names that have led to a directory lead to what is there, or to the directory that is
gone. -/
theorem used_or_gone (h : t.AllBut ok x t') (hway : t.Reaches ok at_ names l)
    (hat : t'.get? at_ = some .directory) (hns : Abridges names ns) {follow : Bool} {k : Nat}
    (harrives : t'.Arrives follow k at_ ns m) : t'.get? m ≠ none ∨ m = x := by
  -- On its way the walk follows the names that led to the place before, or what is left of them.
  induction harrives generalizing names with
  | here => exact .inl (by simp [hat])
  | empty _ ih =>
    obtain ⟨names, hway, hns⟩ := hns.exists_reaches hway
    exact ih (hway.of_blank (.inl rfl)) hat hns
  | dot _ ih =>
    obtain ⟨names, hway, hns⟩ := hns.exists_reaches hway
    exact ih (hway.of_blank (.inr rfl)) hat hns
  | dots _ ih =>
    obtain ⟨names, hway, hns⟩ := hns.exists_reaches hway
    exact ih (hway.of_dots rfl) (directory_dropLast h.wellFormed hat) hns
  | down hn hentry _ ih =>
    obtain ⟨names, hway, hns⟩ := hns.exists_reaches hway
    rcases hway.of_named hn with ⟨-, hway⟩ | ⟨target, hlink, hok, -⟩
    · exact ih hway hentry hns
    · rw [h.link hok hlink] at hentry
      cases hentry
  | last hn =>
    obtain ⟨names, hway, -⟩ := hns.exists_reaches hway
    rcases hway.of_named hn with ⟨hdir, hway⟩ | ⟨target, hlink, hok, -⟩
    · rcases h.directory_or_free hway.start hdir with hdir | ⟨hx, -⟩
      · exact .inl (by simp [hdir])
      · exact .inr hx
    · exact .inl (by simp [h.link hok hlink])
  | link hn hentry _ _ _ ih =>
    obtain ⟨names, hway, hns⟩ := hns.exists_reaches hway
    rcases hway.of_named hn with ⟨hdir, hway⟩ | ⟨target, hlink, hok, hway⟩
    · rcases h.directory_or_free hway.start hdir with hdir | ⟨-, hfree⟩
      · rw [hdir] at hentry
        cases hentry
      · rw [hfree] at hentry
        cases hentry
    · rw [h.link hok hlink] at hentry
      obtain rfl := Entry.link.inj (Option.some.inj hentry)
      refine ih hway ?_ (hns.append _)
      split
      · rfl
      · exact hat

/-- Where the names lead now, they have led before. -/
theorem eq_of_reaches {ok' : Location → Prop} (h : t.AllBut ok x t')
    (hway : t.Reaches ok at_ names l) (hway' : t'.Reaches ok' at_ names m) : m = l := by
  -- Step by step, the two ways take the same entries: all but one place is as it was.
  induction hway with
  | here =>
    cases hway'
    rfl
  | empty _ ih => exact ih (hway'.of_blank (.inl rfl))
  | dot _ ih => exact ih (hway'.of_blank (.inr rfl))
  | dots _ _ ih => exact ih (hway'.of_dots rfl)
  | down _ hn hentry hrest ih =>
    rcases hway'.of_named hn with ⟨-, hway'⟩ | ⟨target, htarget, -, -⟩
    · exact ih hway'
    · rcases h.directory_or_free hrest.start hentry with hdir | ⟨-, hfree⟩
      · rw [hdir] at htarget
        cases htarget
      · rw [hfree] at htarget
        cases htarget
  | link _ hn hentry hlink _ _ ih =>
    have hthere := h.link hlink hentry
    rcases hway'.of_named hn with ⟨hdir, -⟩ | ⟨target, htarget, -, hway'⟩
    · rw [hthere] at hdir
      cases hdir
    · rw [hthere] at htarget
      obtain rfl := Entry.link.inj (Option.some.inj htarget)
      exact ih hway'

end AllBut

/-! ## Made again -/

/-- Nothing has been made but the directory at `x`, which was gone. -/
def Remade (x : Location) (t t' : FileTree) : Prop :=
  t' = t ∨ (t.get? x = none ∧ t' = t.put x .directory)

namespace Remade

theorem get?_put (hfree : t.get? x = none) :
    (t.put x .directory).get? m = if x = m then some .directory else t.get? m := by
  refine FileTree.get?_put _ _ _ _ ?_
  rintro rfl
  cases hfree

theorem trans (h : Remade x t t') (h' : Remade x t' t'') : Remade x t t'' := by
  rcases h with rfl | ⟨hfree, rfl⟩
  · exact h'
  · rcases h' with rfl | ⟨hfree', -⟩
    · exact .inr ⟨hfree, rfl⟩
    · rw [get?_put hfree, if_pos rfl] at hfree'
      cases hfree'

theorem same (h : Remade x t t') (hm : m ≠ x) : Same t t' m := by
  rcases h with rfl | ⟨hfree, rfl⟩
  · exact Same.refl _ _
  · exact ⟨(get?_put hfree).trans (if_neg (Ne.symm hm)), detail_put _ _ _ _⟩

end Remade

namespace AllBut

theorem of_remade (h : t.AllBut ok x t') (hmade : Remade x t' t'') (ht : t''.WellFormed) :
    t.AllBut ok x t'' where
  wellFormed := ht
  directory := h.directory
  kept m hm hne := (hmade.same hne).1.trans (h.kept m hm hne)
  gone := by
    rcases hmade with rfl | ⟨hfree, rfl⟩
    · exact h.gone
    · exact .inr ((Remade.get?_put hfree).trans (if_pos rfl))

/-- On a way, no directory can be made but the one that is gone. -/
theorem of_mkdir (h : t.AllBut ok x t') (hway : t.Reaches ok [] names l)
    (hp : Abridges names p.pieces ∨ p = "/") (hmkdir : t'.mkdir p = .ok t'') :
    t'.get? x = none ∧ t'' = t'.put x .directory := by
  obtain ⟨m, hname, hfree, -, rfl⟩ := FileTree.of_mkdir hmkdir
  obtain ⟨-, hwalk⟩ := of_walk (of_walkToName hname)
  have hm : m = x := by
    by_cases hroot : withoutSlashes p = "/"
    · -- Nothing is made at the root.
      rw [hroot, show Path.pieces "/" = ["", ""] by decide, walkFrom_empty, walkFrom_empty] at hwalk
      obtain rfl := Except.ok.inj (walkFrom_nil.symm.trans hwalk)
      cases hfree
    · rcases hp with hp | rfl
      · obtain ⟨j, hj⟩ := Path.pieces_withoutSlashes hroot
        have habridged := hp.of_prefix (hj ▸ List.prefix_append _ _)
        have hcases := h.used_or_gone hway rfl habridged (arrives_of_walkFrom hwalk)
        exact hcases.resolve_left (fun hused => hused hfree)
      · exact absurd (by decide) hroot
  exact hm ▸ ⟨hfree, rfl⟩

private theorem of_settle (h : t.AllBut ok x t') (hway : t.Reaches ok [] names l)
    (hp : Abridges names p.pieces ∨ p = "/") {r : Except FileError Unit}
    (hmade : mkdirUnder.settle p t' = (t'', r)) : Remade x t' t'' := by
  unfold mkdirUnder.settle at hmade
  split at hmade
  · next hmkdir =>
    obtain ⟨rfl, -⟩ := Prod.mk.inj hmade
    exact .inr (h.of_mkdir hway hp hmkdir)
  · obtain ⟨rfl, -⟩ := Prod.mk.inj hmade
    exact .inl rfl

private theorem of_mkdirUnder (h : t.AllBut ok x t') (hway : t.Reaches ok [] names l)
    {up : List String} (hp : Abridges names p.pieces ∨ p = "/")
    (hup : Abridges names ("" :: up.reverse)) (hslash : ∀ n ∈ up, '/' ∉ n.toList)
    (hmade : t'.mkdirUnder p up = (t'', .ok ())) : Remade x t' t'' := by
  induction up generalizing p t'' with
  | nil => exact h.of_settle hway hp hmade
  | cons n up ih =>
    have hup' : Abridges names ("" :: up.reverse) := hup.of_prefix (by simp)
    have hslash' : ∀ n ∈ up, '/' ∉ n.toList := fun n hn => hslash n (List.mem_cons_of_mem _ hn)
    rw [mkdirUnder] at hmade
    split at hmade
    · split at hmade
      · next t₁ hparent =>
        -- First what is above, then the directory itself.
        have hpieces : Abridges names (Path.pieces ("/" ++ "/".intercalate up.reverse)) ∨
            "/" ++ "/".intercalate up.reverse = "/" := by
          by_cases hnil : up.reverse = []
          · rw [hnil]
            exact .inr rfl
          · rw [Path.pieces_rooted (fun n hn => hslash' n (List.mem_reverse.1 hn)) hnil]
            exact .inl hup'
        have hfirst := ih hpieces hup' hslash' hparent
        have hgrown := (FileTree.of_mkdirUnder h.wellFormed hparent).1.wellFormed
        exact hfirst.trans ((h.of_remade hfirst hgrown).of_settle hway hp hmade)
      · next hfailed => exact absurd hmade (fun heq => hfailed _ heq)
    · exact h.of_settle hway hp hmade

/-- Where a path has led to a directory, making directories for it makes nothing but the one that
is gone. -/
theorem of_createDirectories (h : t.AllBut ok x t') (hway : t.Reaches ok [] (Path.steps p) l)
    (hmade : t'.createDirectories p = (t'', .ok ())) : Remade x t' t'' := by
  have hgoal := hway.goal
  have hpieces : t.Reaches ok [] ("" :: p.pieces) l := by
    refine .empty ?_
    rcases Path.pieces_eq p with hp | hp
    · rwa [hp]
    · rw [hp]
      exact hway.append (.empty (.here hgoal.1 hgoal.2))
  refine h.of_mkdirUnder hpieces (.inl (.skip (.inl rfl) (.refl _))) ?_ ?_ hmade
  · rw [List.reverse_reverse]
    exact .keep (abridges_names p)
  · exact fun n hn => Path.not_mem_of_mem_names (List.mem_reverse.1 hn)

end AllBut

end FileTree

end BlockFlow
