import BlockFlow.Proofs.Files.Paths
import BlockFlow.Proofs.Files.WellFormed

/-!
# Ways through a file tree

`FileTree.Reaches` says that names lead from one directory to another, through directories
and links of a kind. As long as these stay what they are, the names lead there in every
other tree as well, or fail there in the same way, whatever else has changed.

## Key results

- `Reaches.leads`: in all trees with this way, going on after it is going on from
  where it leads
- `Arrives.reaches`: who arrives at a directory has gone such a way
-/

namespace BlockFlow

namespace FileTree

/-! ## One step -/

/-- A name that stands for an entry of its directory; a slash in it would not matter. -/
structure Named (n : String) : Prop where
  ne_empty : n ≠ ""
  ne_dot : n ≠ "."
  ne_dots : n ≠ ".."

theorem named_of_plain {n : String} (h : Path.Plain n) : Named n :=
  ⟨h.ne_empty, h.ne_dot, h.ne_dots⟩

variable {t : FileTree} {follow : Bool} {k : Nat} {at_ : Location} {n : String}
  {rest : List String}

@[simp] theorem walkFrom_nil : t.walkFrom follow k at_ [] = .ok at_ := by
  rw [walkFrom, stroll]

theorem walkFrom_empty : t.walkFrom follow k at_ ("" :: rest) = t.walkFrom follow k at_ rest := by
  rw [walkFrom, stroll, if_pos rfl, ← walkFrom]

theorem walkFrom_denied (hn : n ≠ "") (hsearch : t.permits .search at_ = false) :
    t.walkFrom follow k at_ (n :: rest) = .error .permissionDenied := by
  rw [walkFrom, stroll, if_neg hn, hsearch]
  rfl

theorem walkFrom_dot (hsearch : t.permits .search at_ = true) :
    t.walkFrom follow k at_ ("." :: rest) = t.walkFrom follow k at_ rest := by
  rw [walkFrom, stroll, if_neg (by decide), hsearch, if_neg (by decide), if_pos rfl, ← walkFrom]

theorem walkFrom_dots (hsearch : t.permits .search at_ = true) :
    t.walkFrom follow k at_ (".." :: rest) = t.walkFrom follow k at_.dropLast rest := by
  rw [walkFrom, stroll, if_neg (by decide), hsearch, if_neg (by decide), if_neg (by decide),
    if_pos rfl, ← walkFrom]

private theorem stroll_named (hn : Named n) (hsearch : t.permits .search at_ = true) :
    t.stroll follow at_ (n :: rest) =
      if maxNameBytes < n.utf8ByteSize then .error .invalidFilename
      else
        match t.get? (at_ ++ [n]) with
        | none => if rest.isEmpty then .ok (.arrived (at_ ++ [n])) else .error .notFound
        | some .directory => t.stroll follow (at_ ++ [n]) rest
        | some (.file _) =>
          if rest.isEmpty then .ok (.arrived (at_ ++ [n])) else .error .notADirectory
        | some (.link target) =>
          if rest.isEmpty && !follow then .ok (.arrived (at_ ++ [n]))
          else .ok (.link target at_ rest) := by
  have hpermitted : ¬(!t.permits .search at_) = true := by rw [hsearch]; decide
  exact (if_neg hn.ne_empty).trans ((if_neg hpermitted).trans
    ((if_neg hn.ne_dot).trans (if_neg hn.ne_dots)))

theorem walkFrom_long (hn : Named n) (hsearch : t.permits .search at_ = true)
    (hlong : maxNameBytes < n.utf8ByteSize) :
    t.walkFrom follow k at_ (n :: rest) = .error .invalidFilename := by
  rw [walkFrom, stroll_named hn hsearch, if_pos hlong]

theorem walkFrom_directory (hn : Named n) (hsearch : t.permits .search at_ = true)
    (hlong : ¬maxNameBytes < n.utf8ByteSize) (hentry : t.get? (at_ ++ [n]) = some .directory) :
    t.walkFrom follow k at_ (n :: rest) = t.walkFrom follow k (at_ ++ [n]) rest := by
  rw [walkFrom, stroll_named hn hsearch, if_neg hlong, hentry, ← walkFrom]

/-- Going through names stops before a link that stands in the way or is to be followed. -/
private theorem stroll_link {target : Path} (hn : Named n) (hsearch : t.permits .search at_ = true)
    (hlong : ¬maxNameBytes < n.utf8ByteSize) (hentry : t.get? (at_ ++ [n]) = some (.link target))
    (hgo : rest ≠ [] ∨ follow = true) :
    t.stroll follow at_ (n :: rest) = .ok (.link target at_ rest) := by
  have hcount : (rest.isEmpty && !follow) = false := by
    rcases hgo with h | h
    · cases rest with
      | nil => exact absurd rfl h
      | cons => rfl
    · simp [h]
  rw [stroll_named hn hsearch, if_neg hlong, hentry]
  simp only [hcount, Bool.false_eq_true, if_false]

theorem walkFrom_link_zero {target : Path} (hn : Named n)
    (hsearch : t.permits .search at_ = true) (hlong : ¬maxNameBytes < n.utf8ByteSize)
    (hentry : t.get? (at_ ++ [n]) = some (.link target)) (hgo : rest ≠ [] ∨ follow = true) :
    t.walkFrom follow 0 at_ (n :: rest) = .error .filesystemLoop := by
  rw [walkFrom, stroll_link hn hsearch hlong hentry hgo]

theorem walkFrom_link {target : Path} (hn : Named n) (hsearch : t.permits .search at_ = true)
    (hlong : ¬maxNameBytes < n.utf8ByteSize) (hentry : t.get? (at_ ++ [n]) = some (.link target))
    (hgo : rest ≠ [] ∨ follow = true) :
    t.walkFrom follow (k + 1) at_ (n :: rest) =
      if target = "" then .error .notFound
      else t.walkFrom follow k (if target.isAbsolute then [] else at_) (target.pieces ++ rest) := by
  rw [walkFrom, stroll_link hn hsearch hlong hentry hgo]

theorem walkFrom_file {content : ByteArray} (hn : Named n)
    (hsearch : t.permits .search at_ = true) (hlong : ¬maxNameBytes < n.utf8ByteSize)
    (hentry : t.get? (at_ ++ [n]) = some (.file content)) (hrest : rest ≠ []) :
    t.walkFrom follow k at_ (n :: rest) = .error .notADirectory := by
  rw [walkFrom, stroll_named hn hsearch, if_neg hlong, hentry]
  simp [hrest]

theorem walkFrom_free (hn : Named n) (hsearch : t.permits .search at_ = true)
    (hlong : ¬maxNameBytes < n.utf8ByteSize) (hentry : t.get? (at_ ++ [n]) = none)
    (hrest : rest ≠ []) : t.walkFrom follow k at_ (n :: rest) = .error .notFound := by
  rw [walkFrom, stroll_named hn hsearch, if_neg hlong, hentry]
  simp [hrest]

/-- Who gets through a name could search the directory for it. -/
theorem search_of_walkFrom {l : Location} (hn : n ≠ "")
    (h : t.walkFrom follow k at_ (n :: rest) = .ok l) : t.permits .search at_ = true := by
  cases hsearch : t.permits .search at_ with
  | false =>
    rw [walkFrom_denied hn hsearch] at h
    cases h
  | true => rfl

/-- The last name leads to its location, unless it is that of a link that counts. -/
theorem walkFrom_last (hn : Named n) (hsearch : t.permits .search at_ = true)
    (hlong : ¬maxNameBytes < n.utf8ByteSize)
    (hentry : follow = false ∨ ∀ target, t.get? (at_ ++ [n]) ≠ some (.link target)) :
    t.walkFrom follow k at_ [n] = .ok (at_ ++ [n]) := by
  rw [walkFrom, stroll_named hn hsearch, if_neg hlong]
  cases hget : t.get? (at_ ++ [n]) with
  | none => rfl
  | some e =>
    cases e with
    | file => rfl
    | directory => simp [stroll]
    | link target =>
      rcases hentry with h | h
      · simp [h]
      · exact absurd hget (h target)

theorem walkFrom_last_cases (hn : Named n) :
    (∃ e, e ≠ .notFound ∧ t.walkFrom follow k at_ [n] = .error e) ∨
      t.walkFrom follow k at_ [n] = .ok (at_ ++ [n]) ∨
        (follow = true ∧ ∃ target, t.get? (at_ ++ [n]) = some (.link target)) := by
  cases hsearch : t.permits .search at_ with
  | false => exact .inl ⟨_, by simp, walkFrom_denied hn.ne_empty hsearch⟩
  | true =>
    by_cases hlong : maxNameBytes < n.utf8ByteSize
    · exact .inl ⟨_, by simp, walkFrom_long hn hsearch hlong⟩
    · refine .inr ?_
      by_cases hlink : ∃ target, t.get? (at_ ++ [n]) = some (.link target)
      · cases follow with
        | false => exact .inl (walkFrom_last hn hsearch hlong (.inl rfl))
        | true => exact .inr ⟨rfl, hlink⟩
      · refine .inl (walkFrom_last hn hsearch hlong (.inr fun target htarget => ?_))
        exact hlink ⟨target, htarget⟩

/-! ## Ways -/

/-- Names lead from one directory to another, through directories and links of which `ok`
holds. -/
inductive Reaches (t : FileTree) (ok : Location → Prop) :
    Location → List String → Location → Prop
  | here {at_ : Location} (hok : ok at_) (hat : t.get? at_ = some .directory) :
      Reaches t ok at_ [] at_
  | empty {at_ l : Location} {rest : List String} (h : Reaches t ok at_ rest l) :
      Reaches t ok at_ ("" :: rest) l
  | dot {at_ l : Location} {rest : List String} (h : Reaches t ok at_ rest l) :
      Reaches t ok at_ ("." :: rest) l
  | dots {at_ l : Location} {rest : List String} (hok : ok at_)
      (h : Reaches t ok at_.dropLast rest l) : Reaches t ok at_ (".." :: rest) l
  | down {at_ l : Location} {n : String} {rest : List String} (hok : ok at_) (hn : Named n)
      (hentry : t.get? (at_ ++ [n]) = some .directory) (h : Reaches t ok (at_ ++ [n]) rest l) :
      Reaches t ok at_ (n :: rest) l
  | link {at_ l : Location} {n : String} {rest : List String} {target : Path} (hok : ok at_)
      (hn : Named n) (hentry : t.get? (at_ ++ [n]) = some (.link target))
      (hlink : ok (at_ ++ [n])) (htarget : target ≠ "")
      (h : Reaches t ok (if target.isAbsolute then [] else at_) (target.pieces ++ rest) l) :
      Reaches t ok at_ (n :: rest) l

namespace Reaches

variable {ok : Location → Prop} {names : List String} {l : Location}

theorem start (h : t.Reaches ok at_ names l) : ok at_ := by
  induction h with
  | here hok => exact hok
  | empty _ ih => exact ih
  | dot _ ih => exact ih
  | dots hok => exact hok
  | down hok => exact hok
  | link hok => exact hok

theorem goal (h : t.Reaches ok at_ names l) : ok l ∧ t.get? l = some .directory := by
  induction h with
  | here hok hat => exact ⟨hok, hat⟩
  | empty _ ih => exact ih
  | dot _ ih => exact ih
  | dots _ _ ih => exact ih
  | down _ _ _ _ ih => exact ih
  | link _ _ _ _ _ _ ih => exact ih

theorem of_blank (hn : n = "" ∨ n = ".") (h : t.Reaches ok at_ (n :: names) l) :
    t.Reaches ok at_ names l := by
  cases h with
  | empty h => exact h
  | dot h => exact h
  | dots => rcases hn with hn | hn <;> exact absurd hn (by decide)
  | down _ hn' => exact (hn.elim hn'.ne_empty hn'.ne_dot).elim
  | link _ hn' => exact (hn.elim hn'.ne_empty hn'.ne_dot).elim

theorem of_dots (hn : n = "..") (h : t.Reaches ok at_ (n :: names) l) :
    t.Reaches ok at_.dropLast names l := by
  cases h with
  | empty => exact absurd hn (by decide)
  | dot => exact absurd hn (by decide)
  | dots _ h => exact h
  | down _ hn' => exact absurd hn hn'.ne_dots
  | link _ hn' => exact absurd hn hn'.ne_dots

/-- A name leads to a directory, or to a link. -/
theorem of_named (hn : Named n) (h : t.Reaches ok at_ (n :: names) l) :
    (t.get? (at_ ++ [n]) = some .directory ∧ t.Reaches ok (at_ ++ [n]) names l) ∨
      ∃ target, t.get? (at_ ++ [n]) = some (.link target) ∧ ok (at_ ++ [n]) ∧
        t.Reaches ok (if target.isAbsolute then [] else at_) (target.pieces ++ names) l := by
  cases h with
  | empty => exact absurd rfl hn.ne_empty
  | dot => exact absurd rfl hn.ne_dot
  | dots => exact absurd rfl hn.ne_dots
  | down _ _ hentry h => exact .inl ⟨hentry, h⟩
  | link _ _ hentry hlink _ h => exact .inr ⟨_, hentry, hlink, h⟩

theorem mono {ok' : Location → Prop} (hok : ∀ m, ok m → ok' m) (h : t.Reaches ok at_ names l) :
    t.Reaches ok' at_ names l := by
  induction h with
  | here hat hget => exact .here (hok _ hat) hget
  | empty _ ih => exact .empty ih
  | dot _ ih => exact .dot ih
  | dots hat _ ih => exact .dots (hok _ hat) ih
  | down hat hn hentry _ ih => exact .down (hok _ hat) hn hentry ih
  | link hat hn hentry hlink htarget _ ih =>
    exact .link (hok _ hat) hn hentry (hok _ hlink) htarget ih

theorem of_same {t' : FileTree} (hsame : ∀ m, ok m → Same t t' m) (h : t.Reaches ok at_ names l) :
    t'.Reaches ok at_ names l := by
  induction h with
  | here hok hat => exact .here hok ((hsame _ hok).1.trans hat)
  | empty _ ih => exact .empty ih
  | dot _ ih => exact .dot ih
  | dots hok _ ih => exact .dots hok ih
  | down hok hn hentry h ih => exact .down hok hn ((hsame _ h.start).1.trans hentry) ih
  | link hok hn hentry hlink htarget _ ih =>
    exact .link hok hn ((hsame _ hlink).1.trans hentry) hlink htarget ih

/-- Going on from where a way leads. -/
theorem append {names' : List String} {l' : Location} (h : t.Reaches ok at_ names l)
    (h' : t.Reaches ok l names' l') : t.Reaches ok at_ (names ++ names') l' := by
  induction h with
  | here => exact h'
  | empty _ ih => exact .empty (ih h')
  | dot _ ih => exact .dot (ih h')
  | dots hok _ ih => exact .dots hok (ih h')
  | down hok hn hentry _ ih => exact .down hok hn hentry (ih h')
  | link hok hn hentry hlink htarget _ ih =>
    have hall := ih h'
    rw [List.append_assoc] at hall
    exact .link hok hn hentry hlink htarget hall

theorem blanks (hok : ok l) (hl : t.get? l = some .directory) (j : Nat) :
    t.Reaches ok l (List.replicate j "") l := by
  induction j with
  | zero => exact .here hok hl
  | succ j ih => exact .empty ih

/-- An empty name at the end counts for nothing. -/
theorem of_append_empty (h : t.Reaches ok at_ (names ++ [""]) l) : t.Reaches ok at_ names l := by
  generalize hall : names ++ [""] = all at h
  induction h generalizing names with
  | here => simp at hall
  | @empty at_ l rest h ih =>
    -- The empty name may be the one at the end, or stand before it.
    rcases List.append_eq_cons_iff.1 hall with ⟨hnames, hrest⟩ | ⟨names', rfl, hrest⟩
    · obtain rfl : rest = [] := by simpa using hrest.symm
      rw [hnames]
      exact h
    · exact .empty (ih hrest.symm)
  | dot _ ih =>
    rcases List.append_eq_cons_iff.1 hall with ⟨-, hrest⟩ | ⟨names', rfl, hrest⟩
    · simp at hrest
    · exact .dot (ih hrest.symm)
  | dots hok _ ih =>
    rcases List.append_eq_cons_iff.1 hall with ⟨-, hrest⟩ | ⟨names', rfl, hrest⟩
    · simp at hrest
    · exact .dots hok (ih hrest.symm)
  | down hok hn hentry _ ih =>
    rcases List.append_eq_cons_iff.1 hall with ⟨-, hrest⟩ | ⟨names', rfl, hrest⟩
    · exact absurd (List.cons.inj hrest).1.symm hn.ne_empty
    · exact .down hok hn hentry (ih hrest.symm)
  | link hok hn hentry hlink htarget _ ih =>
    rcases List.append_eq_cons_iff.1 hall with ⟨-, hrest⟩ | ⟨names', rfl, hrest⟩
    · exact absurd (List.cons.inj hrest).1.symm hn.ne_empty
    · refine .link hok hn hentry hlink htarget (ih ?_)
      rw [hrest, List.append_assoc]

end Reaches

/-- In every tree that is as `t` where `ok` holds, going on after these names, with `k` links
left, is going on at `l` with the links that are left then, or fails in the same way. -/
def Leads (t : FileTree) (ok : Location → Prop) (k : Nat) (at_ : Location)
    (names : List String) (l : Location) : Prop :=
  ∃ r : Except FileError Nat, r ≠ .error .notFound ∧
    ∀ t' : FileTree, (∀ m, ok m → Same t t' m) → ∀ follow rest, rest ≠ [] ∨ follow = true →
      t'.walkFrom follow k at_ (names ++ rest) =
        r.bind (fun k' => t'.walkFrom follow k' l rest)

namespace Leads

variable {ok : Location → Prop} {names names' : List String} {l at_' : Location} {k' : Nat}

/-- One step of a walk leaves the rest of the way. -/
theorem of_step (h : t.Leads ok k' at_' names' l)
    (hstep : ∀ t' : FileTree, (∀ m, ok m → Same t t' m) → ∀ follow rest,
      rest ≠ [] ∨ follow = true → t'.walkFrom follow k at_ (names ++ rest) =
        t'.walkFrom follow k' at_' (names' ++ rest)) : t.Leads ok k at_ names l := by
  obtain ⟨r, hr, hwalk⟩ := h
  refine ⟨r, hr, fun t' hsame follow rest hgo => ?_⟩
  exact (hstep t' hsame follow rest hgo).trans (hwalk t' hsame follow rest hgo)

/-- Where a directory may not be searched, no name leads on. -/
theorem of_search (hok : ok at_) (hn : n ≠ "")
    (h : t.permits .search at_ = true → t.Leads ok k at_ (n :: names) l) :
    t.Leads ok k at_ (n :: names) l := by
  cases hsearch : t.permits .search at_ with
  | false =>
    refine ⟨.error .permissionDenied, by simp, fun t' hsame follow rest _ => ?_⟩
    exact walkFrom_denied hn ((hsame _ hok).permits _ ▸ hsearch)
  | true => exact h hsearch

/-- Nor does a name that is too long. -/
theorem of_short (hok : ok at_) (hn : Named n)
    (h : t.permits .search at_ = true → ¬maxNameBytes < n.utf8ByteSize →
      t.Leads ok k at_ (n :: names) l) : t.Leads ok k at_ (n :: names) l := by
  refine of_search hok hn.ne_empty (fun hsearch => ?_)
  by_cases hlong : maxNameBytes < n.utf8ByteSize
  · refine ⟨.error .invalidFilename, by simp, fun t' hsame follow rest _ => ?_⟩
    exact walkFrom_long hn ((hsame _ hok).permits _ ▸ hsearch) hlong
  · exact h hsearch hlong

end Leads

/-- A way leads to one place in every tree that has it. -/
theorem Reaches.leads {ok : Location → Prop} {names : List String} {l : Location}
    (h : t.Reaches ok at_ names l) (k : Nat) : t.Leads ok k at_ names l := by
  induction h generalizing k with
  | here => exact ⟨.ok k, by simp, fun t' _ follow rest _ => rfl⟩
  | empty _ ih => exact (ih k).of_step (fun t' hsame follow rest hgo => walkFrom_empty)
  | dot h ih =>
    refine .of_search h.start (by decide) (fun hsearch => ?_)
    refine (ih k).of_step (fun t' hsame follow rest hgo => ?_)
    exact walkFrom_dot ((hsame _ h.start).permits _ ▸ hsearch)
  | dots hok _ ih =>
    refine .of_search hok (by decide) (fun hsearch => ?_)
    refine (ih k).of_step (fun t' hsame follow rest hgo => ?_)
    exact walkFrom_dots ((hsame _ hok).permits _ ▸ hsearch)
  | down hok hn hentry h ih =>
    refine .of_short hok hn (fun hsearch hshort => ?_)
    refine (ih k).of_step (fun t' hsame follow rest hgo => ?_)
    exact walkFrom_directory hn ((hsame _ hok).permits _ ▸ hsearch) hshort
      ((hsame _ h.start).1.trans hentry)
  | link hok hn hentry hlink htarget h ih =>
    refine .of_short hok hn (fun hsearch hshort => ?_)
    -- The link uses up one of the links that are left, if there is one.
    cases k with
    | zero =>
      refine ⟨.error .filesystemLoop, by simp, fun t' hsame follow rest hgo => ?_⟩
      exact walkFrom_link_zero hn ((hsame _ hok).permits _ ▸ hsearch) hshort
        ((hsame _ hlink).1.trans hentry) (hgo.imp_left fun h => by simp [h])
    | succ k =>
      refine (ih k).of_step (fun t' hsame follow rest hgo => ?_)
      rw [List.cons_append, walkFrom_link hn ((hsame _ hok).permits _ ▸ hsearch) hshort
        ((hsame _ hlink).1.trans hentry) (hgo.imp_left fun h => by simp [h]), if_neg htarget,
        ← List.append_assoc]

/-- Whether a directory or a link stands at a location. -/
def IsPassage (t : FileTree) (l : Location) : Prop :=
  t.get? l = some .directory ∨ ∃ target, t.get? l = some (.link target)

/-- The ways of `walkFrom`, as far as it has succeeded. -/
inductive Arrives (t : FileTree) (follow : Bool) : Nat → Location → List String → Location → Prop
  | here {k : Nat} {at_ : Location} : Arrives t follow k at_ [] at_
  | empty {k : Nat} {at_ l : Location} {rest : List String} (h : Arrives t follow k at_ rest l) :
      Arrives t follow k at_ ("" :: rest) l
  | dot {k : Nat} {at_ l : Location} {rest : List String} (h : Arrives t follow k at_ rest l) :
      Arrives t follow k at_ ("." :: rest) l
  | dots {k : Nat} {at_ l : Location} {rest : List String}
      (h : Arrives t follow k at_.dropLast rest l) : Arrives t follow k at_ (".." :: rest) l
  | down {k : Nat} {at_ l : Location} {n : String} {rest : List String} (hn : Named n)
      (hentry : t.get? (at_ ++ [n]) = some .directory)
      (h : Arrives t follow k (at_ ++ [n]) rest l) : Arrives t follow k at_ (n :: rest) l
  | last {k : Nat} {at_ : Location} {n : String} (hn : Named n) :
      Arrives t follow k at_ [n] (at_ ++ [n])
  | link {k : Nat} {at_ l : Location} {n : String} {rest : List String} {target : Path}
      (hn : Named n) (hentry : t.get? (at_ ++ [n]) = some (.link target)) (htarget : target ≠ "")
      (hgo : rest ≠ [] ∨ follow = true)
      (h : Arrives t follow k (if target.isAbsolute then [] else at_) (target.pieces ++ rest) l) :
      Arrives t follow (k + 1) at_ (n :: rest) l

/-- Who gets through a name has found a directory, or a link to follow, or the end of the way. -/
theorem cases_of_walkFrom {l : Location} (hn : Named n)
    (h : t.walkFrom follow k at_ (n :: rest) = .ok l) :
    (t.get? (at_ ++ [n]) = some .directory ∧ t.walkFrom follow k (at_ ++ [n]) rest = .ok l) ∨
      (rest = [] ∧ (follow = false ∨ ∀ target, t.get? (at_ ++ [n]) ≠ some (.link target)) ∧
        l = at_ ++ [n]) ∨
        ∃ target k', k = k' + 1 ∧ t.get? (at_ ++ [n]) = some (.link target) ∧ target ≠ "" ∧
          (rest ≠ [] ∨ follow = true) ∧ t.walkFrom follow k'
            (if target.isAbsolute then [] else at_) (target.pieces ++ rest) = .ok l := by
  have hsearch := search_of_walkFrom hn.ne_empty h
  have hshort : ¬maxNameBytes < n.utf8ByteSize := by
    intro hlong
    rw [walkFrom_long hn hsearch hlong] at h
    cases h
  -- What is neither a directory nor a link that counts is where the way ends.
  have hlast : rest = [] → (follow = false ∨
      ∀ target, t.get? (at_ ++ [n]) ≠ some (.link target)) → rest = [] ∧
        (follow = false ∨ ∀ target, t.get? (at_ ++ [n]) ≠ some (.link target)) ∧
          l = at_ ++ [n] := by
    rintro rfl hentry
    rw [walkFrom_last hn hsearch hshort hentry] at h
    exact ⟨rfl, hentry, (Except.ok.inj h).symm⟩
  cases hentry : t.get? (at_ ++ [n]) with
  | none =>
    by_cases hrest : rest = []
    · rw [← hentry]
      exact .inr (.inl (hlast hrest (.inr (by simp [hentry]))))
    · rw [walkFrom_free hn hsearch hshort hentry hrest] at h
      cases h
  | some e =>
    cases e with
    | directory =>
      rw [walkFrom_directory hn hsearch hshort hentry] at h
      exact .inl ⟨rfl, h⟩
    | file =>
      by_cases hrest : rest = []
      · rw [← hentry]
        exact .inr (.inl (hlast hrest (.inr (by simp [hentry]))))
      · rw [walkFrom_file hn hsearch hshort hentry hrest] at h
        cases h
    | link target =>
      by_cases hgo : rest ≠ [] ∨ follow = true
      · cases k with
        | zero =>
          rw [walkFrom_link_zero hn hsearch hshort hentry hgo] at h
          cases h
        | succ k =>
          rw [walkFrom_link hn hsearch hshort hentry hgo] at h
          split at h
          · cases h
          · next htarget => exact .inr (.inr ⟨target, k, rfl, rfl, htarget, hgo, h⟩)
      · rw [not_or, Decidable.not_not] at hgo
        rw [← hentry]
        exact .inr (.inl (hlast hgo.1 (.inl (by simpa using hgo.2))))

theorem arrives_of_walkFrom {names : List String} {l : Location}
    (h : t.walkFrom follow k at_ names = .ok l) : t.Arrives follow k at_ names l := by
  -- On the number of links that are left, and for each of them on the names.
  induction k using Nat.strongRecOn generalizing at_ names with
  | ind k ihk =>
    induction names generalizing at_ with
    | nil =>
      rw [walkFrom_nil] at h
      obtain rfl := Except.ok.inj h
      exact .here
    | cons n rest ih =>
      by_cases hempty : n = ""
      · rw [hempty, walkFrom_empty] at h
        exact hempty ▸ .empty (ih h)
      have hsearch := search_of_walkFrom hempty h
      by_cases hdot : n = "."
      · rw [hdot, walkFrom_dot hsearch] at h
        exact hdot ▸ .dot (ih h)
      by_cases hdots : n = ".."
      · rw [hdots, walkFrom_dots hsearch] at h
        exact hdots ▸ .dots (ih h)
      have hn : Named n := ⟨hempty, hdot, hdots⟩
      rcases cases_of_walkFrom hn h with
        ⟨hentry, h⟩ | ⟨rfl, -, rfl⟩ | ⟨target, k, rfl, hentry, htarget, hgo, h⟩
      · exact .down hn hentry (ih h)
      · exact .last hn
      · exact .link hn hentry htarget hgo (ihk k (Nat.lt_succ_self k) h)

/-- Above a directory there is a directory. -/
theorem directory_dropLast (hwf : t.WellFormed) (hat : t.get? at_ = some .directory) :
    t.get? at_.dropLast = some .directory := by
  rcases List.eq_nil_or_concat at_ with rfl | ⟨m, x, rfl⟩
  · rfl
  · rw [List.concat_eq_append] at hat ⊢
    rw [List.dropLast_concat]
    exact hwf.parent m x (by rw [hat]; exact Option.some_ne_none _)

/-- Every location of a way is that of a directory or a link. -/
theorem Reaches.passage {ok : Location → Prop} {names : List String} {l : Location}
    (hwf : t.WellFormed) (hat : t.get? at_ = some .directory) (h : t.Reaches ok at_ names l) :
    t.Reaches (fun m => ok m ∧ t.IsPassage m) at_ names l := by
  induction h with
  | here hok => exact .here ⟨hok, .inl hat⟩ hat
  | empty _ ih => exact .empty (ih hat)
  | dot _ ih => exact .dot (ih hat)
  | dots hok _ ih => exact .dots ⟨hok, .inl hat⟩ (ih (directory_dropLast hwf hat))
  | down hok hn hentry _ ih => exact .down ⟨hok, .inl hat⟩ hn hentry (ih hentry)
  | @link at_ _ _ _ target hok hn hentry hlink htarget _ ih =>
    refine .link ⟨hok, .inl hat⟩ hn hentry ⟨hlink, .inr ⟨target, hentry⟩⟩ htarget (ih ?_)
    split
    · rfl
    · exact hat

namespace Arrives

variable {names : List String} {l : Location}

/-- Who arrives at a directory has come through directories and links only. -/
theorem reaches (hwf : t.WellFormed) (hat : t.get? at_ = some .directory)
    (h : t.Arrives follow k at_ names l) (hl : t.get? l = some .directory) :
    t.Reaches t.IsPassage at_ names l := by
  induction h with
  | here => exact .here (.inl hl) hl
  | empty _ ih => exact .empty (ih hat hl)
  | dot _ ih => exact .dot (ih hat hl)
  | dots _ ih => exact .dots (.inl hat) (ih (directory_dropLast hwf hat) hl)
  | down hn hentry _ ih => exact .down (.inl hat) hn hentry (ih hentry hl)
  | last hn => exact .down (.inl hat) hn hl (.here (.inl hl) hl)
  | @link _ at_ _ _ _ target hn hentry htarget _ _ ih =>
    refine .link (.inl hat) hn hentry (.inr ⟨target, hentry⟩) htarget (ih ?_ hl)
    split
    · rfl
    · exact hat

/-- Who arrives at no directory, and has not followed the last name, has looked that name up
in a directory. -/
theorem lastName (hwf : t.WellFormed) (hat : t.get? at_ = some .directory)
    (h : t.Arrives false k at_ names l) (hl : t.get? l ≠ some .directory) :
    ∃ ns n m, names = ns ++ [n] ∧ Named n ∧ l = m ++ [n] ∧ t.Reaches t.IsPassage at_ ns m := by
  induction h with
  | here => exact absurd hat hl
  | empty _ ih =>
    obtain ⟨ns, n, m, rfl, hn, hlm, hway⟩ := ih hat hl
    exact ⟨"" :: ns, n, m, rfl, hn, hlm, .empty hway⟩
  | dot _ ih =>
    obtain ⟨ns, n, m, rfl, hn, hlm, hway⟩ := ih hat hl
    exact ⟨"." :: ns, n, m, rfl, hn, hlm, .dot hway⟩
  | dots _ ih =>
    obtain ⟨ns, n, m, rfl, hn, hlm, hway⟩ := ih (directory_dropLast hwf hat) hl
    exact ⟨".." :: ns, n, m, rfl, hn, hlm, .dots (.inl hat) hway⟩
  | @down _ _ _ x _ hx hentry _ ih =>
    obtain ⟨ns, n, m, rfl, hn, hlm, hway⟩ := ih hentry hl
    exact ⟨x :: ns, n, m, rfl, hn, hlm, .down (.inl hat) hx hentry hway⟩
  | @last _ at_ n hn => exact ⟨[], n, at_, rfl, hn, rfl, .here (.inl hat) hat⟩
  | @link _ at_ _ x rest target hx hentry htarget hgo _ ih =>
    have hup : t.get? (if target.isAbsolute then [] else at_) = some .directory := by
      split
      · rfl
      · exact hat
    obtain ⟨ns, n, m, hns, hn, hlm, hway⟩ := ih hup hl
    -- The last name is one that was left after the link.
    rcases List.eq_nil_or_concat rest with rfl | ⟨rest, y, rfl⟩
    · simp at hgo
    · rw [List.concat_eq_append, ← List.append_assoc] at hns
      obtain ⟨rfl, hy⟩ := List.append_inj' hns rfl
      obtain rfl := List.singleton_inj.1 hy
      refine ⟨x :: rest, y, m, by simp, hn, hlm, ?_⟩
      exact .link (.inl hat) hx hentry (.inr ⟨target, hentry⟩) htarget hway

/-- So it is where nothing stands. -/
theorem free (hwf : t.WellFormed) (hat : t.get? at_ = some .directory)
    (h : t.Arrives false k at_ names l) (hl : t.get? l = none) :
    ∃ ns n m, names = ns ++ [n] ∧ Named n ∧ l = m ++ [n] ∧ t.Reaches t.IsPassage at_ ns m :=
  h.lastName hwf hat (by simp [hl])

end Arrives

end FileTree

end BlockFlow
