import BlockFlow.Proofs.Files.Entries

/-!
# Well-formed file trees

In a well-formed tree an entry lies in a directory, nothing is known about a free location,
and the names of one file hold the same entry. So what is below a free location, or below a
file, is free as well. Changes that put an entry into a directory, or take away what has
nothing below it, keep a tree so.

## Key results

- `WellFormed.free_below`: below what is no directory everything is free
- `WellFormed.put`, `WellFormed.shift`, `WellFormed.relocate`, `WellFormed.drop`,
  `WellFormed.filtered`, `WellFormed.withDetail`: changes that keep a tree well-formed
-/

namespace BlockFlow

namespace FileTree

/-- Every entry lies in a directory, nothing is known about a free location, and the names of
one file hold the same entry. -/
structure WellFormed (t : FileTree) : Prop where
  parent : ∀ l n, t.get? (l ++ [n]) ≠ none → t.get? l = some .directory
  known : ∀ l, t.get? l = none → t.detail l = {}
  twins : ∀ l m k, (t.detail l).shared = some k → (t.detail m).shared = some k →
    t.get? l = t.get? m

/-- The root is all that there is. -/
theorem wellFormed_empty : ({} : FileTree).WellFormed where
  parent l n h := absurd (by cases l <;> rfl) h
  known _ _ := rfl
  twins _ _ _ h := by cases h

/-- A location of `t'` is free, or has what some location of `t` has. -/
private def Drawn (t t' : FileTree) (l : Location) : Prop :=
  (t'.get? l = none ∧ t'.detail l = {}) ∨
    ∃ m, t'.get? l = t.get? m ∧ t'.detail l = t.detail m

namespace WellFormed

variable {t : FileTree}

/-- Below what is no directory everything is free. -/
theorem free_below (h : t.WellFormed) {l m : Location} (hl : t.get? l ≠ some .directory)
    (hlm : l <+: m) (hne : l ≠ m) : t.get? m = none := by
  obtain ⟨r, rfl⟩ := hlm
  induction r using List.reverseRecOn with
  | nil => exact absurd (List.append_nil l).symm hne
  | append_singleton r n ih =>
    by_contra hsome
    rw [← List.append_assoc] at hsome
    have hparent := h.parent _ _ hsome
    by_cases hr : r = []
    · rw [hr, List.append_nil] at hparent
      exact hl hparent
    · rw [ih (by simpa using hr)] at hparent
      cases hparent

theorem free_of_free (h : t.WellFormed) {l m : Location} (hl : t.get? l = none)
    (hlm : l <+: m) : t.get? m = none := by
  by_cases hne : l = m
  · rw [← hne, hl]
  · exact h.free_below (by simp [hl]) hlm hne

theorem detail_of_free (h : t.WellFormed) {l m : Location} (hl : t.get? l = none)
    (hlm : l <+: m) : t.detail m = {} :=
  h.known m (h.free_of_free hl hlm)

/-- A tree that has nothing but what a well-formed one has is well-formed, if its entries lie
in directories. -/
private theorem of_drawn (h : t.WellFormed) {t' : FileTree} (hdrawn : ∀ l, Drawn t t' l)
    (hparent : ∀ l n, t'.get? (l ++ [n]) ≠ none → t'.get? l = some .directory) :
    t'.WellFormed := by
  refine ⟨hparent, fun l hl => ?_, fun l m k hlk hmk => ?_⟩
  · rcases hdrawn l with ⟨-, hdetail⟩ | ⟨x, hget, hdetail⟩
    · exact hdetail
    · rw [hdetail]
      exact h.known x (hget ▸ hl)
  · rcases hdrawn l with ⟨-, hdetail⟩ | ⟨x, hget, hdetail⟩
    · simp [hdetail] at hlk
    · rcases hdrawn m with ⟨-, hdetail'⟩ | ⟨y, hget', hdetail'⟩
      · simp [hdetail'] at hmk
      · rw [hdetail] at hlk
        rw [hdetail'] at hmk
        rw [hget, hget', h.twins x y k hlk hmk]

theorem of_same (h : t.WellFormed) {t' : FileTree} (hsame : ∀ l, Same t t' l) :
    t'.WellFormed := by
  refine h.of_drawn (fun l => .inr ⟨l, hsame l⟩) (fun l n hn => ?_)
  rw [(hsame l).1]
  exact h.parent l n (by rwa [(hsame (l ++ [n])).1] at hn)

/-- An entry is put at a free location of a directory. -/
theorem put (h : t.WellFormed) {m : Location} {n : String} {e : Entry}
    (hm : t.get? m = some .directory) (hfree : t.get? (m ++ [n]) = none) :
    (t.put (m ++ [n]) e).WellFormed := by
  have hne : m ++ [n] ≠ [] := by simp
  have hshared : ∀ l k, (t.detail l).shared = some k → m ++ [n] ≠ l := by
    intro l k hk hl
    rw [← hl, h.known _ hfree] at hk
    cases hk
  refine {
    parent := fun l x hx => ?parent
    known := fun l hl => ?known
    twins := fun l l' k hk hk' => ?twins }
  case parent =>
    rw [get?_put _ _ _ _ hne] at hx ⊢
    have hparent : t.get? l = some .directory := by
      by_cases hlx : m ++ [n] = l ++ [x]
      · rw [← (List.append_inj' hlx rfl).1]
        exact hm
      · rw [if_neg hlx] at hx
        exact h.parent l x hx
    rw [if_neg, hparent]
    intro hml
    rw [← hml, hfree] at hparent
    cases hparent
  case known =>
    rw [get?_put _ _ _ _ hne] at hl
    split at hl
    · cases hl
    · exact h.known l hl
  case twins =>
    -- What shares its content with something has a detail, and so does not lie where nothing was.
    rw [detail_put] at hk hk'
    rw [get?_put _ _ _ _ hne, get?_put _ _ _ _ hne, if_neg (hshared l k hk),
      if_neg (hshared l' k hk')]
    exact h.twins l l' k hk hk'

/-- A file or link is moved into a directory, over no directory. -/
theorem shift (h : t.WellFormed) {s b : Location} {y : String} {e : Entry} (hs : s ≠ [])
    (he : t.get? s = some e) (hb : t.get? b = some .directory) (hsource : e ≠ .directory)
    (htarget : t.get? (b ++ [y]) ≠ some .directory) : (t.shift s (b ++ [y]) e).WellFormed := by
  have hd : b ++ [y] ≠ [] := by simp
  refine h.of_drawn (fun l => ?_) (fun l x hx => ?_)
  · rw [Drawn, get?_shift _ hs hd, detail_shift]
    by_cases hdl : b ++ [y] = l
    · rw [if_pos hdl, if_pos hdl]
      exact .inr ⟨s, he.symm, rfl⟩
    · rw [if_neg hdl, if_neg hdl]
      by_cases hsl : s = l
      · rw [if_pos hsl, if_pos hsl]
        exact .inl ⟨rfl, rfl⟩
      · rw [if_neg hsl, if_neg hsl]
        exact .inr ⟨l, rfl, rfl⟩
  · rw [get?_shift _ hs hd] at hx ⊢
    -- The directory was one before, so it is neither what was moved nor what was moved over.
    have hold : t.get? l = some .directory := by
      by_cases hlx : b ++ [y] = l ++ [x]
      · rw [← (List.append_inj' hlx rfl).1]
        exact hb
      · rw [if_neg hlx] at hx
        split at hx
        · exact absurd rfl hx
        · exact h.parent l x hx
    have hl : b ++ [y] ≠ l := fun hl => htarget (hl ▸ hold)
    have hl' : s ≠ l := by
      intro hl'
      rw [← hl', he] at hold
      exact hsource (Option.some.inj hold)
    rw [if_neg hl, if_neg hl']
    exact hold

/-- A directory is moved, with what is in it, to a free location in another one. -/
theorem relocate (h : t.WellFormed) {s b : Location} {y : String} (hs : s ≠ [])
    (hb : t.get? b = some .directory) (hfree : t.get? (b ++ [y]) = none)
    (hsd : ¬s <+: b ++ [y]) : (t.relocate s (b ++ [y])).WellFormed := by
  have hd : b ++ [y] ≠ [] := by simp
  have hbelow : ∀ l, b ++ [y] <+: l → t.get? l = none := fun l => h.free_of_free hfree
  have hsb : ¬s <+: b := fun hsb => hsd (hsb.trans (List.prefix_append _ _))
  refine h.of_drawn (fun l => ?_) (fun l x hx => ?_)
  · rw [Drawn, get?_relocate _ hs hd hbelow]
    by_cases hdl : b ++ [y] <+: l
    · rw [if_pos hdl]
      obtain ⟨r, rfl⟩ := hdl
      rw [List.drop_left, detail_relocate_of_prefix _
        (h.detail_of_free hfree (List.prefix_append _ r))]
      exact .inr ⟨s ++ r, rfl, rfl⟩
    · rw [if_neg hdl, detail_relocate_of_outside _ hdl]
      by_cases hsl : s <+: l
      · rw [if_pos hsl, if_pos hsl]
        exact .inl ⟨rfl, rfl⟩
      · rw [if_neg hsl, if_neg hsl]
        exact .inr ⟨l, rfl, rfl⟩
  · rw [get?_relocate _ hs hd hbelow] at hx ⊢
    by_cases hlx : b ++ [y] <+: l ++ [x]
    · rw [if_pos hlx] at hx
      rcases List.prefix_concat_iff.1 hlx with heq | hl
      · -- The directory itself lies in `b`.
        obtain rfl := (List.append_inj' heq rfl).1
        have hbb : ¬b ++ [y] <+: b := by
          intro hbb
          have hlength := hbb.length_le
          rw [List.length_append, List.length_singleton] at hlength
          omega
        rw [if_neg hbb, if_neg hsb]
        exact hb
      · -- What lies below it has moved along with its directory.
        obtain ⟨r, rfl⟩ := hl
        rw [if_pos (List.prefix_append _ _), List.drop_left]
        rw [List.append_assoc, List.drop_left, ← List.append_assoc] at hx
        exact h.parent _ _ hx
    · rw [if_neg hlx] at hx
      split at hx
      · exact absurd rfl hx
      · next hsx =>
        have hl : ¬b ++ [y] <+: l := fun hl => hlx (hl.trans (List.prefix_append _ _))
        have hsl : ¬s <+: l := fun hsl => hsx (hsl.trans (List.prefix_append _ _))
        rw [if_neg hl, if_neg hsl]
        exact h.parent l x hx

/-- Of the entries a part is kept that has the directory of each of its entries. -/
theorem filtered (h : t.WellFormed) {t' : FileTree} {p : Location → Bool}
    (hentries : t'.entries = t.entries.filter (fun l _ => p l))
    (hdetails : t'.details = t.details.filter (fun l _ => p l)) (hroot : p [] = true)
    (hparent : ∀ l n, p (l ++ [n]) = true → p l = true) : t'.WellFormed := by
  refine h.of_drawn (fun l => ?_) (fun l n hn => ?_)
  · rw [Drawn, get?_filtered t hentries hroot, detail_filtered t hdetails]
    by_cases hp : p l = true
    · rw [if_pos hp, if_pos hp]
      exact .inr ⟨l, rfl, rfl⟩
    · rw [if_neg hp, if_neg hp]
      exact .inl ⟨rfl, rfl⟩
  · rw [get?_filtered t hentries hroot] at hn ⊢
    split at hn
    · next hp =>
      rw [if_pos (hparent l n hp)]
      exact h.parent l n hn
    · exact absurd rfl hn

/-- Something becomes known about an entry that has no other names. -/
theorem withDetail (h : t.WellFormed) {m : Location} {d : Detail} (hm : t.get? m ≠ none)
    (hd : d.shared = none) : (t.withDetail m d).WellFormed where
  parent l n hn := by
    rw [get?_withDetail] at hn ⊢
    exact h.parent l n hn
  known l hl := by
    rw [get?_withDetail] at hl
    have hne : ¬m = l := fun heq => hm (heq ▸ hl)
    rw [detail_withDetail, if_neg hne]
    exact h.known l hl
  twins l l' k hl hl' := by
    rw [detail_withDetail] at hl hl'
    rw [get?_withDetail, get?_withDetail]
    -- The place itself shares nothing now, so both must be other places.
    split at hl
    · rw [hd] at hl
      cases hl
    · split at hl'
      · rw [hd] at hl'
        cases hl'
      · exact h.twins l l' k hl hl'

/-- An empty directory, or what is none, is taken away. -/
theorem drop (h : t.WellFormed) {a : Location} (ha : a ≠ [])
    (hempty : ∀ n, t.get? (a ++ [n]) = none) : (t.drop a).WellFormed := by
  refine h.of_drawn (fun l => ?_) (fun l n hn => ?_)
  · rw [Drawn, get?_drop _ _ _ ha, detail_drop]
    by_cases hal : a = l
    · rw [if_pos hal, if_pos hal]
      exact .inl ⟨rfl, rfl⟩
    · rw [if_neg hal, if_neg hal]
      exact .inr ⟨l, rfl, rfl⟩
  · rw [get?_drop _ _ _ ha] at hn ⊢
    split at hn
    · exact absurd rfl hn
    · have hal : a ≠ l := fun hal => hn (hal ▸ hempty n)
      rw [if_neg hal]
      exact h.parent l n hn

end WellFormed

theorem free_of_below_isEmpty {t : FileTree} {a : Location} (h : (t.below a).isEmpty = true)
    (n : String) : t.get? (a ++ [n]) = none := by
  rw [List.isEmpty_iff, below, List.filter_eq_nil_iff] at h
  by_contra hsome
  obtain ⟨e, he⟩ := Option.ne_none_iff_exists'.1 hsome
  have hkey : t.entries.get? (a ++ [n]) = some e :=
    (get?_eq_entries t (by simp)).symm.trans he
  have := h (a ++ [n]) (SortedMap.mem_keys.2 (by rw [SortedMap.contains, hkey]; rfl))
  simp at this

/-- A directory has something below it if one of its names is taken. -/
theorem below_isEmpty {t : FileTree} {a : Location} (h : ∀ n, t.get? (a ++ [n]) = none) :
    (t.below a).isEmpty = true := by
  rw [List.isEmpty_iff, below, List.filter_eq_nil_iff]
  intro l hl hbelow
  simp only [Bool.and_eq_true, decide_eq_true_eq] at hbelow
  obtain ⟨hne, rfl⟩ := hbelow
  have hkey : (t.entries.get? l).isSome := SortedMap.mem_keys.1 hl
  rw [← get?_eq_entries t hne, ← List.dropLast_append_getLast hne, h] at hkey
  cases hkey

/-- A new file gets its content under its only name. -/
theorem fill_of_free {t : FileTree} (h : t.WellFormed) {l : Location} (hl : t.get? l = none)
    (content : ByteArray) :
    t.fill l content = (t.put l (.file content)).put l (.file content) := by
  rw [fill, namesOf, h.known l hl]
  rfl

end FileTree

end BlockFlow
