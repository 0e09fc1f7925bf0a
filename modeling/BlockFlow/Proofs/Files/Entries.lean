import BlockFlow.Proofs.List
import BlockFlow.Proofs.Lookup
import BlockFlow.Files.Tree

/-!
# What changes of a file tree do to its entries

Each change has a lemma on what it does to the entry at a location and one on what it does
to its detail; `FileTree.Same` says that a location has kept both.

## Key results

- `get?_shift`, `detail_shift`: what a renamed file leaves behind and takes along
- `get?_relocate`, `detail_relocate_of_prefix`: the same for a directory
-/

namespace BlockFlow

namespace FileTree

/-- A location has kept its entry and its detail. -/
def Same (t t' : FileTree) (l : Location) : Prop :=
  t'.get? l = t.get? l ∧ t'.detail l = t.detail l

theorem Same.refl (t : FileTree) (l : Location) : Same t t l := ⟨rfl, rfl⟩

theorem Same.trans {t t' t'' : FileTree} {l : Location} (h : Same t t' l) (h' : Same t' t'' l) :
    Same t t'' l :=
  ⟨h'.1.trans h.1, h'.2.trans h.2⟩

theorem Same.symm {t t' : FileTree} {l : Location} (h : Same t t' l) : Same t' t l :=
  ⟨h.1.symm, h.2.symm⟩

theorem Same.permits {t t' : FileTree} {l : Location} (h : Same t t' l) (a : Access) :
    t'.permits a l = t.permits a l := by
  rw [FileTree.permits, FileTree.permits, h.2]

/-! ## Entries and details after a change -/

variable (t : FileTree)

theorem get?_eq_entries {l : Location} (hl : l ≠ []) : t.get? l = t.entries.get? l := by
  cases l with
  | nil => exact absurd rfl hl
  | cons n ns => rfl

@[simp] theorem detail_put (a l : Location) (e : Entry) : (t.put a e).detail l = t.detail l := rfl

@[simp] theorem get?_withDetail (a l : Location) (d : Detail) :
    (t.withDetail a d).get? l = t.get? l := by
  cases l <;> rfl

theorem detail_withDetail (a l : Location) (d : Detail) :
    (t.withDetail a d).detail l = if a = l then d else t.detail l := by
  rw [detail, withDetail, SortedMap.get?_insert]
  split <;> rfl

theorem detail_drop (a l : Location) : (t.drop a).detail l = if a = l then {} else t.detail l := by
  rw [detail, drop, SortedMap.get?_erase]
  split <;> rfl

theorem get?_filtered {t' : FileTree} {p : Location → Bool}
    (h : t'.entries = t.entries.filter (fun l _ => p l)) (hroot : p [] = true) (l : Location) :
    t'.get? l = if p l then t.get? l else none := by
  cases l with
  | nil => rw [hroot]; rfl
  | cons n ns =>
    show t'.entries.get? (n :: ns) = if p (n :: ns) then t.entries.get? (n :: ns) else none
    rw [h, SortedMap.get?_filter]
    cases t.entries.get? (n :: ns) <;> cases p (n :: ns) <;> rfl

theorem detail_filtered {t' : FileTree} {p : Location → Bool}
    (h : t'.details = t.details.filter (fun l _ => p l)) (l : Location) :
    t'.detail l = if p l then t.detail l else {} := by
  rw [detail, h, SortedMap.get?_filter, detail]
  cases t.details.get? l <;> cases p l <;> rfl

theorem get?_dropAll {a : Location} (ha : a ≠ []) (l : Location) :
    (t.dropAll a).get? l = if a <+: l then none else t.get? l := by
  have hroot : (!a.isPrefixOf []) = true := by cases a <;> simp_all
  rw [get?_filtered t (p := fun l => !a.isPrefixOf l) rfl hroot]
  by_cases hl : a <+: l
  · have := List.isPrefixOf_iff_prefix.2 hl
    simp [hl, this]
  · have : a.isPrefixOf l = false := by
      rw [← Bool.not_eq_true, List.isPrefixOf_iff_prefix]; exact hl
    simp [hl, this]

theorem detail_dropAll (a l : Location) :
    (t.dropAll a).detail l = if a <+: l then {} else t.detail l := by
  rw [detail_filtered t (p := fun l => !a.isPrefixOf l) rfl]
  by_cases hl : a <+: l
  · have := List.isPrefixOf_iff_prefix.2 hl
    simp [hl, this]
  · have : a.isPrefixOf l = false := by
      rw [← Bool.not_eq_true, List.isPrefixOf_iff_prefix]; exact hl
    simp [hl, this]

theorem get?_shift {s d : Location} (hs : s ≠ []) (hd : d ≠ []) (e : Entry) (l : Location) :
    (t.shift s d e).get? l =
      if d = l then some e else if s = l then none else t.get? l := by
  have h : ((((t.drop s).drop d).put d e).get? l) =
      if d = l then some e else if s = l then none else t.get? l := by
    rw [get?_put _ _ _ _ hd]
    by_cases hl : d = l
    · rw [if_pos hl, if_pos hl]
    · rw [if_neg hl, if_neg hl, get?_drop _ _ _ hd, if_neg hl, get?_drop _ _ _ hs]
  by_cases hnone : t.detail s = {}
  · rw [show t.shift s d e = ((t.drop s).drop d).put d e from if_pos hnone, h]
  · rw [show t.shift s d e = (((t.drop s).drop d).put d e).withDetail d (t.detail s) from
      if_neg hnone, get?_withDetail, h]

theorem detail_shift (s d : Location) (e : Entry) (l : Location) :
    (t.shift s d e).detail l =
      if d = l then t.detail s else if s = l then {} else t.detail l := by
  have h : ((((t.drop s).drop d).put d e).detail l) =
      if d = l then {} else if s = l then {} else t.detail l := by
    rw [detail_put, detail_drop, detail_drop]
  by_cases hnone : t.detail s = {}
  · rw [show t.shift s d e = ((t.drop s).drop d).put d e from if_pos hnone, h, hnone]
  · rw [show t.shift s d e = (((t.drop s).drop d).put d e).withDetail d (t.detail s) from
      if_neg hnone, detail_withDetail]
    by_cases hl : d = l
    · rw [if_pos hl, if_pos hl]
    · rw [if_neg hl, if_neg hl, h, if_neg hl]

/-! ## Moving a directory -/

private theorem get?_foldl_put_of_not_mem {f : Location × Entry → Location}
    {es : List (Location × Entry)} {t : FileTree} {l : Location} (hf : ∀ e ∈ es, f e ≠ [])
    (h : ∀ e ∈ es, f e ≠ l) :
    (es.foldl (fun t e => t.put (f e) e.2) t).get? l = t.get? l :=
  List.apply_foldl_eq (g := (FileTree.get? · l))
    (fun t e he => by rw [get?_put _ _ _ _ (hf e he), if_neg (h e he)]) t

private theorem get?_foldl_put_of_mem {f : Location × Entry → Location}
    {es : List (Location × Entry)} {t : FileTree} {l : Location} {x : Entry}
    (hf : ∀ e ∈ es, f e ≠ []) (hmem : ∃ e ∈ es, f e = l)
    (hx : ∀ e ∈ es, f e = l → e.2 = x) :
    (es.foldl (fun t e => t.put (f e) e.2) t).get? l = some x :=
  List.apply_foldl_eq_of_mem (g := (FileTree.get? · l)) (p := (f · = l))
    (v := fun e : Location × Entry => some e.2) (fun t e he => get?_put t (f e) l e.2 (hf e he)) hmem
    (fun e he hl => congrArg some (hx e he hl)) t

private theorem get?_foldl_withDetail {f : Location × Detail → Location}
    (ds : List (Location × Detail)) (t : FileTree) (l : Location) :
    (ds.foldl (fun t d => t.withDetail (f d) d.2) t).get? l = t.get? l :=
  List.apply_foldl_eq (g := (FileTree.get? · l)) (fun _ _ _ => get?_withDetail ..) t

private theorem detail_foldl_put {f : Location × Entry → Location} (es : List (Location × Entry))
    (t : FileTree) (l : Location) :
    (es.foldl (fun t e => t.put (f e) e.2) t).detail l = t.detail l :=
  List.apply_foldl_eq (g := (FileTree.detail · l)) (fun _ _ _ => detail_put ..) t

private theorem detail_foldl_withDetail_of_not_mem {f : Location × Detail → Location}
    {ds : List (Location × Detail)} {t : FileTree} {l : Location} (h : ∀ d ∈ ds, f d ≠ l) :
    (ds.foldl (fun t d => t.withDetail (f d) d.2) t).detail l = t.detail l :=
  List.apply_foldl_eq (g := (FileTree.detail · l))
    (fun t d hd => by rw [detail_withDetail, if_neg (h d hd)]) t

private theorem detail_foldl_withDetail_of_mem {f : Location × Detail → Location}
    {ds : List (Location × Detail)} {t : FileTree} {l : Location} {x : Detail}
    (hmem : ∃ d ∈ ds, f d = l) (hx : ∀ d ∈ ds, f d = l → d.2 = x) :
    (ds.foldl (fun t d => t.withDetail (f d) d.2) t).detail l = x :=
  List.apply_foldl_eq_of_mem (g := (FileTree.detail · l)) (p := (f · = l))
    (v := fun d : Location × Detail => d.2) (fun _ _ _ => detail_withDetail ..) hmem hx t

/-- Where an entry goes with the directory that it is in. -/
private def place (s d l : Location) : Location := d ++ l.drop s.length

private theorem relocate_eq (s d : Location) :
    t.relocate s d = (t.details.toList.filter (fun x => s.isPrefixOf x.1)).foldl
      (fun t x => t.withDetail (place s d x.1) x.2)
      ((t.entries.toList.filter (fun e => s.isPrefixOf e.1)).foldl
        (fun t e => t.put (place s d e.1) e.2) (t.dropAll s)) := rfl

private theorem place_append (s d r : Location) : place s d (s ++ r) = d ++ r := by
  rw [place, List.drop_left]

/-- What goes below `d` comes from one place below `s`. -/
private theorem eq_of_place {s d l r : Location} (hl : s <+: l) (h : place s d l = d ++ r) :
    l = s ++ r := by
  obtain ⟨r', rfl⟩ := hl
  rw [place_append] at h
  rw [List.append_cancel_left h]

private theorem place_prefix (s d l : Location) : d <+: place s d l := List.prefix_append _ _

/-- Where a directory and what is in it were, nothing is left; where they go, which was free,
they are; elsewhere nothing changes. -/
theorem get?_relocate {s d : Location} (hs : s ≠ []) (hd : d ≠ [])
    (hfree : ∀ l, d <+: l → t.get? l = none) (l : Location) :
    (t.relocate s d).get? l = if d <+: l then t.get? (s ++ l.drop d.length)
      else if s <+: l then none else t.get? l := by
  rw [relocate_eq, get?_foldl_withDetail]
  have hmem : ∀ e ∈ t.entries.toList.filter (fun e => s.isPrefixOf e.1),
      t.get? e.1 = some e.2 ∧ s <+: e.1 := by
    intro e he
    obtain ⟨he, hpre⟩ := List.mem_filter.1 he
    have hpre := List.isPrefixOf_iff_prefix.1 hpre
    have hne : e.1 ≠ [] := by
      intro hnil
      rw [hnil, List.prefix_nil] at hpre
      exact hs hpre
    exact ⟨(get?_eq_entries t hne).trans (SortedMap.mem_toList.1 he), hpre⟩
  have hplace : ∀ e ∈ t.entries.toList.filter (fun e => s.isPrefixOf e.1),
      place s d e.1 ≠ [] := fun e _ h => hd (List.append_eq_nil_iff.1 h).1
  by_cases hl : d <+: l
  · rw [if_pos hl]
    obtain ⟨r, rfl⟩ := hl
    rw [List.drop_left]
    cases hr : t.get? (s ++ r) with
    | some x =>
      -- The entry is put at its new place, and nothing else is put there.
      refine get?_foldl_put_of_mem hplace ⟨(s ++ r, x), ?_, place_append s d r⟩ ?_
      · have hsr : s ++ r ≠ [] := fun h => hs (List.append_eq_nil_iff.1 h).1
        exact List.mem_filter.2
          ⟨SortedMap.mem_toList.2 ((get?_eq_entries t hsr).symm.trans hr), by simp⟩
      · intro e he heq
        obtain ⟨hget, hpre⟩ := hmem e he
        rw [eq_of_place hpre heq, hr] at hget
        exact (Option.some.inj hget).symm
    | none =>
      -- Nothing is put there, and nothing was there before.
      rw [get?_foldl_put_of_not_mem hplace, get?_dropAll _ hs, hfree _ (List.prefix_append d r),
        ite_self]
      intro e he heq
      obtain ⟨hget, hpre⟩ := hmem e he
      rw [eq_of_place hpre heq, hr] at hget
      cases hget
  · rw [if_neg hl, get?_foldl_put_of_not_mem hplace, get?_dropAll _ hs]
    intro e _ heq
    exact hl (heq ▸ place_prefix s d _)

theorem detail_relocate_of_outside {s d l : Location} (hl : ¬d <+: l) :
    (t.relocate s d).detail l = if s <+: l then {} else t.detail l := by
  rw [relocate_eq, detail_foldl_withDetail_of_not_mem, detail_foldl_put, detail_dropAll]
  intro e _ heq
  exact hl (heq ▸ place_prefix s d _)

/-- What is known about what is moved goes with it. -/
theorem detail_relocate_of_prefix {s d r : Location} (hunknown : t.detail (d ++ r) = {}) :
    (t.relocate s d).detail (d ++ r) = t.detail (s ++ r) := by
  rw [relocate_eq]
  have hmem : ∀ x ∈ t.details.toList.filter (fun x => s.isPrefixOf x.1),
      t.details.get? x.1 = some x.2 ∧ s <+: x.1 := by
    intro x hx
    obtain ⟨hx, hpre⟩ := List.mem_filter.1 hx
    exact ⟨SortedMap.mem_toList.1 hx, List.isPrefixOf_iff_prefix.1 hpre⟩
  -- What was known below the old place is known below the new one, and nothing else is.
  cases hr : t.details.get? (s ++ r) with
  | some x =>
    rw [detail_foldl_withDetail_of_mem (x := x), detail, hr]
    · rfl
    · refine ⟨(s ++ r, x), List.mem_filter.2 ⟨SortedMap.mem_toList.2 hr, by simp⟩, ?_⟩
      exact place_append s d r
    · intro y hy heq
      obtain ⟨hget, hpre⟩ := hmem y hy
      rw [eq_of_place hpre heq, hr] at hget
      exact (Option.some.inj hget).symm
  | none =>
    rw [detail_foldl_withDetail_of_not_mem, detail_foldl_put, detail_dropAll, hunknown, ite_self,
      detail, hr]
    · rfl
    · intro y hy heq
      obtain ⟨hget, hpre⟩ := hmem y hy
      rw [eq_of_place hpre heq, hr] at hget
      cases hget

end FileTree

end BlockFlow
