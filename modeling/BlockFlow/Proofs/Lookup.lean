import Mathlib.Data.List.Induction
import Mathlib.Data.List.Nodup
import BlockFlow.SortedMap

/-!
# Look-ups in filtered maps and in maps made from lists

With distinct keys, a map made from a list of bindings binds exactly what the list does
(`get?_ofList_eq_some_iff`); whatever the keys, it binds nothing else
(`mem_of_get?_ofList`).
-/

namespace BlockFlow

namespace SortedMap

theorem nodup_keys {κ α : Type} [LT κ] [KeyOrder κ] (m : SortedMap κ α) : m.keys.Nodup := by
  have h := m.increasing
  rw [keys, List.Nodup, List.pairwise_map]
  refine h.imp ?_
  intro a b hlt heq
  rw [heq] at hlt
  exact KeyOrder.irrefl _ hlt

@[simp] theorem get?_emptyCollection {κ α : Type} [LT κ] [DecidableEq κ] (k : κ) :
    (∅ : SortedMap κ α).get? k = none := rfl

variable {κ : Type} {α : Type} [LT κ] [DecidableLT κ] [DecidableEq κ] [KeyOrder κ]

theorem get?_filter (m : SortedMap κ α) (p : κ → α → Bool) (k : κ) :
    (m.filter p).get? k = (m.get? k).filter (p k) := by
  refine Option.ext (fun v => ?_)
  rw [← mem_toList, filter, List.mem_filter, mem_toList, Option.filter_eq_some_iff]

theorem ofList_concat (es : List (κ × α)) (e : κ × α) :
    ofList (es ++ [e]) = (ofList es).insert e.1 e.2 := by
  simp [ofList]

/-- A map made from a list has no bindings but those of the list. -/
theorem mem_of_get?_ofList {es : List (κ × α)} {k : κ} {v : α}
    (h : (ofList es).get? k = some v) : (k, v) ∈ es := by
  induction es using List.reverseRecOn with
  | nil => cases h
  | append_singleton es e ih =>
    rw [ofList_concat, get?_insert] at h
    split at h
    · next hk =>
      obtain rfl := Option.some.inj h
      exact List.mem_append_right _ (by rw [← hk]; exact List.mem_singleton_self _)
    · exact List.mem_append_left _ (ih h)

theorem get?_ofList_eq_some_iff {es : List (κ × α)} (hes : (es.map (·.1)).Nodup) {k : κ} {v : α} :
    (ofList es).get? k = some v ↔ (k, v) ∈ es := by
  refine ⟨mem_of_get?_ofList, fun h => ?_⟩
  induction es using List.reverseRecOn with
  | nil => cases h
  | append_singleton es e ih =>
    rw [List.map_append, List.map_singleton] at hes
    rw [ofList_concat, get?_insert]
    rcases List.mem_append.1 h with h | h
    · -- A binding of the first part is not overwritten, since the last key is another one.
      have hne : e.1 ≠ k := by
        rintro rfl
        exact (List.disjoint_of_nodup_append hes) (List.mem_map_of_mem h) (by simp)
      rw [if_neg hne, ih (List.nodup_append.1 hes).1 h]
    · rw [← List.mem_singleton.1 h, if_pos rfl]

/-- A map is made again from its bindings. -/
theorem ofList_toList (m : SortedMap κ α) : ofList m.toList = m := by
  refine SortedMap.ext fun k => Option.ext fun v => ?_
  rw [get?_ofList_eq_some_iff m.nodup_keys, mem_toList]

/-- Of bindings that are sorted already, a map has the values as they stand. -/
theorem values_ofList_of_increasing {es : List (κ × α)} (h : Entries.Increasing es) :
    (ofList es).values = es.map (·.2) := by
  have hes : ofList es = ⟨es, h⟩ := ofList_toList ⟨es, h⟩
  rw [hes]
  rfl

/-- With distinct keys, a map made from a list has the bindings of the list. -/
theorem toList_ofList_perm {es : List (κ × α)} (hes : (es.map (·.1)).Nodup) :
    (ofList es).toList.Perm es := by
  have hnodup : (ofList es).toList.Nodup := (ofList es).nodup_keys.of_map _
  refine (List.perm_ext_iff_of_nodup hnodup (hes.of_map _)).2 ?_
  rintro ⟨k, v⟩
  rw [mem_toList, get?_ofList_eq_some_iff hes]

/-- With distinct keys, the order of the bindings does not matter. -/
theorem ofList_perm {es es' : List (κ × α)} (hperm : es.Perm es') (hes : (es.map (·.1)).Nodup) :
    ofList es = ofList es' := by
  refine SortedMap.ext fun k => Option.ext fun v => ?_
  rw [get?_ofList_eq_some_iff hes, hperm.mem_iff,
    get?_ofList_eq_some_iff ((hperm.map _).nodup_iff.1 hes)]

theorem get?_ofList_eq_none_iff {es : List (κ × α)} {k : κ} :
    (ofList es).get? k = none ↔ k ∉ es.map (·.1) := by
  induction es using List.reverseRecOn with
  | nil => exact ⟨fun _ => List.not_mem_nil, fun _ => rfl⟩
  | append_singleton es e ih =>
    rw [ofList_concat, get?_insert, List.map_append, List.mem_append, List.map_singleton,
      List.mem_singleton, not_or, ← ih]
    by_cases hk : e.1 = k
    · simp [hk]
    · have hke : k ≠ e.1 := fun h => hk h.symm
      simp [hk, hke]

theorem isSome_get?_ofList_iff {es : List (κ × α)} {k : κ} :
    ((ofList es).get? k).isSome = true ↔ k ∈ es.map (·.1) := by
  rw [Option.isSome_iff_ne_none, Ne, get?_ofList_eq_none_iff, Decidable.not_not]

end SortedMap

end BlockFlow
