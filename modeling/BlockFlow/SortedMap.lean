/-! # Finite maps kept in key order

A `SortedMap κ α` is a list of entries whose keys strictly increase, so two maps with the same
entries are the same value and `toList` needs no sorting.  The order of text keys is that of their
code points, which is also the order of their UTF-8 bytes.

The view is `get?`, and each operation has one lemma about it:

* `get?_empty`    `empty.get? k = none`
* `get?_insert`   `(m.insert k v).get? k' = if k = k' then some v else m.get? k'`
* `get?_erase`    `(m.erase k).get? k' = if k = k' then none else m.get? k'`
* `get?_mapValues`  `(m.mapValues f).get? k = (m.get? k).map f`
* `ext`           maps with equal `get?` are equal -/

set_option linter.unusedSectionVars false

namespace BlockFlow

universe u v w

/-- Keys that are in a strict linear order. -/
class KeyOrder (κ : Type u) [LT κ] : Prop where
  irrefl (a : κ) : ¬a < a
  trans {a b c : κ} : a < b → b < c → a < c
  trichotomy (a b : κ) : a < b ∨ a = b ∨ b < a

instance : KeyOrder Nat where
  irrefl := Nat.lt_irrefl
  trans := Nat.lt_trans
  trichotomy := Nat.lt_trichotomy

instance : KeyOrder String where
  irrefl := String.lt_irrefl
  trans := String.lt_trans
  trichotomy a b := by
    by_cases h : a < b
    · exact .inl h
    · by_cases h' : b < a
      · exact .inr (.inr h')
      · exact .inr (.inl (String.le_antisymm h' h))

/-! ## Entry lists -/

namespace Entries

variable {κ : Type u} {α : Type v} [LT κ] [DecidableLT κ] [DecidableEq κ]

/-- Strictly increasing keys. -/
def Increasing (es : List (κ × α)) : Prop := es.Pairwise (fun a b => a.1 < b.1)

/-- Puts an entry at its place, over an entry of the same key. -/
def insert (k : κ) (v : α) : List (κ × α) → List (κ × α)
  | [] => [(k, v)]
  | (k', v') :: es =>
    if k < k' then (k, v) :: (k', v') :: es
    else if k = k' then (k, v) :: es
    else (k', v') :: insert k v es

/-- The value of the first entry with this key. -/
def get? (k : κ) : List (κ × α) → Option α
  | [] => none
  | (k', v) :: es => if k' = k then some v else get? k es

/-- Drops the entries of one key. -/
def erase (k : κ) (es : List (κ × α)) : List (κ × α) := es.filter (fun e => e.1 ≠ k)

theorem mem_insert {k : κ} {v : α} {e : κ × α} {es : List (κ × α)} (h : e ∈ insert k v es) :
    e = (k, v) ∨ e ∈ es := by
  induction es with
  | nil => simpa [insert] using h
  | cons hd tl ih =>
    obtain ⟨k', v'⟩ := hd
    rw [insert] at h
    split at h
    · grind
    · split at h <;> grind

theorem get?_insert (k k' : κ) (v : α) (es : List (κ × α)) :
    get? k' (insert k v es) = if k = k' then some v else get? k' es := by
  induction es with
  | nil => simp [insert, get?]
  | cons hd tl ih =>
    obtain ⟨k₀, v₀⟩ := hd
    rw [insert]
    split
    · simp [get?]
    · split
      · next h => subst h; by_cases hk : k = k' <;> simp [get?, hk]
      · next h => by_cases hk : k₀ = k' <;> simp [get?, hk, ih]; grind

theorem get?_erase (k k' : κ) (es : List (κ × α)) :
    get? k' (erase k es) = if k = k' then none else get? k' es := by
  induction es with
  | nil => simp [erase, get?]
  | cons hd tl ih =>
    obtain ⟨k₀, v₀⟩ := hd
    unfold erase at ih ⊢
    by_cases h : k₀ = k
    · subst h; by_cases hk : k₀ = k' <;> simp [get?, hk] at ih ⊢ <;> exact ih
    · by_cases hk : k = k'
      · subst hk; simp [get?, h] at ih ⊢; exact ih
      · simp [get?, h, hk] at ih ⊢; rw [ih]

theorem mem_of_get? {k : κ} {v : α} {es : List (κ × α)} (h : get? k es = some v) :
    (k, v) ∈ es := by
  induction es with
  | nil => simp [get?] at h
  | cons hd tl ih =>
    obtain ⟨k', v'⟩ := hd
    rw [get?] at h
    split at h <;> grind

theorem Increasing.erase {es : List (κ × α)} (h : Increasing es) (k : κ) :
    Increasing (erase k es) :=
  List.Pairwise.filter _ h

variable [KeyOrder κ]

theorem Increasing.insert {es : List (κ × α)} (h : Increasing es) (k : κ) (v : α) :
    Increasing (insert k v es) := by
  induction es with
  | nil => exact List.pairwise_singleton _ _
  | cons hd tl ih =>
    obtain ⟨k', v'⟩ := hd
    have hall : ∀ {a : κ × α}, a ∈ tl → k' < a.1 := List.rel_of_pairwise_cons h
    rw [Entries.insert]
    split
    · next hlt =>
      exact List.Pairwise.cons (fun a ha => (List.mem_cons.1 ha).elim (fun e => e ▸ hlt)
        (fun m => KeyOrder.trans hlt (hall m))) h
    · next hlt =>
      split
      · next heq =>
        subst heq
        exact List.Pairwise.cons (fun a ha => hall ha) h.of_cons
      · next hne =>
        have hgt : k' < k := by
          rcases KeyOrder.trichotomy k k' with h' | h' | h'
          · exact absurd h' hlt
          · exact absurd h' hne
          · exact h'
        refine List.Pairwise.cons (fun a ha => ?_) (ih h.of_cons)
        rcases mem_insert ha with rfl | hm
        · exact hgt
        · exact hall hm

theorem get?_eq_some_of_mem {es : List (κ × α)} (h : Increasing es) {k : κ} {v : α}
    (hm : (k, v) ∈ es) : get? k es = some v := by
  induction es with
  | nil => simp at hm
  | cons hd tl ih =>
    obtain ⟨k', v'⟩ := hd
    rcases List.mem_cons.1 hm with heq | hm'
    · cases heq; simp [get?]
    · have hlt : k' < k := List.rel_of_pairwise_cons h hm'
      have hne : k' ≠ k := fun e => KeyOrder.irrefl k (e ▸ hlt)
      rw [get?, if_neg hne]
      exact ih h.of_cons hm'

/-- Increasing entry lists with the same look-ups are equal. -/
theorem Increasing.ext {as bs : List (κ × α)} (ha : Increasing as) (hb : Increasing bs)
    (h : ∀ k, get? k as = get? k bs) : as = bs := by
  induction as generalizing bs with
  | nil =>
    cases bs with
    | nil => rfl
    | cons b bs => have := h b.1; simp [get?] at this
  | cons a as ih =>
    obtain ⟨k, v⟩ := a
    cases bs with
    | nil => have := h k; simp [get?] at this
    | cons b bs =>
      obtain ⟨k', v'⟩ := b
      -- Each first key is one of the other list, so neither is the smaller one.
      have hmem₁ : (k, v) ∈ (k', v') :: bs := mem_of_get? (by rw [← h k]; simp [get?])
      have hmem₂ : (k', v') ∈ (k, v) :: as := mem_of_get? (by rw [h k']; simp [get?])
      have hk : (k, v) = (k', v') := by
        rcases List.mem_cons.1 hmem₁ with e | hm₁
        · exact e
        · rcases List.mem_cons.1 hmem₂ with e | hm₂
          · exact e.symm
          · have h₁ : k' < k := List.rel_of_pairwise_cons hb hm₁
            have h₂ : k < k' := List.rel_of_pairwise_cons ha hm₂
            exact absurd (KeyOrder.trans h₁ h₂) (KeyOrder.irrefl _)
      cases hk
      congr 1
      refine ih ha.of_cons hb.of_cons (fun q => ?_)
      have hq := h q
      by_cases e : k = q
      · subst e
        have none_of : ∀ {l : List (κ × α)}, Increasing ((k, v) :: l) → get? k l = none := by
          intro l hl
          cases hg : get? k l with
          | none => rfl
          | some w =>
            exact absurd (List.rel_of_pairwise_cons hl (mem_of_get? hg)) (KeyOrder.irrefl _)
        rw [none_of ha, none_of hb]
      · simpa [get?, e] using hq

end Entries

/-! ## Maps -/

/-- A finite map whose entries stand in increasing key order. -/
structure SortedMap (κ : Type u) (α : Type v) [LT κ] where
  /-- The entries, smallest key first. -/
  toList : List (κ × α)
  increasing : Entries.Increasing toList

/-- A map from names to values. -/
abbrev NameMap (α : Type v) := SortedMap String α

namespace SortedMap

variable {κ : Type u} {α : Type v} {β : Type w} [LT κ]

instance [DecidableEq κ] [DecidableEq α] : DecidableEq (SortedMap κ α) := fun a b =>
  if h : a.toList = b.toList then isTrue (by cases a; cases b; cases h; rfl)
  else isFalse (fun e => h (e ▸ rfl))

/-- The map without entries. -/
def empty : SortedMap κ α := ⟨[], List.Pairwise.nil⟩

instance : EmptyCollection (SortedMap κ α) := ⟨empty⟩

instance : Inhabited (SortedMap κ α) := ⟨empty⟩

/-- The keys, smallest first. -/
def keys (m : SortedMap κ α) : List κ := m.toList.map (·.1)

/-- The values, in the order of their keys. -/
def values (m : SortedMap κ α) : List α := m.toList.map (·.2)

/-- The number of entries. -/
def size (m : SortedMap κ α) : Nat := m.toList.length

/-- Whether there are no entries. -/
def isEmpty (m : SortedMap κ α) : Bool := m.toList.isEmpty

/-- Applies `f` to every entry's value; the keys stay. -/
def mapWithKey (f : κ → α → β) (m : SortedMap κ α) : SortedMap κ β :=
  ⟨m.toList.map (fun e => (e.1, f e.1 e.2)), by
    have h := m.increasing
    unfold Entries.Increasing at h ⊢
    rw [List.pairwise_map]
    exact h⟩

/-- Applies `f` to every value. -/
def mapValues (f : α → β) (m : SortedMap κ α) : SortedMap κ β := m.mapWithKey (fun _ => f)

/-- Keeps the entries that `p` accepts. -/
def filter (p : κ → α → Bool) (m : SortedMap κ α) : SortedMap κ α :=
  ⟨m.toList.filter (fun e => p e.1 e.2), List.Pairwise.filter _ m.increasing⟩

variable [DecidableLT κ] [DecidableEq κ]

/-- The value under a key. -/
def get? (m : SortedMap κ α) (k : κ) : Option α := Entries.get? k m.toList

/-- Whether a key is present. -/
def contains (m : SortedMap κ α) (k : κ) : Bool := (m.get? k).isSome

/-- Drops a key. -/
def erase (m : SortedMap κ α) (k : κ) : SortedMap κ α :=
  ⟨Entries.erase k m.toList, m.increasing.erase k⟩

@[simp] theorem get?_empty (k : κ) : (empty : SortedMap κ α).get? k = none := rfl

theorem get?_erase (m : SortedMap κ α) (k k' : κ) :
    (m.erase k).get? k' = if k = k' then none else m.get? k' :=
  Entries.get?_erase k k' m.toList

theorem get?_mapWithKey (m : SortedMap κ α) (f : κ → α → β) (k : κ) :
    (m.mapWithKey f).get? k = (m.get? k).map (f k) := by
  obtain ⟨es, hes⟩ := m
  simp only [get?, mapWithKey]
  clear hes
  induction es with
  | nil => rfl
  | cons e es ih =>
    by_cases h : e.1 = k
    · subst h; simp [Entries.get?]
    · simpa [Entries.get?, h] using ih

theorem get?_mapValues (m : SortedMap κ α) (f : α → β) (k : κ) :
    (m.mapValues f).get? k = (m.get? k).map f :=
  get?_mapWithKey m _ k

variable [KeyOrder κ]

/-- Binds a key, over what it was bound to. -/
def insert (m : SortedMap κ α) (k : κ) (v : α) : SortedMap κ α :=
  ⟨Entries.insert k v m.toList, m.increasing.insert k v⟩

/-- The map of a list of bindings, of which the last one for a key counts. -/
def ofList (es : List (κ × α)) : SortedMap κ α :=
  es.foldl (fun m e => m.insert e.1 e.2) empty

theorem get?_insert (m : SortedMap κ α) (k k' : κ) (v : α) :
    (m.insert k v).get? k' = if k = k' then some v else m.get? k' :=
  Entries.get?_insert k k' v m.toList

theorem mem_toList {m : SortedMap κ α} {k : κ} {v : α} :
    (k, v) ∈ m.toList ↔ m.get? k = some v :=
  ⟨Entries.get?_eq_some_of_mem m.increasing, Entries.mem_of_get?⟩

theorem ext {a b : SortedMap κ α} (h : ∀ k, a.get? k = b.get? k) : a = b := by
  have := Entries.Increasing.ext a.increasing b.increasing h
  cases a; cases b; cases this; rfl

theorem mem_keys {m : SortedMap κ α} {k : κ} : k ∈ m.keys ↔ m.contains k := by
  simp only [keys, List.mem_map, contains, Option.isSome_iff_exists]
  constructor
  · rintro ⟨⟨k', v⟩, hm, rfl⟩
    exact ⟨v, mem_toList.1 hm⟩
  · rintro ⟨v, hv⟩
    exact ⟨(k, v), mem_toList.2 hv, rfl⟩

end SortedMap

end BlockFlow
