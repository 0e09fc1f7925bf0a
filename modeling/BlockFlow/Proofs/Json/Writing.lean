import BlockFlow.Proofs.Json.Skipping
import BlockFlow.SortedMap

/-!
# Compact texts and canonical values

The compact text of a value is a whole one (`whole_chars`): wherever a value is due, a run that
skips it comes over this text. A text is whole if the texts in its brackets are
(`whole_arrayChars`, `whole_objectChars`), so this goes by induction on the value
(`Json.induction`).

To make a value canonical a second time changes nothing (`canonical_canonical`): its objects are
sorted by then, and sorted members are put in where they stand.

## Key results

- `isRaw_chars`: the compact text of a value is a raw value
- `canonical_canonical`: a canonical value is its own canonical form
-/

namespace BlockFlow.Json

/-- Induction on a value, by the items of lists and the members of objects. -/
theorem induction {P : Json → Prop} (null : P .null) (bool : ∀ b, P (.bool b))
    (num : ∀ n, P (.num n)) (str : ∀ s, P (.str s))
    (arr : ∀ items, (∀ v ∈ items, P v) → P (.arr items))
    (obj : ∀ members, (∀ m ∈ members, P m.2) → P (.obj members)) (v : Json) : P v := by
  refine @Json.rec P (fun items => ∀ v ∈ items, P v) (fun members => ∀ m ∈ members, P m.2)
    (fun m => P m.2) null bool num str arr obj ?_ ?_ ?_ ?_ ?_ v
  · simp
  · intro v vs hv hvs
    exact List.forall_mem_cons.2 ⟨hv, hvs⟩
  · simp
  · intro m ms hm hms
    exact List.forall_mem_cons.2 ⟨hm, hms⟩
  · intro k v hv
    exact hv

/-! ## Parts of a value -/

/-- A value that stands somewhere in another one. -/
inductive IsPart (w : Json) : Json → Prop
  | whole : IsPart w w
  | item {v : Json} {items : List Json} (hv : v ∈ items) (h : IsPart w v) : IsPart w (.arr items)
  | member {m : String × Json} {members : List (String × Json)} (hm : m ∈ members)
      (h : IsPart w m.2) : IsPart w (.obj members)

section

variable {w : Json}

@[simp] theorem isPart_null : IsPart w .null ↔ w = .null :=
  ⟨fun h => by cases h; rfl, fun h => h ▸ .whole⟩

@[simp] theorem isPart_bool {b : Bool} : IsPart w (.bool b) ↔ w = .bool b :=
  ⟨fun h => by cases h; rfl, fun h => h ▸ .whole⟩

@[simp] theorem isPart_num {n : Number} : IsPart w (.num n) ↔ w = .num n :=
  ⟨fun h => by cases h; rfl, fun h => h ▸ .whole⟩

@[simp] theorem isPart_str {s : String} : IsPart w (.str s) ↔ w = .str s :=
  ⟨fun h => by cases h; rfl, fun h => h ▸ .whole⟩

@[simp] theorem isPart_arr {items : List Json} :
    IsPart w (.arr items) ↔ w = .arr items ∨ ∃ v ∈ items, IsPart w v := by
  constructor
  · rintro (_ | ⟨hv, h⟩)
    · exact .inl rfl
    · exact .inr ⟨_, hv, h⟩
  · rintro (rfl | ⟨v, hv, h⟩)
    · exact .whole
    · exact .item hv h

@[simp] theorem isPart_obj {members : List (String × Json)} :
    IsPart w (.obj members) ↔ w = .obj members ∨ ∃ m ∈ members, IsPart w m.2 := by
  constructor
  · rintro (_ | _ | ⟨hm, h⟩)
    · exact .inl rfl
    · exact .inr ⟨_, hm, h⟩
  · rintro (rfl | ⟨m, hm, h⟩)
    · exact .whole
    · exact .member hm h

end

/-- A value in which every number is an integer of 64 bits. -/
def Integral (v : Json) : Prop := ∀ n, IsPart (.num n) v → ∃ i, n = .int i ∧ IsWord i

mutual

/-- How deep containers nest in a value. -/
def nesting : Json → Nat
  | .arr items => itemNesting items + 1
  | .obj members => memberNesting members + 1
  | _ => 0

/-- How deep containers nest in the items of a list. -/
def itemNesting : List Json → Nat
  | [] => 0
  | v :: vs => max (nesting v) (itemNesting vs)

/-- How deep containers nest in the members of an object. -/
def memberNesting : List (String × Json) → Nat
  | [] => 0
  | (_, v) :: ms => max (nesting v) (memberNesting ms)

end

theorem nesting_le_itemNesting {v : Json} {vs : List Json} (h : v ∈ vs) :
    v.nesting ≤ itemNesting vs := by
  induction vs with
  | nil => cases h
  | cons w ws ih =>
    rw [itemNesting]
    obtain rfl | h := List.mem_cons.1 h
    · exact Nat.le_max_left _ _
    · exact (ih h).trans (Nat.le_max_right _ _)

theorem itemNesting_le {vs : List Json} {depth : Nat} (h : ∀ v ∈ vs, v.nesting ≤ depth) :
    itemNesting vs ≤ depth := by
  induction vs with
  | nil => exact Nat.zero_le _
  | cons v vs ih =>
    have h := List.forall_mem_cons.1 h
    exact Nat.max_le.2 ⟨h.1, ih h.2⟩

theorem nesting_le_memberNesting {m : String × Json} {ms : List (String × Json)} (h : m ∈ ms) :
    m.2.nesting ≤ memberNesting ms := by
  induction ms with
  | nil => cases h
  | cons e es ih =>
    rw [memberNesting]
    obtain rfl | h := List.mem_cons.1 h
    · exact Nat.le_max_left _ _
    · exact (ih h).trans (Nat.le_max_right _ _)

theorem memberNesting_le {ms : List (String × Json)} {depth : Nat}
    (h : ∀ m ∈ ms, m.2.nesting ≤ depth) : memberNesting ms ≤ depth := by
  induction ms with
  | nil => exact Nat.zero_le _
  | cons m ms ih =>
    have h := List.forall_mem_cons.1 h
    exact Nat.max_le.2 ⟨h.1, ih h.2⟩

/-! ## Texts with separators -/

theorem itemChars_eq (vs : List Json) : itemChars vs = vs.map chars := by
  induction vs with
  | nil => rfl
  | cons v vs ih => rw [itemChars, ih, List.map_cons]

theorem memberChars_eq (ms : List (String × Json)) :
    memberChars ms = ms.map fun m => (m.1, m.2.chars) := by
  induction ms with
  | nil => rfl
  | cons m ms ih => rw [memberChars, ih, List.map_cons]

/-- Texts with a comma in front of each, but not of the very first one. -/
def joined : Bool → List (List Char) → List Char
  | _, [] => []
  | true, t :: ts => t ++ joined false ts
  | false, t :: ts => ',' :: (t ++ joined false ts)

@[simp] theorem joined_nil (first : Bool) : joined first [] = [] := by cases first <;> rfl

theorem separated_eq (ts : List (List Char)) : separated [','] ts = joined true ts := by
  cases ts with
  | nil => rfl
  | cons t ts =>
    induction ts generalizing t with
    | nil => simp [separated, joined]
    | cons u us ih => simpa [separated, joined] using ih u

/-! ## Whole texts -/

/-- A text that a skipping run comes over wherever a value is due. -/
def Whole (t : List Char) : Prop :=
  ∀ stack rest, RestText .filled stack rest → RestText .value stack (t ++ rest)

theorem ScalarText.whole {t : List Char} (h : ScalarText t) : Whole t :=
  fun _ _ hrest => .round (.scalar h) hrest

/-- Whether the first item or member is due, or what follows one. -/
def SkipState.within (first : Bool) : SkipState := if first then .opened else .filled

theorem SkipState.within_ne_value (first : Bool) : SkipState.within first ≠ .value := by
  cases first <;> simp [SkipState.within]

/-- A text that a skipping run comes over wherever a value is due in a container. -/
def Inner (t : List Char) : Prop :=
  ∀ frame stack rest, RestText .filled (frame :: stack) rest →
    RestText .value (frame :: stack) (t ++ rest)

theorem Whole.inner {t : List Char} (h : Whole t) : Inner t := fun _ _ => h _

/-- A run comes over the items of a list. -/
theorem restText_items {ts : List (List Char)} (h : ∀ t ∈ ts, Inner t) {stack : List Frame}
    {rest : List Char} (hrest : RestText .filled stack rest) (first : Bool) :
    RestText (.within first) (.list :: stack) (joined first ts ++ ']' :: rest) := by
  induction ts generalizing first with
  | nil =>
    rw [joined_nil]
    exact RestText.round (s := [']']) (.leave .list (SkipState.within_ne_value first)) hrest
  | cons t ts ih =>
    have h := List.forall_mem_cons.1 h
    have ht := h.1 _ _ _ (ih h.2 false)
    cases first with
    | true => simpa [joined, SkipState.within] using RestText.round .item ht
    | false => simpa [joined, SkipState.within] using RestText.round .nextItem ht

/-- A run comes over the members of an object. -/
theorem restText_members {ms : List (List Char × List Char)}
    (h : ∀ m ∈ ms, KeyText m.1 ∧ Inner m.2) {stack : List Frame} {rest : List Char}
    (hrest : RestText .filled stack rest) (first : Bool) :
    RestText (.within first) (.object :: stack)
      (joined first (ms.map fun m => m.1 ++ m.2) ++ '}' :: rest) := by
  induction ms generalizing first with
  | nil =>
    rw [List.map_nil, joined_nil]
    exact RestText.round (s := ['}']) (.leave .object (SkipState.within_ne_value first)) hrest
  | cons m ms ih =>
    obtain ⟨⟨hkey, hvalue⟩, hms⟩ := List.forall_mem_cons.1 h
    have hm := hvalue _ _ _ (ih hms false)
    cases first with
    | true => simpa [joined, SkipState.within] using RestText.round (.member hkey) hm
    | false => simpa [joined, SkipState.within] using RestText.round (.nextMember hkey) hm

theorem whole_arrayChars {ts : List (List Char)} (h : ∀ t ∈ ts, Whole t) :
    Whole (arrayChars ts) := by
  intro stack rest hrest
  have hitems := restText_items (fun t ht => (h t ht).inner) hrest true
  have henter := RestText.round (.enter .list) hitems
  simpa [arrayChars, separated_eq, Frame.opening] using henter

theorem keyText_quoteChars (name : String) : KeyText (quoteChars name ++ [':']) := by
  have h := @KeyText.mk [] _ [] (by simp) (stringText_escape name) (by simp)
  simpa [quoteChars] using h

theorem whole_objectChars {ms : List (String × List Char)} (h : ∀ m ∈ ms, Whole m.2) :
    Whole (objectChars ms) := by
  intro stack rest hrest
  have hparts : ∀ p ∈ ms.map fun m => (quoteChars m.1 ++ [':'], m.2), KeyText p.1 ∧ Inner p.2 := by
    intro p hp
    obtain ⟨e, he, rfl⟩ := List.mem_map.1 hp
    exact ⟨keyText_quoteChars e.1, (h e he).inner⟩
  have henter := RestText.round (.enter .object) (restText_members hparts hrest true)
  simpa [objectChars, separated_eq, Frame.opening, Function.comp_def] using henter

theorem whole_chars (v : Json) : Whole v.chars := by
  induction v using Json.induction with
  | null => exact ScalarText.null.whole
  | bool b =>
    cases b with
    | false => exact ScalarText.false.whole
    | true => exact ScalarText.true.whole
  | num n => exact (ScalarText.number (numberText_chars n)).whole
  | str s => exact (ScalarText.string (stringText_escape s)).whole
  | arr items ih =>
    rw [chars, itemChars_eq]
    apply whole_arrayChars
    intro t ht
    obtain ⟨v, hv, rfl⟩ := List.mem_map.1 ht
    exact ih v hv
  | obj members ih =>
    rw [chars, memberChars_eq]
    apply whole_objectChars
    intro m hm
    obtain ⟨e, he, rfl⟩ := List.mem_map.1 hm
    exact ih e he

theorem fronted_quoteChars (s : String) : Fronted (quoteChars s) := ⟨'"', _, rfl, by decide⟩

theorem fronted_arrayChars (ts : List (List Char)) : Fronted (arrayChars ts) :=
  ⟨'[', _, rfl, by decide⟩

theorem fronted_objectChars (ms : List (String × List Char)) : Fronted (objectChars ms) :=
  ⟨'{', _, rfl, by decide⟩

theorem fronted_chars (v : Json) : Fronted v.chars := by
  cases v with
  | null => exact ScalarText.null.opens.fronted
  | bool b =>
    cases b with
    | false => exact ScalarText.false.opens.fronted
    | true => exact ScalarText.true.opens.fronted
  | num n => exact (numberText_chars n).opens.fronted
  | str s => exact fronted_quoteChars s
  | arr items => exact fronted_arrayChars _
  | obj members => exact fronted_objectChars _

/-- The compact text of a value is a raw value. -/
theorem isRaw_chars (v : Json) : IsRaw v.chars := by
  have h := whole_chars v [] [] (.done (by simp))
  rw [List.append_nil] at h
  exact ⟨fronted_chars v, h⟩

/-! ## Canonical values -/

theorem canonicalItems_eq (vs : List Json) : canonicalItems vs = vs.map canonical := by
  induction vs with
  | nil => rfl
  | cons v vs ih => rw [canonicalItems, ih, List.map_cons]

theorem mem_addMember {k : String} {v : Json} {m : String × Json} {ms : List (String × Json)}
    (h : m ∈ addMember k v ms) : m = (k, v) ∨ m ∈ ms := by
  induction ms with
  | nil => simpa [addMember] using h
  | cons e ms ih =>
    rw [addMember] at h
    -- The member goes in front of a greater name, and is dropped for one of the same name.
    split at h
    · simpa using h
    · split at h
      · exact .inr h
      · obtain rfl | h := List.mem_cons.1 h
        · simp
        · obtain h | h := ih h
          · exact .inl h
          · exact .inr (List.mem_cons_of_mem _ h)

theorem increasing_addMember {k : String} {v : Json} {ms : List (String × Json)}
    (h : Entries.Increasing ms) : Entries.Increasing (addMember k v ms) := by
  induction ms with
  | nil => exact List.pairwise_singleton _ _
  | cons e ms ih =>
    have hall : ∀ {m}, m ∈ ms → e.1 < m.1 := List.rel_of_pairwise_cons h
    rw [addMember]
    -- The new member goes in front of the first one with a greater name, or in the place of an
    -- equal one.
    split
    · next hlt =>
      refine List.Pairwise.cons (fun m hm => ?_) h
      obtain rfl | hm := List.mem_cons.1 hm
      · exact hlt
      · exact KeyOrder.trans hlt (hall hm)
    split
    · exact h
    · next hlt hne =>
      have hgt : e.1 < k := by
        obtain h | h | h := KeyOrder.trichotomy k e.1
        · exact absurd h hlt
        · exact absurd h hne
        · exact h
      refine List.Pairwise.cons (fun m hm => ?_) (ih h.of_cons)
      obtain rfl | hm := mem_addMember hm
      · exact hgt
      · exact hall hm

/-- The members of a canonical object are sorted, and come from those of the object. -/
theorem increasing_canonicalMembers (ms : List (String × Json)) :
    Entries.Increasing (canonicalMembers ms) := by
  induction ms with
  | nil => exact List.Pairwise.nil
  | cons m ms ih => exact increasing_addMember ih

theorem exists_of_mem_canonicalMembers {ms : List (String × Json)} {m : String × Json}
    (h : m ∈ canonicalMembers ms) : ∃ e ∈ ms, m = (e.1, e.2.canonical) := by
  induction ms with
  | nil => cases h
  | cons e ms ih =>
    obtain rfl | h := mem_addMember h
    · exact ⟨e, by simp, rfl⟩
    · obtain ⟨e', he', hm⟩ := ih h
      exact ⟨e', List.mem_cons_of_mem _ he', hm⟩

/-- Sorted members are put in where they stand. -/
theorem canonicalMembers_of_increasing {ms : List (String × Json)} (h : Entries.Increasing ms)
    (hfixed : ∀ m ∈ ms, m.2.canonical = m.2) : canonicalMembers ms = ms := by
  induction ms with
  | nil => rfl
  | cons m ms ih =>
    have hms := List.forall_mem_cons.1 hfixed
    rw [canonicalMembers, ih h.of_cons hms.2, hms.1]
    cases ms with
    | nil => rfl
    | cons e ms =>
      have hlt : m.1 < e.1 := List.rel_of_pairwise_cons h (by simp)
      simp [addMember, hlt]

/-- Members are put in one after the other, each in canonical form. -/
theorem canonicalMembers_eq (ms : List (String × Json)) : canonicalMembers ms =
    (ms.map fun m => (m.1, m.2.canonical)).foldr (fun m ms => addMember m.1 m.2 ms) [] := by
  induction ms with
  | nil => rfl
  | cons m ms ih => rw [canonicalMembers, ih, List.map_cons, List.foldr_cons]

theorem perm_addMember {k : String} (v : Json) {ms : List (String × Json)}
    (hk : k ∉ ms.map (·.1)) : (addMember k v ms).Perm ((k, v) :: ms) := by
  induction ms with
  | nil => exact .refl _
  | cons m ms ih =>
    rw [List.map_cons, List.mem_cons, not_or] at hk
    rw [addMember, if_neg hk.1]
    split
    · exact .refl _
    · exact ((ih hk.2).cons m).trans (.swap _ _ _)

/-- With distinct names, a canonical object has all members of the object. -/
theorem perm_canonicalMembers {ms : List (String × Json)} (hms : (ms.map (·.1)).Nodup) :
    (canonicalMembers ms).Perm (ms.map fun m => (m.1, m.2.canonical)) := by
  induction ms with
  | nil => exact .refl _
  | cons m ms ih =>
    rw [List.map_cons, List.nodup_cons] at hms
    have hperm := ih hms.2
    have hname : m.1 ∉ (canonicalMembers ms).map (·.1) := by
      rw [(hperm.map _).mem_iff, List.map_map]
      exact hms.1
    exact (perm_addMember _ hname).trans (hperm.cons _)

/-- With distinct names, the order of the members does not matter. -/
theorem canonicalMembers_perm {ms ms' : List (String × Json)} (hperm : ms.Perm ms')
    (hms : (ms.map (·.1)).Nodup) : canonicalMembers ms = canonicalMembers ms' := by
  have hms' : (ms'.map (·.1)).Nodup := (hperm.map _).nodup_iff.1 hms
  refine List.Perm.eq_of_pairwise ?_ (increasing_canonicalMembers ms)
    (increasing_canonicalMembers ms')
    (((perm_canonicalMembers hms).trans (hperm.map _)).trans (perm_canonicalMembers hms').symm)
  intro m m' _ _ hlt hgt
  exact absurd (KeyOrder.trans hlt hgt) (KeyOrder.irrefl _)

/-- A canonical value is its own canonical form. -/
theorem canonical_canonical (v : Json) : v.canonical.canonical = v.canonical := by
  induction v using Json.induction with
  | null => rfl
  | bool b => rfl
  | num n => rfl
  | str s => rfl
  | arr items ih =>
    simp only [canonical, canonicalItems_eq, List.map_map]
    congr 1
    exact List.map_congr_left ih
  | obj members ih =>
    simp only [canonical]
    congr 1
    -- The names are sorted by now, so that nothing moves any more.
    refine canonicalMembers_of_increasing (increasing_canonicalMembers members) fun m hm => ?_
    obtain ⟨e, he, rfl⟩ := exists_of_mem_canonicalMembers hm
    exact ih e he

end BlockFlow.Json
