import BlockFlow.Proofs.Json.Outcomes
import BlockFlow.Proofs.Json.Reading

/-!
# Values that announce no embedded text

An object whose first name is the announcing one is not taken as it is written, so that no value
that is read begins so (`gives_value`), nor does an embedded one. To sort the members of an object
may bring the announcing one to the front, but never makes it the only one
(`Unreserved.canonical`).

## Key results

- `gives_value`: no object of a value that was read begins with the announcing name
- `Unreserved.canonical`: nor does one of its canonical form consist of that member only
-/

namespace BlockFlow.Decoder

open Json

/-- A value in which no object consists of the announcing member only. -/
def Unembedded (v : Json) : Prop := ∀ w, ¬IsPart (.obj [(embeddedName, w)]) v

/-! ## What is read -/

/-- What was read first stays first. -/
theorem prefix_of_members {α : Type} {value : List Char → Except JsonError (α × List Char)}
    {fuel : Nat} {acc ms : List (String × α)} {cs rest : List Char}
    (h : members value fuel acc cs = .ok (ms, rest)) : acc.reverse <+: ms := by
  induction fuel generalizing acc cs with
  | zero => cases h
  | succ fuel ih =>
    rw [members] at h
    split at h
    · cases h
    · split at h
      · obtain ⟨rfl, -⟩ := Prod.mk.inj (Except.ok.inj h)
        exact List.prefix_refl _
      · cases h
    · split at h
      · cases h
      · next m r hm =>
        -- A member read is kept in front of those that follow.
        have hprefix := ih h
        rw [List.reverse_cons] at hprefix
        exact (List.prefix_append _ _).trans hprefix

/-- An object that was taken as it is written does not begin with the announcing name. -/
theorem not_startsReserved {value : List Char → Except JsonError (Json × List Char)}
    {fuel : Nat} {cs rest : List Char} {ms : List (String × Json)} (h : embedded? cs = none)
    (hread : members value fuel [] cs = .ok (ms, rest)) : ¬StartsReserved ms := by
  rintro ⟨w, ms, rfl⟩
  cases fuel with
  | zero => cases hread
  | succ fuel =>
    rw [members, List.isEmpty_nil] at hread
    rw [embedded?] at h
    cases hnext : nextName true cs with
    | error e => simp [hnext] at hread
    | ok next =>
      cases next with
      | none =>
        simp only [hnext] at hread
        split at hread <;> cases hread
      | some cs' =>
        simp only [hnext] at hread h
        split at hread
        · cases hread
        · next m r hm =>
          obtain ⟨⟨name, r₁⟩, hname, hm⟩ := exists_of_bind_ok hm
          obtain ⟨r₂, -, hm⟩ := exists_of_bind_ok hm
          obtain ⟨⟨v, r₃⟩, -, hm⟩ := exists_of_bind_ok hm
          obtain ⟨rfl, -⟩ := Prod.mk.inj (Except.ok.inj hm)
          -- The first member that was read is the first one of all.
          obtain ⟨ms', hms'⟩ := prefix_of_members hread
          obtain ⟨hfirst, -⟩ := List.cons.inj hms'
          obtain ⟨rfl, -⟩ := Prod.mk.inj hfirst
          simp [hname] at h

theorem gives_valueWith {value : String → Except JsonError Json}
    (h : ∀ s v, value s = .ok v → Unreserved v) : Gives (valueWith (some value)) Unreserved := by
  intro depth
  induction depth using Nat.strongRecOn with
  | ind depth ih =>
    intro cs v rest hread
    rw [valueWith.eq_def] at hread
    split at hread
    · cases hread
    split at hread
    · obtain ⟨r, -, hread⟩ := exists_of_bind_ok hread
      obtain ⟨rfl, -⟩ := Prod.mk.inj (Except.ok.inj hread)
      exact unreserved_of_nesting_eq_zero rfl
    split at hread
    · obtain ⟨r, -, hread⟩ := exists_of_bind_ok hread
      obtain ⟨rfl, -⟩ := Prod.mk.inj (Except.ok.inj hread)
      exact unreserved_of_nesting_eq_zero rfl
    split at hread
    · obtain ⟨r, -, hread⟩ := exists_of_bind_ok hread
      obtain ⟨rfl, -⟩ := Prod.mk.inj (Except.ok.inj hread)
      exact unreserved_of_nesting_eq_zero rfl
    split at hread
    · obtain ⟨⟨n, r⟩, -, hread⟩ := exists_of_bind_ok hread
      obtain ⟨rfl, -⟩ := Prod.mk.inj (Except.ok.inj hread)
      exact unreserved_of_nesting_eq_zero rfl
    split at hread
    · obtain ⟨⟨s, r⟩, -, hread⟩ := exists_of_bind_ok hread
      obtain ⟨rfl, -⟩ := Prod.mk.inj (Except.ok.inj hread)
      exact unreserved_of_nesting_eq_zero rfl
    split at hread
    · -- A list, whose items are read one level deeper.
      split at hread
      · cases hread
      · next depth =>
        obtain ⟨⟨vs, r⟩, hvs, hread⟩ := exists_of_bind_ok hread
        obtain ⟨rfl, -⟩ := Prod.mk.inj (Except.ok.inj hread)
        have hitems := Gives.items (ih depth (Nat.lt_succ_self depth)) (by simp) hvs
        rintro members (_ | ⟨hv, hm⟩)
        exact hitems _ hv members hm
    split at hread
    · split at hread
      · cases hread
      · next depth =>
        split at hread
        · next value' r' hvalue hembedded =>
          -- The value of an embedded text stands in the place of the object.
          obtain rfl := Option.some.inj hvalue
          obtain ⟨r₁, -, hread⟩ := exists_of_bind_ok hread
          obtain ⟨⟨s, r₂⟩, -, hread⟩ := exists_of_bind_ok hread
          obtain ⟨w, hw, hread⟩ := exists_of_bind_ok hread
          obtain ⟨r₃, -, hread⟩ := exists_of_bind_ok hread
          obtain ⟨rfl, -⟩ := Prod.mk.inj (Except.ok.inj hread)
          exact h s w hw
        · next hnone =>
          obtain ⟨⟨ms, r₁⟩, hms, hread⟩ := exists_of_bind_ok hread
          obtain ⟨rfl, -⟩ := Prod.mk.inj (Except.ok.inj hread)
          have hmembers := Gives.members (ih depth (Nat.lt_succ_self depth)) (by simp) hms
          rintro members (_ | _ | ⟨hm, hpart⟩)
          · refine not_startsReserved ?_ hms
            exact Option.eq_none_iff_forall_ne_some.2 fun r' hr' => hnone value r' rfl hr'
          · exact hmembers _ hm members hpart
    · cases hread

/-- No value that is read announces an embedded text, nor does one that was embedded. -/
theorem gives_value : Gives value Unreserved := by
  have hembedded : ∀ levels s v, embeddedValue levels s = .ok v → Unreserved v := by
    -- The texts inside are values again, each with one level less.
    intro levels
    induction levels with
    | zero => intro s v h; cases h
    | succ levels ih =>
      intro s v h
      rw [embeddedValue] at h
      split at h
      · next w hw =>
        obtain rfl := Except.ok.inj h
        exact (gives_valueWith ih).run hw
      · cases h
  exact gives_valueWith fun s v h => hembedded _ s v h

/-! ## Canonical values -/

theorem mem_names_addMember {k x : String} {v : Json} {ms : List (String × Json)} :
    x ∈ (addMember k v ms).map (·.1) ↔ x = k ∨ x ∈ ms.map (·.1) := by
  induction ms with
  | nil => simp [addMember]
  | cons m ms ih =>
    rw [addMember]
    split
    · simp
    split
    · next hk => simp [hk]
    · rw [List.map_cons, List.map_cons, List.mem_cons, List.mem_cons, ih]
      simp only
      tauto

/-- Every name of an object is one of its canonical form. -/
theorem name_mem_canonicalMembers {ms : List (String × Json)} {m : String × Json} (h : m ∈ ms) :
    m.1 ∈ (canonicalMembers ms).map (·.1) := by
  induction ms with
  | nil => cases h
  | cons e ms ih =>
    rw [canonicalMembers, mem_names_addMember]
    obtain rfl | h := List.mem_cons.1 h
    · exact .inl rfl
    · exact .inr (ih h)

theorem exists_of_isPart_canonical {v : Json} {members : List (String × Json)}
    (h : IsPart (.obj members) v.canonical) :
    ∃ ms, IsPart (.obj ms) v ∧ members = canonicalMembers ms := by
  induction v using Json.induction with
  | null => cases h
  | bool b => cases h
  | num n => cases h
  | str s => cases h
  -- To make a value canonical reorders members, and neither adds nor drops a part of an array.
  | arr items ih =>
    rw [canonical, canonicalItems_eq] at h
    obtain _ | ⟨hv, h⟩ := h
    obtain ⟨u, hu, rfl⟩ := List.mem_map.1 hv
    obtain ⟨ms, hms, hmembers⟩ := ih u hu h
    exact ⟨ms, .item hu hms, hmembers⟩
  | obj ms ih =>
    rw [canonical] at h
    obtain _ | _ | ⟨hm, h⟩ := h
    · exact ⟨ms, .whole, rfl⟩
    · obtain ⟨e, he, rfl⟩ := exists_of_mem_canonicalMembers hm
      obtain ⟨ms', hms', hmembers⟩ := ih e he h
      exact ⟨ms', .member he hms', hmembers⟩

/-- To sort the members of an object leaves it with more than the announcing one. -/
theorem Unreserved.canonical {v : Json} (h : Unreserved v) : Unembedded v.canonical := by
  intro w hw
  obtain ⟨ms, hms, hsorted⟩ := exists_of_isPart_canonical hw
  cases ms with
  | nil => cases hsorted
  | cons m ms =>
    have hname := name_mem_canonicalMembers (List.mem_cons_self (a := m) (l := ms))
    rw [← hsorted] at hname
    refine h _ hms ⟨m.2, ms, ?_⟩
    simp only [List.map_cons, List.map_nil, List.mem_singleton] at hname
    rw [← hname]

end BlockFlow.Decoder
