import BlockFlow.Json.Decoder
import BlockFlow.Proofs.Except

/-!
# What decoders give

`Decoder.Gives` says that whatever a decoder reads has a property. An object gives members with the
property of its values (`Gives.object`), and a record what follows from an invariant of its partial
records (`Record.gives`), since each field keeps it: as a member of an object or in the order of
a list.
-/

namespace BlockFlow

namespace Decoder

variable {α σ : Type}

/-- Whatever a decoder reads has a property. -/
def Gives (decoder : Decoder α) (P : α → Prop) : Prop :=
  ∀ depth cs a rest, decoder depth cs = .ok (a, rest) → P a

theorem Gives.items {item : List Char → Except JsonError (α × List Char)} {P : α → Prop}
    (h : ∀ cs a rest, item cs = .ok (a, rest) → P a) {fuel : Nat} {acc xs : List α}
    {cs rest : List Char} (hacc : ∀ x ∈ acc, P x)
    (hread : items item fuel acc cs = .ok (xs, rest)) : ∀ x ∈ xs, P x := by
  induction fuel generalizing acc cs with
  | zero => cases hread
  | succ fuel ih =>
    rw [Decoder.items] at hread
    split at hread
    · cases hread
    · split at hread
      · obtain ⟨rfl, -⟩ := Prod.mk.inj (Except.ok.inj hread)
        simpa using hacc
      · cases hread
    · split at hread
      · cases hread
      · next v r hv => exact ih (List.forall_mem_cons.2 ⟨h _ _ _ hv, hacc⟩) hread

theorem Gives.members {value : List Char → Except JsonError (α × List Char)} {P : α → Prop}
    (h : ∀ cs a rest, value cs = .ok (a, rest) → P a) {fuel : Nat} {acc ms : List (String × α)}
    {cs rest : List Char} (hacc : ∀ m ∈ acc, P m.2)
    (hread : members value fuel acc cs = .ok (ms, rest)) : ∀ m ∈ ms, P m.2 := by
  induction fuel generalizing acc cs with
  | zero => cases hread
  | succ fuel ih =>
    rw [Decoder.members] at hread
    split at hread
    · cases hread
    · split at hread
      · obtain ⟨rfl, -⟩ := Prod.mk.inj (Except.ok.inj hread)
        simpa using hacc
      · cases hread
    · split at hread
      · cases hread
      · next m r hm =>
        -- The members so far, and the one that is read now.
        refine ih (List.forall_mem_cons.2 ⟨?_, hacc⟩) hread
        obtain ⟨⟨name, r₁⟩, -, hm⟩ := exists_of_bind_ok hm
        obtain ⟨r₂, -, hm⟩ := exists_of_bind_ok hm
        obtain ⟨⟨v, r₃⟩, hv, hm⟩ := exists_of_bind_ok hm
        obtain ⟨rfl, -⟩ := Prod.mk.inj (Except.ok.inj hm)
        exact h _ _ _ hv

theorem Gives.object {value : Decoder α} {P : α → Prop} (h : Gives value P) :
    Gives (object value) fun ms => ∀ m ∈ ms, P m.2 := by
  intro depth cs ms rest hread
  rw [Decoder.object] at hread
  split at hread
  · cases hread
  · split at hread
    · split at hread
      · cases hread
      · exact Gives.members (h _) (by simp) hread
    · cases hread

/-! ## Records -/

/-- A property of partial records that reading a field keeps. -/
def Record.Keeps (r : Record σ α) (Q : σ → Prop) : Prop :=
  ∀ f ∈ r.fields, ∀ s, Q s → Gives (f.read s) Q

namespace Record.Keeps

variable {r : Record σ α} {Q : σ → Prop} {s s' : σ} {cs rest : List Char}

theorem member (h : r.Keeps Q) (hs : Q s) {depth : Nat} {name : String}
    (hread : r.member depth name s cs = .ok (s', rest)) : Q s' := by
  rw [Record.member] at hread
  split at hread
  · next f hf =>
    split at hread
    · cases hread
    · obtain ⟨r₁, -, hread⟩ := exists_of_bind_ok hread
      exact h f (List.mem_of_find?_eq_some hf) s hs _ _ _ _ hread
  · -- An unknown field leaves the record as it is.
    obtain ⟨r₁, -, hread⟩ := exists_of_bind_ok hread
    obtain ⟨r₂, -, hread⟩ := exists_of_bind_ok hread
    obtain ⟨rfl, -⟩ := Prod.mk.inj (Except.ok.inj hread)
    exact hs

theorem members (h : r.Keeps Q) (hs : Q s) {depth fuel : Nat} {first : Bool}
    (hread : r.members depth fuel first s cs = .ok (s', rest)) : Q s' := by
  induction fuel generalizing first s cs with
  | zero => cases hread
  | succ fuel ih =>
    rw [Record.members] at hread
    split at hread
    · cases hread
    · split at hread
      · obtain ⟨rfl, -⟩ := Prod.mk.inj (Except.ok.inj hread)
        exact hs
      · cases hread
    · split at hread
      · cases hread
      · next s₁ r₁ hs₁ =>
        obtain ⟨⟨name, r₂⟩, -, hs₁⟩ := exists_of_bind_ok hs₁
        exact ih (h.member hs hs₁) hread

theorem inOrder (h : r.Keeps Q) (hs : Q s) {depth index : Nat} {fields : List (Field σ)}
    (hfields : ∀ f ∈ fields, f ∈ r.fields)
    (hread : r.inOrder depth fields index s cs = .ok (s', rest)) : Q s' := by
  induction fields generalizing index s cs with
  | nil =>
    obtain ⟨rfl, -⟩ := Prod.mk.inj (Except.ok.inj hread)
    exact hs
  | cons f fields ih =>
    have hfields := List.forall_mem_cons.1 hfields
    rw [Record.inOrder] at hread
    split at hread
    · cases hread
    · split at hread
      · cases hread
      · -- The list is over before the field, which may be left out.
        exact ih hs hfields.2 hread
    · split at hread
      · cases hread
      · next s₁ r₁ hs₁ => exact ih (h f hfields.1 s hs _ _ _ _ hs₁) hfields.2 hread

/-- A record is finished from a partial one with the property. -/
theorem gives (h : r.Keeps Q) (hstart : Q r.start) {P : α → Prop}
    (hfinish : ∀ s a, Q s → r.finish s = .ok a → P a) : Gives r.decoder P := by
  intro depth cs a rest hread
  -- Whichever form the record has, its end is checked after its fields have been filled.
  rw [Record.decoder] at hread
  split at hread
  · cases hread
  · split at hread
    · split at hread
      · cases hread
      · obtain ⟨⟨s, r₁⟩, hs, hread⟩ := exists_of_bind_ok hread
        obtain ⟨b, hb, hread⟩ := exists_of_bind_ok hread
        obtain ⟨rfl, -⟩ := Prod.mk.inj (Except.ok.inj hread)
        exact hfinish s b (h.members hstart hs) hb
    · split at hread
      · split at hread
        · cases hread
        · obtain ⟨⟨s, r₁⟩, hs, hread⟩ := exists_of_bind_ok hread
          obtain ⟨b, hb, hread⟩ := exists_of_bind_ok hread
          obtain ⟨r₂, -, hread⟩ := exists_of_bind_ok hread
          obtain ⟨rfl, -⟩ := Prod.mk.inj (Except.ok.inj hread)
          exact hfinish s b (h.inOrder hstart (fun _ hf => hf) hs) hb
      · cases hread

end Record.Keeps

/-- What a whole text holds is what its decoder gives. -/
theorem Gives.run {decoder : Decoder α} {P : α → Prop} (h : Gives decoder P) {s : String} {a : α}
    (hread : run decoder s = .ok a) : P a := by
  obtain ⟨⟨b, rest⟩, hb, hread⟩ := exists_of_bind_ok hread
  simp only at hread
  split at hread
  · obtain rfl := Except.ok.inj hread
    exact h _ _ _ _ hb
  · cases hread

end Decoder

end BlockFlow
