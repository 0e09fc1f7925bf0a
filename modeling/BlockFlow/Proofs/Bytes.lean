import Mathlib.Tactic.SplitIfs
import BlockFlow.SortedMap

/-!
# The order of texts and of their bytes

Texts are ordered by their characters, from the first in which they differ. In UTF-8 a greater
character has greater bytes, from the first in which they differ, so this is also the order of the
bytes of texts (`bytes_lt_bytes_iff`).
-/

namespace BlockFlow

/-- The bytes of a text. -/
def bytes (s : String) : List UInt8 := s.toUTF8.data.toList

theorem bytes_eq (s : String) : bytes s = s.toList.flatMap String.utf8EncodeChar := by
  rw [bytes, String.toUTF8, ← String.utf8Encode_toList, List.utf8Encode, List.data_toByteArray]

theorem ofNat_eq_ofNat {m n : Nat} (hm : m < UInt8.size) (hn : n < UInt8.size) :
    UInt8.ofNat m = UInt8.ofNat n ↔ m = n := by
  rw [← UInt8.toNat_inj, UInt8.toNat_ofNat', UInt8.toNat_ofNat', Nat.mod_eq_of_lt hm,
    Nat.mod_eq_of_lt hn]

/-- The bytes of a greater character are greater, whatever follows. -/
theorem utf8EncodeChar_lt {c d : Char} (h : c < d) (us vs : List UInt8) :
    String.utf8EncodeChar c ++ us < String.utf8EncodeChar d ++ vs := by
  have hlt : c.val.toNat < d.val.toNat := h
  have hmax : d.val.toNat < 0x110000 := by
    obtain h | h := d.valid
    · exact Nat.lt_trans h (by decide)
    · exact h.2
  have hdigits : ∀ k, k / 4096 = k / 64 / 64 ∧ k / 262144 = k / 64 / 64 / 64 := fun k => by
    simp only [Nat.div_div_eq_div_mul, and_self]
  -- The shorter of two encodings has the smaller first byte; else the first digit in which the
  -- characters differ decides.
  simp only [String.utf8EncodeChar, hdigits]
  generalize c.val.toNat = m at hlt ⊢
  generalize d.val.toNat = n at hlt hmax ⊢
  split_ifs <;>
    simp (disch := (rw [UInt8.size]; omega)) only [List.cons_append, List.nil_append,
      List.cons_lt_cons_iff, UInt8.ofNat_lt_iff_lt, ofNat_eq_ofNat] <;> omega

theorem utf8_lt_of_lt {cs ds : List Char} (h : cs < ds) :
    cs.flatMap String.utf8EncodeChar < ds.flatMap String.utf8EncodeChar := by
  induction cs generalizing ds with
  | nil =>
    cases ds with
    | nil => exact absurd h (List.lt_irrefl _)
    | cons d ds =>
      obtain ⟨u, us, hu⟩ := List.exists_cons_of_ne_nil (@String.utf8EncodeChar_ne_nil d)
      rw [List.flatMap_cons, hu]
      exact List.nil_lt_cons _ _
  | cons c cs ih =>
    cases ds with
    | nil => exact absurd h (List.not_lt_nil _)
    | cons d ds =>
      rw [List.flatMap_cons, List.flatMap_cons]
      obtain h | ⟨rfl, htail⟩ := List.cons_lt_cons_iff.1 h
      · exact utf8EncodeChar_lt h _ _
      · exact List.append_left_lt (ih htail)

theorem bytes_lt_bytes_iff {s t : String} : bytes s < bytes t ↔ s < t := by
  have hlt : ∀ {s t : String}, s < t → bytes s < bytes t := by
    intro s t h
    rw [bytes_eq, bytes_eq]
    exact utf8_lt_of_lt h
  refine ⟨fun h => ?_, hlt⟩
  obtain hst | rfl | hts := KeyOrder.trichotomy s t
  · exact hst
  · exact absurd h (List.lt_irrefl _)
  · exact absurd (List.lt_trans h (hlt hts)) (List.lt_irrefl _)

end BlockFlow
