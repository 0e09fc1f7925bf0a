/-! # Ranges of characters

A property of characters is a list of ranges of code points, the ends included. -/

namespace BlockFlow.Text

/-- Whether a character lies in one of these ranges. -/
def inRanges (rs : List (Nat × Nat)) (c : Char) : Bool :=
  rs.any (fun r => r.1 ≤ c.toNat && c.toNat ≤ r.2)

theorem inRanges_iff (rs : List (Nat × Nat)) (c : Char) :
    inRanges rs c = true ↔ ∃ r ∈ rs, r.1 ≤ c.toNat ∧ c.toNat ≤ r.2 := by
  simp [inRanges]

end BlockFlow.Text
