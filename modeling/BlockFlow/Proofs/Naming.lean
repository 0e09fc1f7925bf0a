import Mathlib.Data.List.Infix
import BlockFlow.Naming

/-!
# Names that cannot meet

A generated name ends in a text that says what it is the name of. Names with endings of which none
is the end of the other are different, whatever they are made from (`append_ne_append`); names with
the same ending are equal only if what stands before is.

## Key results

- `append_ne_append`: names with different endings are different
- `schemaIn_inj`, `instanceIn_inj`: within a node, a port belongs to one input
-/

namespace BlockFlow.Naming

/-- Texts with endings of which none is the end of the other are different. -/
theorem append_ne_append {a b : String} (h : ¬a.toList <:+ b.toList) (h' : ¬b.toList <:+ a.toList)
    (s t : String) : s ++ a ≠ t ++ b := by
  intro heq
  have hlist : s.toList ++ a.toList = t.toList ++ b.toList := by
    rw [← String.toList_append, heq, String.toList_append]
  rcases List.suffix_or_suffix_of_suffix (List.suffix_append _ _)
    (hlist ▸ List.suffix_append _ _) with hsuffix | hsuffix
  · exact h' hsuffix
  · exact h hsuffix

variable {id id' kind x y : String}

@[simp] theorem schemaIn_inj : schemaIn id x = schemaIn id y ↔ x = y := by simp [schemaIn]

@[simp] theorem instanceIn_inj : instanceIn id x = instanceIn id y ↔ x = y := by simp [instanceIn]

end BlockFlow.Naming
