/-
# One entry of a table

A table is a function from places to records.  A write to one entry that leaves
something of the record as it was leaves it so in the whole table.
-/

import Mathlib

namespace Xv6
namespace Lib

variable {ι α β : Type*} [DecidableEq ι] {f : ι → α} {i : ι} {x : α}

theorem update_field (g : α → β) (h : g x = g (f i)) (j : ι) :
    g (Function.update f i x j) = g (f j) := by
  rcases eq_or_ne j i with rfl | hj
  · rw [Function.update_self, h]
  · rw [Function.update_of_ne hj]

/-- What is found after a write is what was written or what was there. -/
theorem of_update {j : ι} {y : α} (h : Function.update f i x j = y) :
    (j = i ∧ x = y) ∨ (j ≠ i ∧ f j = y) := by
  rcases eq_or_ne j i with rfl | hj
  · exact .inl ⟨rfl, (Function.update_self j x f).symm.trans h⟩
  · exact .inr ⟨hj, (Function.update_of_ne hj x f).symm.trans h⟩

end Lib
end Xv6
