/-
# Places that name a resource

Places `x` name resources by number, `r x`, where `0` names none.  `Sole r` says
that no resource is named by two places.  Giving a place a resource that no
place names keeps this, and so does clearing a place.
-/

import Xv6.Lib.Update

namespace Xv6
namespace Lib

open Function

variable {ι : Type*} {r : ι → ℕ}

/-- No resource is named by two places. -/
def Sole (r : ι → ℕ) : Prop := ∀ x y, r x ≠ 0 → r x = r y → x = y

variable [DecidableEq ι]

/-- A place is given a resource that no place names. -/
theorem Sole.assign (h : Sole r) {x : ι} {b : ℕ} (hfresh : ∀ y, r y ≠ b) :
    Sole (update r x b) := by
  intro y z hy heq
  rcases eq_or_ne y x with rfl | hyx <;> rcases eq_or_ne z y with rfl | hzy
  · rfl
  · rw [update_self, update_of_ne hzy] at heq
    exact absurd heq.symm (hfresh z)
  · rfl
  · rw [update_of_ne hyx] at hy heq
    rcases eq_or_ne z x with rfl | hzx
    · rw [update_self] at heq
      exact absurd heq (hfresh y)
    · rw [update_of_ne hzx] at heq
      exact h y z hy heq

end Lib
end Xv6
