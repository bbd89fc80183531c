/-
# Counting references

How many elements of a finite index set have a property, and how the number
changes when the property changes at one index.  A reference count kept in a
table is compared with such a number; each operation of the table touches one
index, or none.
-/

import Mathlib

namespace Xv6
namespace Lib

/-- One, if the proposition holds. -/
def one (p : Prop) [Decidable p] : ℕ := if p then 1 else 0

theorem one_of {p : Prop} [Decidable p] (h : p) : one p = 1 := if_pos h

theorem one_of_not {p : Prop} [Decidable p] (h : ¬ p) : one p = 0 := if_neg h

theorem one_congr {p q : Prop} [Decidable p] [Decidable q] (h : p ↔ q) : one p = one q := by
  unfold one
  simp only [h]

theorem one_eq_zero {p : Prop} [Decidable p] : one p = 0 ↔ ¬ p := by
  unfold one
  split <;> simp_all

variable {ι : Type*} {S : Finset ι} {P P' : ι → Prop} [DecidablePred P] [DecidablePred P']

/-- The number of indices with a property. -/
def count (S : Finset ι) (P : ι → Prop) [DecidablePred P] : ℕ := ∑ i ∈ S, one (P i)

theorem count_congr (h : ∀ i ∈ S, (P' i ↔ P i)) : count S P' = count S P :=
  Finset.sum_congr rfl fun i hi => one_congr (h i hi)

/-- A sum whose terms differ at one index. -/
theorem sum_change [DecidableEq ι] {f g : ι → ℕ} {i : ι} (hi : i ∈ S)
    (h : ∀ j ∈ S, j ≠ i → g j = f j) : ∑ j ∈ S, g j + f i = ∑ j ∈ S, f j + g i := by
  have hrest : ∑ j ∈ S.erase i, g j = ∑ j ∈ S.erase i, f j :=
    Finset.sum_congr rfl fun j hj => h j (Finset.mem_of_mem_erase hj) (Finset.ne_of_mem_erase hj)
  have hf := Finset.add_sum_erase S f hi
  have hg := Finset.add_sum_erase S g hi
  omega

/-- **A change at one index.** -/
theorem count_change [DecidableEq ι] (P P' : ι → Prop) [DecidablePred P] [DecidablePred P']
    {i : ι} (hi : i ∈ S) (h : ∀ j ∈ S, j ≠ i → (P' j ↔ P j)) :
    count S P' + one (P i) = count S P + one (P' i) :=
  sum_change hi fun j hj hji => one_congr (h j hj hji)

/-- Another value at one index. -/
theorem count_update {α : Type*} [DecidableEq ι] (P : α → Prop) [DecidablePred P] (f : ι → α)
    {i : ι} (hi : i ∈ S) (x : α) :
    count S (fun j => P (Function.update f i x j)) + one (P (f i)) =
      count S (fun j => P (f j)) + one (P x) := by
  have hchange := count_change (fun j => P (f j)) (fun j => P (Function.update f i x j)) hi
    fun j _ hj => by rw [Function.update_of_ne hj]
  rwa [Function.update_self] at hchange

/-- A list counts its first element once more. -/
theorem count_cons_one {α : Type*} [BEq α] [LawfulBEq α] (a b : α) [Decidable (a = b)]
    (l : List α) : (a :: l).count b = l.count b + one (a = b) := by
  rw [List.count_cons, one]
  simp only [beq_iff_eq]

theorem count_eq_zero : count S P = 0 ↔ ∀ i ∈ S, ¬ P i := by
  rw [count, Finset.sum_eq_zero_iff]
  exact forall₂_congr fun i _ => one_eq_zero

theorem count_pos {i : ι} (hi : i ∈ S) (h : P i) : 0 < count S P :=
  Nat.pos_of_ne_zero fun h0 => count_eq_zero.1 h0 i hi h

end Lib
end Xv6
