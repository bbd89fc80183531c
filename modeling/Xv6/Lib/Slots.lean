/-
# Resources in slots

A table `f : ι → Option β` has slots that are empty or hold a resource.  `held S f`
is the multiset of the resources in the slots of `S`, so that filling an empty
slot adds one resource and emptying a slot takes one away (`held_fill`), whatever
else is known of the table.  If no resource is held twice, the slot of a resource
is unique (`slot_eq`).
-/

import Mathlib

namespace Xv6
namespace Lib

variable {ι β : Type*}

/-- What is in a slot. -/
def content (o : Option β) : Multiset β := o.elim 0 fun b => {b}

/-- The resources in the slots of `S`. -/
def held (S : Finset ι) (f : ι → Option β) : Multiset β := ∑ i ∈ S, content (f i)

variable {S : Finset ι} {f g : ι → Option β} {i j : ι} {b : β}

@[simp] theorem content_none : content (none : Option β) = 0 := rfl

@[simp] theorem content_some : content (some b) = {b} := rfl

theorem held_congr (h : ∀ i ∈ S, f i = g i) : held S f = held S g :=
  Finset.sum_congr rfl fun i hi => by rw [h i hi]

theorem held_eq_zero (h : ∀ i ∈ S, f i = none) : held S f = 0 :=
  Finset.sum_eq_zero fun i hi => by rw [h i hi, content_none]

theorem mem_held (hi : i ∈ S) (h : f i = some b) : b ∈ held S f := by
  refine Multiset.mem_sum.2 ⟨i, hi, ?_⟩
  rw [h]
  exact Multiset.mem_singleton_self b

theorem card_held_le : (held S f).card ≤ S.card := by
  unfold held
  rw [Multiset.card_sum, Finset.card_eq_sum_ones]
  refine Finset.sum_le_sum fun i _ => ?_
  cases f i with
  | none => exact Nat.zero_le 1
  | some b => exact Nat.le_refl 1

theorem card_held_eq (h : ∀ i ∈ S, (f i).isSome) : (held S f).card = S.card := by
  unfold held
  rw [Multiset.card_sum, Finset.card_eq_sum_ones]
  refine Finset.sum_congr rfl fun i hi => ?_
  obtain ⟨b, hb⟩ := Option.isSome_iff_exists.1 (h i hi)
  rw [hb, content_some, Multiset.card_singleton]

/-- **An empty slot is filled**; read the other way, a slot is emptied. -/
theorem held_fill (hi : i ∈ S) (hf : f i = none) (hg : g i = some b)
    (hother : ∀ j ∈ S, j ≠ i → g j = f j) : held S g = b ::ₘ held S f := by
  classical
  have hrest : ∑ j ∈ S.erase i, content (g j) = ∑ j ∈ S.erase i, content (f j) :=
    Finset.sum_congr rfl fun j hj => by
      rw [hother j (Finset.mem_of_mem_erase hj) (Finset.ne_of_mem_erase hj)]
  unfold held
  rw [← Finset.add_sum_erase S _ hi, ← Finset.add_sum_erase S (fun j => content (f j)) hi, hrest,
    hf, hg, content_none, content_some, zero_add, Multiset.singleton_add]

/-- The slot of a resource. -/
theorem slot_eq (hnodup : (held S f).Nodup) (hi : i ∈ S) (hj : j ∈ S) (hb : f i = some b)
    (hb' : f j = some b) : i = j := by
  classical
  by_contra hne
  have hj' : j ∈ S.erase i := Finset.mem_erase.2 ⟨Ne.symm hne, hj⟩
  unfold held at hnodup
  rw [← Finset.add_sum_erase S _ hi, hb, content_some, Multiset.singleton_add] at hnodup
  exact (Multiset.nodup_cons.1 hnodup).1 (mem_held hj' hb')

end Lib
end Xv6
