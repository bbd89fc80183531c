/-
# A free list threaded through its cells

An allocator of numbered cells keeps the free ones in a list linked through the
cells themselves: `next i` is the number of the cell after cell `i`, and `-1`
ends the list.  `Linked next hd xs` says that following `next` from `hd` visits
the cells `xs` in order.  The other cells' links are free to hold anything,
which is the frame rule `Linked.congr`.

`flatMap_update_perm` is for an allocator whose used cells are spread over
several owners: giving one owner other cells moves that owner's part alone.
-/

import Mathlib

namespace Xv6
namespace Lib

open Function

/-- Following `next` from `hd` visits `xs` and ends in `-1`. -/
def Linked (next : ℕ → ℤ) : ℤ → List ℕ → Prop
  | hd, [] => hd = -1
  | hd, i :: xs => hd = i ∧ Linked next (next i) xs

/-- **The frame rule**: only the links of the visited cells matter. -/
theorem Linked.congr {next next' : ℕ → ℤ} {hd : ℤ} {xs : List ℕ} (h : Linked next hd xs)
    (heq : ∀ i ∈ xs, next' i = next i) : Linked next' hd xs := by
  induction xs generalizing hd with
  | nil => exact h
  | cons i xs ih =>
    obtain ⟨hhd, hrest⟩ := h
    refine ⟨hhd, ?_⟩
    rw [heq i (by simp)]
    exact ih hrest fun j hj => heq j (by simp [hj])

/-- Cells linked in ascending order up to a last one. -/
theorem linked_range' {next : ℕ → ℤ} (a k : ℕ) (hnext : ∀ i, i < a + k → next i = (i : ℤ) + 1)
    (hlast : next (a + k) = -1) : Linked next a (List.range' a (k + 1)) := by
  induction k generalizing a with
  | zero => exact ⟨rfl, hlast⟩
  | succ k ih =>
    rw [List.range'_succ]
    refine ⟨rfl, ?_⟩
    rw [hnext a (by omega)]
    have := ih (a + 1) (fun i hi => hnext i (by omega))
      (by rw [← hlast]; congr 1; omega)
    simpa using this

/-- **One owner's cells change.**  Over distinct owners `l`, replacing the cells
of `r` replaces `Q r` by `x` in the cells of all. -/
theorem flatMap_update_perm {ι β : Type*} [DecidableEq ι] {l : List ι} (hl : l.Nodup) {r : ι}
    (hr : r ∈ l) (Q : ι → List β) (x : List β) :
    (l.flatMap (update Q r x)).Perm (x ++ (l.erase r).flatMap Q) := by
  have h := (List.perm_cons_erase hr).flatMap_right (update Q r x)
  rw [List.flatMap_cons, Function.update_self] at h
  have hrest : (l.erase r).flatMap (update Q r x) = (l.erase r).flatMap Q := by
    refine List.flatMap_congr fun i hi => ?_
    rw [Function.update_of_ne]
    rintro rfl
    exact hl.not_mem_erase hi
  rwa [hrest] at h

end Lib
end Xv6
