/-
# A ring of cells, as a queue

A queue kept in an array of `n` cells with a head index, a tail index and an
element count, both indices advancing modulo `n`.  `RingBuffer.contents` reads the
queued elements from the head on; a ring is well formed (`RingBuffer.Wf`) when the
tail is where the next element goes.  `push` and `pop` are what enqueue and
dequeue do once their full and empty tests are passed, and act on the contents
as `++ [a]` and as taking the first element.

A ring whose elements lie in one stretch of the array can also lose an element
from the middle: `shiftOut` moves the later ones down by one cell.
-/

import Mathlib

namespace Xv6
namespace Lib

open Function

/-- The representation: an element count, the cells, and the two indices. -/
structure RingBuffer (α : Type*) where
  size : ℕ
  data : ℕ → α
  head : ℕ
  tail : ℕ

namespace RingBuffer

variable {α : Type*} {n : ℕ}

/-- Store at the tail and advance it. -/
def push (n : ℕ) (q : RingBuffer α) (a : α) : RingBuffer α :=
  { size := q.size + 1
    data := update q.data q.tail a
    head := q.head
    tail := (q.tail + 1) % n }

/-- Advance the head past the first element. -/
def pop (n : ℕ) (q : RingBuffer α) : RingBuffer α :=
  { size := q.size - 1
    data := q.data
    head := (q.head + 1) % n
    tail := q.tail }

/-- The queued elements, first in first. -/
def contents (n : ℕ) (q : RingBuffer α) : List α :=
  (List.range q.size).map fun i => q.data ((q.head + i) % n)

/-- The indices agree with the count. -/
structure Wf (n : ℕ) (q : RingBuffer α) : Prop where
  size_le : q.size ≤ n
  head_lt : q.head < n
  tail_eq : q.tail = (q.head + q.size) % n

@[simp] theorem length_contents (n : ℕ) (q : RingBuffer α) : (q.contents n).length = q.size := by
  simp [contents]

theorem contents_eq_nil_iff (n : ℕ) (q : RingBuffer α) : q.contents n = [] ↔ q.size = 0 := by
  rw [← List.length_eq_zero_iff, length_contents]

/-- Two offsets below `n` from one head are two different cells. -/
theorem add_mod_injOn {h i j : ℕ} (hi : i < n) (hj : j < n) (he : (h + i) % n = (h + j) % n) :
    i = j := by
  have h₁ : i ≡ j [MOD n] := Nat.ModEq.add_left_cancel' h he
  rwa [Nat.ModEq, Nat.mod_eq_of_lt hi, Nat.mod_eq_of_lt hj] at h₁

theorem Wf.push {q : RingBuffer α} (h : q.Wf n) (hfull : q.size < n) (a : α) : (q.push n a).Wf n where
  size_le := hfull
  head_lt := h.head_lt
  tail_eq := by
    change (q.tail + 1) % n = (q.head + (q.size + 1)) % n
    rw [h.tail_eq, Nat.mod_add_mod, Nat.add_assoc]

/-- **Pushing appends.** -/
theorem Wf.contents_push {q : RingBuffer α} (h : q.Wf n) (hfull : q.size < n) (a : α) :
    (q.push n a).contents n = q.contents n ++ [a] := by
  have hold : ∀ i ∈ List.range q.size,
      update q.data q.tail a ((q.head + i) % n) = q.data ((q.head + i) % n) := by
    intro i hi
    have hi := List.mem_range.1 hi
    rw [Function.update_of_ne]
    rw [h.tail_eq]
    exact fun he => absurd (add_mod_injOn (by omega) hfull he) (by omega)
  change (List.range (q.size + 1)).map
    (fun i => update q.data q.tail a ((q.head + i) % n)) = _
  rw [List.range_succ, List.map_append, List.map_congr_left hold, List.map_cons, List.map_nil,
    ← h.tail_eq, Function.update_self]
  rfl

theorem Wf.pop {q : RingBuffer α} (h : q.Wf n) (hne : 0 < q.size) : (q.pop n).Wf n where
  size_le := Nat.le_trans (Nat.sub_le _ _) h.size_le
  head_lt := Nat.mod_lt _ (Nat.lt_of_le_of_lt (Nat.zero_le _) h.head_lt)
  tail_eq := by
    change q.tail = ((q.head + 1) % n + (q.size - 1)) % n
    rw [h.tail_eq, Nat.mod_add_mod, Nat.add_assoc, Nat.add_sub_cancel' hne]

/-- **Popping takes the first element**, the one under the head. -/
theorem Wf.contents_pop {q : RingBuffer α} (h : q.Wf n) (hne : 0 < q.size) :
    q.contents n = q.data q.head :: (q.pop n).contents n := by
  obtain ⟨k, hk⟩ := Nat.exists_eq_add_of_lt hne
  have hk : q.size = k + 1 := by omega
  rw [contents, hk, List.range_succ_eq_map, List.map_cons, List.map_map, Nat.add_zero,
    Nat.mod_eq_of_lt h.head_lt]
  change _ = _ :: (List.range (q.size - 1)).map fun i => q.data (((q.head + 1) % n + i) % n)
  rw [hk, Nat.add_sub_cancel]
  refine congrArg _ (List.map_congr_left fun i _ => ?_)
  change q.data ((q.head + (i + 1)) % n) = _
  rw [Nat.mod_add_mod, Nat.add_assoc, Nat.add_comm 1 i]

/-- Close the gap at cell `u`: the elements after it move down by one cell. -/
def shiftOut (q : RingBuffer α) (u : ℕ) : RingBuffer α :=
  { size := q.size - 1
    data := fun i => if u ≤ i ∧ i + 1 < q.tail then q.data (i + 1) else q.data i
    head := q.head
    tail := q.tail - 1 }

/-- With the head before the tail, no cell of the ring is past the end of the array. -/
theorem Wf.tail_eq_of_head_lt {q : RingBuffer α} (h : q.Wf n) (hlt : q.head < q.tail) :
    q.tail = q.head + q.size ∧ q.head + q.size < n := by
  have htail := h.tail_eq
  have hn := h.head_lt
  have hsize := h.size_le
  rcases Nat.lt_or_ge (q.head + q.size) n with hin | hout
  · rw [Nat.mod_eq_of_lt hin] at htail
    exact ⟨htail, hin⟩
  · rw [Nat.mod_eq_sub_mod hout, Nat.mod_eq_of_lt (by omega)] at htail
    omega

theorem Wf.shiftOut {q : RingBuffer α} (h : q.Wf n) (hlt : q.head < q.tail) (u : ℕ) :
    (q.shiftOut u).Wf n := by
  obtain ⟨htail, hin⟩ := h.tail_eq_of_head_lt hlt
  refine ⟨by have := h.size_le; change q.size - 1 ≤ n; omega, h.head_lt, ?_⟩
  change q.tail - 1 = (q.head + (q.size - 1)) % n
  rw [Nat.mod_eq_of_lt (by omega)]
  omega

/-- **Shifting out erases** the element of its cell. -/
theorem Wf.contents_shiftOut {q : RingBuffer α} (h : q.Wf n) (hlt : q.head < q.tail) {k : ℕ}
    (hk : k < q.size) :
    (q.shiftOut (q.head + k)).contents n = (q.contents n).eraseIdx k := by
  obtain ⟨htail, hin⟩ := h.tail_eq_of_head_lt hlt
  have hlen : ((q.contents n).eraseIdx k).length = q.size - 1 := by
    rw [List.length_eraseIdx_of_lt (by simpa using hk), length_contents]
  refine List.ext_getElem (by rw [hlen, length_contents]; rfl) fun i hi hi' => ?_
  rw [length_contents] at hi
  change i < q.size - 1 at hi
  rw [List.getElem_eraseIdx]
  simp only [contents, List.getElem_map, List.getElem_range]
  change (if q.head + k ≤ (q.head + i) % n ∧ (q.head + i) % n + 1 < q.tail then
    q.data ((q.head + i) % n + 1) else q.data ((q.head + i) % n)) = _
  rw [Nat.mod_eq_of_lt (show q.head + i < n by omega)]
  split_ifs
  · omega
  · rw [Nat.mod_eq_of_lt (by omega), Nat.add_assoc]
  · rfl
  · omega

end RingBuffer

end Lib
end Xv6
