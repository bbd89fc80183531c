/-
# Counters that wrap around

A queue in an array of `N` cells can be kept with two counters that are never reduced
modulo `N`: the number of elements taken and the number stored, each a machine word
of `w` bits that wraps around.  If `N` divides `2 ^ w`, the cell under a counter is
the counter modulo `N` across the wrap, and the difference of the two words is the
number of queued elements as long as that is below `2 ^ w`.

`CounterRing.ring` reads such a queue as a `RingBuffer`; storing is `push` and taking
is `pop`.
-/

import Xv6.Lib.RingBuffer

namespace Xv6
namespace Lib

/-- The cells and the two counters. -/
structure CounterRing (w : ℕ) (α : Type*) where
  data : ℕ → α
  taken : BitVec w
  stored : BitVec w

namespace CounterRing

variable {w N : ℕ} {α : Type*} {q : CounterRing w α}

/-- The number of queued elements. -/
def size (q : CounterRing w α) : ℕ := (q.stored - q.taken).toNat

/-- The queue as a ring with a count. -/
def ring (N : ℕ) (q : CounterRing w α) : RingBuffer α where
  size := q.size
  data := q.data
  head := q.taken.toNat % N
  tail := q.stored.toNat % N

/-- Store an element. -/
def store (N : ℕ) (q : CounterRing w α) (a : α) : CounterRing w α :=
  { q with data := Function.update q.data (q.stored.toNat % N) a, stored := q.stored + 1 }

/-- Take the first element. -/
def take (q : CounterRing w α) : CounterRing w α := { q with taken := q.taken + 1 }

/-- The queued elements, first in first. -/
def contents (N : ℕ) (q : CounterRing w α) : List α := (q.ring N).contents N

@[simp] theorem length_contents (N : ℕ) (q : CounterRing w α) : (q.contents N).length = q.size :=
  RingBuffer.length_contents ..

theorem toNat_succ (x : BitVec w) : (x + 1).toNat = (x.toNat + 1) % 2 ^ w := by
  change (x + 1#w).toNat = _
  rw [BitVec.toNat_add, BitVec.toNat_ofNat, Nat.add_mod_mod]

/-- The cell after the one under a counter is the one under the next value. -/
theorem succ_mod (hN : N ∣ 2 ^ w) (x : BitVec w) : (x + 1).toNat % N = (x.toNat % N + 1) % N := by
  rw [toNat_succ, Nat.mod_mod_of_dvd _ hN, Nat.mod_add_mod]

/-- The counter that is ahead is under the cell at its distance. -/
theorem mod_eq (hN : N ∣ 2 ^ w) (x y : BitVec w) :
    x.toNat % N = (y.toNat % N + (x - y).toNat) % N := by
  have hx : x.toNat = (y.toNat + (x - y).toNat) % 2 ^ w := by
    rw [← BitVec.toNat_add, BitVec.add_comm, BitVec.sub_add_cancel]
  rw [hx, Nat.mod_mod_of_dvd _ hN, Nat.mod_add_mod]

theorem size_store (a : α) (h : q.size + 1 < 2 ^ w) : (q.store N a).size = q.size + 1 := by
  have heq : q.stored + 1 - q.taken = q.stored - q.taken + 1 := by
    rw [BitVec.sub_eq_add_neg, BitVec.sub_eq_add_neg, BitVec.add_assoc, BitVec.add_comm 1,
      BitVec.add_assoc]
  change (q.stored + 1 - q.taken).toNat = (q.stored - q.taken).toNat + 1
  change (q.stored - q.taken).toNat + 1 < 2 ^ w at h
  rw [heq, toNat_succ, Nat.mod_eq_of_lt h]

theorem size_take (h : 0 < q.size) : q.take.size = q.size - 1 := by
  change (q.stored - (q.taken + 1)).toNat = (q.stored - q.taken).toNat - 1
  change 0 < (q.stored - q.taken).toNat at h
  have hlt := (q.stored - q.taken).isLt
  have heq : q.stored - q.taken = q.stored - (q.taken + 1) + 1 := by
    rw [← BitVec.sub_sub, BitVec.sub_add_cancel]
  have hnat : (q.stored - q.taken).toNat = ((q.stored - (q.taken + 1)).toNat + 1) % 2 ^ w := by
    rw [heq, toNat_succ]
  have hlt' := (q.stored - (q.taken + 1)).isLt
  obtain hlast | hsmall : (q.stored - (q.taken + 1)).toNat + 1 = 2 ^ w ∨
      (q.stored - (q.taken + 1)).toNat + 1 < 2 ^ w := by omega
  · rw [hlast, Nat.mod_self] at hnat
    omega
  · rw [Nat.mod_eq_of_lt hsmall] at hnat
    omega

section

variable (hN : N ∣ 2 ^ w) (hpos : 0 < N)

include hN hpos

theorem ring_wf (h : q.size ≤ N) : (q.ring N).Wf N where
  size_le := h
  head_lt := Nat.mod_lt _ hpos
  tail_eq := mod_eq hN q.stored q.taken

/-- **Storing appends.** -/
theorem contents_store (a : α) (h : q.size < N) (hlt : N < 2 ^ w) :
    (q.store N a).contents N = q.contents N ++ [a] := by
  have hring : (q.store N a).ring N = (q.ring N).push N a := by
    unfold ring RingBuffer.push
    rw [size_store a (by omega)]
    dsimp only [store]
    rw [succ_mod hN]
  unfold contents
  rw [hring]
  exact (ring_wf hN hpos (Nat.le_of_lt h)).contents_push h a

/-- **Taking takes the first element.** -/
theorem contents_take (h : 0 < q.size) (hle : q.size ≤ N) :
    q.contents N = q.data (q.taken.toNat % N) :: q.take.contents N := by
  have hring : q.take.ring N = (q.ring N).pop N := by
    unfold ring RingBuffer.pop
    rw [size_take h]
    dsimp only [take]
    rw [succ_mod hN]
  unfold contents
  rw [hring]
  exact (ring_wf hN hpos hle).contents_pop h

end

end CounterRing

end Lib
end Xv6
