/-
# memmove

`memmove` of `xv6/string.c`, lines 31-49.  Pointers and the count are 32-bit words, and
so is the sum in the test for an overlap.  When the source begins before the destination and
reaches into it the bytes go from the last to the first, otherwise from the first to the
last; in both directions a byte is read before its place is written.
-/

import Xv6.Lib.Bytes

namespace Xv6
namespace Kernel

open Lib Function

/-- The loop from the last byte to the first, with the pointers behind the ranges. -/
def copyDown : ℕ → (BitVec 32 → Byte) → BitVec 32 → BitVec 32 → BitVec 32 → Byte
  | 0, m, _, _ => m
  | n + 1, m, d, s => copyDown n (update m (d - 1) (m (s - 1))) (d - 1) (s - 1)

/-- The loop from the first byte to the last. -/
def copyUp : ℕ → (BitVec 32 → Byte) → BitVec 32 → BitVec 32 → BitVec 32 → Byte
  | 0, m, _, _ => m
  | n + 1, m, d, s => copyUp n (update m d (m s)) (d + 1) (s + 1)

/-- The memory that `memmove` leaves. -/
def memmove (m : BitVec 32 → Byte) (dst src n : BitVec 32) : BitVec 32 → Byte :=
  if src < dst ∧ dst < src + n then copyDown n.toNat m (dst + n) (src + n)
  else copyUp n.toNat m dst src

/-- A destination that does not begin inside the source: no byte is written before it is read. -/
theorem copyUp_apply (n : ℕ) (m : BitVec 32 → Byte) {d s : BitVec 32} (hd : d.toNat + n ≤ 2 ^ 32)
    (hs : s.toNat + n ≤ 2 ^ 32) (h : d ≤ s ∨ s.toNat + n ≤ d.toNat) (a : BitVec 32) :
    copyUp n m d s a = if (a - d).toNat < n then m (s + (a - d)) else m a := by
  induction n generalizing m d s with
  | zero => rfl
  | succ n ih =>
    rw [copyUp, ih _ (by bv_omega) (by bv_omega) (by bv_omega)]
    rcases eq_or_ne a d with rfl | hne
    · rw [if_neg (by bv_omega), if_pos (by bv_omega), update_self, BitVec.sub_self, BitVec.add_zero]
    · rw [show s + 1 + (a - (d + 1)) = s + (a - d) by bv_omega, update_of_ne hne]
      split
      · rw [if_pos (by bv_omega), update_of_ne (by bv_omega)]
      · rw [if_neg (by bv_omega)]

theorem copyDown_apply (n : ℕ) (m : BitVec 32 → Byte) {d s : BitVec 32} (hd : d.toNat + n ≤ 2 ^ 32)
    (hs : s.toNat + n ≤ 2 ^ 32) (h : s ≤ d) (a : BitVec 32) :
    copyDown n m (d + BitVec.ofNat 32 n) (s + BitVec.ofNat 32 n) a =
      if (a - d).toNat < n then m (s + (a - d)) else m a := by
  induction n generalizing m with
  | zero => rfl
  | succ n ih =>
    have hlast : ∀ p : BitVec 32, p + BitVec.ofNat 32 (n + 1) - 1 = p + BitVec.ofNat 32 n := by
      intro p
      bv_omega
    rw [copyDown, hlast, hlast, ih _ (by omega) (by omega)]
    rcases eq_or_ne a (d + BitVec.ofNat 32 n) with rfl | hne
    · rw [if_neg (by bv_omega), if_pos (by bv_omega), update_self]
      congr 1
      bv_omega
    · rw [update_of_ne hne]
      split
      · rw [if_pos (by bv_omega), update_of_ne (by bv_omega)]
      · rw [if_neg (by bv_omega)]

/-- **`memmove` moves a block, however the two ranges lie.**  Neither range goes over the end
of the address space. -/
theorem memmove_overlap (m : BitVec 32 → Byte) (dst src n : BitVec 32)
    (hdst : dst.toNat + n.toNat ≤ 2 ^ 32) (hsrc : src.toNat + n.toNat ≤ 2 ^ 32) :
    (∀ k < n, memmove m dst src n (dst + k) = m (src + k)) ∧
      ∀ a : BitVec 32, a.toNat < dst.toNat ∨ dst.toNat + n.toNat ≤ a.toNat →
        memmove m dst src n a = m a := by
  have happly : ∀ a, memmove m dst src n a =
      if (a - dst).toNat < n.toNat then m (src + (a - dst)) else m a := by
    intro a
    unfold memmove
    split
    next h =>
      have hdown := copyDown_apply n.toNat m hdst hsrc (by bv_omega) a
      rwa [BitVec.ofNat_toNat, BitVec.setWidth_eq] at hdown
    next h => exact copyUp_apply n.toNat m hdst hsrc (by bv_omega) a
  refine ⟨fun k hk => ?_, fun a ha => ?_⟩
  · rw [happly, if_pos (by bv_omega)]
    congr 1
    bv_omega
  · rw [happly, if_neg (by bv_omega)]

/-- The source reaches into the destination. -/
theorem memmove_overlap_up : (∀ k < 3#32, memmove (fun a => a.truncate 8) 5 4 3 (5 + k) =
    (4 + k).truncate 8) ∧ ∀ a : BitVec 32, a.toNat < 5 ∨ 5 + 3 ≤ a.toNat →
      memmove (fun a => a.truncate 8) 5 4 3 a = a.truncate 8 :=
  memmove_overlap (fun a => a.truncate 8) 5 4 3 (by decide) (by decide)

end Kernel
end Xv6
