/-
# Numbers and bits in byte arrays

A record on a disk is a run of bytes with its fields at fixed offsets, numbers
with the low byte first.  `getLE` reads a field of `n` bytes and `putLE` writes
one; `putWords` writes an array of four-byte words and `blit` a run of bytes.
What is written is read back modulo `256 ^ n`, and a field is untouched by a
write beside it.  The last section is an array of bits, eight to a byte.
-/

import Mathlib

namespace Xv6
namespace Lib

/-- A byte. -/
abbrev Byte := BitVec 8

variable {f g : ℕ → Byte} {n m off off' v : ℕ}

/-- The `i`-th byte of a number, the low byte first. -/
def leByte (v i : ℕ) : Byte := BitVec.ofNat 8 (v / 256 ^ i)

/-- The number in the `n` bytes from `off` on. -/
def getLE (f : ℕ → Byte) (off : ℕ) : ℕ → ℕ
  | 0 => 0
  | n + 1 => (f off).toNat + 256 * getLE f (off + 1) n

/-- Write a number into the `n` bytes from `off` on. -/
def putLE (f : ℕ → Byte) (off n v : ℕ) : ℕ → Byte :=
  fun i => if off ≤ i ∧ i < off + n then leByte v (i - off) else f i

/-- Write `n` words of four bytes from `off` on. -/
def putWords (f : ℕ → Byte) (off n : ℕ) (a : ℕ → ℕ) : ℕ → Byte :=
  fun i => if off ≤ i ∧ i < off + 4 * n then leByte (a ((i - off) / 4)) ((i - off) % 4) else f i

/-- Write a run of bytes from `off` on. -/
def blit (f : ℕ → Byte) (off : ℕ) (bytes : List Byte) : ℕ → Byte :=
  fun i => if off ≤ i ∧ i < off + bytes.length then bytes.getD (i - off) 0 else f i

/-! ### Reading -/

theorem getLE_congr (h : ∀ i < n, f (off + i) = g (off' + i)) :
    getLE f off n = getLE g off' n := by
  induction n generalizing off off' with
  | zero => rfl
  | succ n ih =>
    have hhead : f off = g off' := h 0 (Nat.succ_pos n)
    have htail : getLE f (off + 1) n = getLE g (off' + 1) n := by
      refine ih fun i hi => ?_
      have := h (i + 1) (Nat.succ_lt_succ hi)
      rwa [show off + (i + 1) = off + 1 + i by omega,
        show off' + (i + 1) = off' + 1 + i by omega] at this
    rw [getLE, getLE, hhead, htail]

theorem leByte_succ (v i : ℕ) : leByte v (i + 1) = leByte (v / 256) i := by
  rw [leByte, leByte, Nat.pow_succ', Nat.div_div_eq_div_mul]

/-- **The bytes of a number give the number back.** -/
theorem getLE_of_leByte (h : ∀ i < n, f (off + i) = leByte v i) :
    getLE f off n = v % 256 ^ n := by
  induction n generalizing off v with
  | zero => rw [getLE, Nat.pow_zero, Nat.mod_one]
  | succ n ih =>
    have hhead : (f off).toNat = v % 256 := by
      rw [show f off = leByte v 0 from h 0 (Nat.succ_pos n), leByte, Nat.pow_zero, Nat.div_one,
        BitVec.toNat_ofNat]
    have htail : getLE f (off + 1) n = v / 256 % 256 ^ n := by
      refine ih fun i hi => ?_
      rw [← leByte_succ, ← h (i + 1) (Nat.succ_lt_succ hi)]
      congr 1
      omega
    rw [getLE, hhead, htail, Nat.pow_succ', Nat.mod_mul]

theorem getLE_lt (f : ℕ → Byte) (off n : ℕ) : getLE f off n < 256 ^ n := by
  induction n generalizing off with
  | zero => exact Nat.one_pos
  | succ n ih =>
    have hhead : (f off).toNat < 256 := (f off).isLt
    have htail := ih (off + 1)
    rw [getLE, Nat.pow_succ']
    calc (f off).toNat + 256 * getLE f (off + 1) n
        < 256 * (getLE f (off + 1) n + 1) := by omega
      _ ≤ 256 * 256 ^ n := Nat.mul_le_mul_left 256 htail

theorem getLE_zero (h : ∀ i < n, f (off + i) = 0) : getLE f off n = 0 := by
  rw [getLE_of_leByte (v := 0), Nat.zero_mod]
  intro i hi
  rw [h i hi, leByte, Nat.zero_div]
  rfl

/-! ### Writing -/

theorem putLE_apart {i : ℕ} (h : i < off ∨ off + n ≤ i) : putLE f off n v i = f i :=
  if_neg (by omega)

theorem getLE_putLE (f : ℕ → Byte) (off n v : ℕ) :
    getLE (putLE f off n v) off n = v % 256 ^ n := by
  refine getLE_of_leByte fun i hi => ?_
  rw [putLE, if_pos (by omega), Nat.add_sub_cancel_left]

theorem getLE_putLE_apart (h : off + n ≤ off' ∨ off' + m ≤ off) :
    getLE (putLE f off' m v) off n = getLE f off n :=
  getLE_congr fun i hi => putLE_apart (by omega)

theorem putWords_apart {a : ℕ → ℕ} {i : ℕ} (h : i < off ∨ off + 4 * n ≤ i) :
    putWords f off n a i = f i :=
  if_neg (by omega)

theorem getLE_putWords (f : ℕ → Byte) (off : ℕ) (a : ℕ → ℕ) {j : ℕ} (hj : j < n) :
    getLE (putWords f off n a) (off + 4 * j) 4 = a j % 256 ^ 4 := by
  refine getLE_of_leByte fun i hi => ?_
  rw [putWords, if_pos (by omega), show off + 4 * j + i - off = 4 * j + i by omega,
    show (4 * j + i) / 4 = j by omega, show (4 * j + i) % 4 = i by omega]

theorem getLE_putWords_apart {a : ℕ → ℕ} (h : off + n ≤ off' ∨ off' + 4 * m ≤ off) :
    getLE (putWords f off' m a) off n = getLE f off n :=
  getLE_congr fun i hi => putWords_apart (by omega)

theorem blit_apart {bytes : List Byte} {i : ℕ} (h : i < off ∨ off + bytes.length ≤ i) :
    blit f off bytes i = f i :=
  if_neg (by omega)

theorem blit_mid {bytes : List Byte} {i : ℕ} (h : off ≤ i) (h' : i < off + bytes.length) :
    blit f off bytes i = bytes.getD (i - off) 0 :=
  if_pos ⟨h, h'⟩

/-! ### Bits -/

/-- The `b`-th bit of an array of bytes. -/
def getBit (f : ℕ → Byte) (b : ℕ) : Bool := (f (b / 8)).getLsbD (b % 8)

/-- Set the `b`-th bit. -/
def setBit (f : ℕ → Byte) (b : ℕ) : ℕ → Byte :=
  Function.update f (b / 8) (f (b / 8) ||| 1#8 <<< (b % 8))

/-- Clear the `b`-th bit. -/
def clearBit (f : ℕ → Byte) (b : ℕ) : ℕ → Byte :=
  Function.update f (b / 8) (f (b / 8) &&& ~~~(1#8 <<< (b % 8)))

theorem getLsbD_one_shiftLeft :
    ∀ j < 8, ∀ k < 8, (1#8 <<< k).getLsbD j = decide (j = k) := by
  decide

theorem getBit_setBit (f : ℕ → Byte) (b b' : ℕ) :
    getBit (setBit f b) b' = (getBit f b' || decide (b' = b)) := by
  unfold getBit setBit
  by_cases h : b' / 8 = b / 8
  · rw [h, Function.update_self, BitVec.getLsbD_or,
      getLsbD_one_shiftLeft _ (Nat.mod_lt _ (by decide)) _ (Nat.mod_lt _ (by decide))]
    congr 1
    exact decide_eq_decide.2 (by omega)
  · rw [Function.update_of_ne h, decide_eq_false (by rintro rfl; exact h rfl), Bool.or_false]

theorem getBit_clearBit (f : ℕ → Byte) (b b' : ℕ) :
    getBit (clearBit f b) b' = (getBit f b' && !decide (b' = b)) := by
  unfold getBit clearBit
  by_cases h : b' / 8 = b / 8
  · rw [h, Function.update_self, BitVec.getLsbD_and, BitVec.getLsbD_not,
      getLsbD_one_shiftLeft _ (Nat.mod_lt _ (by decide)) _ (Nat.mod_lt _ (by decide)),
      decide_eq_true (Nat.mod_lt b' (by decide : 0 < 8)), Bool.true_and]
    congr 2
    exact decide_eq_decide.2 (by omega)
  · rw [Function.update_of_ne h, decide_eq_false (by rintro rfl; exact h rfl), Bool.not_false,
      Bool.and_true]

end Lib
end Xv6
