/-
# Blocks of work

`getStartingForI` and `getNumberOfElements` of `xv6/jacob.c` (lines 46-80) divide
`n` rows among `nt` processes; `xv6/assig1_8.c` (lines 12-32) has the same two
functions for the numbers it sums up, the second one as `getOverHeadBlock`.  The
first `n % nt` processes get one element more than the others.

The blocks follow each other without a gap (`start_add_number`), so that they are a
partition of the indices below `n` (`work_partition`).  No value computed on the way
is above `n` and `nt`, and an `int` is a natural number here.
-/

import Mathlib

namespace Xv6
namespace Jacobi

/-- The index of the first element of process `i`. -/
def getStartingForI (n nt i : ℕ) : ℕ :=
  let divtemp := n / nt
  let remtemp := n % nt
  let i := i + 1
  if i ≤ remtemp then (divtemp + 1) * (i - 1) else divtemp * (i - 1) + remtemp

/-- How many elements process `i` has. -/
def getNumberOfElements (n nt i : ℕ) : ℕ :=
  let i := i + 1
  if i ≤ n % nt then n / nt + 1 else n / nt

/-- The same in `xv6/assig1_8.c`. -/
def getOverHeadBlock (n nt i : ℕ) : ℕ := getNumberOfElements n nt i

variable {n nt i x : ℕ}

theorem getStartingForI_zero (n nt : ℕ) : getStartingForI n nt 0 = 0 := by
  unfold getStartingForI
  dsimp only
  split
  · rw [Nat.add_sub_cancel, Nat.mul_zero]
  next h =>
    rw [Nat.add_sub_cancel, Nat.mul_zero]
    omega

/-- **A block ends where the next one starts**, also at the process from which on there is no
extra element. -/
theorem start_add_number (n nt i : ℕ) :
    getStartingForI n nt i + getNumberOfElements n nt i = getStartingForI n nt (i + 1) := by
  unfold getStartingForI getNumberOfElements
  simp only [Nat.add_sub_cancel]
  split
  next h =>
    split
    · rw [← Nat.mul_succ]
    next h' =>
      have hrem : n % nt = i + 1 := by omega
      rw [hrem, ← Nat.mul_succ, Nat.succ_mul]
  next h =>
    rw [if_neg (by omega), Nat.mul_succ]
    omega

theorem getStartingForI_last (n : ℕ) (hnt : 1 ≤ nt) : getStartingForI n nt nt = n := by
  have hlt := Nat.mod_lt n hnt
  unfold getStartingForI
  dsimp only
  rw [if_neg (by omega), Nat.add_sub_cancel, Nat.mul_comm]
  exact Nat.div_add_mod n nt

theorem getStartingForI_mono (n nt : ℕ) : Monotone (getStartingForI n nt) :=
  monotone_nat_of_le_succ fun i => by
    rw [← start_add_number]
    exact Nat.le_add_right ..

/-- The block of an index: by induction on the number of blocks that are looked at. -/
theorem exists_block (k : ℕ) (hx : x < getStartingForI n nt k) :
    ∃ i < k, getStartingForI n nt i ≤ x ∧ x < getStartingForI n nt (i + 1) := by
  induction k with
  | zero =>
    rw [getStartingForI_zero] at hx
    omega
  | succ k ih =>
    by_cases hk : x < getStartingForI n nt k
    · obtain ⟨i, hi, hblock⟩ := ih hk
      exact ⟨i, by omega, hblock⟩
    · exact ⟨k, Nat.lt_succ_self k, by omega, hx⟩

/-- What a division of `n` elements into `nt` blocks should be. -/
structure Partition (n nt : ℕ) (start number : ℕ → ℕ) : Prop where
  first : start 0 = 0
  next : ∀ i, i + 1 < nt → start i + number i = start (i + 1)
  last : start (nt - 1) + number (nt - 1) = n
  even : ∀ i < nt, ∀ j < nt, number i ≤ number j + 1
  covers : ∀ x < n, ∃! i, i < nt ∧ start i ≤ x ∧ x < start i + number i
  nonempty : nt ≤ n → ∀ i < nt, 0 < number i

/-- **Every element is in exactly one block**, for the rows of the Jacobi program and for the
numbers of the sum program. -/
theorem work_partition (n nt : ℕ) (hnt : 1 ≤ nt) :
    Partition n nt (getStartingForI n nt) (getNumberOfElements n nt) ∧
      Partition n nt (getStartingForI n nt) (getOverHeadBlock n nt) := by
  have hpartition : Partition n nt (getStartingForI n nt) (getNumberOfElements n nt) := by
    refine ⟨getStartingForI_zero n nt, fun i _ => start_add_number n nt i, ?_, ?_, ?_, ?_⟩
    · rw [start_add_number, Nat.sub_add_cancel hnt, getStartingForI_last n hnt]
    · intro i _ j _
      unfold getNumberOfElements
      dsimp only
      split <;> split <;> omega
    · intro x hx
      simp only [start_add_number]
      rw [← getStartingForI_last n hnt] at hx
      obtain ⟨i, hi, hlow, hhigh⟩ := exists_block nt hx
      refine ⟨i, ⟨hi, hlow, hhigh⟩, ?_⟩
      rintro j ⟨-, hlow', hhigh'⟩
      -- the block of a smaller index ends before the other one starts
      by_contra hne
      rcases Nat.lt_or_gt_of_ne hne with hlt | hlt
      · have hle := getStartingForI_mono n nt (show j + 1 ≤ i from hlt)
        omega
      · have hle := getStartingForI_mono n nt (show i + 1 ≤ j from hlt)
        omega
    · intro hle i _
      have hpos : 0 < n / nt := Nat.div_pos hle hnt
      unfold getNumberOfElements
      dsimp only
      split <;> omega
  exact ⟨hpartition, hpartition⟩

/-- Ten rows among four processes: the blocks are of three, three, two and two. -/
theorem work_partition_ten :
    Partition 10 4 (getStartingForI 10 4) (getNumberOfElements 10 4) ∧
      (List.range 4).map (getStartingForI 10 4) = [0, 3, 6, 8] :=
  ⟨(work_partition 10 4 (by decide)).1, by decide⟩

end Jacobi
end Xv6
