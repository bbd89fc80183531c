/-
# Reading a file without holes

`bmap` (`xv6/fs.c`, lines 373-401) allocates a block for an address that is zero,
so `readi` and `dirlookup` may write to the disk.  They do not if the inode names
a block for each index below `⌈size / BSIZE⌉`: then they leave the inode and the
disk as they are, and `readi` returns the bytes of the blocks.
-/

import Xv6.Fs.Kernel

namespace Xv6
namespace Fs

open Lib

/-- The blocks that `n` bytes fill. -/
def blocks (n : ℕ) : ℕ := (n + (BSIZE - 1)) / BSIZE

theorem blocks_mono {n n' : ℕ} (h : n ≤ n') : blocks n ≤ blocks n' :=
  Nat.div_le_div_right (Nat.add_le_add_right h _)

theorem le_blocks_mul (n : ℕ) : n ≤ blocks n * BSIZE := by
  unfold blocks BSIZE
  omega

/-- The block of a byte is one of the blocks. -/
theorem div_lt_blocks {k n : ℕ} (h : k < n) : k / BSIZE < blocks n := by
  unfold blocks BSIZE
  omega

/-- An inode that names all the blocks below its size. -/
def Filled (disk : Disk) (ip : Dinode) : Prop :=
  ∀ bn < blocks ip.size, ip.ref disk (slotOf bn) ≠ 0

/-- The `k`-th byte of a file. -/
def byteAt (disk : Disk) (ip : Dinode) (k : ℕ) : Byte :=
  disk (ip.ref disk (slotOf (k / BSIZE))) (k % BSIZE)

variable {v : Vol} {ip : Dinode} {off n : ℕ}

/-- A window of a list, byte by byte. -/
theorem map_range_getD (l : List Byte) (off n : ℕ) :
    (List.range (min n (l.length - off))).map (fun k => l.getD (off + k) 0) =
      (l.drop off).take n := by
  refine List.ext_getElem (by simp) fun k hk hk' => ?_
  simp only [List.length_map, List.length_range] at hk
  rw [List.getElem_map, List.getElem_range, List.getElem_take, List.getElem_drop,
    List.getD_eq_getElem?_getD, List.getElem?_eq_getElem (by omega), Option.getD_some]

/-- **`bmap` of a block that is there** changes nothing. -/
theorem bmap_ref {bn : ℕ} (h : ip.ref v.disk (slotOf bn) ≠ 0) :
    bmap v ip bn = .ok (ip.ref v.disk (slotOf bn), ip, v) := by
  by_cases hbn : bn < NDIRECT
  · rw [Dinode.ref_direct hbn] at h ⊢
    rw [bmap, if_pos hbn, bmapAddr, if_neg h]
  · rw [slotOf, if_neg hbn, Dinode.ref] at h ⊢
    by_cases hk : ip.addrs NDIRECT ≠ 0 ∧ bn - NDIRECT < NINDIRECT
    · rw [if_pos hk] at h ⊢
      rw [bmap, if_neg hbn, if_pos hk.2, bmapAddr, if_neg hk.1, ok_bind]
      dsimp only
      rw [bmapEntry, if_neg h]
      rfl
    · rw [if_neg hk] at h
      exact absurd rfl h

/-- `balloc` returns a free block if there is one. -/
theorem exists_balloc {b : ℕ} (hb : b < v.sb.size) (hfree : inUse v.sb v.disk b = false) :
    ∃ b' v', inUse v.sb v.disk b' = false ∧ balloc v = .ok (b', v') := by
  unfold balloc
  split
  next hnone =>
    have := List.find?_eq_none.1 hnone b (List.mem_range.2 hb)
    exact absurd hfree (by simpa using this)
  next b' hsome =>
    have := List.find?_some hsome
    exact ⟨b', _, by simpa using this, rfl⟩

/-- The loop of `readi`, over bytes whose blocks are there. -/
theorem readLoop_ref {fuel : ℕ} (hfuel : n ≤ fuel)
    (h : ∀ k, off ≤ k → k < off + n → ip.ref v.disk (slotOf (k / BSIZE)) ≠ 0) :
    readLoop fuel v ip off n =
      .ok ((List.range n).map fun k => byteAt v.disk ip (off + k), ip, v) := by
  induction fuel generalizing off n with
  | zero =>
    obtain rfl := Nat.le_zero.1 hfuel
    rfl
  | succ fuel ih =>
    rw [readLoop]
    split
    · next hn => rw [hn]; rfl
    next hn =>
      have hlt : off % BSIZE < BSIZE := Nat.mod_lt _ (by decide)
      rw [bmap_ref (h off (Nat.le_refl _) (by omega)), ok_bind]
      dsimp only
      generalize hm : min n (BSIZE - off % BSIZE) = m
      -- the bytes of this turn lie in one block
      have hsame : ∀ i < m, v.disk (ip.ref v.disk (slotOf (off / BSIZE))) (off % BSIZE + i) =
          byteAt v.disk ip (off + i) := by
        intro i hi
        have hdiv : (off + i) / BSIZE = off / BSIZE := by
          unfold BSIZE at *
          omega
        have hmod : (off + i) % BSIZE = off % BSIZE + i := by
          unfold BSIZE at *
          omega
        rw [byteAt, hdiv, hmod]
      have hrange : List.range n = List.range m ++ (List.range (n - m)).map (m + ·) := by
        rw [← List.range_add]
        congr 1
        omega
      rw [ih (by omega) fun k hk hk' => h k (by omega) (by omega), ok_bind, hrange,
        List.map_append, List.map_map,
        List.map_congr_left fun i hi => hsame i (List.mem_range.1 hi)]
      simp only [Nat.add_assoc]
      rfl

/-- **`readi` over bytes whose blocks are there** returns them and changes nothing. -/
theorem readi_ref (htype : ip.type ≠ T_DEV) (hoff : off ≤ ip.size) (hwrap : off + n < 2 ^ 32)
    (h : ∀ k, off ≤ k → k < off + n → k < ip.size → ip.ref v.disk (slotOf (k / BSIZE)) ≠ 0) :
    readi v ip off n = .ok (some ((List.range (min n (ip.size - off))).map fun k =>
      byteAt v.disk ip (off + k)), ip, v) := by
  have hmin : (if off + n > ip.size then ip.size - off else n) = min n (ip.size - off) := by
    split <;> omega
  rw [readi, if_neg (by omega), hmin]
  dsimp only
  rw [readLoop_ref (Nat.le_refl _), ok_bind]
  exact fun k hk hk' => h k hk (by omega) (by omega)

/-- `readi` of a file without holes. -/
theorem readi_filled (h : Filled v.disk ip) (htype : ip.type ≠ T_DEV) (hoff : off ≤ ip.size)
    (hwrap : off + n < 2 ^ 32) :
    readi v ip off n = .ok (some ((List.range (min n (ip.size - off))).map fun k =>
      byteAt v.disk ip (off + k)), ip, v) :=
  readi_ref htype hoff hwrap fun _ _ _ hk => h _ (div_lt_blocks hk)

theorem exists_readi (h : Filled v.disk ip) (off n : ℕ) : ∃ r, readi v ip off n = .ok (r, ip, v) := by
  by_cases hbad : ip.type = T_DEV ∨ off > ip.size ∨ off + n ≥ 2 ^ 32
  · exact ⟨none, by rw [readi, if_pos hbad]⟩
  · exact ⟨_, readi_filled h (by omega) (by omega) (by omega)⟩

/-- **`dirlookup` in a directory without holes** changes nothing. -/
theorem exists_dirlookup {dp : Dinode} (h : Filled v.disk dp) (htype : dp.type = T_DIR)
    (hsize : dp.size % 16 = 0) (hwrap : dp.size < 2 ^ 32) (name : List Byte) :
    ∃ r, dirlookup v dp name = .ok (r, dp, v) := by
  have hscan : ∀ fuel off, off % 16 = 0 → ∃ r, dirScan fuel v dp off name = .ok (r, dp, v) := by
    intro fuel
    induction fuel with
    | zero => exact fun off _ => ⟨none, rfl⟩
    | succ fuel ih =>
      intro off hoff
      rw [dirScan]
      split
      next hlt =>
        rw [readi_filled h (by rw [htype]; decide) (by omega) (by omega), ok_bind]
        dsimp only
        rw [if_neg]
        · split
          · exact ⟨_, rfl⟩
          · exact ih (off + 16) (by omega)
        · rw [List.length_map, List.length_range]
          omega
      · exact ⟨none, rfl⟩
  rw [dirlookup, if_neg (by simp [htype])]
  exact hscan dp.size 0 rfl

end Fs
end Xv6
