/-
# Holes in the image

`bmap` of the kernel (`xv6/fs.c`, lines 373-401) allocates when it reads a block
that an inode does not have.  Every inode that `mkfs` writes has the blocks below
its size, except the root directory when its entries fill their blocks exactly:
`main` (`xv6/mkfs.c`, lines 155-160) then adds a whole block to the size.  That is
so if `2 + nfiles` is a multiple of 32, and the kernel, looking up a name that is
not there, gives the directory a block in memory and marks it on the disk.
-/

import Xv6.Mkfs.Main

namespace Xv6
namespace Mkfs

open Lib Fs

variable {s : Img} {files : List File}

/-- The image as the kernel mounts it. -/
def mounted (s : Img) : Vol := ⟨readsb s.disk, s.disk⟩

theorem readsb_format : readsb format.disk = sb := by decide +kernel

theorem Built.readsb_eq (h : Built files s) : readsb s.disk = sb := by
  rw [← readsb_format]
  unfold readsb
  rw [h.super]

theorem le_NINO (h : files.length ≤ 206) : 2 + files.length ≤ NINO := by
  have : NINO = 208 := rfl
  omega

/-- The blocks that an inode names. -/
theorem Built.ref_iff (h : Built files s) {i : ℕ} (hi : i < s.freeinode) (bn : ℕ) :
    (dinodeOf sb s.disk i).ref s.disk (slotOf bn) ≠ 0 ↔ bn < blocks (content files i).length := by
  have hmapped := (h.sound.holds i).mapped bn
  have hino : (viewOf s).ino i = dinodeOf sb s.disk i := if_pos hi
  rwa [View.refs, hino] at hmapped

theorem filled_zero (disk : Disk) : Filled disk Dinode.zero := fun _ hbn =>
  absurd hbn (Nat.not_lt_zero _)

/-- An inode other than the root is without holes. -/
theorem Built.filled (h : Built files s) {i : ℕ} (hi : i < NINO) (hroot : i ≠ ROOTINO) :
    Filled s.disk (dinodeOf sb s.disk i) := by
  by_cases hused : 0 < i ∧ i < s.freeinode
  · have hlab := h.used i hused.1 hused.2
    intro bn hbn
    rw [hlab.size, sizeAt, if_neg hroot] at hbn
    exact (h.ref_iff hused.2 bn).2 hbn
  · rw [h.unused i hi (by omega)]
    exact filled_zero s.disk

theorem Built.root_lt (h : Built files s) : ROOTINO < s.freeinode := by
  rw [h.freeinode]
  unfold ROOTINO
  omega

theorem Built.root_size (h : Built files s) :
    (dinodeOf sb s.disk ROOTINO).size = ((rootBytes files).length / BSIZE + 1) * BSIZE := by
  rw [(h.used ROOTINO (by decide) h.root_lt).size, sizeAt, if_pos rfl]

/-- **The root is without holes unless its entries fill their blocks.** -/
theorem Built.filled_root (h : Built files s) :
    Filled s.disk (dinodeOf sb s.disk ROOTINO) ↔ (2 + files.length) % 32 ≠ 0 := by
  have hlen := length_rootBytes files
  have hsize : blocks (dinodeOf sb s.disk ROOTINO).size = (rootBytes files).length / BSIZE + 1 := by
    rw [h.root_size]
    unfold blocks BSIZE
    omega
  have href := h.ref_iff h.root_lt
  rw [content_root] at href
  have hcase : blocks (rootBytes files).length = (rootBytes files).length / BSIZE + 1 ↔
      (2 + files.length) % 32 ≠ 0 := by
    unfold blocks BSIZE
    omega
  rw [← hcase]
  constructor
  · intro hfilled
    by_contra hne
    have hlast := blocks_eq (rootBytes files).length
    have := (href ((rootBytes files).length / BSIZE)).1 (hfilled _ (by omega))
    omega
  · intro heq bn hbn
    exact (href bn).2 (by omega)

/-- The only directory is the root. -/
theorem Built.eq_root (h : Built files s) {i : ℕ} (hi : i < NINO)
    (htype : (dinodeOf sb s.disk i).type = T_DIR) : i = ROOTINO := by
  by_contra hne
  by_cases hused : 0 < i ∧ i < s.freeinode
  · rw [(h.used i hused.1 hused.2).type, kind, if_neg hne] at htype
    exact absurd htype (by decide)
  · rw [h.unused i hi (by omega)] at htype
    exact absurd htype (by decide)

/-- **An image of `mkfs` has no holes**, if the entries of the root do not fill their blocks:
every inode has the blocks below its size, and the kernel reads it without a change. -/
theorem image_without_holes (hn : files.length ≤ 206) (hroot : (2 + files.length) % 32 ≠ 0)
    (hok : main files = .ok s) (i : ℕ) (hi : i < NINO) :
    let v := mounted s
    let ip := dinodeOf v.sb v.disk i
    (∀ bn < blocks ip.size, ip.ref v.disk (slotOf bn) ≠ 0) ∧
      (∀ bn < blocks ip.size, ∃ b, b ≠ 0 ∧ bmap v ip bn = .ok (b, ip, v)) ∧
      (∀ off n, ∃ r, readi v ip off n = .ok (r, ip, v)) ∧
      (ip.type = T_DIR → ∀ name, ∃ r, dirlookup v ip name = .ok (r, ip, v)) := by
  have hbuilt := main_built (le_NINO hn) hok
  have hsb : (mounted s).sb = sb := hbuilt.readsb_eq
  dsimp only
  rw [hsb]
  have hfilled : Filled s.disk (dinodeOf sb s.disk i) := by
    rcases eq_or_ne i ROOTINO with rfl | hne
    · exact hbuilt.filled_root.2 hroot
    · exact hbuilt.filled hi hne
  refine ⟨hfilled, fun bn hbn => ⟨_, hfilled bn hbn, bmap_ref (hfilled bn hbn)⟩,
    exists_readi hfilled, fun htype name => ?_⟩
  refine exists_dirlookup hfilled htype ?_ (dinodeOf_fits sb s.disk i).size name
  obtain rfl := hbuilt.eq_root hi htype
  change (dinodeOf sb s.disk ROOTINO).size % 16 = 0
  rw [hbuilt.root_size]
  unfold BSIZE
  omega

theorem image_without_holes_one :
    ∃ s, main [⟨[97], [[1, 2, 3]]⟩] = .ok s ∧
      ∃ r, readi (mounted s) (dinodeOf (mounted s).sb (mounted s).disk 2) 0 3 =
        .ok (r, dinodeOf (mounted s).sb (mounted s).disk 2, mounted s) := by
  have hmain : ∃ s, main [⟨[97], [[1, 2, 3]]⟩] = .ok s ∧ Built [⟨[97], [[1, 2, 3]]⟩] s :=
    exists_main (by decide) (by decide) (by decide) (by decide)
  obtain ⟨s, hs, -⟩ := hmain
  exact ⟨s, hs, (image_without_holes (by decide) (by decide) hs 2 (by decide)).2.2.1 0 3⟩

/-- Thirty empty files with names of one byte. -/
def thirtyFiles : List File := (List.range 30).map fun i => ⟨[BitVec.ofNat 8 (97 + i)], []⟩

/-- **Thirty files leave a hole in the root**: its 32 entries fill one block and its size is
two, so the kernel, mapping the second one, takes a block that was free. -/
theorem root_has_hole :
    ∃ s, main thirtyFiles = .ok s ∧
      let v := mounted s
      let ip := dinodeOf v.sb v.disk ROOTINO
      1 < blocks ip.size ∧ ip.ref v.disk (slotOf 1) = 0 ∧
        ∃ b v', inUse v.sb v.disk b = false ∧ bmap v ip 1 = .ok (b, ip.setAddr 1 b, v') := by
  have hmain : ∃ s, main thirtyFiles = .ok s ∧ Built thirtyFiles s :=
    exists_main (by decide +kernel) (by decide +kernel) (by decide +kernel) (by decide +kernel)
  obtain ⟨s, hs, h⟩ := hmain
  have hsb : (mounted s).sb = sb := h.readsb_eq
  have hlen : (rootBytes thirtyFiles).length = 512 := by decide +kernel
  have hnone : (dinodeOf sb s.disk ROOTINO).ref s.disk (slotOf 1) = 0 := by
    by_contra hne
    have := (h.ref_iff h.root_lt 1).1 hne
    rw [content_root, hlen] at this
    exact absurd this (by decide)
  have hbit : inUse sb s.disk (nmeta + 1) = false := by
    rw [h.bits _ (by decide), h.freeblock]
    decide +kernel
  refine ⟨s, hs, ?_⟩
  dsimp only
  rw [hsb]
  refine ⟨?_, hnone, ?_⟩
  · change 1 < blocks (dinodeOf sb s.disk ROOTINO).size
    rw [h.root_size, hlen]
    decide
  · obtain ⟨b, v', hb, hballoc⟩ := exists_balloc (v := mounted s) (b := nmeta + 1)
      (by rw [hsb]; decide) (by rw [hsb]; exact hbit)
    rw [hsb] at hb
    refine ⟨b, v', hb, ?_⟩
    have hzero : (dinodeOf sb (mounted s).disk ROOTINO).addrs 1 = 0 := by
      rw [← Dinode.ref_direct (by decide)]
      exact hnone
    rw [bmap, if_pos (by decide), bmapAddr, if_pos hzero, hballoc]
    rfl

end Mkfs
end Xv6
