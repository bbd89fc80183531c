/-
# The image that `main` writes

`Built files s` is the image at the end of `main` (`xv6/mkfs.c`, lines 93-168):
the files, the root directory with its size rounded up (lines 155-160), and the
free map (lines 235-250).  `main_built` and `exists_main` say that `main` writes
it, and that it does so whenever there is room.
-/

import Xv6.Mkfs.Files

namespace Xv6
namespace Mkfs

open Lib Fs Function

variable {s s' : Img} {files : List File}

/-! ### The root directory -/

/-- A cleared inode names no block. -/
theorem ref_zero (disk : Disk) (p : Slot) : Dinode.zero.ref disk p = 0 := by
  cases p <;> simp [Dinode.ref, Dinode.zero]

theorem format_image : Image format fun _ => [] := by
  have hblk : ∀ b, b ≠ 1 → format.disk b = zeroBlock := by
    intro b hb
    simp only [format, update_of_ne hb]
  have hino : ∀ i, dinodeOf sb format.disk i = Dinode.zero := by
    intro i
    have hlt : 1 < IBLOCK i sb := Nat.lt_of_lt_of_le (by decide) (Nat.le_add_left 32 _)
    rw [dinodeOf, hblk _ (Nat.ne_of_gt hlt)]
    exact getDinode_zeroBlock fun _ _ _ => rfl
  have hrefs : ∀ x, (viewOf format).refs x = 0 := by
    rintro ⟨i, p⟩
    have hzero : (viewOf format).ino i = Dinode.zero := by
      unfold viewOf inos
      dsimp only
      split
      · exact hino i
      · rfl
    rw [View.refs, hzero, ref_zero]
  have hnone : ∀ x {P : Prop}, (viewOf format).refs x ≠ 0 → P := fun x _ hx =>
    absurd (hrefs x) hx
  refine ⟨by decide, ⟨Nat.le_refl _, by decide, fun x _ hx => hnone x hx, fun x => hnone x, ?_, ?_,
    fun i => ⟨fun bn => ⟨hnone _, ?_⟩, ⟨hnone _, ?_⟩, Nat.zero_le _, by simp⟩⟩, ?_, ?_, rfl⟩
  · intro b hlo hhi
    exact absurd (Nat.lt_of_lt_of_le hhi hlo) (Nat.lt_irrefl _)
  · intro b hb
    have hlo : nmeta ≤ b := hb
    refine hblk b ?_
    rintro rfl
    exact absurd hlo (by decide)
  · exact fun hlt => absurd hlt (Nat.not_lt_zero bn)
  · exact fun hlt => absurd hlt (by decide)
  · intro i hpos hlt
    have hlt' : i < 1 := hlt
    omega
  · exact fun i _ _ => hino i

theorem Room.dirent {name : List Byte} {i n : ℕ} (hsize : n + 16 ≤ MAXFILE * BSIZE)
    (hfree : s.freeblock + cost (blocks (n + 16)) ≤ FSSIZE + cost (blocks n)) :
    Room s n (direntBytes i name) := by
  refine ⟨?_, ?_⟩ <;> rwa [length_direntBytes]

/-- **The empty root directory**, with the entries `.` and `..`. -/
theorem exists_makeRoot : ∃ s, makeRoot = .ok s ∧ Holding [] s := by
  obtain ⟨s₁, hs₁, himage₁, hino₁, hfb₁⟩ := format_image.ialloc (by decide) (by decide)
  have hlt : ROOTINO < s₁.freeinode := by
    rw [hino₁]
    decide
  obtain ⟨s₂, hs₂, hdot⟩ := himage₁.iappend (p := direntBytes ROOTINO [46])
    (by decide : 0 < ROOTINO) hlt (Room.dirent (by decide) (by rw [hfb₁]; decide))
  have hfb₂ := hdot.freeblock
  rw [hfb₁, length_direntBytes] at hfb₂
  have hfb₂' : s₂.freeblock = nmeta + 1 := hfb₂
  obtain ⟨s₃, hs₃, hdots⟩ := hdot.image.iappend
    (p := direntBytes ROOTINO [46, 46]) (by decide : 0 < ROOTINO) (hdot.freeinode ▸ hlt)
    (Room.dirent (by decide) (by rw [hfb₂']; decide))
  have hfb₃ := hdots.freeblock
  rw [hfb₂', length_direntBytes] at hfb₃
  have hfb₃' : s₃.freeblock = nmeta + total [] := Nat.add_right_cancel (m := 1) hfb₃
  have hcontent : update (update (fun _ => []) ROOTINO
      ([] ++ direntBytes ROOTINO [46])) ROOTINO
        (update (fun _ => []) ROOTINO ([] ++ direntBytes ROOTINO [46]) ROOTINO ++
          direntBytes ROOTINO [46, 46]) = content [] := by
    funext i
    rcases eq_or_ne i ROOTINO with rfl | hi
    · rfl
    · rw [update_of_ne hi, update_of_ne hi, content, if_neg hi]
      simp
  refine ⟨s₃, ?_, hcontent ▸ hdots.image, ?_, hfb₃'⟩
  · have hs₁' : ialloc format T_DIR = .ok (ROOTINO, s₁) := hs₁
    rw [makeRoot, hs₁', ok_bind]
    dsimp only
    rw [if_pos rfl, hs₂, ok_bind]
    exact hs₃
  · rw [hdots.freeinode, hdot.freeinode, hino₁]
    rfl

/-! ### The last steps -/

/-- The size that the inodes are given at the end. -/
def sizeAt (files : List File) (i : ℕ) : ℕ :=
  if i = ROOTINO then ((rootBytes files).length / BSIZE + 1) * BSIZE
  else (content files i).length

/-- The image with the files in it. -/
structure Built (files : List File) (s : Img) : Prop where
  freeinode : s.freeinode = 2 + files.length
  freeblock : s.freeblock = nmeta + total files
  sound : Sound (viewOf s) s.freeblock (fun i => blocks (content files i).length) (content files)
  used : ∀ i, 0 < i → i < s.freeinode →
    Labelled (dinodeOf sb s.disk i) (kind i) (sizeAt files i)
  unused : ∀ i < NINO, i = 0 ∨ s.freeinode ≤ i → dinodeOf sb s.disk i = Dinode.zero
  super : s.disk 1 = format.disk 1
  bits : ∀ b < BPB, inUse sb s.disk b = decide (b < s.freeblock)

theorem getBit_foldl_setBit (n b : ℕ) :
    getBit ((List.range n).foldl setBit zeroBlock) b = decide (b < n) := by
  induction n with
  | zero => simp [getBit, zeroBlock]
  | succ n ih =>
    rw [List.range_succ, List.foldl_append, List.foldl_cons, List.foldl_nil, getBit_setBit, ih,
      ← Bool.decide_or]
    exact decide_eq_decide.2 (by omega)

/-- The root with its size rounded up. -/
def rounded (files : List File) (s : Img) : Dinode :=
  { dinodeOf sb s.disk ROOTINO with size := sizeAt files ROOTINO }

theorem rounded_fits (hn : 2 + files.length ≤ NINO) : (rounded files s).Fits := by
  refine { dinodeOf_fits sb s.disk ROOTINO with size := ?_ }
  have hlen := length_rootBytes files
  have hmax : 16 * NINO + BSIZE < 2 ^ 32 := by decide
  unfold rounded sizeAt BSIZE at *
  dsimp only
  rw [if_pos rfl]
  omega

theorem Holding.fixRoot (h : Holding files s) :
    fixRoot s = .ok { s with disk := setDinode sb s.disk ROOTINO (rounded files s) } := by
  have hlab := h.image.used ROOTINO (by decide) h.root_lt
  rw [Mkfs.fixRoot, rinode_ok (by decide), ok_bind, winode_ok (by decide), hlab.size, content_root]
  rfl

/-- **The last steps of `main`**: the size of the root and the free map. -/
theorem Holding.finish (h : Holding files s) (hn : 2 + files.length ≤ NINO) :
    ∃ s', (Mkfs.fixRoot s >>= fun s => balloc s s.freeblock) = .ok s' ∧ Built files s' := by
  have hfits := rounded_fits (s := s) hn
  have hused : s.freeblock < BSIZE * 8 := Nat.lt_of_le_of_lt h.image.sound.hi (by decide)
  have hroot := h.root_lt
  -- an inode that is read at the end is the one before, but for the size of the root
  have hino : ∀ i < NINO, ∀ bits : Block,
      dinodeOf sb (update (setDinode sb s.disk ROOTINO (rounded files s)) sb.bmapstart bits)
        i = if i = ROOTINO then rounded files s else dinodeOf sb s.disk i := by
    intro i hi bits
    have hlt : IBLOCK i sb < sb.bmapstart := IBLOCK_lt hi
    rw [dinodeOf_update (Nat.ne_of_gt hlt)]
    split
    · next hroot => rw [hroot, dinodeOf_setDinode hfits]
    · next hne => exact dinodeOf_setDinode_of_ne hne
  refine ⟨⟨update (setDinode sb s.disk ROOTINO (rounded files s)) sb.bmapstart
    ((List.range s.freeblock).foldl setBit zeroBlock), s.freeinode, s.freeblock⟩, ?_,
    h.freeinode, h.freeblock, ?_, ?_, ?_, ?_, ?_⟩
  · rw [h.fixRoot, ok_bind, balloc, if_pos hused]
    rfl
  · refine h.image.sound.of_same (fun j => ?_) fun b hb => ?_
    · unfold viewOf inos
      dsimp only
      split
      next hj =>
        rw [hino j (Nat.lt_of_lt_of_le hj h.image.inodes)]
        split
        · next hroot => rw [hroot]; rfl
        · rfl
      · rfl
    · have hlt : sb.bmapstart < nmeta := by decide
      unfold viewOf
      dsimp only
      rw [update_of_ne (by omega), setDinode_data (by decide) hb]
  · intro i hpos hi
    dsimp only at hi ⊢
    have hlab := h.image.used i hpos hi
    rw [hino i (Nat.lt_of_lt_of_le hi h.image.inodes)]
    split
    next hroot =>
      subst hroot
      exact ⟨hlab.type, hlab.nlink, rfl⟩
    next hne =>
      refine ⟨hlab.type, hlab.nlink, ?_⟩
      rw [hlab.size, sizeAt, if_neg hne]
  · intro i hi hor
    dsimp only at hor ⊢
    rw [hino i hi, if_neg]
    · exact h.image.unused i hi hor
    · rintro rfl
      rcases hor with h0 | hge
      · exact absurd h0 (by decide)
      · omega
  · dsimp only
    rw [update_of_ne (by decide), setDinode_super, h.image.super]
  · intro b hb
    have hblock : BBLOCK b sb = sb.bmapstart := by
      rw [BBLOCK, Nat.div_eq_of_lt hb, Nat.zero_add]
    rw [inUse, hblock, Nat.mod_eq_of_lt hb]
    dsimp only
    rw [update_self, getBit_foldl_setBit]

/-- **What `main` writes.** -/
theorem main_built (hn : 2 + files.length ≤ NINO) (hok : main files = .ok s) : Built files s := by
  obtain ⟨s₀, hs₀, h₀⟩ := exists_makeRoot
  rw [main, hs₀, ok_bind] at hok
  obtain ⟨s₁, hs₁, hok⟩ := bind_eq_ok.1 hok
  have h₁ := h₀.of_addFiles files hn hs₁
  obtain ⟨s₂, hs₂, hbuilt⟩ := h₁.finish hn
  obtain rfl := Except.ok.inj (hs₂.symm.trans hok)
  exact hbuilt

/-- **`main` writes the image**, if there is room for the files. -/
theorem exists_main (hn : 2 + files.length ≤ NINO) (hname : ∀ f ∈ files, slash ∉ f.name)
    (hsize : ∀ f ∈ files, f.bytes.length ≤ MAXFILE * BSIZE)
    (hfree : nmeta + total files ≤ FSSIZE) : ∃ s, main files = .ok s ∧ Built files s := by
  obtain ⟨s₀, hs₀, h₀⟩ := exists_makeRoot
  obtain ⟨s₁, hs₁, h₁⟩ := h₀.addFiles files hn hname hsize hfree
  obtain ⟨s₂, hs₂, hbuilt⟩ := h₁.finish hn
  refine ⟨s₂, ?_, hbuilt⟩
  rw [main, hs₀, ok_bind, hs₁, ok_bind]
  exact hs₂

end Mkfs
end Xv6
