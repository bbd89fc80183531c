/-
# The image between two calls

`Image s c`: the image of `mkfs` with `s.freeinode` inodes, of which number `i`
holds the bytes `c i` and nothing else.  The calls of `main` that build the file
system keep it: `ialloc` (`xv6/mkfs.c`, lines 220-232) starts an inode, and
`iappend` (lines 255-297) adds bytes to one just if there is room for them.
-/

import Xv6.Mkfs.Append

namespace Xv6
namespace Mkfs

open Lib Fs Function

variable {s s' : Img} {inum : ℕ} {c : ℕ → List Byte} {p : List Byte}

/-- The first inode is the root directory, the others are files. -/
def kind (i : ℕ) : ℕ := if i = ROOTINO then T_DIR else T_FILE

/-- The inode that `ialloc` writes. -/
def freshInode (type : ℕ) : Dinode := { Dinode.zero with type := type, nlink := 1 }

/-- An inode without its addresses. -/
structure Labelled (d : Dinode) (type size : ℕ) : Prop where
  type : d.type = type
  nlink : d.nlink = 1
  size : d.size = size

structure Image (s : Img) (c : ℕ → List Byte) : Prop where
  inodes : s.freeinode ≤ NINO
  sound : Sound (viewOf s) s.freeblock (fun i => blocks (c i).length) c
  used : ∀ i, 0 < i → i < s.freeinode → Labelled (dinodeOf sb s.disk i) (kind i) (c i).length
  unused : ∀ i < NINO, i = 0 ∨ s.freeinode ≤ i → dinodeOf sb s.disk i = Dinode.zero
  super : s.disk 1 = format.disk 1

/-! ### Sizes -/

/-- No inode has more than `MAXFILE` blocks. -/
theorem Image.blocks_le (h : Image s c) (i : ℕ) : blocks (c i).length ≤ MAXFILE := by
  by_contra hlt
  have hne := ((h.sound.holds i).mapped MAXFILE).2 (by omega)
  apply hne
  rw [slotOf, if_neg (by decide), View.refs, Dinode.ref, if_neg]
  exact fun hk => absurd hk.2 (by decide)

theorem Image.size_le (h : Image s c) (i : ℕ) : (c i).length ≤ MAXFILE * BSIZE :=
  Nat.le_trans (le_blocks_mul _) (Nat.mul_le_mul_right _ (h.blocks_le i))

theorem Image.empty (h : Image s c) {i : ℕ} (hi : s.freeinode ≤ i) : c i = [] := by
  have hzero : (viewOf s).refs (i, slotOf 0) = 0 := by
    rw [slotOf, if_pos (by decide), View.refs, viewOf]
    simp [inos, Nat.not_lt_of_ge hi, Dinode.ref, Dinode.zero]
  have hnot : ¬0 < blocks (c i).length := fun hlt =>
    ((h.sound.holds i).mapped 0).2 hlt hzero
  have := le_blocks_mul (c i).length
  rw [Nat.eq_zero_of_not_pos hnot, Nat.zero_mul] at this
  exact List.eq_nil_of_length_eq_zero (Nat.le_zero.1 this)

/-! ### Writing an inode -/

theorem nmeta_lt : nmeta < FSSIZE := by decide

theorem rinode_ok (h : inum < NINO) : rinode s inum = .ok (dinodeOf sb s.disk inum) := by
  have hlt := IBLOCK_lt h
  have hin := nmeta_lt
  unfold rinode
  rw [rsect_ok (by omega)]
  rfl

theorem winode_ok (h : inum < NINO) (d : Dinode) :
    winode s inum d = .ok { s with disk := setDinode sb s.disk inum d } := by
  have hlt := IBLOCK_lt h
  have hin := nmeta_lt
  unfold winode
  rw [rsect_ok (by omega)]
  rfl

theorem inos_setDinode {disk : Disk} {n n' : ℕ} {d : Dinode} (hd : d.Fits) (hi : inum < n')
    (hn : ∀ j, j ≠ inum → (j < n' ↔ j < n)) :
    inos (setDinode sb disk inum d) n' = update (inos disk n) inum d := by
  funext j
  unfold inos
  rcases eq_or_ne j inum with rfl | hj
  · rw [update_self, if_pos hi, dinodeOf_setDinode hd]
  · rw [update_of_ne hj, dinodeOf_setDinode_of_ne hj]
    simp only [hn j hj]

theorem setDinode_data {disk : Disk} {d : Dinode} {b : ℕ} (h : inum < NINO) (hb : nmeta ≤ b) :
    setDinode sb disk inum d b = disk b := by
  have := IBLOCK_lt h
  exact update_of_ne (by omega) ..

theorem setDinode_super (disk : Disk) (inum : ℕ) (d : Dinode) :
    setDinode sb disk inum d 1 = disk 1 := by
  have hlt : 1 < IBLOCK inum sb := Nat.lt_of_lt_of_le (by decide) (Nat.le_add_left 32 _)
  exact update_of_ne (Nat.ne_of_lt hlt) ..

theorem freshInode_fits (i : ℕ) : (freshInode (kind i)).Fits where
  type := by
    unfold freshInode kind
    dsimp only
    split <;> decide
  major := Nat.two_pow_pos 16
  minor := Nat.two_pow_pos 16
  nlink := Nat.one_lt_two_pow (by decide)
  size := Nat.two_pow_pos 32
  addrs _ := Nat.two_pow_pos 32
  beyond _ _ := rfl

/-- **`ialloc` starts an empty inode.** -/
theorem Image.ialloc (h : Image s c) (hi : 0 < s.freeinode) (hlt : s.freeinode < NINO) :
    ∃ s', ialloc s (kind s.freeinode) = .ok (s.freeinode, s') ∧ Image s' c ∧
      s'.freeinode = s.freeinode + 1 ∧ s'.freeblock = s.freeblock := by
  have hfits := freshInode_fits s.freeinode
  refine ⟨⟨setDinode sb s.disk s.freeinode (freshInode (kind s.freeinode)), s.freeinode + 1,
    s.freeblock⟩, ?_, ⟨hlt, ?_, ?_, ?_, ?_⟩, rfl, rfl⟩
  · rw [Mkfs.ialloc, winode_ok hlt]
    rfl
  · refine h.sound.of_same (fun j => ?_) fun b hb => setDinode_data hlt hb
    unfold viewOf
    dsimp only
    rw [inos_setDinode hfits (Nat.lt_succ_self _) (n := s.freeinode) (by omega)]
    rcases eq_or_ne j s.freeinode with rfl | hj
    · rw [update_self, inos, if_neg (Nat.lt_irrefl _)]
      rfl
    · rw [update_of_ne hj]
  · intro i hpos hle
    dsimp only at hle ⊢
    rcases eq_or_ne i s.freeinode with rfl | hne
    · rw [dinodeOf_setDinode hfits, h.empty (Nat.le_refl _)]
      exact ⟨rfl, rfl, rfl⟩
    · rw [dinodeOf_setDinode_of_ne hne]
      exact h.used i hpos (by omega)
  · intro i hlt' hor
    dsimp only at hor ⊢
    rw [dinodeOf_setDinode_of_ne (by omega)]
    exact h.unused i hlt' (by omega)
  · rw [← h.super]
    exact setDinode_super s.disk s.freeinode (freshInode (kind s.freeinode))

/-- What `iappend` leaves. -/
structure Grown (s : Img) (c : ℕ → List Byte) (inum : ℕ) (p : List Byte) (s' : Img) : Prop where
  image : Image s' (update c inum (c inum ++ p))
  freeinode : s'.freeinode = s.freeinode
  freeblock : s'.freeblock + cost (blocks (c inum).length) =
    s.freeblock + cost (blocks ((c inum).length + p.length))

/-- The copy of the inode, with the new size, fits its record. -/
theorem Appended.fits {m : ℕ → ℕ} {din' : Dinode} {n : ℕ}
    (h : Appended s inum (dinodeOf sb s.disk inum) m c p din' s') (hn : n ≤ MAXFILE * BSIZE) :
    Dinode.Fits { din' with size := n } := by
  have hold := dinodeOf_fits sb s.disk inum
  have hin := h.sound.hi
  refine ⟨?_, ?_, ?_, ?_, ?_, ?_, ?_⟩
  · exact h.same.type ▸ hold.type
  · exact h.same.major ▸ hold.major
  · exact h.same.minor ▸ hold.minor
  · exact h.same.nlink ▸ hold.nlink
  · exact Nat.lt_of_le_of_lt hn (by decide)
  · intro j
    dsimp only
    by_cases hzero : din'.addrs j = 0
    · rw [hzero]
      decide
    rcases Nat.lt_trichotomy j NDIRECT with hj | rfl | hj
    · have := (h.sound.range (inum, slotOf j) (refs_direct s' inum din' hj ▸ hzero)).2
      rw [refs_direct _ _ _ hj] at this
      unfold FSSIZE at hin
      omega
    · have hne : (viewWith s' inum din').refs (inum, .table) ≠ 0 := by
        rw [View.refs, viewWith_ino]
        exact hzero
      have := (h.sound.range _ hne).2
      rw [View.refs, viewWith_ino] at this
      unfold FSSIZE at hin
      simp only [Dinode.ref] at this
      omega
    · rw [h.same.beyond j hj, hold.beyond j hj]
      decide
  · intro j hj
    exact (h.same.beyond j hj).trans (hold.beyond j hj)

/-- The loop leaves the inodes on the disk. -/
theorem Appended.dinodeOf_eq {m : ℕ → ℕ} {din din' : Dinode} {i : ℕ}
    (h : Appended s inum din m c p din' s') (hi : i < NINO) :
    dinodeOf sb s'.disk i = dinodeOf sb s.disk i := by
  have := IBLOCK_lt hi
  rw [dinodeOf, h.area _ (by omega), dinodeOf]

/-- **`iappend` adds its bytes**, if there is room for them. -/
theorem Image.iappend (h : Image s c) (hpos : 0 < inum) (hi : inum < s.freeinode)
    (hroom : Room s (c inum).length p) : ∃ s', iappend s inum p = .ok s' ∧ Grown s c inum p s' := by
  have hlt : inum < NINO := Nat.lt_of_lt_of_le hi h.inodes
  have hlab := h.used inum hpos hi
  have hsound := h.sound
  rw [← viewWith_self hi] at hsound
  obtain ⟨din', s₁, happ, hloop⟩ :=
    exists_appendLoop hsound h.inodes rfl rfl (Nat.le_refl p.length) hroom
  have hfits := happ.fits hroom.size
  generalize hd : { din' with size := (c inum).length + p.length : Dinode } = d at hfits
  refine ⟨{ s₁ with disk := setDinode sb s₁.disk inum d }, ?_,
    ⟨⟨happ.freeinode ▸ h.inodes, ?_, ?_, ?_, ?_⟩, happ.freeinode, happ.freeblock⟩⟩
  · rw [Mkfs.iappend, rinode_ok hlt, ok_bind, hlab.size, hloop, ok_bind]
    dsimp only
    rw [hd, winode_ok hlt]
  · have hm : (fun i => blocks (update c inum (c inum ++ p) i).length) =
        update (fun i => blocks (c i).length) inum
          (blocks ((c inum).length + p.length)) := by
      funext i
      rcases eq_or_ne i inum with rfl | hne
      · simp
      · simp [hne]
    rw [hm]
    refine happ.sound.of_same (fun j => ?_) fun b hb => setDinode_data hlt hb
    unfold viewOf viewWith
    dsimp only
    rw [inos_setDinode hfits (happ.freeinode ▸ hi) (n := s₁.freeinode) fun _ _ => Iff.rfl, ← hd]
    rcases eq_or_ne j inum with rfl | hne
    · rw [update_self, update_self]
    · rw [update_of_ne hne, update_of_ne hne]
  · intro i hpos' hlt'
    dsimp only at hlt' ⊢
    rw [happ.freeinode] at hlt'
    rcases eq_or_ne i inum with rfl | hne
    · rw [dinodeOf_setDinode hfits, update_self, List.length_append, ← hd]
      exact ⟨happ.same.type.trans hlab.type, happ.same.nlink.trans hlab.nlink, rfl⟩
    · rw [dinodeOf_setDinode_of_ne hne, update_of_ne hne,
        happ.dinodeOf_eq (Nat.lt_of_lt_of_le hlt' h.inodes)]
      exact h.used i hpos' hlt'
  · intro i hlt' hor
    dsimp only at hor ⊢
    rw [happ.freeinode] at hor
    rw [dinodeOf_setDinode_of_ne (by omega), happ.dinodeOf_eq hlt']
    exact h.unused i hlt' hor
  · rw [← h.super, ← happ.area 1 (by decide)]
    exact setDinode_super s₁.disk inum d

/-- An `iappend` that ends had room for its bytes. -/
theorem Image.room (h : Image s c) (hpos : 0 < inum) (hi : inum < s.freeinode)
    (hok : Mkfs.iappend s inum p = .ok s') : Room s (c inum).length p := by
  have hlt : inum < NINO := Nat.lt_of_lt_of_le hi h.inodes
  have hsound := h.sound
  rw [← viewWith_self hi] at hsound
  rw [Mkfs.iappend, rinode_ok hlt, ok_bind, (h.used inum hpos hi).size] at hok
  obtain ⟨r, hloop, -⟩ := bind_eq_ok.1 hok
  exact appendLoop_room hsound h.inodes rfl rfl (Nat.le_refl p.length) (h.size_le inum) hloop

theorem Image.grown (h : Image s c) (hpos : 0 < inum) (hi : inum < s.freeinode)
    (hok : Mkfs.iappend s inum p = .ok s') : Grown s c inum p s' := by
  obtain ⟨s₁, hs₁, hgrown⟩ := h.iappend hpos hi (h.room hpos hi hok)
  obtain rfl := Except.ok.inj (hs₁.symm.trans hok)
  exact hgrown

end Mkfs
end Xv6
