/-
# The block of a turn of `iappend`

`iappend` (`xv6/mkfs.c`, lines 255-297) works on a copy of the inode and writes
it back at its end.  `viewWith s inum din` is the image with that copy in the
place of inode `inum`.  The first half of a turn (lines 269-287) finds the block
for the next byte and takes one for it, or two, if the inode has none: on the
view that is a step of `Sound`, and `ownBlock_cap` says that the blocks taken
were in the image if they can be read afterwards.
-/

import Xv6.Mkfs.Image

namespace Xv6
namespace Mkfs

open Lib Fs Function

/-- The inodes that the inode area has room for. -/
def NINO : ℕ := ninodeblocks * IPB

/-- The inodes that have been allocated. -/
def inos (disk : Disk) (n i : ℕ) : Dinode := if i < n then dinodeOf sb disk i else Dinode.zero

def viewOf (s : Img) : View := ⟨inos s.disk s.freeinode, s.disk⟩

/-- The image with a copy of an inode in its place. -/
def viewWith (s : Img) (inum : ℕ) (din : Dinode) : View :=
  ⟨update (inos s.disk s.freeinode) inum din, s.disk⟩

variable {s s' : Img} {inum fbn x : ℕ} {din din' : Dinode} {m : ℕ → ℕ} {c : ℕ → List Byte}

/-- The inode area lies before the data blocks. -/
theorem IBLOCK_lt {i : ℕ} (h : i < NINO) : IBLOCK i sb < nmeta - 1 := by
  unfold NINO at h
  have : i / IPB < ninodeblocks := Nat.div_lt_of_lt_mul (by rw [Nat.mul_comm]; exact h)
  unfold IBLOCK sb nmeta nbitmap FSSIZE BSIZE
  dsimp only
  omega

/-- Writing a data block leaves the inodes. -/
theorem inos_update {disk : Disk} {n b : ℕ} {blk : Block} (hn : n ≤ NINO) (hb : nmeta ≤ b) :
    inos (update disk b blk) n = inos disk n := by
  funext i
  unfold inos
  split
  next hi =>
    have := IBLOCK_lt (Nat.lt_of_lt_of_le hi hn)
    exact dinodeOf_update (by omega)
  · rfl

theorem viewWith_self (h : inum < s.freeinode) :
    viewWith s inum (dinodeOf sb s.disk inum) = viewOf s := by
  have hino : inos s.disk s.freeinode inum = dinodeOf sb s.disk inum := if_pos h
  unfold viewWith viewOf
  rw [← hino, update_eq_self]

theorem viewWith_ino (s : Img) (inum : ℕ) (din : Dinode) : (viewWith s inum din).ino inum = din :=
  update_self ..

/-! ### The block of a turn -/

/-- What the first half of a turn leaves: inode `inum` has its blocks up to `fbn`, which is
block `x`. -/
structure Owned (s : Img) (inum : ℕ) (din : Dinode) (m : ℕ → ℕ) (c : ℕ → List Byte) (fbn x : ℕ)
    (din' : Dinode) (s' : Img) : Prop where
  sound : Sound (viewWith s' inum din') s'.freeblock (update m inum (fbn + 1)) c
  block : (viewWith s' inum din').refs (inum, slotOf fbn) = x
  freeinode : s'.freeinode = s.freeinode
  freeblock : s'.freeblock + cost (m inum) = s.freeblock + cost (fbn + 1)
  same : SameMeta din din'
  area : ∀ b < nmeta, s'.disk b = s.disk b

theorem refs_direct (s : Img) (inum : ℕ) (din : Dinode) (hfbn : fbn < NDIRECT) :
    (viewWith s inum din).refs (inum, slotOf fbn) = din.addrs fbn := by
  rw [slotOf, if_pos hfbn, View.refs, viewWith_ino, Dinode.ref, if_pos hfbn]

theorem refs_entry (s : Img) (inum : ℕ) {din : Dinode} (hfbn : NDIRECT ≤ fbn)
    (hmax : fbn < MAXFILE) (htab : din.addrs NDIRECT ≠ 0) :
    (viewWith s inum din).refs (inum, slotOf fbn) =
      word (s.disk (din.addrs NDIRECT)) (fbn - NDIRECT) := by
  have hk : fbn - NDIRECT < NINDIRECT := by
    unfold MAXFILE at hmax
    omega
  rw [slotOf, if_neg (by omega), View.refs, viewWith_ino, Dinode.ref, if_pos ⟨htab, hk⟩]
  rfl

theorem rsect_ok {b : ℕ} (h : b < FSSIZE) : rsect s b = .ok (s.disk b) := if_pos h

section ownBlock

variable (h : Sound (viewWith s inum din) s.freeblock m c)

include h

theorem Sound.addr_iff (hfbn : fbn < NDIRECT) : din.addrs fbn ≠ 0 ↔ fbn < m inum := by
  rw [← refs_direct s inum din hfbn]
  exact (h.holds inum).mapped fbn

theorem Sound.table_iff : din.addrs NDIRECT ≠ 0 ↔ NDIRECT < m inum := by
  have := (h.holds inum).table
  rwa [View.refs, viewWith_ino] at this

theorem Sound.table_lt (hm : NDIRECT < m inum) : din.addrs NDIRECT < s.freeblock := by
  have := (h.table_eq hm).2
  rwa [viewWith_ino] at this

theorem Sound.table_ge (hm : NDIRECT < m inum) : nmeta ≤ din.addrs NDIRECT := by
  have hne : (viewWith s inum din).refs (inum, .table) ≠ 0 := (h.holds inum).table.2 hm
  have := (h.range _ hne).1
  rwa [View.refs, viewWith_ino] at this

/-- The block is there. -/
theorem ownBlock_mapped (hm : m inum = fbn + 1) (hmax : fbn < MAXFILE) :
    ∃ x, ownBlock s din fbn = .ok (x, din, s) ∧ Owned s inum din m c fbn x din s := by
  have howned : ∀ x, (viewWith s inum din).refs (inum, slotOf fbn) = x →
      Owned s inum din m c fbn x din s := by
    intro x hx
    refine ⟨?_, hx, rfl, by rw [hm], SameMeta.refl din, fun _ _ => rfl⟩
    rw [← hm, update_eq_self]
    exact h
  unfold ownBlock
  split
  next hfbn =>
    have hne : din.addrs fbn ≠ 0 := (h.addr_iff hfbn).2 (by omega)
    refine ⟨din.addrs fbn, ?_, howned _ (refs_direct s inum din hfbn)⟩
    simp [ownAddr, hne]
  next hfbn =>
    have htab : din.addrs NDIRECT ≠ 0 := h.table_iff.2 (by omega)
    have hlt : din.addrs NDIRECT < FSSIZE := Nat.lt_of_lt_of_le (h.table_lt (by omega)) h.hi
    have hrefs := refs_entry s inum (Nat.le_of_not_lt hfbn) hmax htab
    have hne : word (s.disk (din.addrs NDIRECT)) (fbn - NDIRECT) ≠ 0 := by
      rw [← hrefs]
      exact ((h.holds inum).mapped fbn).2 (by omega)
    refine ⟨_, ?_, howned _ hrefs⟩
    simp [ownAddr, htab, rsect_ok hlt, hne, bind, Except.bind]

/-- A direct block is taken. -/
theorem ownBlock_direct (hm : m inum = fbn) (hfbn : fbn < NDIRECT) :
    ownBlock s din fbn = .ok (s.freeblock, din.setAddr fbn s.freeblock,
      { s with freeblock := s.freeblock + 1 }) := by
  have hzero : din.addrs fbn = 0 := by
    by_contra hne
    have := (h.addr_iff hfbn).1 hne
    omega
  simp [ownBlock, hfbn, ownAddr, hzero, Dinode.setAddr]

/-- A block behind the first indirect one is taken. -/
theorem ownBlock_entry (hm : m inum = fbn) (hfbn : NDIRECT < fbn) (hmax : fbn < MAXFILE) :
    ownBlock s din fbn = .ok (s.freeblock, din,
      { s with
        freeblock := s.freeblock + 1
        disk := update s.disk (din.addrs NDIRECT)
          (setWord (s.disk (din.addrs NDIRECT)) (fbn - NDIRECT) s.freeblock) }) := by
  have htab : din.addrs NDIRECT ≠ 0 := h.table_iff.2 (by omega)
  have hlt : din.addrs NDIRECT < FSSIZE := Nat.lt_of_lt_of_le (h.table_lt (by omega)) h.hi
  have hzero : word (s.disk (din.addrs NDIRECT)) (fbn - NDIRECT) = 0 := by
    rw [← refs_entry s inum (Nat.le_of_lt hfbn) hmax htab]
    by_contra hne
    have := ((h.holds inum).mapped fbn).1 hne
    omega
  simp [ownBlock, Nat.not_lt_of_lt hfbn, ownAddr, htab, rsect_ok hlt, hzero, wsect, bind,
    Except.bind]

/-- The first indirect block is taken, and before it the indirect block. -/
theorem ownBlock_table (hm : m inum = NDIRECT) (hlt : s.freeblock < FSSIZE) :
    ownBlock s din NDIRECT = .ok (s.freeblock + 1, din.setAddr NDIRECT s.freeblock,
      { s with
        freeblock := s.freeblock + 2
        disk := update s.disk s.freeblock
          (setWord (s.disk s.freeblock) 0 (s.freeblock + 1)) }) := by
  have hzero : din.addrs NDIRECT = 0 := by
    by_contra hne
    have := h.table_iff.1 hne
    omega
  have hblock : s.disk s.freeblock = zeroBlock := h.zero _ (Nat.le_refl _)
  simp [ownBlock, ownAddr, hzero, rsect, Dinode.setAddr, hlt, hblock, word_zeroBlock, wsect, bind,
    Except.bind]

end ownBlock

theorem viewWith_setAddr (s : Img) (inum k b fb : ℕ) (din : Dinode) :
    viewWith { s with freeblock := fb } inum (din.setAddr k b) =
      (viewWith s inum din).setAddr inum k b := by
  unfold viewWith View.setAddr
  simp

theorem viewWith_update {b f : ℕ} {blk : Block} (hn : s.freeinode ≤ NINO) (hb : nmeta ≤ b)
    (inum : ℕ) (din : Dinode) :
    viewWith { s with freeblock := f, disk := update s.disk b blk } inum din =
      (viewWith s inum din).setBlk b blk := by
  unfold viewWith View.setBlk
  dsimp only
  rw [inos_update hn hb]

theorem cost_succ {n : ℕ} (h : n ≠ NDIRECT) : cost (n + 1) = cost n + 1 := by
  unfold cost
  by_cases hn : NDIRECT < n
  · rw [if_pos hn, if_pos (Nat.lt_succ_of_lt hn)]
  · rw [if_neg hn, if_neg (by omega)]

theorem cost_NDIRECT_succ : cost (NDIRECT + 1) = cost NDIRECT + 2 := rfl

/-- The block that has been given to an inode is a data block of the image. -/
theorem Owned.data (h : Owned s inum din m c fbn x din' s') : nmeta ≤ x ∧ x < FSSIZE := by
  have hne : (viewWith s' inum din').refs (inum, slotOf fbn) ≠ 0 := by
    rw [((h.sound.holds inum).mapped fbn), update_self]
    exact Nat.lt_succ_self fbn
  have hrange := h.sound.range _ hne
  rw [h.block] at hrange
  exact ⟨hrange.1, Nat.lt_of_lt_of_le hrange.2 h.sound.hi⟩

/-- **The first half of a turn**, with the blocks it needs in the image. -/
theorem exists_ownBlock (h : Sound (viewWith s inum din) s.freeblock m c)
    (hn : s.freeinode ≤ NINO) (hm : m inum = fbn + 1 ∨ m inum = fbn) (hmax : fbn < MAXFILE)
    (hcap : s.freeblock + cost (fbn + 1) ≤ FSSIZE + cost (m inum)) :
    ∃ x din' s', ownBlock s din fbn = .ok (x, din', s') ∧
      Owned s inum din m c fbn x din' s' := by
  rcases hm with hm | hm
  · obtain ⟨x, hok, howned⟩ := ownBlock_mapped h hm hmax
    exact ⟨x, din, s, hok, howned⟩
  rw [hm] at hcap
  have hlo := h.lo
  have hword : s.freeblock + 1 < FSSIZE + 1 → s.freeblock + 1 < 2 ^ 32 := by
    unfold FSSIZE
    omega
  rcases Nat.lt_trichotomy fbn NDIRECT with hfbn | rfl | hfbn
  · rw [cost_succ (Nat.ne_of_lt hfbn)] at hcap
    refine ⟨_, _, _, ownBlock_direct h hm hfbn, ?_, ?_, rfl, ?_, sameMeta_setAddr din
      (Nat.le_of_lt hfbn), fun _ _ => rfl⟩
    · have := h.own_direct (i := inum) (by omega) (by omega)
      rw [hm] at this
      rwa [viewWith_setAddr]
    · rw [refs_direct _ _ _ hfbn]
      exact update_self ..
    · rw [hm, cost_succ (Nat.ne_of_lt hfbn)]
      dsimp only
      omega
  · rw [cost_NDIRECT_succ] at hcap
    refine ⟨_, _, _, ownBlock_table h hm (by omega), ?_, ?_, rfl, ?_,
      sameMeta_setAddr din (Nat.le_refl _),
      fun b hb => update_of_ne (Nat.ne_of_lt (Nat.lt_of_lt_of_le hb hlo)) ..⟩
    · have := h.own_table hm (by omega)
      rw [← viewWith_setAddr s inum NDIRECT s.freeblock s.freeblock] at this
      rwa [viewWith_update hn hlo]
    · have htab : (din.setAddr NDIRECT s.freeblock).addrs NDIRECT = s.freeblock := by
        simp [Dinode.setAddr]
      rw [refs_entry _ _ (Nat.le_refl _) hmax, htab, Nat.sub_self]
      · dsimp only
        rw [update_self, word_setWord _ _ _ (hword (by omega))]
      rw [htab]
      unfold nmeta at hlo
      omega
    · rw [hm, cost_NDIRECT_succ]
      dsimp only
      omega
  · rw [cost_succ (Nat.ne_of_gt hfbn)] at hcap
    have hlt : NDIRECT < m inum := by omega
    have htab := h.table_iff.2 hlt
    refine ⟨_, _, _, ownBlock_entry h hm hfbn hmax, ?_, ?_, rfl, ?_, SameMeta.refl din,
      fun b hb => update_of_ne
        (Nat.ne_of_lt (Nat.lt_of_lt_of_le hb (h.table_ge hlt))) ..⟩
    · have := h.own_entry hlt (by omega) (by omega)
      rw [viewWith_ino, hm] at this
      rwa [viewWith_update hn (h.table_ge hlt)]
    · rw [refs_entry _ _ (Nat.le_of_lt hfbn) hmax htab]
      dsimp only
      rw [update_self, word_setWord _ _ _ (by omega)]
    · rw [hm, cost_succ (Nat.ne_of_gt hfbn)]
      dsimp only
      omega

/-- A block that can be read was taken from those the image has. -/
theorem ownBlock_cap (h : Sound (viewWith s inum din) s.freeblock m c)
    (hm : m inum = fbn + 1 ∨ m inum = fbn) (hmax : fbn < MAXFILE)
    (hok : ownBlock s din fbn = .ok (x, din', s')) (hx : x < FSSIZE) :
    s.freeblock + cost (fbn + 1) ≤ FSSIZE + cost (m inum) := by
  have hhi := h.hi
  rcases hm with hm | hm
  · rw [hm]
    omega
  rw [hm]
  rcases Nat.lt_trichotomy fbn NDIRECT with hfbn | rfl | hfbn
  · rw [ownBlock_direct h hm hfbn] at hok
    cases hok
    rw [cost_succ (Nat.ne_of_lt hfbn)]
    omega
  · rw [cost_NDIRECT_succ]
    rcases Nat.lt_or_ge s.freeblock FSSIZE with hlt | hge
    · rw [ownBlock_table h hm hlt] at hok
      cases hok
      omega
    · -- the indirect block is the first behind the image
      have hzero : din.addrs NDIRECT = 0 := by
        by_contra hne
        have := h.table_iff.1 hne
        omega
      simp [ownBlock, ownAddr, hzero, Dinode.setAddr, rsect, Nat.not_lt_of_ge hge, bind,
        Except.bind] at hok
  · rw [ownBlock_entry h hm hfbn hmax] at hok
    cases hok
    rw [cost_succ (Nat.ne_of_gt hfbn)]
    omega

end Mkfs
end Xv6
