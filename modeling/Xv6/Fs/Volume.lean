/-
# Which blocks an inode names

A block number stands in one of the slots of an inode: one of the `NDIRECT`
direct addresses, the address of the indirect block, or an entry of the indirect
block.  A `View` is the inodes and the blocks of a file system, apart from where
an inode is kept: on the disk, in the inode cache, or in a local variable of a
function that is at work on it.  Each write that the file system makes, seen on
a view, changes what one slot names, or what no slot names; that is what the
lemmas of this module say.
-/

import Xv6.Lib.Owner
import Xv6.Fs.Layout

namespace Xv6
namespace Fs

open Lib Function

/-- Where a block number can stand in an inode. -/
inductive Slot where
  | direct (k : ℕ)
  | table
  | entry (k : ℕ)
  deriving DecidableEq, Repr

/-- The block an inode names in a slot, `0` if none. -/
def Dinode.ref (d : Dinode) (blk : Disk) : Slot → ℕ
  | .direct k => if k < NDIRECT then d.addrs k else 0
  | .table => d.addrs NDIRECT
  | .entry k =>
      if d.addrs NDIRECT ≠ 0 ∧ k < NINDIRECT then word (blk (d.addrs NDIRECT)) k else 0

/-- Write an address. -/
def Dinode.setAddr (d : Dinode) (k b : ℕ) : Dinode :=
  { d with addrs := update d.addrs k b }

/-- Only addresses have changed. -/
structure SameMeta (din din' : Dinode) : Prop where
  type : din'.type = din.type
  major : din'.major = din.major
  minor : din'.minor = din.minor
  nlink : din'.nlink = din.nlink
  size : din'.size = din.size
  beyond : ∀ j, NDIRECT < j → din'.addrs j = din.addrs j

theorem SameMeta.refl (din : Dinode) : SameMeta din din :=
  ⟨rfl, rfl, rfl, rfl, rfl, fun _ _ => rfl⟩

theorem SameMeta.trans {d d' d'' : Dinode} (h : SameMeta d d') (h' : SameMeta d' d'') :
    SameMeta d d'' :=
  ⟨h'.type.trans h.type, h'.major.trans h.major, h'.minor.trans h.minor, h'.nlink.trans h.nlink,
    h'.size.trans h.size, fun j hj => (h'.beyond j hj).trans (h.beyond j hj)⟩

theorem sameMeta_setAddr (din : Dinode) {k b : ℕ} (hk : k ≤ NDIRECT) :
    SameMeta din (din.setAddr k b) :=
  ⟨rfl, rfl, rfl, rfl, rfl, fun j hj => update_of_ne (by omega) ..⟩

/-- The slot for the `bn`-th block of a file. -/
def slotOf (bn : ℕ) : Slot := if bn < NDIRECT then .direct bn else .entry (bn - NDIRECT)

theorem slotOf_inj {bn bn' : ℕ} (h : slotOf bn = slotOf bn') : bn = bn' := by
  unfold slotOf at h
  split at h <;> split at h
  · exact Slot.direct.inj h
  · cases h
  · cases h
  · have := Slot.entry.inj h
    omega

theorem slotOf_ne_table (bn : ℕ) : slotOf bn ≠ .table := by
  unfold slotOf
  split <;> exact nofun

theorem Dinode.ref_direct {d : Dinode} {disk : Disk} {bn : ℕ} (h : bn < NDIRECT) :
    d.ref disk (slotOf bn) = d.addrs bn := by
  rw [slotOf, if_pos h, Dinode.ref, if_pos h]

/-- The inodes and the blocks. -/
structure View where
  ino : ℕ → Dinode
  blk : Disk

namespace View

variable {V : View} {i j b : ℕ}

/-- What every slot of every inode names. -/
def refs (V : View) (x : ℕ × Slot) : ℕ := (V.ino x.1).ref V.blk x.2

/-- An address of an inode is written. -/
def setAddr (V : View) (i k b : ℕ) : View :=
  { V with ino := update V.ino i ((V.ino i).setAddr k b) }

/-- A block is written. -/
def setBlk (V : View) (b : ℕ) (blk : Block) : View :=
  { V with blk := update V.blk b blk }

/-- Only the addresses and the indirect blocks count. -/
theorem refs_congr {V' : View} (haddrs : ∀ i, (V'.ino i).addrs = (V.ino i).addrs)
    (h : ∀ i, (V.ino i).addrs NDIRECT ≠ 0 →
      V'.blk ((V.ino i).addrs NDIRECT) = V.blk ((V.ino i).addrs NDIRECT)) :
    V'.refs = V.refs := by
  funext ⟨i, p⟩
  cases p with
  | direct k => simp only [refs, Dinode.ref, haddrs]
  | table => simp only [refs, Dinode.ref, haddrs]
  | entry k =>
    simp only [refs, Dinode.ref, haddrs]
    by_cases hne : (V.ino i).addrs NDIRECT = 0
    · simp [hne]
    · rw [h i hne]

theorem refs_setAddr_direct {k : ℕ} (hk : k < NDIRECT) :
    (V.setAddr i k b).refs = update V.refs (i, .direct k) b := by
  funext ⟨j, p⟩
  rcases eq_or_ne j i with rfl | hj
  · cases p with
    | direct k' =>
      rcases eq_or_ne k' k with rfl | hk'
      · simp [refs, setAddr, Dinode.setAddr, Dinode.ref, hk]
      · simp [refs, setAddr, Dinode.setAddr, Dinode.ref, hk']
    | table => simp [refs, setAddr, Dinode.setAddr, Dinode.ref, Nat.ne_of_gt hk]
    | entry k' => simp [refs, setAddr, Dinode.setAddr, Dinode.ref, Nat.ne_of_gt hk]
  · simp [refs, setAddr, hj]

/-- The first indirect block, which is all zero. -/
theorem refs_setAddr_table (hnone : (V.ino i).addrs NDIRECT = 0)
    (hzero : ∀ k < NINDIRECT, word (V.blk b) k = 0) :
    (V.setAddr i NDIRECT b).refs = update V.refs (i, .table) b := by
  funext ⟨j, p⟩
  rcases eq_or_ne j i with rfl | hj
  · cases p with
    | direct k =>
      simp only [refs, setAddr, Dinode.setAddr, Dinode.ref, update_self]
      split
      · next hk => simp [refs, Dinode.ref, hk, Nat.ne_of_lt hk]
      · next hk => simp [refs, Dinode.ref, hk]
    | table => simp [refs, setAddr, Dinode.setAddr, Dinode.ref]
    | entry k =>
      have hold : V.refs (j, .entry k) = 0 := by simp [refs, Dinode.ref, hnone]
      rw [update_of_ne (by simp), hold]
      simp only [refs, setAddr, Dinode.setAddr, Dinode.ref, update_self]
      split
      · next hk => exact hzero k hk.2
      · rfl
  · simp [refs, setAddr, hj]

/-- A word of an indirect block that one inode has. -/
theorem refs_setWord {k w : ℕ} (hk : k < NINDIRECT) (hw : w < 2 ^ 32)
    (htable : (V.ino i).addrs NDIRECT = b) (hb : b ≠ 0)
    (hsole : ∀ j, (V.ino j).addrs NDIRECT = b → j = i) :
    (V.setBlk b (setWord (V.blk b) k w)).refs = update V.refs (i, .entry k) w := by
  funext ⟨j, p⟩
  cases p with
  | direct k' => simp [refs, setBlk, Dinode.ref]
  | table => simp [refs, setBlk, Dinode.ref]
  | entry k' =>
    rcases eq_or_ne j i with rfl | hj
    · rcases eq_or_ne k' k with rfl | hk'
      · simp [refs, setBlk, Dinode.ref, htable, hb, hk, word_setWord _ _ _ hw]
      · simp [refs, setBlk, Dinode.ref, htable, hk', word_setWord_of_ne _ hk']
    · have hne : (V.ino j).addrs NDIRECT ≠ b := fun h => hj (hsole j h)
      simp [refs, setBlk, Dinode.ref, hne, hj]

/-- A block that is nobody's indirect block. -/
theorem refs_setBlk {blk : Block} (h : ∀ j, (V.ino j).addrs NDIRECT = b → b = 0) :
    (V.setBlk b blk).refs = V.refs := by
  funext ⟨j, p⟩
  cases p with
  | direct k => rfl
  | table => rfl
  | entry k =>
    simp only [refs, setBlk, Dinode.ref]
    by_cases hb : (V.ino j).addrs NDIRECT = b
    · simp [hb, h j hb]
    · simp only [update_of_ne hb]

end View

end Fs
end Xv6
