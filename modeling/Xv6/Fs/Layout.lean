/-
# The disk layout

`xv6/fs.h`: blocks of `BSIZE` bytes, the super block in block 1, `IPB` disk
inodes to a block of the inode area, `BPB` bits to a block of the free map, and
block numbers as four-byte words.  `getDinode` and `putDinode` read and write a
`struct dinode` at its place in a block, byte by byte; `dinodeOf`, `inUse` and
`word` are what the disk holds under these formats, with the lemmas that say
what a write to a block changes of them.
-/

import Xv6.Lib.Bytes
import Xv6.Param

namespace Xv6
namespace Fs

open Lib Function

/-- Block size. -/
def BSIZE : ℕ := 512

/-- Block numbers in an inode. -/
def NDIRECT : ℕ := 12

/-- Block numbers in an indirect block. -/
def NINDIRECT : ℕ := BSIZE / 4

/-- Most blocks of a file. -/
def MAXFILE : ℕ := NDIRECT + NINDIRECT

/-- Inodes per block. -/
def IPB : ℕ := BSIZE / 64

/-- Bitmap bits per block. -/
def BPB : ℕ := BSIZE * 8

/-- Root i-number. -/
def ROOTINO : ℕ := 1

def DIRSIZ : ℕ := 14

/-- The types of `xv6/stat.h`. -/
def T_DIR : ℕ := 1

def T_FILE : ℕ := 2

def T_DEV : ℕ := 3

abbrev Block := ℕ → Byte

abbrev Disk := ℕ → Block

def zeroBlock : Block := fun _ => 0

/-- `struct superblock`. -/
structure Superblock where
  size : ℕ
  nblocks : ℕ
  ninodes : ℕ
  nlog : ℕ
  logstart : ℕ
  inodestart : ℕ
  bmapstart : ℕ
  deriving DecidableEq, Repr

/-- `struct dinode`.  Only the first `NDIRECT + 1` addresses are there. -/
@[ext] structure Dinode where
  type : ℕ
  major : ℕ
  minor : ℕ
  nlink : ℕ
  size : ℕ
  addrs : ℕ → ℕ

/-- A cleared inode. -/
def Dinode.zero : Dinode where
  type := 0
  major := 0
  minor := 0
  nlink := 0
  size := 0
  addrs _ := 0

/-- The fields fit their types. -/
structure Dinode.Fits (d : Dinode) : Prop where
  type : d.type < 2 ^ 16
  major : d.major < 2 ^ 16
  minor : d.minor < 2 ^ 16
  nlink : d.nlink < 2 ^ 16
  size : d.size < 2 ^ 32
  addrs : ∀ j, d.addrs j < 2 ^ 32
  beyond : ∀ j, NDIRECT < j → d.addrs j = 0

/-! ### Records in a block -/

/-- The `k`-th inode of a block. -/
def getDinode (b : Block) (k : ℕ) : Dinode where
  type := getLE b (64 * k) 2
  major := getLE b (64 * k + 2) 2
  minor := getLE b (64 * k + 4) 2
  nlink := getLE b (64 * k + 6) 2
  size := getLE b (64 * k + 8) 4
  addrs j := if j ≤ NDIRECT then getLE b (64 * k + 12 + 4 * j) 4 else 0

/-- Write the `k`-th inode of a block. -/
def putDinode (b : Block) (k : ℕ) (d : Dinode) : Block :=
  putWords
    (putLE
      (putLE
        (putLE
          (putLE
            (putLE b (64 * k) 2 d.type)
            (64 * k + 2) 2 d.major)
          (64 * k + 4) 2 d.minor)
        (64 * k + 6) 2 d.nlink)
      (64 * k + 8) 4 d.size)
    (64 * k + 12) (NDIRECT + 1) d.addrs

/-- `readsb`: the super block in block 1. -/
def readsb (disk : Disk) : Superblock where
  size := getLE (disk 1) 0 4
  nblocks := getLE (disk 1) 4 4
  ninodes := getLE (disk 1) 8 4
  nlog := getLE (disk 1) 12 4
  logstart := getLE (disk 1) 16 4
  inodestart := getLE (disk 1) 20 4
  bmapstart := getLE (disk 1) 24 4

/-- Bytes outside a record are untouched. -/
theorem putDinode_apart {b : Block} {k i : ℕ} {d : Dinode}
    (h : i < 64 * k ∨ 64 * k + 64 ≤ i) : putDinode b k d i = b i := by
  unfold putDinode NDIRECT
  rw [putWords_apart (by omega), putLE_apart (by omega), putLE_apart (by omega),
    putLE_apart (by omega), putLE_apart (by omega), putLE_apart (by omega)]

theorem getDinode_congr {b b' : Block} {k : ℕ}
    (h : ∀ i, 64 * k ≤ i → i < 64 * k + 64 → b i = b' i) : getDinode b k = getDinode b' k := by
  have hfield : ∀ off n, off + n ≤ 64 →
      getLE b (64 * k + off) n = getLE b' (64 * k + off) n := by
    intro off n hn
    exact getLE_congr fun i hi => h _ (by omega) (by omega)
  have haddrs : ∀ j, (getDinode b k).addrs j = (getDinode b' k).addrs j := by
    intro j
    simp only [getDinode]
    split
    next hj =>
      rw [Nat.add_assoc]
      exact hfield _ _ (by unfold NDIRECT at hj; omega)
    · rfl
  exact Dinode.ext (hfield 0 2 (by omega)) (hfield 2 2 (by omega)) (hfield 4 2 (by omega))
    (hfield 6 2 (by omega)) (hfield 8 4 (by omega)) (funext haddrs)

/-- **An inode that was written is read back.** -/
theorem getDinode_putDinode {b : Block} {k : ℕ} {d : Dinode} (h : d.Fits) :
    getDinode (putDinode b k d) k = d := by
  have htype : getLE (putDinode b k d) (64 * k) 2 = d.type := by
    unfold putDinode
    rw [getLE_putWords_apart (by omega), getLE_putLE_apart (by omega),
      getLE_putLE_apart (by omega), getLE_putLE_apart (by omega), getLE_putLE_apart (by omega),
      getLE_putLE]
    exact Nat.mod_eq_of_lt h.type
  have hmajor : getLE (putDinode b k d) (64 * k + 2) 2 = d.major := by
    unfold putDinode
    rw [getLE_putWords_apart (by omega), getLE_putLE_apart (by omega),
      getLE_putLE_apart (by omega), getLE_putLE_apart (by omega), getLE_putLE]
    exact Nat.mod_eq_of_lt h.major
  have hminor : getLE (putDinode b k d) (64 * k + 4) 2 = d.minor := by
    unfold putDinode
    rw [getLE_putWords_apart (by omega), getLE_putLE_apart (by omega),
      getLE_putLE_apart (by omega), getLE_putLE]
    exact Nat.mod_eq_of_lt h.minor
  have hnlink : getLE (putDinode b k d) (64 * k + 6) 2 = d.nlink := by
    unfold putDinode
    rw [getLE_putWords_apart (by omega), getLE_putLE_apart (by omega), getLE_putLE]
    exact Nat.mod_eq_of_lt h.nlink
  have hsize : getLE (putDinode b k d) (64 * k + 8) 4 = d.size := by
    unfold putDinode
    rw [getLE_putWords_apart (by omega), getLE_putLE]
    exact Nat.mod_eq_of_lt h.size
  have haddrs : ∀ j, (getDinode (putDinode b k d) k).addrs j = d.addrs j := by
    intro j
    simp only [getDinode]
    split
    next hj =>
      unfold putDinode
      rw [getLE_putWords _ _ _ (Nat.lt_succ_of_le hj)]
      exact Nat.mod_eq_of_lt (h.addrs j)
    · next hj => exact (h.beyond j (by omega)).symm
  exact Dinode.ext htype hmajor hminor hnlink hsize (funext haddrs)

theorem getDinode_putDinode_of_ne {b : Block} {k k' : ℕ} {d : Dinode} (h : k' ≠ k) :
    getDinode (putDinode b k d) k' = getDinode b k' :=
  getDinode_congr fun i hi hi' => putDinode_apart (by omega)

theorem getDinode_fits (b : Block) (k : ℕ) : (getDinode b k).Fits where
  type := getLE_lt _ _ 2
  major := getLE_lt _ _ 2
  minor := getLE_lt _ _ 2
  nlink := getLE_lt _ _ 2
  size := getLE_lt _ _ 4
  addrs j := by
    simp only [getDinode]
    split
    · exact getLE_lt _ _ 4
    · decide
  beyond j hj := if_neg (by omega)

theorem Dinode.zero_fits : Dinode.zero.Fits where
  type := by decide
  major := by decide
  minor := by decide
  nlink := by decide
  size := by decide
  addrs _ := Nat.two_pow_pos 32
  beyond _ _ := rfl

theorem getDinode_zeroBlock {b : Block} {k : ℕ}
    (h : ∀ i, 64 * k ≤ i → i < 64 * k + 64 → b i = 0) : getDinode b k = Dinode.zero := by
  have hsame : getDinode b k = getDinode zeroBlock k := getDinode_congr h
  have hzero : ∀ off n, getLE zeroBlock off n = 0 := fun _ _ => getLE_zero fun _ _ => rfl
  rw [hsame]
  simp only [getDinode, hzero, ite_self, Dinode.zero]

/-! ### Records on the disk -/

/-- Block containing inode `i`. -/
def IBLOCK (i : ℕ) (sb : Superblock) : ℕ := i / IPB + sb.inodestart

/-- Block of the free map containing the bit for block `b`. -/
def BBLOCK (b : ℕ) (sb : Superblock) : ℕ := b / BPB + sb.bmapstart

/-- The inode with number `i`. -/
def dinodeOf (sb : Superblock) (disk : Disk) (i : ℕ) : Dinode :=
  getDinode (disk (IBLOCK i sb)) (i % IPB)

/-- Write the inode with number `i`. -/
def setDinode (sb : Superblock) (disk : Disk) (i : ℕ) (d : Dinode) : Disk :=
  update disk (IBLOCK i sb) (putDinode (disk (IBLOCK i sb)) (i % IPB) d)

/-- The bit of block `b` in the free map. -/
def inUse (sb : Superblock) (disk : Disk) (b : ℕ) : Bool := getBit (disk (BBLOCK b sb)) (b % BPB)

/-- The `j`-th word of a block. -/
def word (b : Block) (j : ℕ) : ℕ := getLE b (4 * j) 4

/-- Write the `j`-th word of a block. -/
def setWord (b : Block) (j w : ℕ) : Block := putLE b (4 * j) 4 w

variable {sb : Superblock} {disk : Disk} {i j : ℕ}

theorem word_setWord (b : Block) (j w : ℕ) (h : w < 2 ^ 32) : word (setWord b j w) j = w := by
  rw [word, setWord, getLE_putLE]
  exact Nat.mod_eq_of_lt h

theorem word_setWord_of_ne (b : Block) {j k w : ℕ} (h : k ≠ j) :
    word (setWord b j w) k = word b k :=
  getLE_putLE_apart (by omega)

theorem word_zeroBlock (j : ℕ) : word zeroBlock j = 0 := getLE_zero fun _ _ => rfl

theorem dinodeOf_setDinode {d : Dinode} (h : d.Fits) :
    dinodeOf sb (setDinode sb disk i d) i = d := by
  rw [dinodeOf, setDinode, update_self, getDinode_putDinode h]

theorem dinodeOf_setDinode_of_ne {d : Dinode} (h : j ≠ i) :
    dinodeOf sb (setDinode sb disk i d) j = dinodeOf sb disk j := by
  unfold dinodeOf setDinode
  by_cases hb : IBLOCK j sb = IBLOCK i sb
  · have hk : j % IPB ≠ i % IPB := by
      unfold IBLOCK IPB BSIZE at hb
      unfold IPB BSIZE
      omega
    rw [hb, update_self, getDinode_putDinode_of_ne hk]
  · rw [update_of_ne hb]

theorem dinodeOf_update {b : ℕ} {blk : Block} (h : b ≠ IBLOCK i sb) :
    dinodeOf sb (update disk b blk) i = dinodeOf sb disk i := by
  rw [dinodeOf, update_of_ne h.symm, dinodeOf]

theorem dinodeOf_fits (sb : Superblock) (disk : Disk) (i : ℕ) : (dinodeOf sb disk i).Fits :=
  getDinode_fits _ _

end Fs
end Xv6
