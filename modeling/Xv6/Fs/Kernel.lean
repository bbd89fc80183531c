/-
# Blocks, inodes and directories in the kernel

The functions of `xv6/fs.c` that allocate and free blocks (`balloc`, `bfree`,
lines 55-96), map the blocks of a file (`bmap`, `itrunc`, lines 373-436), read
and write it (`readi`, `writei`, `iupdate`, lines 221-237 and 450-512) and look
up names (`dirlookup`, `namex`, lines 525-549 and 617-660).

`Vol` is the disk as the buffer cache shows it, with the super block the kernel
has in memory.  A function at work on an inode takes and returns the copy of the
inode in memory, since `bmap` may write its addresses; `iupdate` puts that copy
on the disk.  An allocation that fails panics.  Reading and writing a device goes
to its driver and touches no block; the model gives no result for it.
-/

import Xv6.Fs.Volume

namespace Xv6
namespace Fs

open Lib Function

/-- The disk and `sb`. -/
structure Vol where
  sb : Superblock
  disk : Disk

/-! ### Blocks -/

/-- `balloc`: the first block whose bit is clear, marked and zeroed. -/
def balloc (v : Vol) : Except Halt (ℕ × Vol) :=
  match (List.range v.sb.size).find? fun b => !inUse v.sb v.disk b with
  | none => .error (.panic "balloc: out of blocks")
  | some b =>
      let bits := v.disk (BBLOCK b v.sb)
      let disk := update v.disk (BBLOCK b v.sb) (setBit bits (b % BPB))
      .ok (b, { v with disk := update disk b zeroBlock })

/-- `bfree`, which reads the super block again. -/
def bfree (v : Vol) (b : ℕ) : Except Halt Vol :=
  let sb := readsb v.disk
  let bits := v.disk (BBLOCK b sb)
  if getBit bits (b % BPB) = false then .error (.panic "freeing free block")
  else .ok ⟨sb, update v.disk (BBLOCK b sb) (clearBit bits (b % BPB))⟩

/-! ### The blocks of a file -/

/-- The address of an inode, allocated if there is none. -/
def bmapAddr (v : Vol) (ip : Dinode) (k : ℕ) : Except Halt (ℕ × Dinode × Vol) :=
  if ip.addrs k = 0 then do
    let (addr, v) ← balloc v
    .ok (addr, ip.setAddr k addr, v)
  else .ok (ip.addrs k, ip, v)

/-- The entry of an indirect block, allocated if there is none. -/
def bmapEntry (v : Vol) (table k : ℕ) : Except Halt (ℕ × Vol) :=
  if word (v.disk table) k = 0 then do
    let (addr, v) ← balloc v
    .ok (addr,
      { v with disk := update v.disk table (setWord (v.disk table) k addr) })
  else .ok (word (v.disk table) k, v)

/-- `bmap`: the block, the inode and the disk. -/
def bmap (v : Vol) (ip : Dinode) (bn : ℕ) : Except Halt (ℕ × Dinode × Vol) :=
  if bn < NDIRECT then bmapAddr v ip bn
  else if bn - NDIRECT < NINDIRECT then do
    let (table, ip, v) ← bmapAddr v ip NDIRECT
    let (addr, v) ← bmapEntry v table (bn - NDIRECT)
    .ok (addr, ip, v)
  else .error (.panic "bmap: out of range")

/-- `iupdate`. -/
def iupdate (v : Vol) (inum : ℕ) (ip : Dinode) : Vol :=
  { v with disk := setDinode v.sb v.disk inum ip }

/-- The loop of `readi` for `n` more bytes; every turn reads at least one. -/
def readLoop : ℕ → Vol → Dinode → ℕ → ℕ → Except Halt (List Byte × Dinode × Vol)
  | 0, v, ip, _, _ => .ok ([], ip, v)
  | fuel + 1, v, ip, off, n =>
      if n = 0 then .ok ([], ip, v)
      else do
        let (addr, ip, v) ← bmap v ip (off / BSIZE)
        let m := min n (BSIZE - off % BSIZE)
        let bytes := (List.range m).map fun i => v.disk addr (off % BSIZE + i)
        let (rest, ip, v) ← readLoop fuel v ip (off + m) (n - m)
        .ok (bytes ++ rest, ip, v)

/-- `readi`: the bytes, or `none` for `-1`. -/
def readi (v : Vol) (ip : Dinode) (off n : ℕ) : Except Halt (Option (List Byte) × Dinode × Vol) :=
  if ip.type = T_DEV ∨ off > ip.size ∨ off + n ≥ 2 ^ 32 then .ok (none, ip, v)
  else do
    let n := if off + n > ip.size then ip.size - off else n
    let (bytes, ip, v) ← readLoop n v ip off n
    .ok (some bytes, ip, v)

/-- The loop of `writei`; every turn writes at least one byte. -/
def writeLoop : ℕ → Vol → Dinode → ℕ → List Byte → Except Halt (Dinode × Vol)
  | 0, v, ip, _, _ => .ok (ip, v)
  | fuel + 1, v, ip, off, src =>
      if src = [] then .ok (ip, v)
      else do
        let (addr, ip, v) ← bmap v ip (off / BSIZE)
        let m := min src.length (BSIZE - off % BSIZE)
        let blk := blit (v.disk addr) (off % BSIZE) (src.take m)
        writeLoop fuel { v with disk := update v.disk addr blk } ip (off + m) (src.drop m)

/-- `writei` to the inode `inum`: the count, or `-1`. -/
def writei (v : Vol) (inum : ℕ) (ip : Dinode) (off : ℕ) (src : List Byte) :
    Except Halt (ℤ × Dinode × Vol) :=
  if ip.type = T_DEV ∨ off > ip.size ∨ off + src.length ≥ 2 ^ 32 then .ok (-1, ip, v)
  else if off + src.length > MAXFILE * BSIZE then .ok (-1, ip, v)
  else do
    let (ip, v) ← writeLoop src.length v ip off src
    if src ≠ [] ∧ off + src.length > ip.size then
      let ip := { ip with size := off + src.length }
      .ok (src.length, ip, iupdate v inum ip)
    else .ok (src.length, ip, v)

/-- The loops of `itrunc` over block numbers: those that are there are freed. -/
def bfreeAll (v : Vol) : List ℕ → Except Halt Vol
  | [] => .ok v
  | b :: bs => do
      let v ← if b = 0 then .ok v else bfree v b
      bfreeAll v bs

/-- `itrunc`. -/
def itrunc (v : Vol) (inum : ℕ) (ip : Dinode) : Except Halt (Dinode × Vol) := do
  let v ← bfreeAll v ((List.range NDIRECT).map ip.addrs)
  let table := ip.addrs NDIRECT
  let v ← if table = 0 then .ok v
    else do
      let v ← bfreeAll v ((List.range NINDIRECT).map (word (v.disk table)))
      bfree v table
  let ip := { ip with size := 0, addrs := fun _ => 0 }
  .ok (ip, iupdate v inum ip)

/-! ### Directories -/

/-- `struct dirent` from its bytes: the inode number and the name with its zeros. -/
def direntOf (bytes : List Byte) : ℕ × List Byte :=
  (getLE (fun i => bytes.getD i 0) 0 2, bytes.drop 2)

/-- A C string: the bytes before the first zero. -/
def cstring (bytes : List Byte) : List Byte := bytes.takeWhile (· ≠ 0)

/-- `namecmp` is 0: the first `DIRSIZ` bytes agree, up to a zero. -/
def sameName (s t : List Byte) : Bool := cstring (s.take DIRSIZ) = cstring (t.take DIRSIZ)

/-- The loop of `dirlookup` from the entry at `off` on. -/
def dirScan : ℕ → Vol → Dinode → ℕ → List Byte → Except Halt (Option ℕ × Dinode × Vol)
  | 0, v, dp, _, _ => .ok (none, dp, v)
  | fuel + 1, v, dp, off, name =>
      if off < dp.size then do
        let (r, dp, v) ← readi v dp off 16
        match r with
        | some bytes =>
            if bytes.length ≠ 16 then .error (.panic "dirlookup read")
            else
              let de := direntOf bytes
              if de.1 ≠ 0 ∧ sameName name de.2 then .ok (some de.1, dp, v)
              else dirScan fuel v dp (off + 16) name
        | none => .error (.panic "dirlookup read")
      else .ok (none, dp, v)

/-- `dirlookup`: the number of the inode. -/
def dirlookup (v : Vol) (dp : Dinode) (name : List Byte) : Except Halt (Option ℕ × Dinode × Vol) :=
  if dp.type ≠ T_DIR then .error (.panic "dirlookup not DIR")
  else dirScan dp.size v dp 0 name

/-- The inode that `ilock` reads from the disk. -/
def ilock (v : Vol) (inum : ℕ) : Except Halt Dinode :=
  if (dinodeOf v.sb v.disk inum).type = 0 then .error (.panic "ilock: no type")
  else .ok (dinodeOf v.sb v.disk inum)

/-- The byte of `/`. -/
def slash : Byte := 47

/-- `skipelem`: the element, cut to `DIRSIZ` bytes, and the rest of the path. -/
def skipelem (path : List Byte) : Option (List Byte × List Byte) :=
  let path := path.dropWhile (· = slash)
  if path = [] then none
  else
    some ((path.takeWhile (· ≠ slash)).take DIRSIZ,
      (path.dropWhile (· ≠ slash)).dropWhile (· = slash))

/-- The loop of `namex` from the inode `inum` on. -/
def namexLoop : ℕ → Vol → ℕ → List Byte → Except Halt (Option ℕ × Vol)
  | 0, v, inum, _ => .ok (some inum, v)
  | fuel + 1, v, inum, path =>
      match skipelem path with
      | none => .ok (some inum, v)
      | some (name, path) => do
          let ip ← ilock v inum
          if ip.type ≠ T_DIR then .ok (none, v)
          else
            let (next, _, v) ← dirlookup v ip name
            match next with
            | none => .ok (none, v)
            | some inum => namexLoop fuel v inum path

/-- `namei` of a path without a leading slash by a process whose current directory is
`cwd`; the root for one with a leading slash. -/
def namei (v : Vol) (cwd : ℕ) (path : List Byte) : Except Halt (Option ℕ × Vol) :=
  namexLoop path.length v (if path.head? = some slash then ROOTINO else cwd) path

end Fs
end Xv6
