/-
# `mkfs`

`xv6/mkfs.c`: the host program that writes a file system image.  `main` (lines
93-168) zeroes the image, writes the super block, makes the root directory with
`.` and `..`, adds the files of its command line, rounds the size of the root up
to a whole block and writes the free map; `winode`, `rinode`, `ialloc`, `balloc`
and `iappend` (lines 183-297) are its own block and inode layer.

The image has `FSSIZE` blocks: a read behind them ends the program, and nothing
is written behind them, since every block is read before it is written.  A file
of the command line is its name and what the calls of `read` return for it, each
at most `BSIZE` bytes.
-/

import Xv6.Fs.Read

namespace Xv6
namespace Mkfs

open Lib Fs

def NINODES : ℕ := 200

def nbitmap : ℕ := FSSIZE / (BSIZE * 8) + 1

def ninodeblocks : ℕ := NINODES / IPB + 1

def nlog : ℕ := LOGSIZE

/-- Number of meta blocks. -/
def nmeta : ℕ := 2 + nlog + ninodeblocks + nbitmap

/-- `sb`. -/
def sb : Superblock where
  size := FSSIZE
  nblocks := FSSIZE - nmeta
  ninodes := NINODES
  nlog := nlog
  logstart := 2
  inodestart := 2 + nlog
  bmapstart := 2 + nlog + ninodeblocks

/-- How the program ends before its work is done. -/
inductive Stop where
  /-- A `read` of the image that gives less than a block. -/
  | read
  /-- An `assert`. -/
  | assertion
  deriving DecidableEq, Repr

/-- The image and the globals. -/
structure Img where
  disk : Disk
  freeinode : ℕ
  freeblock : ℕ

/-- `rsect`. -/
def rsect (s : Img) (sec : ℕ) : Except Stop Block :=
  if sec < FSSIZE then .ok (s.disk sec) else .error .read

/-- `wsect`. -/
def wsect (s : Img) (sec : ℕ) (buf : Block) : Img :=
  { s with disk := Function.update s.disk sec buf }

/-- `winode`. -/
def winode (s : Img) (inum : ℕ) (ip : Dinode) : Except Stop Img := do
  let buf ← rsect s (IBLOCK inum sb)
  .ok (wsect s (IBLOCK inum sb) (putDinode buf (inum % IPB) ip))

/-- `rinode`. -/
def rinode (s : Img) (inum : ℕ) : Except Stop Dinode := do
  let buf ← rsect s (IBLOCK inum sb)
  .ok (getDinode buf (inum % IPB))

/-- `ialloc`: the number is not compared with the number of inodes. -/
def ialloc (s : Img) (type : ℕ) : Except Stop (ℕ × Img) := do
  let inum := s.freeinode
  let s ← winode { s with freeinode := s.freeinode + 1 } inum
    { Dinode.zero with type := type, nlink := 1 }
  .ok (inum, s)

/-- The next free block for an address of an inode that has none. -/
def ownAddr (s : Img) (din : Dinode) (k : ℕ) : Dinode × Img :=
  if din.addrs k = 0 then
    (din.setAddr k s.freeblock, { s with freeblock := s.freeblock + 1 })
  else (din, s)

/-- The block `x` that a turn of `iappend` writes to. -/
def ownBlock (s : Img) (din : Dinode) (fbn : ℕ) : Except Stop (ℕ × Dinode × Img) :=
  if fbn < NDIRECT then
    let (din, s) := ownAddr s din fbn
    .ok (din.addrs fbn, din, s)
  else do
    let (din, s) := ownAddr s din NDIRECT
    let indirect ← rsect s (din.addrs NDIRECT)
    if word indirect (fbn - NDIRECT) = 0 then
      let x := s.freeblock
      let s := { s with freeblock := s.freeblock + 1 }
      .ok (x, din, wsect s (din.addrs NDIRECT) (setWord indirect (fbn - NDIRECT) x))
    else .ok (word indirect (fbn - NDIRECT), din, s)

/-- The loop of `iappend`; every turn writes at least one byte. -/
def appendLoop : ℕ → Img → Dinode → ℕ → List Byte → Except Stop (Img × Dinode × ℕ)
  | 0, s, din, off, _ => .ok (s, din, off)
  | fuel + 1, s, din, off, p =>
      if p = [] then .ok (s, din, off)
      else if off / BSIZE < MAXFILE then do
        let (x, din, s) ← ownBlock s din (off / BSIZE)
        let n1 := min p.length ((off / BSIZE + 1) * BSIZE - off)
        let buf ← rsect s x
        let s := wsect s x (blit buf (off - off / BSIZE * BSIZE) (p.take n1))
        appendLoop fuel s din (off + n1) (p.drop n1)
      else .error .assertion

/-- `iappend`. -/
def iappend (s : Img) (inum : ℕ) (p : List Byte) : Except Stop Img := do
  let din ← rinode s inum
  let (s, din, off) ← appendLoop p.length s din din.size p
  winode s inum { din with size := off }

/-- `struct dirent` with `strncpy` into a zeroed name. -/
def direntBytes (inum : ℕ) (name : List Byte) : List Byte :=
  leByte inum 0 :: leByte inum 1 ::
    (name.take DIRSIZ ++ List.replicate (DIRSIZ - name.length) 0)

/-- A file of the command line: its name, the leading `_` dropped, and what the calls of
`read` return. -/
structure File where
  name : List Byte
  reads : List (List Byte)

/-- The bytes of a file. -/
def File.bytes (f : File) : List Byte := f.reads.flatten

/-- The body of the loop over the files. -/
def addFile (s : Img) (f : File) : Except Stop Img :=
  if slash ∈ f.name then .error .assertion
  else do
    let (inum, s) ← ialloc s T_FILE
    let s ← iappend s ROOTINO (direntBytes inum f.name)
    f.reads.foldlM (iappend · inum ·) s

/-- `balloc`: the first `used` bits of the free map. -/
def balloc (s : Img) (used : ℕ) : Except Stop Img :=
  if used < BSIZE * 8 then
    .ok (wsect s sb.bmapstart ((List.range used).foldl setBit zeroBlock))
  else .error .assertion

/-- The zeroed image with the super block. -/
def format : Img where
  disk := Function.update (fun _ => zeroBlock) 1
    (putWords zeroBlock 0 7
      fun j => [sb.size, sb.nblocks, sb.ninodes, sb.nlog, sb.logstart, sb.inodestart,
        sb.bmapstart].getD j 0)
  freeinode := 1
  freeblock := nmeta

/-- The image with an empty root directory. -/
def makeRoot : Except Stop Img := do
  let (rootino, s) ← ialloc format T_DIR
  if rootino = ROOTINO then
    let s ← iappend s rootino (direntBytes rootino [46])
    iappend s rootino (direntBytes rootino [46, 46])
  else .error .assertion

/-- The size of the root is rounded up. -/
def fixRoot (s : Img) : Except Stop Img := do
  let din ← rinode s ROOTINO
  winode s ROOTINO { din with size := (din.size / BSIZE + 1) * BSIZE }

/-- `main`. -/
def main (files : List File) : Except Stop Img := do
  let s ← makeRoot
  let s ← files.foldlM addFile s
  let s ← fixRoot s
  balloc s s.freeblock

end Mkfs
end Xv6
