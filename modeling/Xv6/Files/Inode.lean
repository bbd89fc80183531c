/-
# Inodes, directories and paths

The part of `xv6/fs.c` between the log and the file table: the inode cache
(`iget`, `idup`, `ilock`, `iput`, lines 242-353), the contents of files and
directories (`readi`, `writei`, `dirlookup`, `dirlink`, lines 452-579), path
names (`namex`, lines 626-671), and `create` (`xv6/sysfile.c`, lines 282-325).

An inode on the disk is taken with its contents, a list of bytes or of
directory entries, and not with the blocks these lie in.  A cache entry holds
the inode number, the reference count and the `container_id`; its copy of the
disk inode is always written through and is read from the disk here.  `iget`
is the only function that gives a cache entry to an inode, and neither it nor
`iput` touches the `container_id` there.  No call that drops a link is
modelled, so an inode in a directory is never freed.
-/

import Xv6.Lib.Update
import Xv6.Files.Names

namespace Xv6
namespace Files

open Function

/-- Number of the root directory's inode. -/
def ROOTINO : ℕ := 1

/-- Most bytes a file can have: `MAXFILE * BSIZE`. -/
def MAXBYTES : ℕ := (12 + 128) * 512

/-- `type` of an inode: `0` and the three of `xv6/stat.h`. -/
inductive FileType where
  | free
  | dir
  | file
  | dev
  deriving DecidableEq, Repr

/-- `struct dirent`.  An entry with number `0` is empty. -/
structure Dirent where
  inum : ℕ
  name : Name
  deriving DecidableEq, Repr

/-- The sixteen bytes of a directory entry. -/
def Dirent.bytes (e : Dirent) : List Char :=
  [Char.ofNat (e.inum % 256), Char.ofNat (e.inum / 256)] ++
    (e.name ++ List.replicate DIRSIZ NUL).take DIRSIZ

/-- An inode on the disk with its contents: bytes, or entries if it is a directory.
`creator` is not in the source: it is the container whose `open` made the file, and `0` for
all others. -/
structure Dinode where
  type : FileType := .free
  major : ℕ := 0
  data : List Char := []
  entries : List Dirent := []
  creator : ℕ := 0
  deriving DecidableEq, Repr

/-- The bytes `readi` finds. -/
def Dinode.bytes (d : Dinode) : List Char :=
  if d.type = .dir then d.entries.flatMap Dirent.bytes else d.data

/-- The inodes of the disk by number. -/
abbrev Disk := ℕ → Dinode

/-- An entry of the inode cache, free when `ref` is `0`. -/
structure Inode where
  inum : ℕ := 0
  ref : ℕ := 0
  containerId : ℕ := 0
  deriving DecidableEq, Repr

/-- The inode cache. -/
structure ICache where
  inode : ℕ → Inode := fun _ => {}

namespace ICache

/-- The cache with one entry replaced. -/
def set (c : ICache) (k : ℕ) (ip : Inode) : ICache := ⟨update c.inode k ip⟩

/-- `iget`: the entry of an inode, with one more reference.  An inode that is not cached gets
the first free entry; the `container_id` there stays as it was. -/
def iget (c : ICache) (inum : ℕ) : Except Halt (ℕ × ICache) :=
  match (List.range NINODE).find? fun k => 0 < (c.inode k).ref ∧ (c.inode k).inum = inum with
  | some k => .ok (k, c.set k { c.inode k with ref := (c.inode k).ref + 1 })
  | none =>
      match (List.range NINODE).find? fun k => (c.inode k).ref = 0 with
      | some k => .ok (k, c.set k { c.inode k with inum := inum, ref := 1 })
      | none => .error (.panic "iget: no inodes")

/-- `idup`. -/
def idup (c : ICache) (k : ℕ) : ICache :=
  c.set k { c.inode k with ref := (c.inode k).ref + 1 }

/-- `iput`, for an inode that has a link. -/
def iput (c : ICache) (k : ℕ) : ICache :=
  c.set k { c.inode k with ref := (c.inode k).ref - 1 }

/-- `ilock`, which reads the inode. -/
def ilock (c : ICache) (disk : Disk) (k : ℕ) : Except Halt Dinode :=
  if (c.inode k).ref < 1 then .error (.panic "ilock")
  else if (disk (c.inode k).inum).type = .free then .error (.panic "ilock: no type")
  else .ok (disk (c.inode k).inum)

end ICache

/-- `dirlookup`: the inode number in the first entry of that name. -/
def dirlookup (entries : List Dirent) (name : Name) : Option ℕ :=
  (entries.find? fun e => e.inum ≠ 0 ∧ e.name = name).map Dirent.inum

/-- The entries after `dirlink`: the new one takes the place of the first empty one, or
stands at the end. -/
def linked (e : Dirent) : List Dirent → List Dirent
  | [] => [e]
  | x :: entries => if x.inum = 0 then e :: entries else x :: linked e entries

/-- `dirlink` in the directory of number `dir`. -/
def dirlink (disk : Disk) (dir : ℕ) (e : Dirent) : Except Halt Disk :=
  let entries := linked e (disk dir).entries
  if MAXBYTES < 16 * entries.length then .error (.panic "dirlink")
  else .ok (update disk dir { disk dir with entries := entries })

/-- The loop of `namex` over the elements of a path, from the cache entry `k`. -/
def walk (disk : Disk) : ICache → ℕ → List Name → Except Halt (Option ℕ × ICache)
  | c, k, [] => .ok (some k, c)
  | c, k, name :: rest => do
      let d ← c.ilock disk k
      if d.type ≠ .dir then .ok (none, c.iput k)
      else
        match dirlookup d.entries name with
        | none => .ok (none, c.iput k)
        | some inum => do
            let (next, c) ← c.iget inum
            walk disk (c.iput k) next rest

/-- The cache entry from which `namex` starts: the root or the current directory. -/
def startOf (c : ICache) (cwd : ℕ) (path : Name) : Except Halt (ℕ × ICache) :=
  if path.head? = some '/' then c.iget ROOTINO else .ok (cwd, c.idup cwd)

/-- `namei`. -/
def namei (disk : Disk) (c : ICache) (cwd : ℕ) (path : Name) :
    Except Halt (Option ℕ × ICache) := do
  let (k, c) ← startOf c cwd path
  walk disk c k (elements path)

/-- `nameiparent`: one level early.  The caller takes the last element of the path as the
name. -/
def nameiparent (disk : Disk) (c : ICache) (cwd : ℕ) (path : Name) :
    Except Halt (Option ℕ × ICache) := do
  let (k, c) ← startOf c cwd path
  if elements path = [] then .ok (none, c.iput k)
  else
    match ← walk disk c k (elements path).dropLast with
    | (none, c) => .ok (none, c)
    | (some k, c) => do
        let d ← c.ilock disk k
        if d.type ≠ .dir then .ok (none, c.iput k) else .ok (some k, c)

/-- The disk with the cache of its inodes. -/
structure FileSys where
  ninodes : ℕ
  disk : Disk
  icache : ICache

namespace FileSys

/-- The inode number `ialloc` takes. -/
def ialloc (fs : FileSys) : Except Halt ℕ :=
  match (List.range fs.ninodes).find? fun i => 1 ≤ i ∧ (fs.disk i).type = .free with
  | some inum => .ok inum
  | none => .error (.panic "ialloc: no inodes")

/-- A new inode as `create` fills it in, below the directory of number `dir`. -/
def newInode (type : FileType) (major creator inum dir : ℕ) : Dinode :=
  { type := type, major := major, creator := creator
    entries := if type = .dir then [⟨inum, ['.']⟩, ⟨dir, ['.', '.']⟩] else [] }

/-- `create`: for a regular file an existing one of that name is as good. -/
def create (fs : FileSys) (cwd : ℕ) (path : Name) (type : FileType) (major creator : ℕ) :
    Except Halt (Option ℕ × FileSys) := do
  match ← nameiparent fs.disk fs.icache cwd path with
  | (none, c) => .ok (none, { fs with icache := c })
  | (some dp, c) => do
      let d ← c.ilock fs.disk dp
      match dirlookup d.entries (lastElement path) with
      | some inum => do
          let (ip, c) ← c.iget inum
          let t ← (c.iput dp).ilock fs.disk ip
          if type = .file ∧ t.type = .file then .ok (some ip, { fs with icache := c.iput dp })
          else .ok (none, { fs with icache := (c.iput dp).iput ip })
      | none => do
          let inum ← fs.ialloc
          let (ip, c) ← c.iget inum
          let dir := (c.inode dp).inum
          let disk := update fs.disk inum (newInode type major creator inum dir)
          let disk ← dirlink disk dir ⟨inum, lastElement path⟩
          .ok (some ip, { fs with disk := disk, icache := c.iput dp })

end FileSys

/-- `readi` of a file or a directory. -/
def readi (d : Dinode) (off n : ℕ) : Option (List Char) :=
  if d.bytes.length < off then none else some ((d.bytes.drop off).take n)

/-- `writei` of a file. -/
def writei (d : Dinode) (off : ℕ) (src : List Char) : Option Dinode :=
  if d.data.length < off ∨ MAXBYTES < off + src.length then none
  else some { d with data := d.data.take off ++ src ++ d.data.drop (off + src.length) }

end Files
end Xv6
