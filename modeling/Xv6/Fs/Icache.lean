/-
# The inode cache

`icache` (`xv6/fs.c`, lines 168-345): an entry is free if `ref` is zero, and its
copy of the inode counts if `valid` is set.  `iget` looks for an entry with the
number or takes a free one, `ilock` reads the inode, `iput` drops a reference and
gives the inode up on the disk when it was the last one and no directory names
it, and `ialloc` marks a free inode on the disk.  A call is one step: `ilock`
keeps others from the inode, and the log makes the writes of a call one.
-/

import Xv6.Fs.Truncate

namespace Xv6
namespace Fs

open Lib

/-- `struct inode`. -/
structure Inode where
  inum : ℕ
  ref : ℕ
  valid : Bool
  copy : Dinode

/-- The volume and the `NINODE` entries of the cache. -/
structure State where
  vol : Vol
  icache : ℕ → Inode

namespace State

/-- Write an entry. -/
def set (s : State) (k : ℕ) (ip : Inode) : State :=
  { s with icache := Function.update s.icache k ip }

end State

/-- `iget`: the entry, with one reference more. -/
def iget (s : State) (inum : ℕ) : Except Halt (ℕ × State) :=
  match (List.range NINODE).find? fun k => 0 < (s.icache k).ref ∧ (s.icache k).inum = inum with
  | some k => .ok (k, s.set k { s.icache k with ref := (s.icache k).ref + 1 })
  | none =>
      match (List.range NINODE).find? fun k => (s.icache k).ref = 0 with
      | none => .error (.panic "iget: no inodes")
      | some k => .ok (k, s.set k { s.icache k with inum := inum, ref := 1, valid := false })

/-- `idup`. -/
def idup (s : State) (k : ℕ) : State :=
  s.set k { s.icache k with ref := (s.icache k).ref + 1 }

/-- `ialloc`: the first free inode is cleared and given a type. -/
def ialloc (s : State) (type : ℕ) : Except Halt (ℕ × State) :=
  match (List.range s.vol.sb.ninodes).find? fun i =>
      0 < i ∧ (dinodeOf s.vol.sb s.vol.disk i).type = 0 with
  | none => .error (.panic "ialloc: no inodes")
  | some i => iget { s with vol := iupdate s.vol i { Dinode.zero with type := type } } i

/-- `ilock`, which reads the inode if the copy does not count. -/
def ilockEntry (s : State) (k : ℕ) : Except Halt State :=
  let ip := s.icache k
  if ip.ref < 1 then .error (.panic "ilock")
  else if ip.valid then .ok s
  else do
    let copy ← ilock s.vol ip.inum
    .ok (s.set k { ip with copy := copy, valid := true })

/-- `iput`. -/
def iput (s : State) (k : ℕ) : Except Halt State := do
  let ip := s.icache k
  let s ←
    if ip.valid ∧ ip.copy.nlink = 0 ∧ ip.ref = 1 then do
      let (copy, vol) ← itrunc s.vol ip.inum ip.copy
      let copy := { copy with type := 0 }
      .ok (State.set { s with vol := iupdate vol ip.inum copy } k
        { ip with copy := copy, valid := false })
    else .ok s
  .ok (s.set k { s.icache k with ref := (s.icache k).ref - 1 })

/-- A call of the inode layer. -/
inductive Call where
  | iget (inum : ℕ)
  | idup (k : ℕ)
  | ilock (k : ℕ)
  | iput (k : ℕ)
  | ialloc (type : ℕ)
  | readi (k off n : ℕ)
  | writei (k off : ℕ) (src : List Byte)
  /-- The fields that `create`, `sys_link` and `sys_unlink` write, with `iupdate`. -/
  | update (k major minor nlink : ℕ)

def exec (s : State) : Call → Except Halt State
  | .iget inum => do
      let (_, s) ← iget s inum
      .ok s
  | .idup k => .ok (idup s k)
  | .ilock k => ilockEntry s k
  | .iput k => iput s k
  | .ialloc type => do
      let (_, s) ← ialloc s type
      .ok s
  | .readi k off n => do
      let (_, copy, vol) ← readi s.vol (s.icache k).copy off n
      .ok (State.set { s with vol := vol } k { s.icache k with copy := copy })
  | .writei k off src => do
      let (_, copy, vol) ← writei s.vol (s.icache k).inum (s.icache k).copy off src
      .ok (State.set { s with vol := vol } k { s.icache k with copy := copy })
  | .update k major minor nlink =>
      let ip := s.icache k
      let copy := { ip.copy with major := major, minor := minor, nlink := nlink }
      .ok (State.set { s with vol := iupdate s.vol ip.inum copy } k { ip with copy := copy })

def step (s : State) (c : Call) : Option State := (exec s c).toOption

/-- An entry with a reference. -/
def State.Held (s : State) (k : ℕ) : Prop := k < NINODE ∧ 0 < (s.icache k).ref

/-- An entry with a reference whose copy counts. -/
def State.Cached (s : State) (k : ℕ) : Prop := s.Held k ∧ (s.icache k).valid = true

/-- The calls that the callers make: numbers of inodes that directories name, entries they
hold a reference to, with `ilock` before an access, and values of the C types. -/
def Allowed (s : State) : Call → Prop
  | .iget inum => 0 < inum ∧ inum < s.vol.sb.ninodes
  | .idup k => s.Held k
  | .ilock k => s.Held k
  | .iput k => s.Held k
  | .ialloc type => type ≠ 0 ∧ type < 2 ^ 16
  | .readi k _ _ => s.Cached k
  | .writei k _ _ => s.Cached k
  | .update k major minor nlink =>
      s.Cached k ∧ major < 2 ^ 16 ∧ minor < 2 ^ 16 ∧ nlink < 2 ^ 16

instance (s : State) (k : ℕ) : Decidable (s.Held k) := by
  unfold State.Held
  infer_instance

instance (s : State) (k : ℕ) : Decidable (s.Cached k) := by
  unfold State.Cached
  infer_instance

instance (s : State) (c : Call) : Decidable (Allowed s c) := by
  unfold Allowed
  split <;> infer_instance

end Fs
end Xv6
