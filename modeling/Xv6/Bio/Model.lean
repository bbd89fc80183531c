/-
# The buffer cache

`xv6/bio.c`, lines 38-141: `NBUF` buffers on a circular list through `prev` and
`next`, the most recently released one first.  `bget` looks for a buffer of the
block from the front and recycles one from the back; `bread` reads the block if
the buffer is not valid (`iderw`, `xv6/ide.c`, lines 137-168), `bwrite` writes it,
and `brelse` moves a buffer without references to the front.  `log_write`
(`xv6/log.c`, lines 213-233) pins a buffer with `B_DIRTY` until `commit` (lines
176-203, with 70-118) has copied it through the log to its place.

A process that calls `bread` takes a reference to the buffer and waits for its
lock; these are two steps.  A request to the disk is done when it is made.
-/

import Xv6.Lib.Ring
import Xv6.Param

namespace Xv6
namespace Bio

open Lib Function

/-- `struct buf`; `flags` is the two bits. -/
structure Buf (α : Type) where
  valid : Bool
  dirty : Bool
  dev : ℕ
  blockno : ℕ
  locked : Bool
  refcnt : ℕ
  data : α

/-- Device and block number. -/
def Buf.key {α : Type} (b : Buf α) : ℕ × ℕ := (b.dev, b.blockno)

/-- Where the log is, and how its header is written into a block. -/
structure LogArea (α : Type) where
  dev : ℕ
  start : ℕ
  size : ℕ
  putHead : List ℕ → α → α

/-- A process in `bread`: the buffer it waits for and the block it asked for. -/
structure Request where
  buf : ℕ
  dev : ℕ
  blockno : ℕ
deriving DecidableEq

/-- `bcache`, the disks and the block numbers in `log.lh`.  Cell `NBUF` of the list is
`bcache.head`.  No function reads `contents`, which is what was last written to each block
through the cache, or the disk if nothing was. -/
structure State (α : Type) where
  buf : ℕ → Buf α
  next : ℕ → ℕ
  prev : ℕ → ℕ
  disk : ℕ × ℕ → α
  lh : List ℕ
  waiting : List Request
  contents : ℕ × ℕ → α

variable {α : Type}

namespace State

/-- Write a buffer. -/
def set (s : State α) (k : ℕ) (b : Buf α) : State α :=
  { s with buf := update s.buf k b }

/-- `bget` up to `acquiresleep`: the buffer, with one reference more. -/
def bget (s : State α) (dev blockno : ℕ) : Except Halt (ℕ × State α) :=
  match seek s.next NBUF (fun k => (s.buf k).dev = dev ∧ (s.buf k).blockno = blockno) (NBUF + 1)
      (s.next NBUF) with
  | some k =>
      .ok (k, { s.set k { s.buf k with refcnt := (s.buf k).refcnt + 1 } with
        waiting := ⟨k, dev, blockno⟩ :: s.waiting })
  | none =>
      match seek s.prev NBUF (fun k => (s.buf k).refcnt = 0 ∧ (s.buf k).dirty = false) (NBUF + 1)
          (s.prev NBUF) with
      | some k =>
          .ok (k, { s.set k { s.buf k with
              dev := dev, blockno := blockno, valid := false, dirty := false, refcnt := 1 } with
            waiting := ⟨k, dev, blockno⟩ :: s.waiting })
      | none => .error (.panic "bget: no buffers")

/-- `iderw`. -/
def iderw (s : State α) (k : ℕ) : Except Halt (State α) :=
  let b := s.buf k
  if b.locked = false then .error (.panic "iderw: buf not locked")
  else if b.valid = true ∧ b.dirty = false then .error (.panic "iderw: nothing to do")
  else if FSSIZE ≤ b.blockno then .error (.panic "incorrect blockno")
  else if b.dirty then
    .ok { s.set k { b with valid := true, dirty := false } with
      disk := update s.disk b.key b.data }
  else .ok (s.set k { b with valid := true, data := s.disk b.key })

/-- The rest of `bread`: `acquiresleep`, and a read if the buffer is not valid. -/
def bwait (s : State α) (w : Request) : Except Halt (State α) :=
  if w ∈ s.waiting ∧ (s.buf w.buf).locked = false then
    let s := { s.set w.buf { s.buf w.buf with locked := true } with
      waiting := s.waiting.erase w }
    if (s.buf w.buf).valid then .ok s else s.iderw w.buf
  else .error .asleep

/-- `bread`. -/
def bread (s : State α) (dev blockno : ℕ) : Except Halt (ℕ × State α) := do
  let (k, s) ← s.bget dev blockno
  let s ← s.bwait ⟨k, dev, blockno⟩
  .ok (k, s)

/-- `b->data` is written. -/
def setData (s : State α) (k : ℕ) (v : α) : State α := s.set k { s.buf k with data := v }

/-- `bwrite`. -/
def bwrite (s : State α) (k : ℕ) : Except Halt (State α) :=
  if (s.buf k).locked = false then .error (.panic "bwrite")
  else
    iderw { s.set k { s.buf k with dirty := true } with
      contents := update s.contents (s.buf k).key (s.buf k).data } k

/-- `brelse`. -/
def brelse (s : State α) (k : ℕ) : Except Halt (State α) :=
  let b := s.buf k
  if b.locked = false then .error (.panic "brelse")
  else
    let s := s.set k { b with locked := false, refcnt := b.refcnt - 1 }
    if b.refcnt - 1 = 0 then
      let prev := update s.prev (s.next k) (s.prev k)
      let next := update s.next (s.prev k) (s.next k)
      .ok { s with
        next := update (update next k (next NBUF)) NBUF k
        prev := update (update prev k NBUF) (next NBUF) k }
    else .ok s

/-- `log_write`, by a process in a transaction. -/
def logWrite (s : State α) (log : LogArea α) (k : ℕ) : Except Halt (State α) :=
  let b := s.buf k
  if LOGSIZE ≤ s.lh.length ∨ log.size - 1 ≤ s.lh.length then
    .error (.panic "too big a transaction")
  else
    .ok { s.set k { b with dirty := true } with
      lh := if b.blockno ∈ s.lh then s.lh else s.lh ++ [b.blockno]
      contents := update s.contents b.key b.data }

/-! ### Committing -/

/-- The two calls of `bread` for a copy: `write_log` reads the destination first and
`install_trans` the source. -/
def breadBoth (s : State α) (dev src dst : ℕ) (srcFirst : Bool) :
    Except Halt (ℕ × ℕ × State α) :=
  if srcFirst then do
    let (l, s) ← s.bread dev src
    let (d, s) ← s.bread dev dst
    .ok (l, d, s)
  else do
    let (d, s) ← s.bread dev dst
    let (l, s) ← s.bread dev src
    .ok (l, d, s)

/-- A block is copied: the loop bodies of `write_log` and of `install_trans`. -/
def copy (s : State α) (log : LogArea α) (src dst : ℕ) (srcFirst : Bool) :
    Except Halt (State α) := do
  let (l, d, s) ← s.breadBoth log.dev src dst srcFirst
  let s ← (s.setData d (s.buf l).data).bwrite d
  let s ← s.brelse l
  s.brelse d

/-- `write_log`. -/
def writeLog (s : State α) (log : LogArea α) : Except Halt (State α) :=
  s.lh.zipIdx.foldlM (fun s (b, tail) => s.copy log b (log.start + tail + 1) false) s

/-- `install_trans`. -/
def installTrans (s : State α) (log : LogArea α) : Except Halt (State α) :=
  s.lh.zipIdx.foldlM (fun s (b, tail) => s.copy log (log.start + tail + 1) b true) s

/-- `write_head`. -/
def writeHead (s : State α) (log : LogArea α) : Except Halt (State α) := do
  let (k, s) ← s.bread log.dev log.start
  let s ← (s.setData k (log.putHead s.lh (s.buf k).data)).bwrite k
  s.brelse k

/-- `commit`. -/
def commit (s : State α) (log : LogArea α) : Except Halt (State α) :=
  if s.lh = [] then .ok s
  else do
    let s ← s.writeLog log
    let s ← s.writeHead log
    let s ← s.installTrans log
    writeHead { s with lh := [] } log

end State

/-! ### Runs -/

/-- `binit`: the links after the first `n` buffers. -/
def initLinks : ℕ → (ℕ → ℕ) × (ℕ → ℕ)
  | 0 => (fun _ => NBUF, fun _ => NBUF)
  | n + 1 =>
      let (next, prev) := initLinks n
      (update (update next n (next NBUF)) NBUF n,
        update (update prev n NBUF) (next NBUF) n)

/-- The cache after `binit`, with zeroed buffers. -/
def boot (disk : ℕ × ℕ → α) (data : α) : State α where
  buf _ := ⟨false, false, 0, 0, false, 0, data⟩
  next := (initLinks NBUF).1
  prev := (initLinks NBUF).2
  disk := disk
  lh := []
  waiting := []
  contents := disk

/-- What processes do with buffers. -/
inductive Action (α : Type) where
  /-- A process calls `bread`. -/
  | bget (dev blockno : ℕ)
  /-- A process in `bread` gets the buffer it waits for. -/
  | bwait (w : Request)
  /-- The process that holds the buffer changes it and calls `bwrite`. -/
  | bwrite (k : ℕ) (v : α)
  /-- The process that holds the buffer changes it and calls `log_write`. -/
  | logWrite (k : ℕ) (v : α)
  | brelse (k : ℕ)
  | commit

def exec (log : LogArea α) (s : State α) : Action α → Except Halt (State α)
  | .bget dev blockno => do
      let (_, s) ← s.bget dev blockno
      .ok s
  | .bwait w => s.bwait w
  | .bwrite k v => (s.setData k v).bwrite k
  | .logWrite k v => (s.setData k v).logWrite log k
  | .brelse k => s.brelse k
  | .commit => s.commit log

/-- A buffer that a process holds. -/
def State.Held (s : State α) (k : ℕ) : Prop := k < NBUF ∧ (s.buf k).locked = true

/-- A buffer is changed and given back by the process that holds it, and blocks of the log are
not logged. -/
def Allowed (log : LogArea α) (s : State α) : Action α → Prop
  | .bget .. => True
  | .bwait _ => True
  | .bwrite k _ => s.Held k
  | .logWrite k _ => s.Held k ∧
      ((s.buf k).blockno < log.start ∨ log.start + log.size ≤ (s.buf k).blockno)
  | .brelse k => s.Held k
  | .commit => True

instance (log : LogArea α) (s : State α) (a : Action α) : Decidable (Allowed log s a) := by
  cases a <;> unfold Allowed State.Held <;> infer_instance

def step (log : LogArea α) (s : State α) (a : Action α) : Option (State α) :=
  (exec log s a).toOption

end Bio
end Xv6
