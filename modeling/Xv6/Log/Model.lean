/-
# The redo log: `log.c` over a disk of single-block writes

`install_trans`, `read_head`, `write_head`, `recover_from_log`, `write_log` and
`commit` (`xv6/log.c`, lines 68-122 and 176-202).

A block is its words: `struct logheader` is laid over the header block as an
array of `int`s, the count `n` in word 0 and `block[i]` in word `i + 1`.  The
buffer cache enters only through what `bread` returns, the cached copy of a
block where there is one and the disk's contents otherwise, and through
`bwrite`, which writes both.  Every `bwrite` is also recorded in `trace`, in
program order: a crash leaves the disk that a prefix of the trace makes, and
nothing of the memory.

`log.size` is read by no function here; it delimits the log area, the blocks
`start, …, start + size - 1`.
-/

import Xv6.Lib.WriteSeq

namespace Xv6
namespace Log

open Lib Function

/-- A disk block, as words. -/
abbrev Block := ℕ → ℤ

/-- What each block number of the disk holds. -/
abbrev Disk := ℕ → Block

/-- `struct logheader`: the number of logged blocks and their home block numbers. -/
structure LogHeader where
  n : ℕ
  block : ℕ → ℕ

/-- `log.lh.n = 0`. -/
def LogHeader.cleared (lh : LogHeader) : LogHeader := { n := 0, block := lh.block }

/-- The kernel's memory as far as `log.c` uses it, the disk, and the writes
made to the disk so far. -/
structure Machine where
  start : ℕ
  size : ℕ
  lh : LogHeader
  cache : ℕ → Option Block
  disk : Disk
  trace : List (ℕ × Block)

namespace Machine

/-- `bread(log.dev, b)`: the cached copy of a block, or the block as the disk has it. -/
def bread (m : Machine) (b : ℕ) : Block := (m.cache b).getD (m.disk b)

/-- `bwrite`: one single-block disk write, of the buffer of block `b` holding `v`. -/
def bwrite (m : Machine) (b : ℕ) (v : Block) : Machine :=
  { m with
    cache := update m.cache b (some v)
    disk := update m.disk b v
    trace := m.trace ++ [(b, v)] }

/-- `write_head`: lay `log.lh` over the header block, the words past
`block[n-1]` staying as they are, and write it out. -/
def writeHead (m : Machine) : Machine :=
  let hb := update (m.bread m.start) 0 (m.lh.n : ℤ)
  m.bwrite m.start
    ((List.range m.lh.n).foldl (fun hb i => update hb (i + 1) (m.lh.block i : ℤ)) hb)

/-- `read_head`: take `n` and the first `n` home block numbers from the header block. -/
def readHead (m : Machine) : Machine :=
  let hb := m.bread m.start
  let n := (hb 0).toNat
  { m with
    lh :=
      { n := n
        block := (List.range n).foldl (fun blk i => update blk i (hb (i + 1)).toNat)
          m.lh.block } }

/-- `install_trans`: copy each logged block to its home. -/
def installTrans (m : Machine) : Machine :=
  (List.range m.lh.n).foldl
    (fun m tail => m.bwrite (m.lh.block tail) (m.bread (m.start + tail + 1))) m

/-- `write_log`: copy each modified block from the cache to the log. -/
def writeLog (m : Machine) : Machine :=
  (List.range m.lh.n).foldl
    (fun m tail => m.bwrite (m.start + tail + 1) (m.bread (m.lh.block tail))) m

def clearHeader (m : Machine) : Machine := { m with lh := m.lh.cleared }

/-- `commit`. -/
def commit (m : Machine) : Machine :=
  if 0 < m.lh.n then (m.writeLog.writeHead.installTrans.clearHeader).writeHead else m

/-- `recover_from_log`. -/
def recoverFromLog (m : Machine) : Machine :=
  (m.readHead.installTrans.clearHeader).writeHead

end Machine

/-- A machine that has just come up on the disk `d`: nothing is cached, and
`initlog` has taken the log's place from the superblock. -/
def reboot (start size : ℕ) (d : Disk) : Machine :=
  { start := start
    size := size
    lh := { n := 0, block := fun _ => 0 }
    cache := fun _ => none
    disk := d
    trace := [] }

/-- The disk found after a crash that let only the first `k` disk writes of
`commit` through. -/
def commitCrashed (m : Machine) (k : ℕ) : Disk := applyWrites m.disk (m.commit.trace.take k)

/-- The disk found after a recovery that crashed behind its first `k` disk writes. -/
def recoveryCrashed (start size : ℕ) (d : Disk) (k : ℕ) : Disk :=
  applyWrites d ((reboot start size d).recoverFromLog.trace.take k)

/-- Any number of recoveries, crashed behind `k₁, k₂, …` writes, and one that completes. -/
def recovered (start size : ℕ) (d : Disk) (ks : List ℕ) : Disk :=
  (reboot start size (ks.foldl (recoveryCrashed start size) d)).recoverFromLog.disk

/-- The blocks of the log area: the header and the log blocks. -/
def InLog (start size b : ℕ) : Prop := start ≤ b ∧ b < start + size

/-- The count word of the on-disk log header. -/
def headerCount (start : ℕ) (d : Disk) : ℤ := d start 0

/-- **A transaction about to commit**, on a disk whose log header is empty: at
most `log.size - 1` logged blocks, with pairwise distinct homes outside the log
area, and a cache that differs from the disk on those homes alone. -/
structure Pending where
  m : Machine
  header_empty : headerCount m.start m.disk = 0
  fits : m.lh.n ≤ m.size - 1
  distinct : ∀ i < m.lh.n, ∀ j < m.lh.n, m.lh.block i = m.lh.block j → i = j
  outside : ∀ i < m.lh.n, ¬ InLog m.start m.size (m.lh.block i)
  coherent : ∀ b, (∀ i < m.lh.n, m.lh.block i ≠ b) → m.bread b = m.disk b
  fresh : m.trace = []

/-- The disk as the whole transaction would leave it outside the log area: the
homes hold what the cache holds of them. -/
def Pending.after (t : Pending) : Disk := t.m.bread

end Log
end Xv6
