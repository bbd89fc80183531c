/-
# Operations that share the log

`begin_op`, `end_op` and `log_write` (`xv6/log.c`, lines 124-174 and 213-233):
how concurrent file system operations share one transaction.  `begin_op` lets
an operation in when `MAXOPBLOCKS` more blocks for it and for every operation
in progress still make at most `LOGSIZE`; `log_write` panics with `LOGSIZE` or
`log.size - 1` blocks in the log, before it looks whether the block is already
there.  It does so outside the lock, so the test and the append are two steps.

An operation is its blocks so far and, inside `log_write`, the block it is
about to append.
-/

import Xv6.Log.Writes
import Xv6.Param

namespace Xv6
namespace Log

open Function

/-- `struct log`, with the machine it works on. -/
structure Session where
  m : Machine
  outstanding : ℕ
  committing : Bool

namespace Session

/-- The block numbers in the log header. -/
def logged (l : Session) : List ℕ := (List.range l.m.lh.n).map l.m.lh.block

/-- `begin_op`, or nothing while it sleeps. -/
def beginOp (l : Session) : Option Session :=
  if l.committing then none
  else if LOGSIZE < l.m.lh.n + (l.outstanding + 1) * MAXOPBLOCKS then none
  else some { l with outstanding := l.outstanding + 1 }

/-- `end_op` up to its call of `commit`. -/
def endOp (l : Session) : Except Halt Session :=
  if l.committing then .error (.panic "log.committing")
  else .ok { l with outstanding := l.outstanding - 1, committing := l.outstanding - 1 = 0 }

/-- The rest of the `end_op` that commits. -/
def finish (l : Session) : Session := { l with m := l.m.commit, committing := false }

/-- The two tests of `log_write`. -/
def checkWrite (l : Session) : Except Halt Unit :=
  if LOGSIZE ≤ l.m.lh.n ∨ l.m.size - 1 ≤ l.m.lh.n then .error (.panic "too big a transaction")
  else if l.outstanding < 1 then .error (.panic "log_write outside of trans")
  else .ok ()

/-- The locked part of `log_write`, for a buffer of block `b` with contents `v`: the block
takes the place it already has in the header, or a new one. -/
def absorb (l : Session) (b : ℕ) (v : Block) : Session :=
  let lh := l.m.lh
  let i := l.logged.idxOf b
  { l with
    m := { l.m with
      lh := { n := if i = lh.n then lh.n + 1 else lh.n, block := update lh.block i b }
      cache := update l.m.cache b (some v) } }

end Session

/-- An operation in progress: the blocks it has called `log_write` on, and the one of a call
that has passed the tests and not yet taken the lock. -/
structure Operation where
  blocks : List ℕ
  pending : Option ℕ
  deriving DecidableEq, Repr

/-- The log and the operations between their `begin_op` and their `end_op`. -/
structure Shared where
  log : Session
  ops : List Operation

/-- What can happen.  An operation is named by its place among those in progress. -/
inductive Action where
  | beginOp
  /-- The operation calls `log_write` on a block. -/
  | check (j b : ℕ)
  /-- It takes the lock, the buffer holding `v`. -/
  | append (j : ℕ) (v : Block)
  | endOp (j : ℕ)
  | commit

/-- The operation may call `log_write` on the block: it stays within its quota. -/
def Operation.MayWrite (op : Operation) (b : ℕ) : Prop :=
  op.pending = none ∧ (op.blocks.insert b).length ≤ MAXOPBLOCKS

instance (op : Operation) (b : ℕ) : Decidable (op.MayWrite b) :=
  inferInstanceAs (Decidable (_ ∧ _))

/-- One step of the operations; a `log_write` that panics has no successor. -/
def step (s : Shared) : Action → Option Shared
  | .beginOp => s.log.beginOp.map fun l => ⟨l, s.ops ++ [⟨[], none⟩]⟩
  | .check j b =>
      match s.ops[j]? with
      | none => none
      | some op =>
          if op.MayWrite b ∧ s.log.checkWrite = .ok () then
            some { s with ops := s.ops.set j ⟨op.blocks.insert b, some b⟩ }
          else none
  | .append j v =>
      match s.ops[j]? with
      | some ⟨blocks, some b⟩ => some ⟨s.log.absorb b v, s.ops.set j ⟨blocks, none⟩⟩
      | _ => none
  | .endOp j =>
      match s.ops[j]? with
      | some ⟨_, none⟩ => s.log.endOp.toOption.map fun l => ⟨l, s.ops.eraseIdx j⟩
      | _ => none
  | .commit => if s.log.committing then some { s with log := s.log.finish } else none

/-- The log after `initlog`, no operation in progress. -/
def idle (m : Machine) : Shared := ⟨⟨m, 0, false⟩, []⟩

/-! ### The header -/

/-- A loop of `bwrite`s leaves the header in memory and the size of the log. -/
theorem Machine.foldl_bwrite_keeps (dst : Machine → ℕ → ℕ) (src : Machine → ℕ → Block)
    (is : List ℕ) (m : Machine) :
    (is.foldl (fun m i => m.bwrite (dst m i) (src m i)) m).lh = m.lh ∧
      (is.foldl (fun m i => m.bwrite (dst m i) (src m i)) m).size = m.size := by
  induction is generalizing m with
  | nil => exact ⟨rfl, rfl⟩
  | cons i is ih => exact ih (m.bwrite (dst m i) (src m i))

/-- `commit` empties the log. -/
theorem Machine.commit_empties (m : Machine) : m.commit.lh.n = 0 ∧ m.commit.size = m.size := by
  unfold Machine.commit
  split
  · have hlog : m.writeLog.size = m.size := (foldl_bwrite_keeps _ _ _ m).2
    have hinstall : m.writeLog.writeHead.installTrans.size = m.writeLog.writeHead.size :=
      (foldl_bwrite_keeps _ _ _ _).2
    exact ⟨rfl, hinstall.trans hlog⟩
  · next hn => exact ⟨by omega, rfl⟩

namespace Session

variable (l : Session)

theorem length_logged : l.logged.length = l.m.lh.n := by
  rw [logged, List.length_map, List.length_range]

/-- Writing a block again changes no place of the header. -/
theorem logged_absorb_of_mem {b : ℕ} (v : Block) (h : b ∈ l.logged) :
    (l.absorb b v).logged = l.logged := by
  have hlt : l.logged.idxOf b < l.m.lh.n := by
    rw [← length_logged]
    exact List.idxOf_lt_length_iff.2 h
  have hsame : l.m.lh.block (l.logged.idxOf b) = b := by
    have hget : l.logged[l.logged.idxOf b]? = some b := List.getElem?_idxOf h
    unfold logged at hget ⊢
    rw [List.getElem?_map, List.getElem?_range (by rwa [logged] at hlt)] at hget
    exact Option.some.inj hget
  have hblock : update l.m.lh.block (l.logged.idxOf b) b = l.m.lh.block := by
    nth_rewrite 2 [← hsame]
    exact Function.update_eq_self _ _
  change (List.range (if l.logged.idxOf b = l.m.lh.n then l.m.lh.n + 1 else l.m.lh.n)).map
    (update l.m.lh.block (l.logged.idxOf b) b) = _
  rw [if_neg (Nat.ne_of_lt hlt), hblock]
  rfl

/-- Writing a new block adds it at the end. -/
theorem logged_absorb_of_not_mem {b : ℕ} (v : Block) (h : b ∉ l.logged) :
    (l.absorb b v).logged = l.logged ++ [b] := by
  have hidx : l.logged.idxOf b = l.m.lh.n := by
    rw [← length_logged]
    exact List.idxOf_eq_length_iff.2 h
  have hold : (List.range l.m.lh.n).map (update l.m.lh.block l.m.lh.n b) = l.logged := by
    refine List.map_congr_left fun i hi => ?_
    exact Function.update_of_ne (Nat.ne_of_lt (List.mem_range.1 hi)) _ _
  change (List.range (if l.logged.idxOf b = l.m.lh.n then l.m.lh.n + 1 else l.m.lh.n)).map
    (update l.m.lh.block (l.logged.idxOf b) b) = _
  rw [hidx, if_pos rfl, List.range_succ, List.map_append, hold, List.map_singleton,
    Function.update_self]

theorem mem_logged_absorb {b x : ℕ} (v : Block) :
    x ∈ (l.absorb b v).logged ↔ x ∈ l.logged ∨ x = b := by
  by_cases h : b ∈ l.logged
  · rw [logged_absorb_of_mem l v h]
    constructor
    · exact .inl
    · rintro (hx | rfl)
      · exact hx
      · exact h
  · rw [logged_absorb_of_not_mem l v h, List.mem_append, List.mem_singleton]

/-- The header grows by one block if the block is new. -/
theorem n_absorb (b : ℕ) (v : Block) :
    (l.absorb b v).m.lh.n = l.m.lh.n + if b ∈ l.logged then 0 else 1 := by
  rw [← length_logged, ← length_logged]
  split
  · next h => rw [logged_absorb_of_mem l v h, Nat.add_zero]
  · next h => rw [logged_absorb_of_not_mem l v h, List.length_append, List.length_singleton]

end Session

end Log
end Xv6
