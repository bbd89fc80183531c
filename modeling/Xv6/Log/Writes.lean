/-
# The disk writes of `commit` and `recover_from_log`, in program order

Every routine of `log.c` touches the disk through `bwrite` alone, so each one
is a list of single-block writes: `writeLog_eq`, `writeHead_eq` and
`installTrans_eq` name the list, and `commit_trace` and `recoverFromLog_trace`
put the lists in order.  The two copy loops are one loop (`copyLoop_eq`): it
copies `src i` to `dst i` for `i < n`, and as long as no source is also a
destination the order of the copies does not matter.
-/

import Xv6.Log.Model

namespace Xv6
namespace Log

open Lib Function

namespace Machine

/-- A list of `bwrite`s. -/
def writes (m : Machine) (ws : List (ℕ × Block)) : Machine :=
  ws.foldl (fun m w => m.bwrite w.1 w.2) m

@[simp] theorem bwrite_bread (m : Machine) (b : ℕ) (v : Block) :
    (m.bwrite b v).bread = update m.bread b v := by
  funext x
  by_cases hx : x = b
  · subst hx
    simp [bread, bwrite]
  · simp [bread, bwrite, Function.update_of_ne hx]

@[simp] theorem writes_lh (m : Machine) (ws : List (ℕ × Block)) : (m.writes ws).lh = m.lh := by
  induction ws generalizing m with
  | nil => rfl
  | cons w ws ih => exact ih (m.bwrite w.1 w.2)

@[simp] theorem writes_start (m : Machine) (ws : List (ℕ × Block)) :
    (m.writes ws).start = m.start := by
  induction ws generalizing m with
  | nil => rfl
  | cons w ws ih => exact ih (m.bwrite w.1 w.2)

@[simp] theorem writes_disk (m : Machine) (ws : List (ℕ × Block)) :
    (m.writes ws).disk = applyWrites m.disk ws := by
  induction ws generalizing m with
  | nil => rfl
  | cons w ws ih => exact ih (m.bwrite w.1 w.2)

@[simp] theorem writes_bread (m : Machine) (ws : List (ℕ × Block)) :
    (m.writes ws).bread = applyWrites m.bread ws := by
  induction ws generalizing m with
  | nil => rfl
  | cons w ws ih =>
    rw [applyWrites_cons, ← bwrite_bread]
    exact ih (m.bwrite w.1 w.2)

@[simp] theorem writes_trace (m : Machine) (ws : List (ℕ × Block)) :
    (m.writes ws).trace = m.trace ++ ws := by
  induction ws generalizing m with
  | nil => simp [writes]
  | cons w ws ih => exact (ih (m.bwrite w.1 w.2)).trans (by simp [bwrite])

theorem writes_append (m : Machine) (ws vs : List (ℕ × Block)) :
    m.writes (ws ++ vs) = (m.writes ws).writes vs := by
  simp [writes, List.foldl_append]

theorem writes_concat (m : Machine) (ws : List (ℕ × Block)) (b : ℕ) (v : Block) :
    m.writes (ws ++ [(b, v)]) = (m.writes ws).bwrite b v := writes_append m ws [(b, v)]

@[simp] theorem clearHeader_lh (m : Machine) : m.clearHeader.lh = m.lh.cleared := rfl

@[simp] theorem clearHeader_start (m : Machine) : m.clearHeader.start = m.start := rfl

@[simp] theorem clearHeader_disk (m : Machine) : m.clearHeader.disk = m.disk := rfl

@[simp] theorem clearHeader_bread (m : Machine) : m.clearHeader.bread = m.bread := rfl

@[simp] theorem clearHeader_trace (m : Machine) : m.clearHeader.trace = m.trace := rfl

/-- The header block `write_head` makes out of `log.lh` and the block it finds. -/
def headBlock (lh : LogHeader) (hb : Block) : Block :=
  applyWrites (update hb 0 (lh.n : ℤ))
    ((List.range lh.n).map fun i => (i + 1, (lh.block i : ℤ)))

theorem writeHead_eq (m : Machine) :
    m.writeHead = m.writes [(m.start, headBlock m.lh (m.bread m.start))] := by
  rw [writeHead, foldl_update_eq_applyWrites]
  rfl

theorem headBlock_zero (lh : LogHeader) (hb : Block) : headBlock lh hb 0 = lh.n := by
  rw [headBlock, applyWrites_of_not_mem, Function.update_self]
  intro w hw
  obtain ⟨i, _, rfl⟩ := List.mem_map.1 hw
  exact Nat.succ_ne_zero i

theorem headBlock_succ (lh : LogHeader) (hb : Block) {i : ℕ} (hi : i < lh.n) :
    headBlock lh hb (i + 1) = lh.block i := by
  refine applyWrites_of_mem _ _ ?_ (List.mem_map.2 ⟨i, List.mem_range.2 hi, rfl⟩)
  rw [List.map_map]
  exact List.nodup_range.map fun a b h => Nat.succ.inj h

/-- `read_head` after a boot finds what the header block says. -/
theorem readHead_block (m : Machine) {i : ℕ} (hi : i < m.readHead.lh.n) :
    m.readHead.lh.block i = (m.bread m.start (i + 1)).toNat := by
  change (List.range _).foldl (fun blk i => update blk i _) m.lh.block i = _
  rw [foldl_update_eq_applyWrites]
  refine applyWrites_of_mem _ _ ?_ (List.mem_map.2 ⟨i, List.mem_range.2 hi, rfl⟩)
  rw [List.map_map]
  exact List.nodup_range.map fun a b h => h

/-- **One copy loop.**  Copying `src i` to `dst i` for `i < n`, where no source
is a destination, writes what the sources held when the loop began. -/
theorem copyLoop_eq (m : Machine) (body : Machine → ℕ → Machine) (src dst : ℕ → ℕ) (n : ℕ)
    (hbody : ∀ ws i, body (m.writes ws) i =
      (m.writes ws).bwrite (dst i) ((m.writes ws).bread (src i)))
    (hdis : ∀ i < n, ∀ j < n, dst j ≠ src i) :
    (List.range n).foldl body m =
      m.writes ((List.range n).map fun i => (dst i, m.bread (src i))) := by
  induction n with
  | zero => rfl
  | succ n ih =>
    have hprev := ih fun i hi j hj => hdis i (by omega) j (by omega)
    rw [List.range_succ, List.foldl_append, hprev, List.foldl_cons, List.foldl_nil, hbody,
      List.map_append, List.map_cons, List.map_nil, writes_concat, writes_bread,
      applyWrites_of_not_mem]
    intro w hw
    obtain ⟨j, hj, rfl⟩ := List.mem_map.1 hw
    exact hdis n (by omega) j (by have := List.mem_range.1 hj; omega)

theorem writeLog_eq (m : Machine)
    (h : ∀ i < m.lh.n, ∀ j < m.lh.n, m.start + j + 1 ≠ m.lh.block i) :
    m.writeLog = m.writes
      ((List.range m.lh.n).map fun i => (m.start + i + 1, m.bread (m.lh.block i))) :=
  copyLoop_eq m _ m.lh.block (fun i => m.start + i + 1) m.lh.n
    (fun ws i => by simp only [writes_lh, writes_start]) h

theorem installTrans_eq (m : Machine)
    (h : ∀ i < m.lh.n, ∀ j < m.lh.n, m.lh.block j ≠ m.start + i + 1) :
    m.installTrans = m.writes
      ((List.range m.lh.n).map fun i => (m.lh.block i, m.bread (m.start + i + 1))) :=
  copyLoop_eq m _ (fun i => m.start + i + 1) m.lh.block m.lh.n
    (fun ws i => by simp only [writes_lh, writes_start]) h

end Machine

end Log
end Xv6
