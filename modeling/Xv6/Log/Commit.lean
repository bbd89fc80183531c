/-
# What `commit` writes for a pending transaction

For a transaction whose homes lie outside the log area the writes of `commit`
are four lists in a row (`Pending.commit_trace`): the log blocks, the header
naming the transaction, the homes, and the empty header.  A disk met on the way
is `Settled`, its header empty and its homes as before or as after the
transaction, or `Committed`, its header naming the whole transaction, the log
blocks holding it, and each home old or new.
-/

import Xv6.Log.Writes

namespace Xv6
namespace Log

open Lib Machine

/-- The header is empty and every block outside the log area is that of `d₀`. -/
def Settled (start size : ℕ) (d₀ d : Disk) : Prop :=
  headerCount start d = 0 ∧ ∀ b, ¬ InLog start size b → d b = d₀ b

/-- The header names the transaction, the log blocks hold it, and every block
outside the log area is as before or as after the transaction. -/
structure Committed (t : Pending) (d : Disk) : Prop where
  pos : 0 < t.m.lh.n
  count : d t.m.start 0 = t.m.lh.n
  homes : ∀ i < t.m.lh.n, d t.m.start (i + 1) = t.m.lh.block i
  logged : ∀ i < t.m.lh.n, d (t.m.start + i + 1) = t.after (t.m.lh.block i)
  outside : ∀ b, ¬ InLog t.m.start t.m.size b → d b = t.m.disk b ∨ d b = t.after b

/-- The disks a crash can leave: settled as before, committed, or settled as after. -/
def Recoverable (t : Pending) (d : Disk) : Prop :=
  Settled t.m.start t.m.size t.m.disk d ∨ Committed t d ∨ Settled t.m.start t.m.size t.after d

theorem ne_of_not_inLog {start size x b : ℕ} (hx : ¬ InLog start size x)
    (hb : InLog start size b) : x ≠ b := fun he => hx (he ▸ hb)

namespace Pending

variable (t : Pending)

/-- A log block is inside the log area. -/
theorem inLog_logBlock {i : ℕ} (hi : i < t.m.lh.n) : InLog t.m.start t.m.size (t.m.start + i + 1) := by
  have := t.fits
  constructor <;> omega

theorem block_ne_logBlock {i j : ℕ} (hi : i < t.m.lh.n) (hj : j < t.m.lh.n) :
    t.m.lh.block j ≠ t.m.start + i + 1 := fun h =>
  t.outside j hj (h ▸ t.inLog_logBlock hi)

theorem block_ne_start {i : ℕ} (hi : i < t.m.lh.n) : t.m.lh.block i ≠ t.m.start := by
  intro h
  have := t.fits
  exact t.outside i hi ⟨by omega, by omega⟩

/-- The writes of the log blocks, and those of the homes. -/
def logWrites : List (ℕ × Block) :=
  (List.range t.m.lh.n).map fun i => (t.m.start + i + 1, t.after (t.m.lh.block i))

def homeWrites : List (ℕ × Block) :=
  (List.range t.m.lh.n).map fun i => (t.m.lh.block i, t.after (t.m.lh.block i))

theorem nodup_logWrites : (t.logWrites.map Prod.fst).Nodup := by
  rw [logWrites, List.map_map]
  refine List.nodup_range.map fun a b h => ?_
  change t.m.start + a + 1 = t.m.start + b + 1 at h
  omega

theorem nodup_homeWrites : (t.homeWrites.map Prod.fst).Nodup := by
  rw [homeWrites, List.map_map]
  refine List.Nodup.map_on (fun a ha b hb h => ?_) List.nodup_range
  exact t.distinct a (List.mem_range.1 ha) b (List.mem_range.1 hb) h

/-- Installing from a log that holds the transaction writes the homes. -/
theorem installTrans_of_logged (m : Machine) (hstart : m.start = t.m.start)
    (hn : m.lh.n = t.m.lh.n) (hblock : ∀ i < t.m.lh.n, m.lh.block i = t.m.lh.block i)
    (hlog : ∀ i < t.m.lh.n, m.bread (t.m.start + i + 1) = t.after (t.m.lh.block i)) :
    m.installTrans = m.writes t.homeWrites := by
  rw [installTrans_eq, hn]
  · congr 1
    refine List.map_congr_left fun i hi => ?_
    have hi := List.mem_range.1 hi
    rw [hblock i hi, hstart, hlog i hi]
  · intro i hi j hj
    rw [hn] at hi hj
    rw [hblock j hj, hstart]
    exact t.block_ne_logBlock hi hj

theorem writeLog_eq_logWrites : t.m.writeLog = t.m.writes t.logWrites :=
  writeLog_eq t.m fun _ hi _ hj => (t.block_ne_logBlock hj hi).symm

/-- The log as `commit` has it once the header is out. -/
theorem bread_logged (hb : Block) {i : ℕ} (hi : i < t.m.lh.n) :
    (t.m.writes (t.logWrites ++ [(t.m.start, hb)])).bread (t.m.start + i + 1) =
      t.after (t.m.lh.block i) := by
  rw [writes_bread, applyWrites_concat, Function.update_of_ne (by omega)]
  exact applyWrites_of_mem _ _ t.nodup_logWrites (List.mem_map.2 ⟨i, List.mem_range.2 hi, rfl⟩)

/-- **What `commit` writes, in order**: the log blocks, the header with the
whole transaction, the homes, the empty header. -/
theorem commit_trace (hn : 0 < t.m.lh.n) :
    ∃ hb₁ hb₂, t.m.commit.trace =
      t.logWrites ++ (t.m.start, headBlock t.m.lh hb₁) ::
        (t.homeWrites ++ [(t.m.start, headBlock t.m.lh.cleared hb₂)]) := by
  obtain ⟨hb₁, h₁⟩ : ∃ hb, t.m.writeLog.writeHead =
      t.m.writes (t.logWrites ++ [(t.m.start, headBlock t.m.lh hb)]) := by
    refine ⟨t.m.writeLog.bread t.m.start, ?_⟩
    rw [writeHead_eq, writes_append, t.writeLog_eq_logWrites, writes_lh, writes_start]
  have h₂ : t.m.writeLog.writeHead.installTrans =
      t.m.writes (t.logWrites ++ [(t.m.start, headBlock t.m.lh hb₁)] ++ t.homeWrites) := by
    rw [h₁, writes_append t.m (_ ++ _)]
    exact t.installTrans_of_logged _ (writes_start ..) (by rw [writes_lh])
      (fun _ _ => by rw [writes_lh]) fun i hi => t.bread_logged _ hi
  refine ⟨hb₁, t.m.writeLog.writeHead.installTrans.bread t.m.start, ?_⟩
  rw [commit, if_pos hn, writeHead_eq, writes_trace, h₂]
  simp only [clearHeader_trace, clearHeader_lh, clearHeader_start, clearHeader_bread,
    writes_trace, writes_lh, writes_start, t.fresh, List.nil_append, List.append_assoc,
    List.cons_append]

end Pending

end Log
end Xv6
