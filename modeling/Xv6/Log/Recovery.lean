/-
# Crash atomicity of the redo log

`recover_from_log` on a settled disk rewrites the empty header it finds
(`recover_settled`); on a committed disk it writes the homes and empties the
header (`recover_committed`).  Either way a crashed recovery leaves a disk of
the same kind or one settled as after the transaction, a complete one leaves a
settled disk, and by induction so does any number of crashed recoveries before
one that completes: `commit_crash_atomic`.  Which of the two: `commit_point`.
-/

import Xv6.Log.Crash

namespace Xv6
namespace Log

open Lib Machine

variable {t : Pending} {d d₀ : Disk}

/-- **Recovery of a settled disk** writes the header it finds. -/
theorem recover_settled {start size : ℕ} (h : Settled start size d₀ d) :
    (reboot start size d).recoverFromLog.trace = [(start, d start)] ∧
      (reboot start size d).recoverFromLog.disk = d := by
  have hcount : d start 0 = 0 := h.1
  have hn : (reboot start size d).readHead.lh.n = 0 := by
    change (d start 0).toNat = 0
    rw [hcount]
    rfl
  have hinst : (reboot start size d).readHead.installTrans = (reboot start size d).readHead := by
    rw [installTrans, hn]
    rfl
  have hhead : headBlock (reboot start size d).readHead.lh.cleared (d start) = d start := by
    change Function.update (d start) 0 0 = d start
    rw [← hcount, Function.update_eq_self]
  have hstart : (reboot start size d).readHead.start = start := rfl
  have hbread : (reboot start size d).readHead.bread start = d start := rfl
  rw [recoverFromLog, hinst, writeHead_eq, clearHeader_start, clearHeader_lh, clearHeader_bread,
    hstart, hbread, hhead, writes_trace, writes_disk, applyWrites_cons, applyWrites_nil]
  exact ⟨rfl, Function.update_eq_self start d⟩

/-- **Recovery of a committed disk** writes the homes and empties the header. -/
theorem recover_committed (h : Committed t d) :
    ∃ lh hb, (reboot t.m.start t.m.size d).recoverFromLog.trace =
        t.homeWrites ++ [(t.m.start, headBlock (LogHeader.cleared lh) hb)] ∧
      (reboot t.m.start t.m.size d).recoverFromLog.disk =
        applyWrites d (t.homeWrites ++ [(t.m.start, headBlock (LogHeader.cleared lh) hb)]) := by
  set m := (reboot t.m.start t.m.size d).readHead with hm
  have hn : m.lh.n = t.m.lh.n := by
    change (d t.m.start 0).toNat = t.m.lh.n
    rw [h.count, Int.toNat_natCast]
  have hblock : ∀ i < t.m.lh.n, m.lh.block i = t.m.lh.block i := by
    intro i hi
    rw [hm, readHead_block _ (by rw [← hm, hn]; exact hi)]
    change (d t.m.start (i + 1)).toNat = t.m.lh.block i
    rw [h.homes i hi, Int.toNat_natCast]
  have hinst : m.installTrans = m.writes t.homeWrites :=
    t.installTrans_of_logged m rfl hn hblock fun i hi => h.logged i hi
  refine ⟨m.lh, (m.writes t.homeWrites).bread t.m.start, ?_⟩
  rw [recoverFromLog, ← hm, hinst, writeHead_eq, writes_trace, writes_disk]
  simp only [clearHeader_trace, clearHeader_disk, clearHeader_lh, clearHeader_start,
    clearHeader_bread, writes_trace, writes_disk, writes_lh, writes_start, applyWrites_append]
  exact ⟨rfl, rfl⟩

/-- A crash of the recovery of a settled disk changes nothing. -/
theorem recoveryCrashed_settled {start size : ℕ} (h : Settled start size d₀ d) (k : ℕ) :
    recoveryCrashed start size d k = d := by
  rw [recoveryCrashed, (recover_settled h).1]
  cases k with
  | zero => rfl
  | succ k =>
    rw [List.take_succ_cons, List.take_nil]
    exact Function.update_eq_self start d

theorem recoveryCrashed_durable (h : Durable t d) (k : ℕ) :
    Durable t (recoveryCrashed t.m.start t.m.size d k) := by
  rcases h with hc | hs
  · obtain ⟨lh, hb, htr, _⟩ := recover_committed hc
    rw [recoveryCrashed, htr]
    exact hc.take_durable lh hb k
  · rw [recoveryCrashed_settled hs]
    exact Or.inr hs

/-- **Every crash of a recovery leaves a recoverable disk.** -/
theorem recoveryCrashed_recoverable (h : Recoverable t d) (k : ℕ) :
    Recoverable t (recoveryCrashed t.m.start t.m.size d k) := by
  rcases h with hs | hd
  · rw [recoveryCrashed_settled hs]
    exact Or.inl hs
  · exact Or.inr (recoveryCrashed_durable hd k)

/-- Any number of crashed recoveries, and one that completes, install the transaction. -/
theorem recovered_durable (h : Durable t d) (ks : List ℕ) :
    Settled t.m.start t.m.size t.after (recovered t.m.start t.m.size d ks) := by
  induction ks generalizing d with
  | nil =>
    rw [recovered, List.foldl_nil]
    rcases h with hc | hs
    · obtain ⟨lh, hb, _, hd⟩ := recover_committed hc
      rw [hd]
      exact hc.settled lh hb
    · rw [(recover_settled hs).2]
      exact hs
  | cons k ks ih => exact ih (recoveryCrashed_durable h k)

/-- **A recovery that completes settles the disk.** -/
theorem recover_settles (h : Recoverable t d) :
    Settled t.m.start t.m.size t.m.disk (reboot t.m.start t.m.size d).recoverFromLog.disk ∨
      Settled t.m.start t.m.size t.after (reboot t.m.start t.m.size d).recoverFromLog.disk := by
  rcases h with hs | hd
  · left
    rw [(recover_settled hs).2]
    exact hs
  · right
    exact recovered_durable hd []

/-- **Crash atomicity.**  Crash `commit` behind any number `k` of its
single-block writes, crash any number of recoveries behind `k₁, k₂, …` of
theirs, and let one recovery complete: the on-disk header count is `0`, and the
blocks outside the log area are all as before the transaction or all as after
it (`commit` and `recover_from_log`, `xv6/log.c`). -/
theorem commit_crash_atomic (t : Pending) (k : ℕ) (ks : List ℕ) :
    headerCount t.m.start (recovered t.m.start t.m.size (commitCrashed t.m k) ks) = 0 ∧
      ((∀ b, ¬ InLog t.m.start t.m.size b →
          recovered t.m.start t.m.size (commitCrashed t.m k) ks b = t.m.disk b) ∨
        ∀ b, ¬ InLog t.m.start t.m.size b →
          recovered t.m.start t.m.size (commitCrashed t.m k) ks b = t.after b) := by
  have hrec : Recoverable t
      (ks.foldl (recoveryCrashed t.m.start t.m.size) (commitCrashed t.m k)) := by
    have h₀ := commitCrashed_recoverable t k
    generalize commitCrashed t.m k = d at h₀
    induction ks generalizing d with
    | nil => exact h₀
    | cons j ks ih => exact ih _ (recoveryCrashed_recoverable h₀ j)
  rcases recover_settles hrec with h | h
  · exact ⟨h.1, Or.inl h.2⟩
  · exact ⟨h.1, Or.inr h.2⟩

/-! ### The commit point -/

/-- **The write of the header is the commit point.**  Crash `commit` behind `k` of its writes, and any
recoveries behind theirs: outside the log area the disk is as after the transaction just if the
header, written behind the log blocks, was among the `k`. -/
theorem commit_point (t : Pending) (hn : 0 < t.m.lh.n) (k : ℕ) (ks : List ℕ) (b : ℕ)
    (hb : ¬ InLog t.m.start t.m.size b) :
    recovered t.m.start t.m.size (commitCrashed t.m k) ks b =
      if k ≤ t.m.lh.n then t.m.disk b else t.after b := by
  obtain ⟨hb₁, hb₂, htr⟩ := t.commit_trace hn
  have hlen : t.logWrites.length = t.m.lh.n := by simp [Pending.logWrites]
  rw [commitCrashed, htr]
  split
  next hk =>
    have hs := t.take_logWrites k
    rw [List.take_append_of_le_length (by omega), recovered,
      List.foldl_fixed' (recoveryCrashed_settled hs), (recover_settled hs).2]
    exact hs.2 b hb
  next hk =>
    obtain ⟨j, rfl⟩ : ∃ j, k = t.logWrites.length + (j + 1) := ⟨k - t.m.lh.n - 1, by omega⟩
    rw [List.take_length_add_append, applyWrites_append, List.take_succ_cons, applyWrites_cons]
    exact (recovered_durable ((t.committed hn hb₁).take_durable _ _ j) ks).2 b hb

/-- The blocks 40 and 41 are logged in the log area `2, …, 31` of an empty disk, as `mkfs` lays it
out. -/
def twoLogged : Pending where
  m :=
    { start := 2
      size := 30
      lh := { n := 2, block := fun i => 40 + i }
      cache := fun b => if b = 40 then some fun _ => 7 else if b = 41 then some fun _ => 8 else none
      disk := fun _ _ => 0
      trace := [] }
  header_empty := rfl
  fits := by decide
  distinct _ _ _ _ h := Nat.add_left_cancel h
  outside i _ h := absurd (show 40 + i < 2 + 30 from h.2) (by omega)
  coherent b hb := by
    have hne : b ≠ 40 := fun he => hb 0 (by decide) he.symm
    have hne' : b ≠ 41 := fun he => hb 1 (by decide) he.symm
    simp [Machine.bread, hne, hne']
  fresh := rfl

/-- A crash with both blocks in the log and no header leaves the old ones, also if the recovery
crashes; with the header written both are there. -/
theorem commit_point_twoLogged : recovered 2 30 (commitCrashed twoLogged.m 2) [3] 41 0 = 0 ∧
    recovered 2 30 (commitCrashed twoLogged.m 3) [1, 0] 40 0 = 7 ∧
    recovered 2 30 (commitCrashed twoLogged.m 3) [1, 0] 41 0 = 8 := by
  have hb := twoLogged.outside 0 (by decide)
  have hb' := twoLogged.outside 1 (by decide)
  exact ⟨congrFun (commit_point twoLogged (by decide) 2 [3] 41 hb') 0,
    congrFun (commit_point twoLogged (by decide) 3 [1, 0] 40 hb) 0,
    congrFun (commit_point twoLogged (by decide) 3 [1, 0] 41 hb') 0⟩

end Log
end Xv6
