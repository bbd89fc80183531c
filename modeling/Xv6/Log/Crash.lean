/-
# Every crash of `commit` leaves a recoverable disk

A single write keeps a disk settled or committed (`Settled.update_logBlock`,
`Committed.update_home`), or leads from one to the other (`Pending.committed`
at the commit point, `Committed.settled` at the empty header).  So every prefix
of the writes of `commit` leaves a disk that is settled as before, committed,
or settled as after the transaction: `commitCrashed_recoverable`.
-/

import Xv6.Log.Commit

namespace Xv6
namespace Log

open Lib Machine Function

/-! ### The two conditions under single writes -/

variable {t : Pending} {d d₀ : Disk}

theorem Settled.update_logBlock {start size b : ℕ} (h : Settled start size d₀ d)
    (hb : InLog start size b) (hne : b ≠ start) (v : Block) :
    Settled start size d₀ (update d b v) := by
  refine ⟨?_, fun x hx => ?_⟩
  · rw [headerCount, update_of_ne hne.symm]
    exact h.1
  · rw [update_of_ne (ne_of_not_inLog hx hb)]
    exact h.2 x hx

/-- An empty header settles a disk on what its blocks outside the log hold. -/
theorem settled_update_start {start size : ℕ} (hs : InLog start size start)
    (h : ∀ b, ¬ InLog start size b → d b = d₀ b) (lh : LogHeader) (hb : Block) :
    Settled start size d₀ (update d start (headBlock lh.cleared hb)) := by
  refine ⟨?_, fun x hx => ?_⟩
  · rw [headerCount, update_self, headBlock_zero]
    rfl
  · rw [update_of_ne (ne_of_not_inLog hx hs)]
    exact h x hx

theorem Committed.update_home (h : Committed t d) {i : ℕ} (hi : i < t.m.lh.n) :
    Committed t (update d (t.m.lh.block i) (t.after (t.m.lh.block i))) where
  pos := h.pos
  count := by
    rw [update_of_ne (t.block_ne_start hi).symm]
    exact h.count
  homes := fun j hj => by
    rw [update_of_ne (t.block_ne_start hi).symm]
    exact h.homes j hj
  logged := fun j hj => by
    rw [update_of_ne (t.block_ne_logBlock hj hi).symm]
    exact h.logged j hj
  outside := fun b hb => by
    by_cases he : b = t.m.lh.block i
    · subst he
      exact Or.inr (update_self ..)
    · rw [update_of_ne he]
      exact h.outside b hb

theorem Committed.take_homeWrites (h : Committed t d) (k : ℕ) :
    Committed t (applyWrites d (t.homeWrites.take k)) := by
  refine applyWrites_take_of_forall h _ (fun w hw d' hd' => ?_) k
  obtain ⟨i, hi, rfl⟩ := List.mem_map.1 hw
  exact hd'.update_home (List.mem_range.1 hi)

/-- **All homes written, the disk is that of the whole transaction.** -/
theorem Committed.homeWrites_outside (h : Committed t d) (b : ℕ)
    (hb : ¬ InLog t.m.start t.m.size b) : applyWrites d t.homeWrites b = t.after b := by
  by_cases hhome : ∃ i < t.m.lh.n, t.m.lh.block i = b
  · obtain ⟨i, hi, rfl⟩ := hhome
    exact applyWrites_of_mem _ _ t.nodup_homeWrites (List.mem_map.2 ⟨i, List.mem_range.2 hi, rfl⟩)
  · have hne : ∀ i < t.m.lh.n, t.m.lh.block i ≠ b := fun i hi he => hhome ⟨i, hi, he⟩
    rw [applyWrites_of_not_mem]
    · -- a block that is no home is the same before and after
      rcases h.outside b hb with he | he
      · exact he.trans (t.coherent b hne).symm
      · exact he
    · intro w hw
      obtain ⟨i, hi, rfl⟩ := List.mem_map.1 hw
      exact hne i (List.mem_range.1 hi)

theorem Committed.inLog_start (h : Committed t d) : InLog t.m.start t.m.size t.m.start := by
  have := h.pos
  have := t.fits
  constructor <;> omega

theorem Committed.settled (h : Committed t d) (lh : LogHeader) (hb : Block) :
    Settled t.m.start t.m.size t.after
      (applyWrites d (t.homeWrites ++ [(t.m.start, headBlock lh.cleared hb)])) := by
  rw [applyWrites_concat]
  exact settled_update_start h.inLog_start h.homeWrites_outside lh hb

/-- The disks that a crash behind the commit point can leave. -/
def Durable (t : Pending) (d : Disk) : Prop :=
  Committed t d ∨ Settled t.m.start t.m.size t.after d

/-- The homes written one by one and the header emptied: every prefix of these
writes leaves a durable disk. -/
theorem Committed.take_durable (h : Committed t d) (lh : LogHeader) (hb : Block) (k : ℕ) :
    Durable t
      (applyWrites d ((t.homeWrites ++ [(t.m.start, headBlock lh.cleared hb)]).take k)) := by
  rcases applyWrites_take_append d t.homeWrites [(t.m.start, headBlock lh.cleared hb)] k with
    he | ⟨j, he⟩
  · rw [he]
    exact Or.inl (h.take_homeWrites k)
  · rw [he]
    cases j with
    | zero =>
      have := h.take_homeWrites t.homeWrites.length
      rw [List.take_length] at this
      exact Or.inl this
    | succ j =>
      right
      rw [List.take_succ_cons, List.take_nil, ← applyWrites_append]
      exact h.settled lh hb

/-! ### The prefixes of `commit` -/

/-- The log blocks alone leave the disk settled as it was. -/
theorem Pending.take_logWrites (t : Pending) (k : ℕ) :
    Settled t.m.start t.m.size t.m.disk (applyWrites t.m.disk (t.logWrites.take k)) := by
  refine applyWrites_take_of_forall (P := Settled t.m.start t.m.size t.m.disk)
    ⟨t.header_empty, fun _ _ => rfl⟩ _ (fun w hw d hd => ?_) k
  obtain ⟨i, hi, rfl⟩ := List.mem_map.1 hw
  exact hd.update_logBlock (t.inLog_logBlock (List.mem_range.1 hi)) (by omega) _

/-- **The commit point**: with the log blocks in place, the header commits. -/
theorem Pending.committed (t : Pending) (hn : 0 < t.m.lh.n) (hb : Block) :
    Committed t (update (applyWrites t.m.disk t.logWrites) t.m.start
      (headBlock t.m.lh hb)) where
  pos := hn
  count := by rw [update_self, headBlock_zero]
  homes := fun i hi => by rw [update_self, headBlock_succ _ _ hi]
  logged := fun i hi => by
    rw [update_of_ne (by omega)]
    exact applyWrites_of_mem _ _ t.nodup_logWrites (List.mem_map.2 ⟨i, List.mem_range.2 hi, rfl⟩)
  outside := fun b hb' => by
    have hs : InLog t.m.start t.m.size t.m.start := by
      have := t.fits
      constructor <;> omega
    have h := (t.take_logWrites t.logWrites.length).2 b hb'
    rw [List.take_length] at h
    rw [update_of_ne (ne_of_not_inLog hb' hs)]
    exact Or.inl h

/-- **Every crash of `commit` leaves a recoverable disk.** -/
theorem commitCrashed_recoverable (t : Pending) (k : ℕ) : Recoverable t (commitCrashed t.m k) := by
  rw [commitCrashed]
  rcases Nat.eq_zero_or_pos t.m.lh.n with hn | hn
  · rw [commit, if_neg (by omega), t.fresh, List.take_nil]
    exact Or.inl ⟨t.header_empty, fun _ _ => rfl⟩
  · obtain ⟨hb₁, hb₂, htr⟩ := t.commit_trace hn
    rw [htr]
    rcases applyWrites_take_append t.m.disk t.logWrites _ k with he | ⟨j, he⟩
    · rw [he]
      exact Or.inl (t.take_logWrites k)
    · rw [he]
      cases j with
      | zero =>
        have := t.take_logWrites t.logWrites.length
        rw [List.take_length] at this
        exact Or.inl this
      | succ j =>
        rw [List.take_succ_cons, applyWrites_cons]
        exact Or.inr ((t.committed hn hb₁).take_durable _ _ j)

end Log
end Xv6
