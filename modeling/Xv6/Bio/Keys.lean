/-
# One buffer for a block

Which buffers are on the list and which block each is for.  A buffer is in use if
it is valid, dirty or has references.  The buffers that were never in use are all
marked as block 0 of device 0, so that block is looked up among several; the one
in use comes before the others on the list (`Keyed.order`), since only buffers
that have been used are moved to its front.
-/

import Xv6.Bio.Model

namespace Xv6
namespace Bio

open Lib Function

variable {α : Type} {s s' : State α} {L : List ℕ} {k dev blockno : ℕ} {b : Buf α}

/-- Valid, dirty or referenced. -/
def Buf.Used (b : Buf α) : Prop := b.valid = true ∨ b.dirty = true ∨ 0 < b.refcnt

/-- The links lead through every buffer once. -/
structure Listed (s : State α) (L : List ℕ) : Prop where
  ring : Ring s.next s.prev NBUF L
  perm : L.Perm (List.range NBUF)

/-- No two buffers in use are for the same block. -/
structure Keyed (buf : ℕ → Buf α) (L : List ℕ) : Prop where
  unique : ∀ k ∈ L, ∀ k' ∈ L, (buf k).Used → (buf k').Used → (buf k).key = (buf k').key → k = k'
  fresh : ∀ k ∈ L, ¬(buf k).Used → (buf k).key = (0, 0)
  order : L.Pairwise fun k k' => ¬(buf k).Used → (buf k').Used → (buf k').key ≠ (0, 0)

theorem Listed.mem_iff (h : Listed s L) : k ∈ L ↔ k < NBUF := by
  rw [h.perm.mem_iff, List.mem_range]

theorem Listed.length (h : Listed s L) : L.length < NBUF + 1 := by
  rw [h.perm.length_eq, List.length_range]
  exact Nat.lt_succ_self _

/-- A buffer that stays in use for its block. -/
theorem Keyed.keep (h : Keyed s.buf L) (hused : (s.buf k).Used) (hb : b.Used)
    (hkey : b.key = (s.buf k).key) : Keyed (update s.buf k b) L := by
  have hsame : ∀ j, ((update s.buf k b j).Used ↔ (s.buf j).Used) ∧
      (update s.buf k b j).key = (s.buf j).key := by
    intro j
    rcases eq_or_ne j k with rfl | hne
    · rw [update_self]
      exact ⟨⟨fun _ => hused, fun _ => hb⟩, hkey⟩
    · rw [update_of_ne hne]
      exact ⟨Iff.rfl, rfl⟩
  refine ⟨fun j hj j' hj' hu hu' heq => ?_, fun j hj hu => ?_, h.order.imp ?_⟩
  · rw [(hsame j).2, (hsame j').2] at heq
    exact h.unique j hj j' hj' ((hsame j).1.1 hu) ((hsame j').1.1 hu') heq
  · rw [(hsame j).2]
    exact h.fresh j hj fun hu' => hu ((hsame j).1.2 hu')
  · intro j j' hR hu hu'
    rw [(hsame j').2]
    exact hR (fun h' => hu ((hsame j).1.2 h')) ((hsame j').1.1 hu')

/-- A buffer comes into use for a block that no other buffer in use is for. -/
theorem Keyed.use {A B : List ℕ} (h : Keyed s.buf (A ++ k :: B)) (hnodup : (A ++ k :: B).Nodup)
    (hb : b.Used) (hnew : ∀ j ∈ A ++ k :: B, j ≠ k → (s.buf j).Used → (s.buf j).key ≠ b.key)
    (hfirst : b.key = (0, 0) → ∀ j ∈ A, (s.buf j).Used) :
    Keyed (update s.buf k b) (A ++ k :: B) := by
  obtain ⟨-, hkB, hAB⟩ := List.nodup_append.1 hnodup
  have hA : ∀ j ∈ A, j ≠ k := fun j hj => hAB j hj k List.mem_cons_self
  have hB : ∀ j ∈ B, j ≠ k := fun j hj heq => (List.nodup_cons.1 hkB).1 (heq ▸ hj)
  refine ⟨fun j hj j' hj' hu hu' heq => ?_, fun j hj hu => ?_, ?_⟩
  · rcases eq_or_ne j k with rfl | hne <;> rcases eq_or_ne j' j with rfl | hne'
    · rfl
    · rw [update_of_ne hne'] at hu' heq
      rw [update_self] at heq
      exact absurd heq.symm (hnew j' hj' hne' hu')
    · rfl
    · rw [update_of_ne hne] at hu heq
      rcases eq_or_ne j' k with rfl | hk
      · rw [update_self] at heq
        exact absurd heq (hnew j hj hne hu)
      · rw [update_of_ne hk] at hu' heq
        exact h.unique j hj j' hj' hu hu' heq
  · rcases eq_or_ne j k with rfl | hne
    · rw [update_self] at hu
      exact absurd hb hu
    · rw [update_of_ne hne] at hu ⊢
      exact h.fresh j hj hu
  · obtain ⟨hordA, hordk, hordAB⟩ := List.pairwise_append.1 h.order
    obtain ⟨-, hordB⟩ := List.pairwise_cons.1 hordk
    refine List.pairwise_append.2 ⟨?_, List.pairwise_cons.2 ⟨fun j hj hu => ?_, ?_⟩, ?_⟩
    · refine hordA.imp_of_mem fun {j j'} hj hj' hR => ?_
      rwa [update_of_ne (hA j hj), update_of_ne (hA j' hj')]
    · rw [update_self] at hu
      exact absurd hb hu
    · refine hordB.imp_of_mem fun {j j'} hj hj' hR => ?_
      rwa [update_of_ne (hB j hj), update_of_ne (hB j' hj')]
    · intro j hj j' hj'
      rw [update_of_ne (hA j hj)]
      rcases List.mem_cons.1 hj' with rfl | hj'
      · rw [update_self]
        exact fun hu _ hkey => hu (hfirst hkey j hj)
      · rw [update_of_ne (hB j' hj')]
        exact hordAB j hj j' (List.mem_cons_of_mem k hj')

/-! ### `bget` -/

/-- The two ways in which `bget` ends: the first buffer with the block's number is found, or
none has it and the last buffer that can be taken is. -/
theorem bget_cases (h : Listed s L) (hok : s.bget dev blockno = .ok (k, s')) :
    (∃ A B, L = A ++ k :: B ∧ (s.buf k).key = (dev, blockno) ∧
      (∀ j ∈ A, (s.buf j).key ≠ (dev, blockno)) ∧
      s' = { s.set k { s.buf k with refcnt := (s.buf k).refcnt + 1 } with
        waiting := ⟨k, dev, blockno⟩ :: s.waiting }) ∨
    (∃ A B, L = A ++ k :: B ∧ (∀ j ∈ L, (s.buf j).key ≠ (dev, blockno)) ∧
      (s.buf k).refcnt = 0 ∧ (s.buf k).dirty = false ∧
      s' = { s.set k { s.buf k with
          dev := dev, blockno := blockno, valid := false, dirty := false, refcnt := 1 } with
        waiting := ⟨k, dev, blockno⟩ :: s.waiting }) := by
  have hkey : ∀ j, (s.buf j).key = (dev, blockno) ↔
      (s.buf j).dev = dev ∧ (s.buf j).blockno = blockno := by
    intro j
    rw [Buf.key, Prod.mk.injEq]
  unfold State.bget at hok
  rw [h.ring.seek_next _ h.length, h.ring.seek_prev _ h.length] at hok
  split at hok
  next j hfind =>
    cases hok
    obtain ⟨hj, A, B, hL, hA⟩ := List.find?_eq_some_iff_append.1 hfind
    rw [decide_eq_true_eq] at hj
    refine .inl ⟨A, B, hL, (hkey k).2 hj, fun i hi => ?_, rfl⟩
    have := hA i hi
    rw [Bool.not_eq_true', decide_eq_false_iff_not] at this
    exact fun heq => this ((hkey i).1 heq)
  next hnone =>
    split at hok
    next j hfind =>
      cases hok
      have hj := List.find?_some hfind
      rw [decide_eq_true_eq] at hj
      have hmem : k ∈ L := List.mem_reverse.1 (List.mem_of_find?_eq_some hfind)
      obtain ⟨A, B, hL⟩ := List.append_of_mem hmem
      refine .inr ⟨A, B, hL, fun i hi heq => ?_, hj.1, hj.2, rfl⟩
      have := List.find?_eq_none.1 hnone i hi
      rw [decide_eq_true_eq] at this
      exact this ((hkey i).1 heq)
    next => cases hok

/-- **`bget` keeps one buffer for a block.** -/
theorem Keyed.bget (hl : Listed s L) (h : Keyed s.buf L)
    (hok : s.bget dev blockno = .ok (k, s')) : Listed s' L ∧ Keyed s'.buf L := by
  have hnodup := (List.nodup_cons.1 hl.ring.nodup).2
  rcases bget_cases hl hok with ⟨A, B, rfl, hkey, hA, rfl⟩ | ⟨A, B, rfl, hnone, -, -, rfl⟩
  · refine ⟨⟨hl.ring, hl.perm⟩, h.use hnodup (.inr (.inr (Nat.succ_pos _)))
      (fun j hj hne hu heq => ?_) (fun hzero j hj => ?_)⟩
    · by_cases huk : (s.buf k).Used
      · exact hne (h.unique j hj k (by simp) hu huk heq)
      · -- a buffer in use for block 0 comes before those that were never in use
        have hzero := h.fresh k (by simp) huk
        have heq' : (s.buf j).key = (s.buf k).key := heq
        rcases List.mem_append.1 hj with hjA | hjB
        · exact hA j hjA (heq'.trans hkey)
        · rcases List.mem_cons.1 hjB with rfl | hjB
          · exact hne rfl
          · have hord := (List.pairwise_cons.1 (List.pairwise_append.1 h.order).2.1).1 j hjB
            exact hord huk hu (heq'.trans hzero)
    · by_contra hu
      have hzero' : (s.buf k).key = (0, 0) := hzero
      exact hA j hj ((h.fresh j (by simp [hj]) hu).trans (hzero'.symm.trans hkey))
  · refine ⟨⟨hl.ring, hl.perm⟩, h.use hnodup (.inr (.inr Nat.one_pos))
      (fun j hj _ _ heq => hnone j hj heq) (fun hzero j hj => ?_)⟩
    by_contra hu
    have hzero' : (dev, blockno) = ((0, 0) : ℕ × ℕ) := hzero
    exact hnone j (by simp [hj]) ((h.fresh j (by simp [hj]) hu).trans hzero'.symm)

/-- `bget` finds a buffer if there is one without references and pending writes. -/
theorem exists_bget (h : Listed s L) (hfree : ∃ k < NBUF, (s.buf k).refcnt = 0 ∧
    (s.buf k).dirty = false) (dev blockno : ℕ) : ∃ k s', s.bget dev blockno = .ok (k, s') := by
  obtain ⟨j, hj, hfree⟩ := hfree
  unfold State.bget
  rw [h.ring.seek_next _ h.length, h.ring.seek_prev _ h.length]
  split
  · exact ⟨_, _, rfl⟩
  · split
    · exact ⟨_, _, rfl⟩
    next hnone =>
      refine absurd (decide_eq_true hfree) (List.find?_eq_none.1 hnone j ?_)
      exact List.mem_reverse.2 (h.mem_iff.2 hj)

/-! ### `brelse` -/

/-- A buffer in use moves to the front. -/
theorem Keyed.front {buf : ℕ → Buf α} {A B : List ℕ} (h : Keyed buf (A ++ k :: B))
    (hu : (buf k).Used) : Keyed buf (k :: (A ++ B)) := by
  have hmem : ∀ j, j ∈ k :: (A ++ B) → j ∈ A ++ k :: B := fun j hj =>
    List.perm_middle.mem_iff.2 hj
  refine ⟨fun j hj j' hj' => h.unique j (hmem j hj) j' (hmem j' hj'),
    fun j hj => h.fresh j (hmem j hj), List.pairwise_cons.2 ⟨fun j _ hn => absurd hu hn, ?_⟩⟩
  refine h.order.sublist ?_
  exact List.Sublist.append_left (List.sublist_cons_self k B) A

/-- **`brelse` keeps every buffer on the list once.** -/
theorem Listed.brelse (hl : Listed s L) (h : Keyed s.buf L) (hk : k < NBUF)
    (hvalid : (s.buf k).valid = true) (hok : s.brelse k = .ok s') :
    ∃ L', Listed s' L' ∧ Keyed s'.buf L' := by
  have hkeep : Keyed (s.set k { s.buf k with
      locked := false, refcnt := (s.buf k).refcnt - 1 }).buf L :=
    h.keep (.inl hvalid) (.inl hvalid) rfl
  unfold State.brelse at hok
  dsimp only at hok
  obtain ⟨-, hok⟩ := ite_error_eq_ok.1 hok
  split at hok
  next =>
    cases hok
    obtain ⟨A, B, rfl⟩ := List.append_of_mem (hl.mem_iff.2 hk)
    obtain ⟨-, hnodup⟩ := List.nodup_cons.1 hl.ring.nodup
    refine ⟨k :: (A ++ B), ⟨hl.ring.unlink.push ?_, ?_⟩, hkeep.front (.inl ?_)⟩
    · rw [List.mem_cons, not_or]
      exact ⟨Nat.ne_of_lt hk, (List.nodup_cons.1 (List.perm_middle.nodup_iff.1 hnodup)).1⟩
    · exact List.perm_middle.symm.trans hl.perm
    · change (update s.buf k _ k).valid = true
      rw [update_self]
      exact hvalid
  next =>
    cases hok
    exact ⟨L, ⟨hl.ring, hl.perm⟩, hkeep⟩

end Bio
end Xv6
