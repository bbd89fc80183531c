/-
# Deadlock

A deadlocked state of `xv6/maekawa.c`: no record on a pipe and none to be written, a
child that still waits for votes in `acquireLockMaekawa`, and nobody in a critical
section.  Along every run in which the code does what the protocol asks of it
(`FaultFree`) none is reached (`no_deadlock`).

The argument is the usual one.  With nothing on its way, a child that lacks a vote waits
for it behind another child that waits as well (`LiveInv.exists_blocker`).  The
earliest waiting child stands behind a later one, which has not been told that it
failed, or it would have given the vote up (`LiveInv.not_told`); a child that has not
been told is the earliest wherever it waits, so it stands behind a still later one,
which has not been told either, and so on.

The code does not do what the protocol asks: an `INQUIRE` that comes before the `FAILED`
is ignored for good.  `deadlock` is a run of two requesting children on the 2 × 2 grid
that ends with both waiting for each other.
-/

import Xv6.Maekawa.Progress

namespace Xv6
namespace Maekawa

open Lib

/-- Nothing is on its way and nobody is in a critical section. -/
def Quiet (c : Config) (s : State) : Prop :=
  ∀ p < c.P, s.pipe p = [] ∧ s.outbox p = [] ∧ ¬ InCriticalSection c s p

/-- The child is in the loop of `acquireLockMaekawa`. -/
def WaitsForVotes (c : Config) (s : State) (p : ℕ) : Prop :=
  (s.node p).pc = .acquiring ∧ (s.node p).lockedCount < c.K

/-- Nothing moves, and a child waits for votes. -/
def Deadlocked (c : Config) (s : State) : Prop :=
  Quiet c s ∧ ∃ p < c.P, WaitsForVotes c s p

instance (c : Config) (s : State) : Decidable (Quiet c s) :=
  inferInstanceAs (Decidable (∀ p < c.P, _))

instance (c : Config) (s : State) (p : ℕ) : Decidable (WaitsForVotes c s p) :=
  inferInstanceAs (Decidable (_ ∧ _))

instance (c : Config) (s : State) : Decidable (Deadlocked c s) :=
  inferInstanceAs (Decidable (_ ∧ ∃ p < c.P, _))

variable {c : Config} {s : State} {h j p q : ℕ}

theorem Quiet.between_eq_nil (hquiet : Quiet c s) (hj : j < c.P) (hp : p < c.P) :
    s.between j p = [] := by
  unfold Network.between
  rw [(hquiet p hp).1, (hquiet j hj).2.1]
  rfl

/-- A child that waits lacks a vote. -/
theorem Granted.exists_not_held (hg : Granted c s) (hp : p < c.P) (hwaits : WaitsForVotes c s p) :
    ∃ j ∈ c.S p, ¬ Held s j p := by
  by_contra hall
  push Not at hall
  have hfilter : {j ∈ (c.S p).toFinset | Held s j p} = (c.S p).toFinset :=
    Finset.filter_true_of_mem fun j hj => hall j (List.mem_toFinset.1 hj)
  have hcount := hg.count p hwaits.1
  rw [hfilter, Config.card_S hp] at hcount
  have := hwaits.2
  omega

/-- **Whoever waits, waits behind somebody who waits.** -/
theorem LiveInv.exists_blocker (hinv : LiveInv c s) (hquiet : Quiet c s) (hq : q < c.P)
    (hwaits : WaitsForVotes c s q) :
    ∃ j h, j < c.P ∧ h < c.P ∧ WaitsForVotes c s h ∧ h ≠ q ∧ Grants s j h ∧
      c.req q ∈ waiting (s.node j).waitQueue := by
  obtain ⟨j, hj, hnot⟩ := hinv.safe.granted.exists_not_held hq hwaits
  have hjP := Config.lt_of_mem_S hj
  have hnotGrants : ¬ Grants s j q := fun hg => hnot ⟨hg, by
    unfold tokens
    rw [hquiet.between_eq_nil hjP hq, hquiet.between_eq_nil hq hjP]
    rfl⟩
  -- its request is at this arbiter, and not granted, so it is in the queue
  have hmem : c.req q ∈ waiting (s.node j).waitQueue := by
    have hbalance := hinv.present.balance j q
    rw [hquiet.between_eq_nil hq hjP, if_pos ⟨hj, .inl hwaits.1⟩] at hbalance
    unfold load at hbalance
    rw [if_neg (show ¬ (_ ∧ _) from hnotGrants)] at hbalance
    exact List.count_pos_iff.1 (by simp only [List.countP_nil] at hbalance; omega)
  have hst : (s.node j).processStatus = 1 := by
    by_contra hfree
    rw [hinv.present.idle j hfree] at hmem
    exact absurd hmem List.not_mem_nil
  obtain ⟨h, hcur, hjh, hpc⟩ := hinv.safe.routed.current j hst
  have hg : Grants s j h := ⟨hst, by rw [hcur]; rfl⟩
  have hh := hinv.safe.routed.range h hpc
  -- and whoever it is granted to has not released it
  have hactive : (s.node h).Active := by
    have hbalance := hinv.present.balance j h
    rw [hquiet.between_eq_nil hh hjP] at hbalance
    unfold load at hbalance
    rw [if_pos (show _ ∧ _ from hg)] at hbalance
    by_contra hnot
    rw [if_neg fun hact => hnot hact.2] at hbalance
    simp only [List.countP_nil] at hbalance
    omega
  have hcs := (hquiet h hh).2.2
  rcases hactive with hacq | hcrit
  · refine ⟨j, h, hjP, hh, ⟨hacq, ?_⟩, ?_, hg, hmem⟩
    · by_contra hge
      exact hcs (.inr ⟨hacq, not_lt.1 hge⟩)
    · rintro rfl
      exact hnotGrants hg
  · exact absurd (.inl hcrit) hcs

/-- **Whoever has a vote that an earlier child waits for does not know it failed.** -/
theorem LiveInv.not_told (hinv : LiveInv c s) (hquiet : Quiet c s) (hj : j < c.P) (hh : h < c.P)
    (hg : Grants s j h) (hmem : c.req q ∈ waiting (s.node j).waitQueue)
    (hlt : (c.req q).key < (c.req h).key) : (s.node h).failedBit = false := by
  refine Bool.eq_false_iff.2 fun hbit => ?_
  have hpending := hinv.ordered.pending j h hg ⟨_, hmem, (precedes_iff _ _).2 hlt⟩ hbit
  rw [hquiet.between_eq_nil hj hh, hquiet.between_eq_nil hh hj] at hpending
  simp only [List.not_mem_nil, false_or] at hpending
  exact (hquiet h hh).2.2 hpending

theorem LiveInv.not_deadlocked (hinv : LiveInv c s) : ¬ Deadlocked c s := by
  rintro ⟨hquiet, p, hp, hwaits⟩
  let A : Finset ℕ := {q ∈ Finset.range c.P | WaitsForVotes c s q}
  have hA : ∀ {q}, q ∈ A ↔ q < c.P ∧ WaitsForVotes c s q := by simp [A]
  -- the earliest child that waits stands behind one that has not been told
  obtain ⟨q, hq, hmin⟩ := A.exists_min_image (fun q => (c.req q).key) ⟨p, hA.2 ⟨hp, hwaits⟩⟩
  obtain ⟨j, h, hj, hh, hwaitsh, hne, hg, hmem⟩ :=
    hinv.exists_blocker hquiet (hA.1 hq).1 (hA.1 hq).2
  have hlt : (c.req q).key < (c.req h).key :=
    lt_of_le_of_ne (hmin h (hA.2 ⟨hh, hwaitsh⟩)) fun heq =>
      hne (c.req_injective (Request.key_injective heq)).symm
  have hh0 := hinv.not_told hquiet hj hh hg hmem hlt
  -- and the latest of those that have not been told stands behind a later one
  let U : Finset ℕ := {q ∈ A | (s.node q).failedBit = false}
  have hU : ∀ {q}, q ∈ U ↔ q ∈ A ∧ (s.node q).failedBit = false := by simp [U]
  obtain ⟨u, hu, hmax⟩ := U.exists_max_image (fun q => (c.req q).key)
    ⟨h, hU.2 ⟨hA.2 ⟨hh, hwaitsh⟩, hh0⟩⟩
  obtain ⟨huA, hu0⟩ := hU.1 hu
  obtain ⟨j', h', hj', hh', hwaits', -, hg', hmem'⟩ :=
    hinv.exists_blocker hquiet (hA.1 huA).1 (hA.1 huA).2
  have hfirst := (hinv.ordered.first j' u hmem' hu0 (by
    rw [hquiet.between_eq_nil hj' (hA.1 huA).1]
    exact List.not_mem_nil)).1
  rw [hinv.safe.routed.current_eq hg'] at hfirst
  have hh0' := hinv.not_told hquiet hj' hh' hg' hmem' hfirst
  exact absurd hfirst (not_lt.2 (hmax h' (hU.2 ⟨hA.2 ⟨hh', hwaits'⟩, hh0'⟩)))

/-- **No deadlock.**  On any grid, with any children requesting at any times and any
interleaving, as long as every step does what the protocol asks of it, no deadlocked
state is reached. -/
theorem no_deadlock (c : Config) (s : State) (h : Reach (step c) (FaultFree c) (init c) s) :
    ¬ Deadlocked c s :=
  (liveInv_of_reach h).not_deadlocked

/-- Child 2 enters its critical section, and child 3 is told that it has to wait. -/
def secondWaits : List Action :=
  [.start 1, .start 2, .write 2, .write 2, .start 3, .write 2, .write 3, .write 3, .handle 1,
   .write 3, .start 0, .handle 0, .write 1, .handle 3, .handle 2, .write 3, .handle 3, .write 3,
   .write 0, .write 2, .handle 2, .write 2, .handle 2, .handle 2, .handle 3, .handle 2, .enter 2,
   .handle 3, .handle 3]

/-- With nothing on its way and the second child waiting, the first is in its critical section. -/
theorem no_deadlock_twoRequesters :
    ∃ s, (∀ p < twoRequesters.P, s.pipe p = [] ∧ s.outbox p = []) ∧
      WaitsForVotes twoRequesters s 3 ∧
      ∃ p < twoRequesters.P, InCriticalSection twoRequesters s p := by
  obtain ⟨s, hreach, hempty, hwaits⟩ : ∃ s,
      Reach (step twoRequesters) (FaultFree twoRequesters) (init twoRequesters) s ∧
        (∀ p < twoRequesters.P, s.pipe p = [] ∧ s.outbox p = []) ∧
        WaitsForVotes twoRequesters s 3 :=
    exists_reach_of_any secondWaits (by decide +kernel)
  refine ⟨s, hempty, hwaits, ?_⟩
  by_contra hnone
  push Not at hnone
  exact no_deadlock twoRequesters s hreach
    ⟨fun p hp => ⟨(hempty p hp).1, (hempty p hp).2, hnone p hp⟩, 3, by decide, hwaits⟩

/-! ### Requests and votes -/

/-- **No request and no vote is lost or doubled.**  As long as a child asks for the lock or has
it, its request is on its way to each arbiter of its voting set, waits there or is granted, and is
in one of these places once.  A vote is on its way at most once, to or from the child that it is
granted to. -/
theorem requests_and_votes_once (c : Config) (s : State)
    (h : Reach (step c) (FaultFree c) (init c) s) (j q : ℕ) :
    (s.between q j).countP Body.isRequest + load c (s.node j) q ≤ 1 ∧
    ((s.node q).Active → j ∈ c.S q →
      (s.between q j).countP Body.isRequest + load c (s.node j) q = 1) ∧
    tokens s j q ≤ 1 ∧ (0 < tokens s j q → Grants s j q) := by
  have hinv := liveInv_of_reach h
  have hgranted := hinv.safe.granted
  refine ⟨hinv.present.le_one hgranted j q, fun hactive hj => ?_, ?_,
    fun hq => (hgranted.grants_of_tokens hq).1⟩
  · -- a release is on its way only when the child is done
    have hnone : (s.between q j).countP Body.isRelease = 0 := by
      refine List.countP_eq_zero.2 fun m hm hrel => ?_
      obtain rfl : m = .release := by cases m <;> simp_all [Body.isRelease]
      simp [Node.Active, hinv.present.released q j hm] at hactive
    rw [hinv.present.balance, hnone, if_pos ⟨hj, hactive⟩]
  · have htoken := hgranted.token j q
    split_ifs at htoken <;> omega

/-- The request of child 3 waits at arbiter 2, which has granted its vote to child 2. -/
theorem requests_and_votes_once_second : ∃ s : State, (s.node 3).Active ∧
    (s.node 2).currentLockingRequest.pid = 2 ∧
    (s.between 3 2).countP Body.isRequest + load twoRequesters (s.node 2) 3 = 1 := by
  obtain ⟨s, hreach, hactive, hpid⟩ : ∃ s,
      Reach (step twoRequesters) (FaultFree twoRequesters) (init twoRequesters) s ∧
        (s.node 3).Active ∧ (s.node 2).currentLockingRequest.pid = 2 :=
    exists_reach_of_any secondWaits (by decide +kernel)
  exact ⟨s, hactive, hpid,
    (requests_and_votes_once twoRequesters s hreach 2 3).2.1 hactive (by decide)⟩

/-! ### An inquiry that is never answered -/

/-- Child 3 gets the vote of arbiter 2, and is asked for it when the request of child 2
comes; it has not been told that it failed and ignores that.  Child 2 has the vote of
arbiter 3, for which child 3 is told that it failed. -/
def inquiryIgnored : List Action :=
  [.start 3, .start 2, .start 0, .start 1, .write 3, .write 2, .write 3, .write 2, .write 2,
   .handle 2, .handle 1, .write 3, .handle 3, .write 2, .write 3, .write 1, .handle 2, .handle 3,
   .handle 0, .write 2, .handle 2, .write 3, .write 0, .handle 2, .handle 3, .handle 3, .handle 3,
   .handle 3]

/-- **Deadlock**: both children wait, each for a vote the other has. -/
theorem deadlock :
    ∃ s, Reach (step twoRequesters) anyStep (init twoRequesters) s ∧ Deadlocked twoRequesters s :=
  exists_reach_of_any inquiryIgnored (by decide +kernel)

end Maekawa
end Xv6
