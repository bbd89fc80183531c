/-
# Mutual exclusion

At most one child is past the loop of `acquireLockMaekawa` and before
`releaseLockMaekawa` (`xv6/maekawa.c`, lines 205-220 and 392-406): such a child has
the votes of its whole voting set (`Granted.held_of_inCriticalSection`), two voting
sets share an arbiter, and an arbiter grants its vote to one child.

This holds along every run in which a child gives back only votes it has
(`mutual_exclusion`).  The code does not check that.  `FailedBit` is never cleared,
so after one `FAILED` a child answers every `INQUIRE` with `RELINQUISH`, also one
that asks for a vote it has already given back, and the arbiter then sends its vote
twice: `two_in_critical_section` is a run on the 2 × 2 grid at whose end two children
are in their critical sections.
-/

import Xv6.Lib.Run
import Xv6.Maekawa.Grants

namespace Xv6
namespace Maekawa

open Lib

variable {c : Config} {s s' : State} {a : Action} {i j k p q : ℕ}

/-! ### Votes and counters -/

/-- A count of `K` is all votes of the voting set. -/
theorem Granted.held_of_count (h : Granted c s) (hp : p < c.P) (hpc : (s.node p).pc = .acquiring)
    (hcount : c.K ≤ (s.node p).lockedCount) (hj : j ∈ c.S p) : Held s j p := by
  have hcard : (c.S p).toFinset.card ≤ {j ∈ (c.S p).toFinset | Held s j p}.card := by
    have := h.count p hpc
    rw [Config.card_S hp]
    omega
  have hall := Finset.eq_of_subset_of_card_le (Finset.filter_subset _ _) hcard
  have hmem : j ∈ ({j ∈ (c.S p).toFinset | Held s j p} : Finset ℕ) := by
    rw [hall]
    exact List.mem_toFinset.2 hj
  exact (Finset.mem_filter.1 hmem).2

/-- **A child in its critical section has every vote of its set.** -/
theorem Granted.held_of_inCriticalSection (h : Granted c s) (hr : Routed c s)
    (hcs : InCriticalSection c s p) (hj : j ∈ c.S p) : p < c.P ∧ Held s j p := by
  rcases hcs with hpc | ⟨hpc, hcount⟩
  · exact ⟨hr.range p (by simp [hpc]), h.critical p hpc j hj⟩
  · have hp := hr.range p (by simp [hpc])
    exact ⟨hp, h.held_of_count hp hpc hcount hj⟩

theorem InCriticalSection.lt (hcs : InCriticalSection c s p) (hr : Routed c s) : p < c.P := by
  rcases hcs with hpc | ⟨hpc, -⟩ <;> exact hr.range p (by simp [hpc])

/-! ### The steps that read nothing -/

theorem tokens_turn (s : State) (i : ℕ) (n : Node) (out : List Message) (j q : ℕ) :
    tokens (s.turn i n out) j q =
      tokens s j q + (if j = i then (marked q out).countP Body.carriesGrant else 0) +
        if q = i then (marked j out).countP Body.returnsGrant else 0 := by
  unfold tokens
  rw [Network.countP_between_turn, Network.countP_between_turn]
  omega

theorem grants_turn {n : Node} {out : List Message}
    (hst : n.processStatus = (s.node i).processStatus)
    (hcur : n.currentLockingRequest = (s.node i).currentLockingRequest) :
    Grants (s.turn i n out) j q ↔ Grants s j q := by
  unfold Grants
  rcases eq_or_ne j i with rfl | hne
  · rw [Network.turn_node_self, hst, hcur]
  · rw [Network.turn_node_of_ne _ hne]

/-- A turn that moves no vote: only the count of its own child is in question. -/
theorem Granted.turn (h : Granted c s) {n : Node} {out : List Message}
    (hst : n.processStatus = (s.node i).processStatus)
    (hcur : n.currentLockingRequest = (s.node i).currentLockingRequest)
    (hout : ∀ p, (marked p out).countP Body.carriesGrant = 0 ∧
      (marked p out).countP Body.returnsGrant = 0)
    (hcount : n.pc = .acquiring → n.lockedCount = {j ∈ (c.S i).toFinset | Held s j i}.card)
    (hcritical : n.pc = .critical → ∀ j ∈ c.S i, Held s j i) :
    Granted c (s.turn i n out) := by
  have htokens : ∀ j q, tokens (s.turn i n out) j q = tokens s j q := by
    intro j q
    rw [tokens_turn, (hout q).1, (hout j).2, ite_self, ite_self, Nat.add_zero]
  have hheld : ∀ j q, Held (s.turn i n out) j q ↔ Held s j q := by
    intro j q
    unfold Held
    rw [grants_turn hst hcur, htokens]
  constructor
  · intro j q
    simp only [htokens, grants_turn hst hcur]
    exact h.token j q
  · intro p hp
    simp only [hheld]
    rcases eq_or_ne p i with rfl | hne
    · rw [Network.turn_node_self] at hp ⊢
      exact hcount hp
    · rw [Network.turn_node_of_ne _ hne] at hp ⊢
      exact h.count p hp
  · intro p hp j hj
    rw [hheld]
    rcases eq_or_ne p i with rfl | hne
    · rw [Network.turn_node_self] at hp
      exact hcritical hp j hj
    · rw [Network.turn_node_of_ne _ hne] at hp
      exact h.critical p hp j hj

/-- `releaseLockMaekawa`: all votes are on their way back. -/
theorem Granted.leave (h : Granted c s) (hpc : (s.node i).pc = .critical) :
    Granted c (s.turn i { s.node i with pc := .serving }
      (releaseLockMaekawa c i ++ sendComplete c)) := by
  set s' := s.turn i { s.node i with pc := .serving } (releaseLockMaekawa c i ++ sendComplete c)
    with hs'
  have htokens : ∀ j q, tokens s' j q = tokens s j q + if q = i ∧ j ∈ c.S i then 1 else 0 := by
    intro j q
    rw [hs', tokens_turn, marked_append, marked_append, List.countP_append, List.countP_append]
    unfold releaseLockMaekawa sendComplete
    simp only [countP_marked_map _ _ _ (c.nodup_S i), countP_marked_map _ _ _ List.nodup_range]
    simp [Body.carriesGrant, Body.returnsGrant, ite_and]
  have hgrants : ∀ j q, Grants s' j q ↔ Grants s j q := fun j q => grants_turn rfl rfl
  have hheld : ∀ j q, q ≠ i → (Held s' j q ↔ Held s j q) := by
    intro j q hne
    unfold Held
    rw [hgrants, htokens, if_neg fun hq => hne hq.1, Nat.add_zero]
  constructor
  · intro j q
    rw [htokens]
    simp only [hgrants]
    split_ifs with hjq hg hg
    · obtain ⟨rfl, hj⟩ := hjq
      rw [(h.critical q hpc j hj).2]
    · obtain ⟨rfl, hj⟩ := hjq
      exact absurd (h.critical q hpc j hj).1 hg
    · simpa [hg] using h.token j q
    · simpa [hg] using h.token j q
  · intro p hp
    rcases eq_or_ne p i with rfl | hne
    · rw [hs', Network.turn_node_self] at hp
      exact absurd hp (by simp)
    · simp only [hheld _ p hne]
      rw [hs', Network.turn_node_of_ne _ hne] at hp ⊢
      exact h.count p hp
  · intro p hp j hj
    rcases eq_or_ne p i with rfl | hne
    · rw [hs', Network.turn_node_self] at hp
      exact absurd hp (by simp)
    · rw [hs', Network.turn_node_of_ne _ hne] at hp
      exact (hheld j p hne).2 (h.critical p hp j hj)

/-- **Every step keeps the ledger**, if an `INQUIRE` that is answered with `RELINQUISH` is
about a vote the child has. -/
theorem Granted.step (h : Granted c s) (hr : Routed c s) (hs : Shape c s a s')
    (hok : InquireForGrant s a) : Granted c s' := by
  cases hs with
  | request i hi hpc hreq =>
    refine h.turn rfl rfl (fun p => ?_) (fun _ => ?_) fun hp => absurd hp (by simp)
    · unfold sendRequest
      simp [countP_marked_map _ _ _ (c.nodup_S i), Body.carriesGrant, Body.returnsGrant]
    · -- nobody has granted a vote to a child that has not asked
      have hnone : ∀ j, ¬ Held s j i := fun j hj => by
        obtain ⟨q, hq, -, hne⟩ := hr.current j hj.1.1
        obtain rfl : i = q := Int.ofNat.inj (hj.1.2.symm.trans (congrArg Request.pid hq))
        exact hne hpc
      simp [hnone]
  | idle i hi hpc =>
    exact h.turn rfl rfl (fun p => ⟨rfl, rfl⟩) (fun hp => absurd hp (by simp)) fun hp =>
      absurd hp (by simp)
  | write i hnode hbetween => exact h.congr hnode hbetween
  | handle i k hpipe hread hh =>
    exact h.receive hr hpipe hread hh fun hm =>
      hok (k, _) (by rw [hpipe]; rfl) hm
  | enter i hpc hcount =>
    have hi : i < c.P := hr.range i (by simp [hpc])
    have hall : ∀ j ∈ c.S i, Held s j i := fun j hj => h.held_of_count hi hpc hcount hj
    have hown := (hall i (Config.self_mem_S hi)).1.1
    exact h.turn hown.symm rfl (fun p => ⟨rfl, rfl⟩) (fun hp => absurd hp (by simp)) fun _ => hall
  | leave i hpc => exact h.leave hpc

/-! ### Runs -/

/-- Both invariants together. -/
structure SafeInv (c : Config) (s : State) : Prop where
  routed : Routed c s
  granted : Granted c s

theorem SafeInv.of_init (c : Config) : SafeInv c (init c) :=
  ⟨.of_init c, .of_init c⟩

/-- A child that has all votes has its own, so its arbiter is locked. -/
theorem SafeInv.own_status (h : SafeInv c s) (hpc : (s.node i).pc = .acquiring)
    (hcount : c.K ≤ (s.node i).lockedCount) : (s.node i).processStatus = 1 := by
  have hi : i < c.P := h.routed.range i (by simp [hpc])
  exact (h.granted.held_of_count hi hpc hcount (Config.self_mem_S hi)).1.1

theorem SafeInv.step (h : SafeInv c s) (hs : Shape c s a s') (hok : InquireForGrant s a) :
    SafeInv c s' := by
  refine ⟨h.routed.step hs (fun i k rest hpipe => ?_) fun i => h.own_status,
    h.granted.step h.routed hs hok⟩
  exact (h.granted.returned hpipe rfl).1.1

theorem safeInv_of_reach (h : Reach (step c) InquireForGrant (init c) s) : SafeInv c s :=
  h.invariant (.of_init c) fun _ _ _ hinv hok hstep => hinv.step (step_shape hstep) hok

/-- The arbiter that two children in their critical sections share has granted its vote
to both. -/
theorem SafeInv.inCriticalSection_unique (h : SafeInv c s) (hp : InCriticalSection c s p)
    (hq : InCriticalSection c s q) : p = q := by
  obtain ⟨z, hzp, hzq⟩ := Config.exists_common (hp.lt h.routed) (hq.lt h.routed)
  obtain ⟨-, hheldp⟩ := h.granted.held_of_inCriticalSection h.routed hp hzp
  obtain ⟨-, hheldq⟩ := h.granted.held_of_inCriticalSection h.routed hq hzq
  exact hheldp.1.unique hheldq.1

/-- **Mutual exclusion.**  On any grid, with any children requesting at any times and any
interleaving, as long as every `INQUIRE` that is answered with `RELINQUISH` is about a
vote the child has, at most one child is in its critical section. -/
theorem mutual_exclusion (c : Config) (s : State)
    (h : Reach (step c) InquireForGrant (init c) s) (p q : ℕ)
    (hp : InCriticalSection c s p) (hq : InCriticalSection c s q) : p = q :=
  (safeInv_of_reach h).inCriticalSection_unique hp hq

/-- Children 2 and 3 of the 2 × 2 grid request, at the same time. -/
def twoRequesters : Config := ⟨2, fun i => i = 2 ∨ i = 3, fun _ => 0⟩

/-- Arbiter 2 gives its vote to child 3, which has failed at arbiter 3 and gives it back when it
is asked for it; child 2 collects all votes. -/
def relinquished : List Action :=
  [.start 3, .start 1, .start 0, .start 2, .write 3, .write 3, .write 2, .write 2, .write 2,
   .handle 2, .handle 0, .write 3, .handle 3, .handle 1, .write 2, .write 0, .write 3, .handle 3,
   .write 1, .write 3, .handle 3, .handle 2, .handle 3, .write 2, .handle 3, .handle 3, .handle 2,
   .handle 2, .write 3, .handle 2, .write 2, .handle 2]

/-- Child 2 has the lock after child 3 gave a vote back, and it alone. -/
theorem mutual_exclusion_twoRequesters :
    ∃ s, InCriticalSection twoRequesters s 2 ∧ (s.node 3).pc = .acquiring ∧
      (s.node 3).failedBit = true ∧ ∀ p, InCriticalSection twoRequesters s p → p = 2 := by
  obtain ⟨s, hreach, hcs, hpc, hbit⟩ : ∃ s,
      Reach (step twoRequesters) InquireForGrant (init twoRequesters) s ∧
        InCriticalSection twoRequesters s 2 ∧ (s.node 3).pc = .acquiring ∧
        (s.node 3).failedBit = true :=
    exists_reach_of_any relinquished (by decide +kernel)
  exact ⟨s, hcs, hpc, hbit, fun p hp => mutual_exclusion twoRequesters s hreach p 2 hp hcs⟩

/-! ### A vote given back twice -/

/-- All four children of the 2 × 2 grid request; child 1 first. -/
def fourRequesters : Config := ⟨2, fun _ => true, fun i => [1, 0, 2, 3].getD i 0⟩

/-- Arbiters 1 and 3 each ask child 3 twice for their vote, since two earlier requests
come in one after the other.  Child 3 answers all four, and the second answer makes the
arbiter send `LOCKED` once more to the child that has its vote by then. -/
def grantedTwice : List Action :=
  [.start 0, .start 1, .write 1, .write 0, .start 2, .write 2, .write 2, .start 3, .write 3,
   .write 3, .write 3, .write 2, .handle 2, .write 2, .handle 2, .write 2, .handle 2, .handle 3,
   .write 3, .handle 3, .write 3, .handle 3, .write 0, .write 1, .handle 3, .write 1, .handle 3,
   .write 3, .handle 1, .write 1, .handle 1, .write 1, .handle 3, .write 3, .write 0, .handle 1,
   .write 1, .handle 3, .write 3, .handle 0, .write 0, .handle 1, .handle 3, .handle 1, .handle 3,
   .write 3, .handle 1, .write 1, .handle 1, .handle 0, .write 0, .enter 1, .leave 1, .write 1,
   .write 1, .write 1, .write 1, .write 1, .write 1, .write 1, .handle 1, .write 1, .handle 3,
   .write 3, .handle 3, .write 3, .handle 1, .handle 1, .write 1, .handle 3, .write 3, .handle 3,
   .handle 3, .write 3, .handle 0, .write 0, .handle 0, .handle 0, .write 0, .handle 0, .handle 0,
   .handle 0, .handle 0, .handle 2, .write 2, .handle 2, .handle 2, .handle 2]

/-- **Two children in their critical sections**, at the end of a run that handles an
`INQUIRE` about a vote that has been given back. -/
theorem two_in_critical_section :
    ∃ s, Reach (step fourRequesters) anyStep (init fourRequesters) s ∧
      InCriticalSection fourRequesters s 0 ∧ InCriticalSection fourRequesters s 2 :=
  exists_reach_of_any grantedTwice (by decide +kernel)

end Maekawa
end Xv6
