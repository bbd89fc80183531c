/-
# The ledger of grants

An arbiter of `xv6/maekawa.c` grants its vote to one child at a time.  The grant
travels to the child as `LOCKED`, is counted there by `lockedCount`, and travels
back as `RELINQUISH` or `RELEASE`.  `tokens s j q` counts the messages in which the
vote of `j` is on its way to or from `q`, and `Held s j q` says that `q` has it.

`Granted` is the invariant: the vote of `j` is on its way only to or from the child
`j` has granted it to, and at most once; `lockedCount` of a child in
`acquireLockMaekawa` is the number of votes it has; a child in its critical
section has all of them.  Every step keeps it but one: a child whose `FailedBit` is
set answers each `INQUIRE` with `RELINQUISH`, whether it has the vote or not.
`InquireForGrant` is the condition that it has.
-/

import Xv6.Maekawa.Requests

namespace Xv6
namespace Maekawa

open Lib

/-- Messages in which a vote is on its way to a child. -/
def Body.carriesGrant : Body → Bool
  | .locked => true
  | _ => false

/-- Messages in which it is on its way back. -/
def Body.returnsGrant : Body → Bool
  | .relinquish => true
  | .release => true
  | _ => false

/-- Arbiter `j` has granted its vote to `q`. -/
def Grants (s : State) (j q : ℕ) : Prop :=
  (s.node j).processStatus = 1 ∧ (s.node j).currentLockingRequest.pid = q

instance (s : State) (j q : ℕ) : Decidable (Grants s j q) := inferInstanceAs (Decidable (_ ∧ _))

/-- How often the vote of `j` is on its way to or from `q`. -/
def tokens (s : State) (j q : ℕ) : ℕ :=
  (s.between j q).countP Body.carriesGrant + (s.between q j).countP Body.returnsGrant

/-- `q` has the vote of `j`. -/
def Held (s : State) (j q : ℕ) : Prop := Grants s j q ∧ tokens s j q = 0

instance (s : State) (j q : ℕ) : Decidable (Held s j q) := inferInstanceAs (Decidable (_ ∧ _))

/-- An `INQUIRE` that a child answers with `RELINQUISH` is about a vote it has. -/
def InquireForGrant (s : State) : Action → Prop
  | .handle i => ∀ m ∈ (s.pipe i).head?, m.2 = .inquire → (s.node i).failedBit = true →
      Held s m.1 i
  | _ => True

instance (s : State) : (a : Action) → Decidable (InquireForGrant s a)
  | .handle i => inferInstanceAs (Decidable (∀ m ∈ (s.pipe i).head?, _))
  | .start _ | .write _ | .enter _ | .leave _ => inferInstanceAs (Decidable True)

structure Granted (c : Config) (s : State) : Prop where
  token : ∀ j q, tokens s j q ≤ if Grants s j q then 1 else 0
  count : ∀ p, (s.node p).pc = .acquiring →
    (s.node p).lockedCount = {j ∈ (c.S p).toFinset | Held s j p}.card
  critical : ∀ p, (s.node p).pc = .critical → ∀ j ∈ c.S p, Held s j p

variable {c : Config} {s s' : State} {a : Action} {i j k p q : ℕ}

theorem Grants.unique (h : Grants s j p) (h' : Grants s j q) : p = q :=
  Int.ofNat.inj (h.2.symm.trans h'.2)

theorem Granted.of_init (c : Config) : Granted c (init c) where
  token _ _ := Nat.zero_le _
  count _ h := absurd h (show ¬ Pc.start = Pc.acquiring by decide)
  critical _ h := absurd h (show ¬ Pc.start = Pc.critical by decide)

theorem Granted.grants_of_tokens (h : Granted c s) (hpos : 0 < tokens s j q) :
    Grants s j q ∧ tokens s j q = 1 := by
  have htoken := h.token j q
  split_ifs at htoken with hg
  · exact ⟨hg, by omega⟩
  · omega

theorem Granted.congr (h : Granted c s) (hnode : s'.node = s.node)
    (hbetween : s'.between = s.between) : Granted c s' := by
  obtain ⟨htoken, hcount, hcritical⟩ := h
  constructor <;> simpa only [tokens, Grants, Held, hnode, hbetween]

/-! ### How messages move the ledger -/

section Receive

variable {m : Body} {rest : List Message} {n : Node} {out : List Message}

theorem tokens_receive (hpipe : s.pipe i = (k, m) :: rest) (n : Node) (out : List Message)
    (j q : ℕ) :
    (if j = k ∧ q = i ∧ m.carriesGrant then 1 else 0) +
        (if q = k ∧ j = i ∧ m.returnsGrant then 1 else 0) + tokens (s.receive i rest n out) j q =
      tokens s j q + (if j = i then (marked q out).countP Body.carriesGrant else 0) +
        if q = i then (marked j out).countP Body.returnsGrant else 0 := by
  have hto := Network.countP_between_receive Body.carriesGrant hpipe n out j q
  have hback := Network.countP_between_receive Body.returnsGrant hpipe n out q j
  unfold tokens
  omega

theorem tokens_receive_nil (hpipe : s.pipe i = (k, m) :: rest) (n : Node) (j q : ℕ) :
    (if j = k ∧ q = i ∧ m.carriesGrant then 1 else 0) +
        (if q = k ∧ j = i ∧ m.returnsGrant then 1 else 0) + tokens (s.receive i rest n []) j q =
      tokens s j q := by
  simpa using tokens_receive hpipe n [] j q

theorem tokens_receive_one (hpipe : s.pipe i = (k, m) :: rest) (n : Node) (d : ℕ) (x : Body)
    (j q : ℕ) :
    (if j = k ∧ q = i ∧ m.carriesGrant then 1 else 0) +
        (if q = k ∧ j = i ∧ m.returnsGrant then 1 else 0) +
        tokens (s.receive i rest n [(d, x)]) j q =
      tokens s j q + (if j = i ∧ d = q ∧ x.carriesGrant then 1 else 0) +
        if q = i ∧ d = j ∧ x.returnsGrant then 1 else 0 := by
  have h := tokens_receive hpipe n [(d, x)] j q
  simpa only [countP_marked_singleton, ← ite_and] using h

theorem grants_receive_of_ne (hne : j ≠ i) :
    Grants (s.receive i rest n out) j q ↔ Grants s j q := by
  unfold Grants
  rw [Network.receive_node_of_ne _ hne]

theorem grants_receive_self :
    Grants (s.receive i rest n out) i q ↔
      n.processStatus = 1 ∧ n.currentLockingRequest.pid = q := by
  unfold Grants
  rw [Network.receive_node_self]

theorem grants_receive (hst : n.processStatus = (s.node i).processStatus)
    (hcur : n.currentLockingRequest = (s.node i).currentLockingRequest) :
    Grants (s.receive i rest n out) j q ↔ Grants s j q := by
  rcases eq_or_ne j i with rfl | hne
  · rw [grants_receive_self, hst, hcur]
    rfl
  · exact grants_receive_of_ne hne

/-- A returned vote had been given to its sender, who alone had to do with it. -/
theorem Granted.returned (h : Granted c s) (hpipe : s.pipe i = (k, m) :: rest)
    (hm : m.returnsGrant = true) :
    Grants s i k ∧ ∀ q, tokens s i q = if q = k then 1 else 0 := by
  have hpos : 0 < tokens s i k := by
    have := tokens_receive_nil hpipe (s.node i) i k
    rw [if_pos (show k = k ∧ i = i ∧ _ from ⟨rfl, rfl, hm⟩)] at this
    omega
  obtain ⟨hg, hone⟩ := h.grants_of_tokens hpos
  refine ⟨hg, fun q => ?_⟩
  split_ifs with hq
  · rw [hq, hone]
  · have htoken := h.token i q
    rw [if_neg fun hgq => hq (hgq.unique hg)] at htoken
    omega

end Receive

/-! ### Steps -/

/-- Steps that change neither who has which vote nor the counters. -/
theorem Granted.of_held_iff (h : Granted c s)
    (hpc : ∀ p, (s'.node p).pc = (s.node p).pc)
    (hcount : ∀ p, (s'.node p).lockedCount = (s.node p).lockedCount)
    (htoken : ∀ j q, tokens s' j q ≤ if Grants s' j q then 1 else 0)
    (hheld : ∀ j q, Held s' j q ↔ Held s j q) : Granted c s' where
  token := htoken
  count p hp := by
    simp only [hheld]
    rw [hcount]
    exact h.count p (hpc p ▸ hp)
  critical p hp j hj := (hheld j p).2 (h.critical p (hpc p ▸ hp) j hj)

section Receive

variable {m : Body} {rest : List Message} {n : Node} {out : List Message}

/-- A handler that touches neither votes nor the arbiter's variables. -/
theorem Granted.quiet (h : Granted c s) (hpc : n.pc = (s.node i).pc)
    (hcount : n.lockedCount = (s.node i).lockedCount)
    (hst : n.processStatus = (s.node i).processStatus)
    (hcur : n.currentLockingRequest = (s.node i).currentLockingRequest)
    (htokens : ∀ j q, tokens (s.receive i rest n out) j q = tokens s j q) :
    Granted c (s.receive i rest n out) := by
  have hgrants : ∀ j q, Grants (s.receive i rest n out) j q ↔ Grants s j q :=
    fun j q => grants_receive hst hcur
  refine h.of_held_iff (update_field Node.pc hpc) (update_field Node.lockedCount hcount)
    (fun j q => ?_) fun j q => ?_
  · simp only [htokens, hgrants]
    exact h.token j q
  · unfold Held
    rw [htokens, hgrants]

/-- A handler that passes the arbiter's own vote on: nobody had it, and now it is on its
way to whoever the arbiter has granted it to. -/
theorem Granted.passOn (h : Granted c s) (hpc : n.pc = (s.node i).pc)
    (hcount : n.lockedCount = (s.node i).lockedCount)
    (hbefore : ∀ q, ¬ Held s i q)
    (hother : ∀ j q, j ≠ i → tokens (s.receive i rest n out) j q = tokens s j q)
    (hafter : ∀ q : ℕ, tokens (s.receive i rest n out) i q =
      if n.processStatus = 1 ∧ n.currentLockingRequest.pid = q then 1 else 0) :
    Granted c (s.receive i rest n out) := by
  refine h.of_held_iff (update_field Node.pc hpc) (update_field Node.lockedCount hcount)
    (fun j q => ?_) fun j q => ?_
  · rcases eq_or_ne j i with rfl | hne
    · simp only [grants_receive_self, hafter, le_refl]
    · simp only [grants_receive_of_ne hne, hother j q hne]
      exact h.token j q
  · rcases eq_or_ne j i with rfl | hne
    · refine iff_of_false (fun hheld => ?_) (hbefore q)
      have hzero := hheld.2
      rw [hafter, if_pos (grants_receive_self.1 hheld.1)] at hzero
      omega
    · unfold Held
      rw [grants_receive_of_ne hne, hother j q hne]

end Receive

/-- One more vote is one more in the count. -/
theorem card_held_gain (hk : k ∈ c.S i) (hnot : ¬ Held s k i)
    (hheld : ∀ j q, Held s' j q ↔ Held s j q ∨ (j = k ∧ q = i)) :
    {j ∈ (c.S i).toFinset | Held s' j i}.card =
      {j ∈ (c.S i).toFinset | Held s j i}.card + 1 := by
  have hins : {j ∈ (c.S i).toFinset | Held s' j i} =
      insert k {j ∈ (c.S i).toFinset | Held s j i} := by
    ext j
    simp only [hheld, Finset.mem_filter, List.mem_toFinset, Finset.mem_insert, and_true]
    constructor
    · rintro ⟨hj, hh | rfl⟩
      · exact .inr ⟨hj, hh⟩
      · exact .inl rfl
    · rintro (rfl | ⟨hj, hh⟩)
      · exact ⟨hk, .inr rfl⟩
      · exact ⟨hj, .inl hh⟩
  have hmem : k ∉ ({j ∈ (c.S i).toFinset | Held s j i} : Finset ℕ) := fun hmem =>
    hnot (Finset.mem_filter.1 hmem).2
  rw [hins, Finset.card_insert_of_notMem hmem]

theorem card_held_same (hne : p ≠ i)
    (hheld : ∀ j q, Held s' j q ↔ Held s j q ∨ (j = k ∧ q = i)) :
    {j ∈ (c.S p).toFinset | Held s' j p} = {j ∈ (c.S p).toFinset | Held s j p} := by
  simp only [hheld, hne, and_false, or_false]

/-- An arbiter and the child it has granted its vote to belong together. -/
theorem Routed.mem_S_of_grants (hr : Routed c s) (hg : Grants s j q) : j ∈ c.S q := by
  obtain ⟨q', hq, hj, -⟩ := hr.current j hg.1
  obtain rfl : q = q' := Int.ofNat.inj (hg.2.symm.trans (congrArg Request.pid hq))
  exact hj

section Receive

variable {rest : List Message}

/-- `LOCKED`: a vote arrives and is counted. -/
theorem Granted.locked (h : Granted c s) (hr : Routed c s)
    (hpipe : s.pipe i = (k, .locked) :: rest) :
    Granted c (s.receive i rest
      { s.node i with lockedCount := (s.node i).lockedCount + 1 } []) := by
  set s' := s.receive i rest { s.node i with lockedCount := (s.node i).lockedCount + 1 } [] with hs'
  have htokens : ∀ j q, (if j = k ∧ q = i then 1 else 0) + tokens s' j q = tokens s j q := by
    intro j q
    simpa [Body.carriesGrant, Body.returnsGrant] using tokens_receive_nil hpipe _ j q
  have hgrants : ∀ j q, Grants s' j q ↔ Grants s j q := fun j q => grants_receive rfl rfl
  obtain ⟨hg, hone⟩ : Grants s k i ∧ tokens s k i = 1 := by
    have := htokens k i
    rw [if_pos ⟨rfl, rfl⟩] at this
    exact h.grants_of_tokens (by omega)
  have hheld : ∀ j q, Held s' j q ↔ Held s j q ∨ (j = k ∧ q = i) := by
    intro j q
    have := htokens j q
    unfold Held
    rw [hgrants]
    split_ifs at this with hjq
    · obtain ⟨rfl, rfl⟩ := hjq
      simp only [hg, true_and, and_self, or_true, iff_true]
      omega
    · rw [Nat.zero_add] at this
      rw [this, or_iff_left hjq]
  constructor
  · intro j q
    have := htokens j q
    have := h.token j q
    simp only [hgrants]
    omega
  · intro p hp
    rcases eq_or_ne p i with rfl | hne
    · have hnot : ¬ Held s k p := fun hh => by
        have := hh.2
        omega
      have hcard := card_held_gain (hr.mem_S_of_grants hg) hnot hheld
      rw [hs', Network.receive_node_self] at hp ⊢
      have hcount := h.count p hp
      rw [← hs']
      change (s.node p).lockedCount + 1 = _
      omega
    · rw [card_held_same hne hheld]
      rw [hs', Network.receive_node_of_ne _ hne] at hp ⊢
      exact h.count p hp
  · intro p hp j hj
    rw [hs', Handled.receive_pc (Handled.locked (k := k)) rfl] at hp
    exact (hheld j p).2 (.inl (h.critical p hp j hj))

/-- `INQUIRE`, answered with `RELINQUISH`: a vote the child has is on its way back. -/
theorem Granted.relinquish (h : Granted c s) (hr : Routed c s)
    (hpipe : s.pipe i = (k, .inquire) :: rest) (hpc : (s.node i).pc ≠ .critical)
    (hhas : Held s k i) :
    Granted c (s.receive i rest
      { s.node i with lockedCount := (s.node i).lockedCount - 1 } [(k, .relinquish)]) := by
  set s' := s.receive i rest { s.node i with lockedCount := (s.node i).lockedCount - 1 }
    [(k, .relinquish)] with hs'
  have htokens : ∀ j q, tokens s' j q = tokens s j q + if q = i ∧ k = j then 1 else 0 := by
    intro j q
    simpa [Body.carriesGrant, Body.returnsGrant] using tokens_receive_one hpipe _ k .relinquish j q
  have hgrants : ∀ j q, Grants s' j q ↔ Grants s j q := fun j q => grants_receive rfl rfl
  have hlost : ¬ Held s' k i := fun hh => by
    have := hh.2
    rw [htokens, if_pos ⟨rfl, rfl⟩] at this
    omega
  -- before the step the child had this vote more
  have hheld : ∀ j q, Held s j q ↔ Held s' j q ∨ (j = k ∧ q = i) := by
    intro j q
    unfold Held
    rw [hgrants, htokens]
    split_ifs with hjq
    · obtain ⟨rfl, rfl⟩ := hjq
      exact iff_of_true hhas (.inr ⟨rfl, rfl⟩)
    · rw [Nat.add_zero, or_iff_left fun hjk => hjq ⟨hjk.2, hjk.1.symm⟩]
  constructor
  · intro j q
    rw [htokens]
    simp only [hgrants]
    split_ifs with hjq hg hg
    · obtain ⟨rfl, rfl⟩ := hjq
      rw [hhas.2]
    · obtain ⟨rfl, rfl⟩ := hjq
      exact absurd hhas.1 hg
    · simpa [hg] using h.token j q
    · simpa [hg] using h.token j q
  · intro p hp
    rcases eq_or_ne p i with rfl | hne
    · have hcard := card_held_gain (hr.mem_S_of_grants hhas.1) hlost hheld
      rw [hs', Network.receive_node_self] at hp ⊢
      have hcount := h.count p hp
      rw [← hs']
      change (s.node p).lockedCount - 1 = _
      omega
    · rw [← card_held_same hne hheld]
      rw [hs', Network.receive_node_of_ne _ hne] at hp ⊢
      exact h.count p hp
  · intro p hp j hj
    rcases eq_or_ne p i with rfl | hne
    · rw [hs', Network.receive_node_self] at hp
      exact absurd hp hpc
    · rw [hs', Network.receive_node_of_ne _ hne] at hp
      exact ((hheld j p).1 (h.critical p hp j hj)).resolve_right fun hjk => hne hjk.2

/-- A `REQUEST` to an arbiter that is free: it grants its vote. -/
theorem Granted.grant (h : Granted c s) {ts : ℤ} (hpipe : s.pipe i = (k, .request ts) :: rest)
    (hfree : (s.node i).processStatus ≠ 1) :
    Granted c (s.receive i rest
      { s.node i with processStatus := 1, currentLockingRequest := ⟨k, ts⟩ } [(k, .locked)]) := by
  have hnone : ∀ q, tokens s i q = 0 := by
    intro q
    have htoken := h.token i q
    rw [if_neg fun hg => hfree hg.1] at htoken
    omega
  refine h.passOn rfl rfl (fun q hq => hfree hq.1.1) (fun j q hne => ?_) fun q => ?_
  · simpa [Body.carriesGrant, Body.returnsGrant, hne] using
      tokens_receive_one hpipe _ k .locked j q
  · simpa [Body.carriesGrant, Body.returnsGrant, hnone, Int.natCast_inj] using
      tokens_receive_one hpipe _ k .locked i q

/-- A returned vote that goes on to `b`. -/
theorem Granted.handOver (h : Granted c s) {m : Body} {n : Node} {b : ℕ}
    (hpipe : s.pipe i = (k, m) :: rest) (hm : m = .relinquish ∨ m = .release)
    (hpc : n.pc = (s.node i).pc) (hcount : n.lockedCount = (s.node i).lockedCount)
    (hst : n.processStatus = 1) (hb : n.currentLockingRequest.pid = b) :
    Granted c (s.receive i rest n [(b, .locked)]) := by
  have hreturns : m.returnsGrant = true ∧ m.carriesGrant = false := by
    rcases hm with rfl | rfl <;> exact ⟨rfl, rfl⟩
  obtain ⟨hg, hone⟩ := h.returned hpipe hreturns.1
  have htokens : ∀ j q, (if q = k ∧ j = i then 1 else 0) + tokens (s.receive i rest n [(b, .locked)]) j q =
      tokens s j q + if j = i ∧ b = q then 1 else 0 := by
    intro j q
    have h₁ : Body.carriesGrant .locked = true := rfl
    have h₂ : Body.returnsGrant .locked = false := rfl
    simpa [h₁, h₂, hreturns] using tokens_receive_one hpipe n b .locked j q
  refine h.passOn hpc hcount (fun q hq => ?_) (fun j q hne => ?_) fun q => ?_
  · have hzero := hq.2
    rw [hone, if_pos (hq.1.unique hg)] at hzero
    omega
  · simpa [hne] using htokens j q
  · simpa [hone, hst, hb, Int.natCast_inj] using htokens i q

/-- A returned vote that nobody waits for. -/
theorem Granted.free (h : Granted c s) (hpipe : s.pipe i = (k, .release) :: rest) :
    Granted c (s.receive i rest
      { s.node i with processStatus := 0, currentLockingRequest := ⟨-1, -1⟩ } []) := by
  obtain ⟨hg, hone⟩ := h.returned hpipe rfl
  refine h.passOn rfl rfl (fun q hq => ?_) (fun j q hne => ?_) fun q => ?_
  · have hzero := hq.2
    rw [hone, if_pos (hq.1.unique hg)] at hzero
    omega
  · simpa [Body.carriesGrant, Body.returnsGrant, hne] using tokens_receive_nil hpipe _ j q
  · simpa [Body.carriesGrant, Body.returnsGrant, hone] using tokens_receive_nil hpipe _ i q

/-- **A handled message keeps the ledger**, if an `INQUIRE` that is answered with
`RELINQUISH` is about a vote the child has. -/
theorem Granted.receive (h : Granted c s) (hr : Routed c s) {m : Body} {n : Node}
    {out : List Message} (hpipe : s.pipe i = (k, m) :: rest) (hread : Reading c (s.node i))
    (hh : Handled (s.node i) (k, m) n out)
    (hguard : m = .inquire → (s.node i).failedBit = true → Held s k i) :
    Granted c (s.receive i rest n out) := by
  cases hh with
  | grant hfree => exact h.grant hpipe hfree
  | refuse =>
    refine h.quiet rfl rfl rfl rfl fun j q => ?_
    simpa [Body.carriesGrant, Body.returnsGrant] using tokens_receive_one hpipe _ k .failed j q
  | inquire d =>
    refine h.quiet rfl rfl rfl rfl fun j q => ?_
    simpa [Body.carriesGrant, Body.returnsGrant] using tokens_receive_one hpipe _ d .inquire j q
  | locked => exact h.locked hr hpipe
  | failed | ignore | complete =>
    refine h.quiet rfl rfl rfl rfl fun j q => ?_
    simpa [Body.carriesGrant, Body.returnsGrant] using tokens_receive_nil hpipe _ j q
  | relinquish hbit =>
    refine h.relinquish hr hpipe ?_ (hguard rfl hbit)
    rcases hread with ⟨hpc, -⟩ | ⟨hpc, -⟩ <;> simp [hpc]
  | regrant b q hrem hb => exact h.handOver hpipe (.inl rfl) rfl rfl rfl hb
  | free hempty => exact h.free hpipe
  | next b q hne hrem hb => exact h.handOver hpipe (.inr rfl) rfl rfl rfl hb

end Receive

end Maekawa
end Xv6
