/-
# What an arbiter does about the order

The steps of `xv6/maekawa.c` that keep `Ordered`, for the messages an arbiter gets:
`REQUEST` when it is free and when it is locked, `RELINQUISH` and `RELEASE`.  An arbiter
that passes its vote on gives it to the earliest request it knows (`Taken`), so nobody
earlier is left waiting behind it; an arbiter that lets a request wait either tells
its sender that it failed or asks for the vote back.
-/

import Xv6.Maekawa.Order

namespace Xv6
namespace Maekawa

open Lib

variable {c : Config} {s s' : State} {a : Action} {i j k q : ℕ} {n : Node} {m : Body}
  {rest out : List Message}

/-- **A message to an arbiter** leaves what the children know alone; what is in question
are the requests at this arbiter. -/
theorem Ordered.receiveByArbiter (h : Ordered c s) (hpipe : s.pipe i = (k, m) :: rest)
    (hpc : n.pc = (s.node i).pc) (hbit : n.failedBit = (s.node i).failedBit)
    (hcount : n.lockedCount = (s.node i).lockedCount)
    (hinquire : m ≠ .inquire) (hfailed : m ≠ .failed) (hout : ∀ p, .relinquish ∉ marked p out)
    (hrel : ∀ h, .relinquish ∈ (s.receive i rest n out).between h i →
      (s.node h).failedBit = true ∧ Earlier c n h)
    (hinq : ∀ h : ℕ, n.processStatus = 1 → n.currentLockingRequest.pid = h →
      asked ((s.receive i rest n out).between i h) = true → Earlier c n h)
    (hpend : ∀ h : ℕ, n.processStatus = 1 → n.currentLockingRequest.pid = h → Earlier c n h →
      (s.node h).failedBit = true → Answering c (s.receive i rest n out) i h)
    (hfirst : ∀ h, c.req h ∈ waiting n.waitQueue → (s.node h).failedBit = false →
      .failed ∉ (s.receive i rest n out).between i h →
        (c.req h).key < n.currentLockingRequest.key ∧
          ∀ r ∈ waiting n.waitQueue, (c.req h).key ≤ r.key) :
    Ordered c (s.receive i rest n out) := by
  have hbits : ∀ h, ((s.receive i rest n out).node h).failedBit = (s.node h).failedBit :=
    update_field Node.failedBit hbit
  constructor
  · intro h' j hmem
    rw [hbits]
    rcases eq_or_ne j i with rfl | hne
    · rw [Network.receive_node_self]
      exact hrel h' hmem
    · rw [Network.receive_node_of_ne _ hne]
      rcases Network.mem_of_mem_between_receive hpipe n out hmem with hold | ⟨-, hnew⟩
      · exact h.relinquishing h' j hold
      · exact absurd hnew (hout j)
  · intro j h' hg hasked
    rcases eq_or_ne j i with rfl | hne
    · rw [Network.receive_node_self]
      obtain ⟨hst, hpid⟩ := grants_receive_self.1 hg
      exact hinq h' hst hpid hasked
    · rw [Network.receive_node_of_ne _ hne]
      rw [grants_receive_of_ne hne] at hg
      refine h.inquired j h' hg ?_
      have hlaw := asked_of_suffix (l := if j = k ∧ h' = i then [m] else []) hasked
      rwa [Network.between_receive hpipe, if_neg hne, List.append_nil] at hlaw
  · intro j h' hg he hb
    rw [hbits] at hb
    rcases eq_or_ne j i with rfl | hne
    · rw [Network.receive_node_self] at he
      obtain ⟨hst, hpid⟩ := grants_receive_self.1 hg
      exact hpend h' hst hpid he hb
    · rw [Network.receive_node_of_ne _ hne] at he
      rw [grants_receive_of_ne hne] at hg
      exact Answering.receive (h.pending j h' hg he hb) hpipe (fun hm => absurd hm hinquire)
        (fun _ => hne) (inCriticalSection_receive hpc hcount).2
  · intro j h' hw hb hnot
    rw [hbits] at hb
    rcases eq_or_ne j i with rfl | hne
    · rw [Network.receive_node_self] at hw ⊢
      exact hfirst h' hw hb hnot
    · rw [Network.receive_node_of_ne _ hne] at hw ⊢
      exact h.first j h' hw hb fun hmem =>
        hnot (Network.mem_between_receive_of_ne hpipe hfailed.symm hmem)

/-! ### Passing the vote on -/

/-- While a vote is on its way to a child, it is not on its way back. -/
theorem Granted.relinquish_not_mem (h : Granted c s) (hlocked : .locked ∈ s.between j q) :
    .relinquish ∉ s.between q j := by
  intro hrel
  have hto : 0 < (s.between j q).countP Body.carriesGrant :=
    List.countP_pos_iff.2 ⟨_, hlocked, rfl⟩
  have hback : 0 < (s.between q j).countP Body.returnsGrant :=
    List.countP_pos_iff.2 ⟨_, hrel, rfl⟩
  have htoken := h.token j q
  unfold tokens at htoken
  split_ifs at htoken <;> omega

theorem Granted.grants_of_relinquish (h : Granted c s) (hrel : .relinquish ∈ s.between q j) :
    Grants s j q := by
  have hback : 0 < (s.between q j).countP Body.returnsGrant :=
    List.countP_pos_iff.2 ⟨_, hrel, rfl⟩
  exact (h.grants_of_tokens (by unfold tokens; omega)).1

/-- After `LOCKED` has been sent, nothing is on its way back and nothing has been asked. -/
theorem Granted.after_locked (hg' : Granted c (s.receive i rest n [(k, .locked)])) :
    .relinquish ∉ (s.receive i rest n [(k, .locked)]).between k i :=
  hg'.relinquish_not_mem Network.mem_between_receive_sent

theorem not_asked_after_locked {b : ℕ} (hpipe : s.pipe i = (k, m) :: rest) :
    asked ((s.receive i rest n [(b, .locked)]).between i b) = false := by
  refine Bool.eq_false_iff.2 fun hasked => ?_
  have hlaw := asked_of_suffix (l := if i = k ∧ b = i then [m] else []) hasked
  rw [Network.between_receive hpipe, if_pos rfl, marked_cons, if_pos rfl, marked_nil,
    asked_append_locked] at hlaw
  cases hlaw

/-- **The vote goes on to the earliest request**, and whoever gave it up knows it failed. -/
theorem Ordered.passOn (h : Ordered c s) (hpipe : s.pipe i = (k, m) :: rest) {b : ℕ}
    {others : List Request} (htaken : Taken c (s.node i) n b others)
    (hpc : n.pc = (s.node i).pc) (hbit : n.failedBit = (s.node i).failedBit)
    (hcount : n.lockedCount = (s.node i).lockedCount)
    (hinquire : m ≠ .inquire) (hfailed : m ≠ .failed)
    (hone : (waiting (s.node i).waitQueue).count (c.req b) ≤ 1)
    (hwaits : ∀ r ∈ waiting n.waitQueue, r ∈ others ∨
      (r = c.req k ∧ (s.node k).failedBit = true ∧ (c.req b).key < (c.req k).key))
    (hg' : Granted c (s.receive i rest n [(b, .locked)])) :
    Ordered c (s.receive i rest n [(b, .locked)]) := by
  have hpid : ∀ {h : ℕ}, n.currentLockingRequest.pid = h → h = b := by
    intro h hh
    rw [htaken.current] at hh
    exact Int.ofNat.inj hh.symm
  have hold : ∀ r ∈ others, r ∈ waiting (s.node i).waitQueue := fun r hr =>
    htaken.perm.symm.subset (List.mem_cons_of_mem _ hr)
  have hgone : c.req b ∉ others := by
    intro hmem
    have hcount := htaken.perm.count_eq (c.req b)
    rw [List.count_cons_self] at hcount
    have := List.count_pos_iff.2 hmem
    omega
  refine h.receiveByArbiter hpipe hpc hbit hcount hinquire hfailed
    (fun p => by simp [mem_marked_singleton]) (fun h' hmem => ?_) (fun h' _ hh hasked => ?_)
    (fun h' _ hh he _ => ?_) fun h' hw hb hnot => ?_
  · have hgrants := hg'.grants_of_relinquish hmem
    obtain rfl := hpid (grants_receive_self.1 hgrants).2
    exact absurd hmem hg'.after_locked
  · obtain rfl := hpid hh
    rw [not_asked_after_locked hpipe] at hasked
    cases hasked
  · obtain rfl := hpid hh
    obtain ⟨r, hr, hlt⟩ := he
    rw [precedes_iff] at hlt
    rcases hwaits r hr with hother | ⟨rfl, -, hlt'⟩
    · exact absurd hlt (not_lt.2 (htaken.least r (hold r hother)))
    · exact absurd hlt (not_lt.2 hlt'.le)
  · rcases hwaits _ hw with hother | ⟨hreq, hk, -⟩
    · -- a request that is still first there is the one that was taken
      obtain ⟨-, hleast⟩ := h.first i h' (hold _ hother) hb fun hmem =>
        hnot (Network.mem_between_receive_of_ne hpipe hfailed.symm hmem)
      have hb_mem : c.req b ∈ waiting (s.node i).waitQueue :=
        htaken.perm.symm.subset List.mem_cons_self
      have heq := Request.key_injective
        (le_antisymm (hleast _ hb_mem) (htaken.least _ (hold _ hother)))
      exact absurd (heq ▸ hother) hgone
    · obtain rfl := c.req_injective hreq
      rw [hk] at hb
      cases hb

/-! ### Letting a request wait -/

theorem Earlier.mono {n n' : Node} {h : ℕ} (he : Earlier c n h)
    (hsub : waiting n.waitQueue ⊆ waiting n'.waitQueue) : Earlier c n' h := by
  obtain ⟨r, hr, hlt⟩ := he
  exact ⟨r, hsub hr, hlt⟩

/-- A request that finds an earlier one is told so. -/
theorem Ordered.refuse (h : Ordered c s) (hr : Routed c s) {ts : ℤ}
    (hpipe : s.pipe i = (k, .request ts) :: rest)
    (hwaits : ∀ r, r ∈ waiting (enqueueRequestQueue (s.node i).waitQueue ⟨k, ts⟩) ↔
      r ∈ waiting (s.node i).waitQueue ∨ r = c.req k)
    (hflag : Earlier c (s.node i) k ∨
      (s.node i).currentLockingRequest.key < (c.req k).key) :
    Ordered c (s.receive i rest
      { s.node i with waitQueue := enqueueRequestQueue (s.node i).waitQueue ⟨k, ts⟩ }
      [(k, .failed)]) := by
  have hsub : waiting (s.node i).waitQueue ⊆
      waiting (enqueueRequestQueue (s.node i).waitQueue ⟨k, ts⟩) :=
    fun r hr => (hwaits r).2 (.inl hr)
  refine h.receiveByArbiter hpipe rfl rfl rfl (by simp) (by simp)
    (fun p => by simp [mem_marked_singleton]) (fun h' hmem => ?_) (fun h' hst hpid hasked => ?_)
    (fun h' hst hpid he hb => ?_) fun h' hw hb hnot => ?_
  · rcases Network.mem_of_mem_between_receive hpipe _ _ hmem with hold | ⟨-, hnew⟩
    · obtain ⟨hb, he⟩ := h.relinquishing h' i hold
      exact ⟨hb, he.mono hsub⟩
    · exact absurd (mem_marked_singleton.1 hnew).2 (by simp)
  · refine (h.inquired i h' ⟨hst, hpid⟩ (asked_of_receive hpipe ?_ hasked)).mono hsub
    simp [mem_marked_singleton]
  · -- if the new request comes before the granted one, so does the one it was refused for
    have hold : Earlier c (s.node i) h' := by
      obtain ⟨r, hmem, hlt⟩ := he
      rcases (hwaits r).1 hmem with hmem | rfl
      · exact ⟨r, hmem, hlt⟩
      · rw [precedes_iff] at hlt
        rcases hflag with ⟨r, hmem, hr⟩ | hcur
        · exact ⟨r, hmem, (precedes_iff _ _).2 (((precedes_iff _ _).1 hr).trans hlt)⟩
        · rw [hr.current_eq ⟨hst, hpid⟩] at hcur
          exact absurd hlt (not_lt.2 hcur.le)
    exact Answering.receive (h.pending i h' ⟨hst, hpid⟩ hold hb) hpipe (by simp)
      (by simp [Body.returnsGrant]) (inCriticalSection_receive (by rfl) (by rfl)).2
  · rcases eq_or_ne h' k with rfl | hne
    · exact absurd Network.mem_between_receive_sent hnot
    · have hw := ((hwaits _).1 hw).resolve_right fun heq => hne (c.req_injective heq)
      obtain ⟨hcur, hleast⟩ := h.first i h' hw hb fun hmem =>
        hnot (Network.mem_between_receive_of_ne hpipe (by simp) hmem)
      refine ⟨hcur, fun r hmem => ?_⟩
      rcases (hwaits r).1 hmem with hmem | rfl
      · exact hleast r hmem
      · rcases hflag with ⟨r, hmem, hlt⟩ | hlt
        · exact (hleast r hmem).trans ((precedes_iff _ _).1 hlt).le
        · exact (hcur.trans hlt).le

/-- A request earlier than all others makes the arbiter ask for its vote. -/
theorem Ordered.inquire (h : Ordered c s) {ts : ℤ} {d : ℕ}
    (hpipe : s.pipe i = (k, .request ts) :: rest)
    (hd : (s.node i).currentLockingRequest = c.req d)
    (hwaits : ∀ r, r ∈ waiting (enqueueRequestQueue (s.node i).waitQueue ⟨k, ts⟩) ↔
      r ∈ waiting (s.node i).waitQueue ∨ r = c.req k)
    (hlt : (c.req k).key < (c.req d).key)
    (hleast : ∀ r ∈ waiting (s.node i).waitQueue, (c.req k).key ≤ r.key)
    (htold : ∀ h, c.req h ∈ waiting (s.node i).waitQueue →
      (s.node h).failedBit = true ∨ .failed ∈ s.between i h) :
    Ordered c (s.receive i rest
      { s.node i with waitQueue := enqueueRequestQueue (s.node i).waitQueue ⟨k, ts⟩ }
      [(d, .inquire)]) := by
  have hpid : ∀ {h : ℕ}, (s.node i).currentLockingRequest.pid = h → h = d := by
    intro h hh
    rw [hd] at hh
    exact Int.ofNat.inj hh.symm
  refine h.receiveByArbiter hpipe rfl rfl rfl (by simp) (by simp)
    (fun p => by simp [mem_marked_singleton]) (fun h' hmem => ?_) (fun h' _ hh _ => ?_)
    (fun h' _ hh _ _ => ?_) fun h' hw hb hnot => ?_
  · rcases Network.mem_of_mem_between_receive hpipe _ _ hmem with hold | ⟨-, hmem⟩
    · obtain ⟨hb, he⟩ := h.relinquishing h' i hold
      exact ⟨hb, he.mono fun r hr => (hwaits r).2 (.inl hr)⟩
    · exact absurd (mem_marked_singleton.1 hmem).2 (by simp)
  · obtain rfl := hpid hh
    exact ⟨_, (hwaits _).2 (.inr rfl), (precedes_iff _ _).2 hlt⟩
  · obtain rfl := hpid hh
    exact .inl Network.mem_between_receive_sent
  · rcases (hwaits _).1 hw with hw | heq
    · -- everybody who waited has been told
      rcases htold h' hw with hbit | hmem
      · rw [hbit] at hb
        cases hb
      · exact absurd (Network.mem_between_receive_of_ne hpipe (by simp) hmem) hnot
    · obtain rfl := c.req_injective heq
      refine ⟨?_, fun r hmem => ?_⟩
      · change _ < (s.node i).currentLockingRequest.key
        rwa [hd]
      · rcases (hwaits r).1 hmem with hmem | rfl
        · exact hleast r hmem
        · exact le_rfl

/-- An arbiter at which nobody waits has nothing to do with the order. -/
theorem Ordered.nobodyWaits (h : Ordered c s) (hpipe : s.pipe i = (k, m) :: rest)
    (hpc : n.pc = (s.node i).pc) (hbit : n.failedBit = (s.node i).failedBit)
    (hcount : n.lockedCount = (s.node i).lockedCount)
    (hinquire : m ≠ .inquire) (hfailed : m ≠ .failed) (hout : ∀ p, .relinquish ∉ marked p out)
    (hqueue : n.waitQueue = (s.node i).waitQueue)
    (hnone : waiting (s.node i).waitQueue = [])
    (hasked : ∀ h : ℕ, n.processStatus = 1 → n.currentLockingRequest.pid = h →
      asked ((s.receive i rest n out).between i h) = false) :
    Ordered c (s.receive i rest n out) := by
  have hearlier : ∀ {n' : Node} {h : ℕ}, n'.waitQueue = (s.node i).waitQueue →
      ¬ Earlier c n' h := by
    rintro n' h hq ⟨r, hr, -⟩
    rw [hq, hnone] at hr
    exact absurd hr List.not_mem_nil
  refine h.receiveByArbiter hpipe hpc hbit hcount hinquire hfailed hout (fun h' hmem => ?_)
    (fun h' hst hpid hask => ?_) (fun h' _ _ he => absurd he (hearlier hqueue)) fun h' hw => ?_
  · rcases Network.mem_of_mem_between_receive hpipe n out hmem with hold | ⟨-, hnew⟩
    · exact absurd (h.relinquishing h' i hold).2 (hearlier rfl)
    · exact absurd hnew (hout i)
  · rw [hasked h' hst hpid] at hask
    cases hask
  · rw [hqueue, hnone] at hw
    exact absurd hw List.not_mem_nil

end Maekawa
end Xv6
