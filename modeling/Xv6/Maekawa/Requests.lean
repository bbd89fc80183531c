/-
# Requests stay where they were sent

A request is on its way to an arbiter, waits in its queue, or is the one the
arbiter has granted.  `Routed` says that each of them belongs to a child that has
entered `acquireLockMaekawa`, carries the timestamp that child took, and is at an
arbiter of its voting set.  Requests only ever move within an arbiter, whatever
the queue functions do, so a step of `recvHandler` keeps this; the one step that
could break it is the end of `acquireLockMaekawa`, which marks the child's own
`processStatus` as locked, and has to find it so.
-/

import Xv6.Maekawa.Grid
import Xv6.Maekawa.Steps
import Xv6.Maekawa.WaitQueue

namespace Xv6
namespace Maekawa

open Lib

/-- The request child `q` sends. -/
def Config.req (c : Config) (q : ℕ) : Request := ⟨q, c.time q⟩

theorem Config.req_injective (c : Config) : Function.Injective c.req := fun _ _ h =>
  Int.ofNat.inj (congrArg Request.pid h)

/-- A request of a child that has begun to acquire, at one of its arbiters. -/
def Known (c : Config) (s : State) (j : ℕ) (r : Request) : Prop :=
  ∃ q, r = c.req q ∧ j ∈ c.S q ∧ (s.node q).pc ≠ .start

/-- Every request in the system is one of these. -/
structure Routed (c : Config) (s : State) : Prop where
  wf : ∀ j, (s.node j).waitQueue.Wf MAXQSize
  range : ∀ p, (s.node p).pc ≠ .start → p < c.P
  current : ∀ j, (s.node j).processStatus = 1 → Known c s j (s.node j).currentLockingRequest
  waiting : ∀ j, ∀ r ∈ waiting (s.node j).waitQueue, Known c s j r
  transit : ∀ q j ts, .request ts ∈ s.between q j → Known c s j ⟨q, ts⟩

variable {c : Config} {s s' : State} {a : Action} {i j q : ℕ}

theorem Routed.of_init (c : Config) : Routed c (init c) where
  wf _ := ⟨Nat.zero_le _, show 0 < MAXQSize by decide, rfl⟩
  range p h := absurd rfl h
  current _ h := absurd h (show ¬ (0 : ℕ) = 1 by decide)
  waiting _ _ h := absurd h List.not_mem_nil
  transit _ _ _ h := absurd h List.not_mem_nil

theorem Known.mono {r : Request} (h : Known c s j r)
    (hpc : ∀ q, (s.node q).pc ≠ .start → (s'.node q).pc ≠ .start) : Known c s' j r := by
  obtain ⟨q, hr, hj, hq⟩ := h
  exact ⟨q, hr, hj, hpc q hq⟩

theorem Handled.request_not_mem {n n' : Node} {m : Message} {out : List Message}
    (h : Handled n m n' out) (ts : ℤ) (p : ℕ) : .request ts ∉ marked p out := by
  cases h <;> simp [mem_marked_singleton]

/-- What a handler leaves in the variables of an arbiter was there or has just come. -/
structure KeepsRequests (n n' : Node) (m : Message) : Prop where
  wf : n'.waitQueue.Wf MAXQSize
  current : n'.processStatus = 1 → n'.currentLockingRequest ∈ waiting n.waitQueue ∨
    (n.processStatus = 1 ∧ n'.currentLockingRequest = n.currentLockingRequest) ∨
    ∃ k ts, m = (k, .request ts) ∧ n'.currentLockingRequest = ⟨k, ts⟩
  waiting : ∀ r ∈ waiting n'.waitQueue, r ∈ waiting n.waitQueue ∨
    (n.processStatus = 1 ∧ r = n.currentLockingRequest) ∨
    ∃ k ts, m = (k, .request ts) ∧ r = ⟨k, ts⟩

/-- A returned grant was given: `RELINQUISH` finds the arbiter locked. -/
theorem Handled.keepsRequests {n n' : Node} {m : Message} {out : List Message}
    (h : Handled n m n' out) (hwf : n.waitQueue.Wf MAXQSize)
    (hlocked : m.2 = .relinquish → n.processStatus = 1) : KeepsRequests n n' m := by
  have hkeep : ∀ {n' : Node} {m : Message}, n'.waitQueue = n.waitQueue →
      n'.processStatus = n.processStatus → n'.currentLockingRequest = n.currentLockingRequest →
      KeepsRequests n n' m := by
    intro n' m hq hst hcur
    refine ⟨hq ▸ hwf, fun h1 => .inr (.inl ⟨hst ▸ h1, hcur⟩), fun r hr => .inl ?_⟩
    rwa [hq] at hr
  have henqueue : ∀ (k : ℕ) (ts : ℤ), KeepsRequests n
      { n with waitQueue := enqueueRequestQueue n.waitQueue ⟨k, ts⟩ } (k, .request ts) := by
    intro k ts
    refine ⟨enqueueRequestQueue_wf hwf _, fun h1 => .inr (.inl ⟨h1, rfl⟩), fun r hr => ?_⟩
    rcases mem_waiting_enqueueRequestQueue hwf hr with hold | rfl
    · exact .inl hold
    · exact .inr (.inr ⟨k, ts, rfl, rfl⟩)
  cases h with
  | @grant k ts hfree =>
    exact ⟨hwf, fun _ => .inr (.inr ⟨k, ts, rfl, rfl⟩), fun r hr => .inl hr⟩
  | refuse | inquire => exact henqueue _ _
  | locked | failed | ignore | relinquish | complete => exact hkeep rfl rfl rfl
  | regrant b q hrem hb =>
    have hst := hlocked rfl
    obtain ⟨hfound, -⟩ := earliestFrom_spec n.waitQueue n.currentLockingRequest
    have hplace : (earliestFrom n.waitQueue n.currentLockingRequest).2 = -1 ∨
        ∃ k, AtPlace n.waitQueue (earliestFrom n.waitQueue n.currentLockingRequest) k := by
      rcases hfound with heq | ⟨k, hk, -⟩
      · exact .inl (by rw [heq])
      · exact .inr ⟨k, hk⟩
    obtain ⟨hqwf, hsub⟩ := removeElementRequestQueue_subset hwf hplace hrem
    refine ⟨enqueueRequestQueue_wf hqwf _, fun _ => ?_, fun r hr => ?_⟩
    · rcases hfound with heq | ⟨k, hk, -⟩
      · exact .inr (.inl ⟨hst, by rw [heq]⟩)
      · exact .inl hk.mem
    · rcases mem_waiting_enqueueRequestQueue hqwf hr with hold | rfl
      · exact .inl (hsub hold)
      · exact .inr (.inl ⟨hst, rfl⟩)
  | free hempty =>
    refine ⟨hwf, fun h => ?_, fun r hr => .inl hr⟩
    change (0 : ℕ) = 1 at h
    omega
  | next b q hne hrem hb =>
    obtain ⟨hfound, -⟩ := earliestWaiting_spec hwf hne
    obtain ⟨hqwf, hsub⟩ := removeElementRequestQueue_subset hwf (.inr hfound) hrem
    obtain ⟨k, hk⟩ := hfound
    exact ⟨hqwf, fun _ => .inl hk.mem, fun r hr => .inl (hsub hr)⟩

/-- **A handled message keeps every request in its place.** -/
theorem Routed.receive (h : Routed c s) {k : ℕ} {m : Body} {rest : List Message} {n : Node}
    {out : List Message} (hpipe : s.pipe i = (k, m) :: rest)
    (hh : Handled (s.node i) (k, m) n out)
    (hlocked : m = .relinquish → (s.node i).processStatus = 1) :
    Routed c (s.receive i rest n out) := by
  have hkeep := hh.keepsRequests (h.wf i) hlocked
  have hpc := hh.receive_pc rfl rest
  have hmono : ∀ {j : ℕ} {r : Request}, Known c s j r → Known c (s.receive i rest n out) j r :=
    fun hr => hr.mono fun q hq => by rwa [hpc q]
  -- the request that has just come was on its way
  have hnew : ∀ k' ts, ((k, m) : Message) = (k', .request ts) → Known c s i ⟨k', ts⟩ := by
    rintro k' ts heq
    cases heq
    refine h.transit k i ts ?_
    rw [Network.between_take hpipe, if_pos ⟨rfl, rfl⟩]
    exact List.mem_append_left _ List.mem_cons_self
  constructor
  · intro j
    rcases eq_or_ne j i with rfl | hne
    · rw [Network.receive_node_self]
      exact hkeep.wf
    · rw [Network.receive_node_of_ne _ hne]
      exact h.wf j
  · intro p hp
    exact h.range p (hpc p ▸ hp)
  · intro j hj
    rcases eq_or_ne j i with rfl | hne
    · rw [Network.receive_node_self] at hj ⊢
      rcases hkeep.current hj with hw | ⟨hst, heq⟩ | ⟨k', ts, hm, heq⟩
      · exact hmono (h.waiting j _ hw)
      · exact heq ▸ hmono (h.current j hst)
      · exact heq ▸ hmono (hnew k' ts hm)
    · rw [Network.receive_node_of_ne _ hne] at hj ⊢
      exact hmono (h.current j hj)
  · intro j r hr
    rcases eq_or_ne j i with rfl | hne
    · rw [Network.receive_node_self] at hr
      rcases hkeep.waiting r hr with hw | ⟨hst, rfl⟩ | ⟨k', ts, hm, rfl⟩
      · exact hmono (h.waiting j r hw)
      · exact hmono (h.current j hst)
      · exact hmono (hnew k' ts hm)
    · rw [Network.receive_node_of_ne _ hne] at hr
      exact hmono (h.waiting j r hr)
  · intro q j ts hts
    rcases Network.mem_of_mem_between_receive hpipe n out hts with hold | ⟨-, hout⟩
    · exact hmono (h.transit q j ts hold)
    · exact absurd hout (hh.request_not_mem ts j)

/-- **So does every other turn**, if it leaves the arbiter's variables alone and sends
requests only as `sendRequest` does. -/
theorem Routed.turn (h : Routed c s) {n : Node} {out : List Message} (hi : i < c.P)
    (hpc : n.pc ≠ .start) (hqueue : n.waitQueue = (s.node i).waitQueue)
    (hstatus : n.processStatus = (s.node i).processStatus)
    (hcurrent : n.currentLockingRequest = (s.node i).currentLockingRequest)
    (hout : ∀ p ts, .request ts ∈ marked p out → p ∈ c.S i ∧ ts = c.time i) :
    Routed c (s.turn i n out) := by
  have hmono : ∀ {j : ℕ} {r : Request}, Known c s j r → Known c (s.turn i n out) j r := by
    refine fun hr => hr.mono fun q hq => ?_
    rcases eq_or_ne q i with rfl | hne
    · rwa [Network.turn_node_self]
    · rwa [Network.turn_node_of_ne _ hne]
  have hnode : ∀ j, ((s.turn i n out).node j).waitQueue = (s.node j).waitQueue ∧
      ((s.turn i n out).node j).processStatus = (s.node j).processStatus ∧
      ((s.turn i n out).node j).currentLockingRequest = (s.node j).currentLockingRequest := by
    intro j
    rcases eq_or_ne j i with rfl | hne
    · rw [Network.turn_node_self]
      exact ⟨hqueue, hstatus, hcurrent⟩
    · rw [Network.turn_node_of_ne _ hne]
      exact ⟨rfl, rfl, rfl⟩
  constructor
  · intro j
    rw [(hnode j).1]
    exact h.wf j
  · intro p hp
    rcases eq_or_ne p i with rfl | hne
    · exact hi
    · rw [Network.turn_node_of_ne _ hne] at hp
      exact h.range p hp
  · intro j hj
    rw [(hnode j).2.1] at hj
    rw [(hnode j).2.2]
    exact hmono (h.current j hj)
  · intro j r hr
    rw [(hnode j).1] at hr
    exact hmono (h.waiting j r hr)
  · intro q j ts hts
    rcases Network.mem_between_turn.1 hts with hold | ⟨rfl, hnew⟩
    · exact hmono (h.transit q j ts hold)
    · obtain ⟨hj, rfl⟩ := hout j ts hnew
      exact ⟨q, rfl, hj, by rwa [Network.turn_node_self]⟩

theorem Routed.congr (h : Routed c s) (hnode : s'.node = s.node)
    (hbetween : s'.between = s.between) : Routed c s' := by
  obtain ⟨hwf, hrange, hcurrent, hwaiting, htransit⟩ := h
  constructor <;> simpa only [Known, hnode, hbetween]

/-- **Every step keeps requests in their places**, if an arbiter that gets a grant back
had given one, and a child that enters its critical section has its own vote. -/
theorem Routed.step (h : Routed c s) (hs : Shape c s a s')
    (hlocked : ∀ i k rest, s.pipe i = (k, .relinquish) :: rest → (s.node i).processStatus = 1)
    (hown : ∀ i, (s.node i).pc = .acquiring → c.K ≤ (s.node i).lockedCount →
      (s.node i).processStatus = 1) : Routed c s' := by
  cases hs with
  | request i hi hpc hreq =>
    refine h.turn hi (by simp) rfl rfl rfl fun p ts hts => ?_
    obtain ⟨hp, heq⟩ := mem_marked_map.1 hts
    exact ⟨hp, Body.request.inj heq⟩
  | idle i hi hpc => exact h.turn hi (by simp) rfl rfl rfl fun p ts hts => absurd hts (by simp)
  | write i hnode hbetween => exact h.congr hnode hbetween
  | handle i k hpipe hread hh =>
    exact h.receive hpipe hh fun hm => hlocked i k _ (hm ▸ hpipe)
  | enter i hpc hcount =>
    have hi : i < c.P := h.range i (by simp [hpc])
    exact h.turn hi (by simp) rfl (hown i hpc hcount).symm rfl fun p ts hts =>
      absurd hts (by simp)
  | leave i hpc =>
    have hi : i < c.P := h.range i (by simp [hpc])
    refine h.turn hi (by simp) rfl rfl rfl fun p ts hts => ?_
    rw [marked_append, List.mem_append] at hts
    rcases hts with hts | hts
    · exact absurd (mem_marked_map.1 hts).2 (by simp)
    · exact absurd (mem_marked_map.1 hts).2 (by simp)

end Maekawa
end Xv6
