/-
# `FAILED` or `INQUIRE`

An arbiter that has granted its vote answers a `REQUEST` by `FAILED`, if the
current request or one that waits precedes it, and asks for its vote back by
`INQUIRE` otherwise (`xv6/maekawa.c`, lines 246-278).  The loop that looks for
such a request goes over the cells `0 … size - 1` of the ring.  These are the
cells in use if the head is at `0` or every cell is used; the answer is right
also where the current request decides it (`failed_or_inquire`).  Otherwise the
loop reads requests that were granted long ago and misses some that wait
(`failed_by_stale_cell`).
-/

import Xv6.Maekawa.Conserve

namespace Xv6
namespace Maekawa

open Lib

variable {q : QueueRequest} {r : Request}

/-- The cells that the scan visits are those in use. -/
def ScansRing (q : QueueRequest) : Prop := q.head = 0 ∨ q.size = MAXQSize

instance (q : QueueRequest) : Decidable (ScansRing q) := inferInstanceAs (Decidable (_ ∨ _))

/-- The ring uses the cells before its size. -/
theorem mem_cells (hwf : q.Wf MAXQSize) (h : ScansRing q) {u : ℕ} :
    u ∈ cells q ↔ u < q.size := by
  have hsize := hwf.size_le
  have hhead := hwf.head_lt
  unfold cells
  rw [List.mem_map]
  constructor
  · rintro ⟨i, hi, rfl⟩
    have hi := List.mem_range.1 hi
    obtain h | h := h
    · rw [h, Nat.zero_add, Nat.mod_eq_of_lt (by omega)]
      exact hi
    · rw [h]
      exact Nat.mod_lt _ (by decide)
  · intro hu
    obtain h | h := h
    · exact ⟨u, List.mem_range.2 hu, by rw [h, Nat.zero_add, Nat.mod_eq_of_lt (by omega)]⟩
    · -- the offset of `u` from the head, around the ring
      refine ⟨(u + MAXQSize - q.head) % MAXQSize, List.mem_range.2 ?_, ?_⟩
      · rw [h]
        exact Nat.mod_lt _ (by decide)
      · rw [Nat.add_mod_mod, show q.head + (u + MAXQSize - q.head) = u + MAXQSize by omega,
          Nat.add_mod_right, Nat.mod_eq_of_lt (by omega)]

/-- **The scan finds the requests that wait**, where it visits their cells. -/
theorem scanFails_iff (hwf : q.Wf MAXQSize) (h : ScansRing q) :
    scanFails q r = true ↔ ∃ w ∈ waiting q, precedes w r = true := by
  unfold scanFails
  rw [List.any_eq_true, waiting_eq_map_cells]
  simp only [List.mem_range, List.mem_map, mem_cells hwf h]
  constructor
  · rintro ⟨u, hu, hprec⟩
    exact ⟨_, ⟨u, hu, rfl⟩, hprec⟩
  · rintro ⟨_, ⟨u, hu, rfl⟩, hprec⟩
    exact ⟨u, hu, hprec⟩

theorem precedes_irrefl (r : Request) : precedes r r = false := precedes_eq_false.2 le_rfl

/-- A request does not precede itself, so it does not matter that it is in the queue. -/
theorem exists_precedes_enqueue (hwf : q.Wf MAXQSize) :
    (∃ w ∈ waiting (enqueueRequestQueue q r), precedes w r = true) ↔
      ∃ w ∈ waiting q, precedes w r = true := by
  obtain hlt | hge := Nat.lt_or_ge q.size MAXQSize
  · rw [waiting_enqueueRequestQueue hwf hlt]
    constructor
    · rintro ⟨w, hw, hprec⟩
      obtain hw | hw := List.mem_append.1 hw
      · exact ⟨w, hw, hprec⟩
      · rw [List.mem_singleton.1 hw, precedes_irrefl] at hprec
        cases hprec
    · rintro ⟨w, hw, hprec⟩
      exact ⟨w, List.mem_append_left _ hw, hprec⟩
  · rw [enqueueRequestQueue, if_pos (Nat.le_antisymm hwf.size_le hge)]

/-- **`FAILED` or `INQUIRE`.**  In every state reached by any messages in which the vote is
granted, a `REQUEST` from a child that the current request precedes, or that finds the scan
over the ring's own cells, is answered by `FAILED` if and only if the current request or one
that waits precedes it, and otherwise the holder gets `INQUIRE`. -/
theorem failed_or_inquire (P k : ℕ) (n : Node) (h : Reach (handle P) anyStep (Node.init k) n)
    (hbusy : n.processStatus = 1) (sender : ℕ) (hsender : sender < P) (timeStamp : ℤ)
    (hscan : ScansRing (enqueueRequestQueue n.waitQueue ⟨sender, timeStamp⟩) ∨
      precedes n.currentLockingRequest ⟨sender, timeStamp⟩ = true) :
    ∃ n', recvHandler P n (sender, .request timeStamp) = some (n',
      if precedes n.currentLockingRequest ⟨sender, timeStamp⟩ = true ∨
          ∃ w ∈ waiting n.waitQueue, precedes w ⟨sender, timeStamp⟩ = true then
        [(sender, .failed)]
      else [(n.currentLockingRequest.pid.toNat, .inquire)]) := by
  have harb := arbitrates_of_reach h
  have hqwf := enqueueRequestQueue_wf harb.wf ⟨sender, timeStamp⟩
  have hflag : (scanFails (enqueueRequestQueue n.waitQueue ⟨sender, timeStamp⟩)
        ⟨sender, timeStamp⟩ || precedes n.currentLockingRequest ⟨sender, timeStamp⟩) = true ↔
      precedes n.currentLockingRequest ⟨sender, timeStamp⟩ = true ∨
        ∃ w ∈ waiting n.waitQueue, precedes w ⟨sender, timeStamp⟩ = true := by
    rw [Bool.or_eq_true, or_comm]
    obtain hscan | hprec := hscan
    · rw [scanFails_iff hqwf hscan, exists_precedes_enqueue harb.wf]
    · simp only [hprec, true_or]
  change ∃ n', n.onRequest P ⟨sender, timeStamp⟩ = _
  unfold Node.onRequest
  rw [if_neg (not_not.2 hbusy)]
  dsimp only
  split
  next hyes =>
    rw [writeTo_eq (by omega), if_pos (hflag.1 hyes)]
    exact ⟨_, rfl⟩
  next hno =>
    rw [writeTo_eq (harb.holder hbusy), if_neg fun hyes => hno (hflag.2 hyes)]
    exact ⟨_, rfl⟩

/-- Child 0 has the vote, child 1 waits, and child 2 asks after it: it gets `FAILED`. -/
theorem failed_or_inquire_waiting : ∃ n n', Reach (handle 4) anyStep (Node.init 3) n ∧
    n.currentLockingRequest = ⟨0, 9⟩ ∧ waiting n.waitQueue = [⟨1, 3⟩] ∧
    recvHandler 4 n (2, .request 5) = some (n', [(2, .failed)]) := by
  obtain ⟨n, hn, hbusy, hcur, hwait, hscan⟩ : ∃ n, Reach (handle 4) anyStep (Node.init 3) n ∧
      n.processStatus = 1 ∧ n.currentLockingRequest = ⟨0, 9⟩ ∧ waiting n.waitQueue = [⟨1, 3⟩] ∧
      ScansRing (enqueueRequestQueue n.waitQueue ⟨(2 : ℕ), 5⟩) :=
    exists_reach_of_any [(0, .request 9), (1, .request 3)] (by decide +kernel)
  obtain ⟨n', hrecv⟩ := failed_or_inquire 4 3 n hn hbusy 2 (by decide) 5 (.inl hscan)
  rw [hcur, hwait, if_pos (by decide)] at hrecv
  exact ⟨n, n', hn, hcur, hwait, hrecv⟩

/-- **A cell that is no longer in use decides.**  Child 1 has released, and its request stands in
cell 0.  Child 3 has the vote and nobody waits; child 2 precedes it and gets `FAILED`.  And the
other way: child 2 waits in cell 3, where the scan does not look, and child 1, which comes after
it, is not told. -/
theorem failed_by_stale_cell :
    (∃ n n', Reach (handle 4) anyStep (Node.init 3) n ∧ n.processStatus = 1 ∧
      n.currentLockingRequest = ⟨3, 9⟩ ∧ waiting n.waitQueue = [] ∧
      recvHandler 4 n (2, .request 5) = some (n', [(2, .failed)])) ∧
    ∃ n n', Reach (handle 4) anyStep (Node.init 3) n ∧ n.processStatus = 1 ∧
      n.currentLockingRequest = ⟨3, 9⟩ ∧ waiting n.waitQueue = [⟨2, 5⟩] ∧
      recvHandler 4 n (1, .request 7) = some (n', [(3, .inquire)]) := by
  refine ⟨?_, ?_⟩
  · obtain ⟨n, hn, hbusy, hcur, hwait, hrecv⟩ : ∃ n, Reach (handle 4) anyStep (Node.init 3) n ∧
        n.processStatus = 1 ∧ n.currentLockingRequest = ⟨3, 9⟩ ∧ waiting n.waitQueue = [] ∧
        (recvHandler 4 n (2, .request 5)).map Prod.snd = some [(2, .failed)] :=
      exists_reach_of_any [(0, .request 2), (1, .request 1), (0, .release), (3, .request 9),
        (1, .release)] (by decide +kernel)
    obtain ⟨⟨n', out⟩, hrecv, rfl⟩ := Option.map_eq_some_iff.1 hrecv
    exact ⟨n, n', hn, hbusy, hcur, hwait, hrecv⟩
  · obtain ⟨n, hn, hbusy, hcur, hwait, hrecv⟩ : ∃ n, Reach (handle 4) anyStep (Node.init 3) n ∧
        n.processStatus = 1 ∧ n.currentLockingRequest = ⟨3, 9⟩ ∧
        waiting n.waitQueue = [⟨2, 5⟩] ∧
        (recvHandler 4 n (1, .request 7)).map Prod.snd = some [(3, .inquire)] :=
      exists_reach_of_any [(0, .request 2), (3, .request 9), (0, .release), (0, .request 8),
        (3, .relinquish), (0, .release), (2, .request 5)] (by decide +kernel)
    obtain ⟨⟨n', out⟩, hrecv, rfl⟩ := Option.map_eq_some_iff.1 hrecv
    exact ⟨n, n', hn, hbusy, hcur, hwait, hrecv⟩

end Maekawa
end Xv6
