/-
# Sending with no free buffer

`send_message` (`xv6/message.c`, lines 79-102) looks whether the receiver's
queue is full, and a queue has room for the whole pool.  So a send with no free
buffer is refused only where all undelivered messages are in that one queue
(`send_exhausted`).  With a message in any other queue the test passes, and
`GetMessageBuffer` takes the lock of buffer `-1`
(`Pool.sendMessage_wild`).

Every way to spread the messages over the queues can be reached: `exists_spread`
sends one message after the other.
-/

import Xv6.Message.Fifo

namespace Xv6
namespace Message

open Lib

variable {s : MessageState} {t t' : MessageState × List Event} {free : List ℕ}
  {queued : ℕ → List ℕ} {r : ℕ}

/-- The buffers are shared out in every state of every history. -/
theorem represents_of_reach (h : Reach step anyStep (messageinit, []) t) :
    ∃ box, Represents t.1 box := by
  refine h.invariant (I := fun t => ∃ box, Represents t.1 box) ⟨_, represents_messageinit⟩ ?_
  rintro x c y ⟨box, hbox⟩ - hstep
  cases c with
  | send sPid r msg =>
    unfold step at hstep
    dsimp only at hstep
    split at hstep
    next code s hs =>
      cases hstep
      obtain ⟨q, -, -, ⟨-, hrep⟩ | ⟨-, rfl⟩⟩ := hbox.send_cases hs
      · exact ⟨_, hrep⟩
      · exact ⟨_, hbox⟩
    · cases hstep
  | receive r =>
    unfold step at hstep
    dsimp only at hstep
    split at hstep
    next code msg s hs =>
      cases hstep
      exact hbox.receive_exists hs
    · cases hstep

namespace Pool

/-- A full queue refuses. -/
theorem sendMessage_full (hr : r < NUMOFMESSAGEQUEUES)
    (hfull : (s.messageQueue r).size = NUMOFMESSAGEBUFFERS) (sPid : ℤ) (msg : Payload) :
    sendMessage s sPid r msg = .ok (-1, s) := by
  rw [sendMessage, queueNo_natCast hr, ok_bind]
  exact if_pos (decide_eq_true hfull)

/-- **With a message elsewhere the send leaves the pool.** -/
theorem sendMessage_wild (h : Pool s [] queued) (hr : r < NUMOFMESSAGEQUEUES)
    (hroom : (s.messageQueue r).size ≠ NUMOFMESSAGEBUFFERS) (sPid : ℤ) (msg : Payload) :
    sendMessage s sPid r msg = .error .wild := by
  have hhead : s.freeMessageBuffer = -1 := h.linked
  have hget : getMessageBuffer s = .error .wild := by
    rw [getMessageBuffer, hhead]
    rfl
  rw [sendMessage, queueNo_natCast hr, ok_bind]
  have hfull : ¬ isFull (s.messageQueue r) = true := by simpa [isFull] using hroom
  rw [if_neg hfull, hget]
  rfl

end Pool

/-- **A send with no free buffer is refused if the receiver has all the messages.**  In every
state of every history in which the free list is empty, a send to a receiver whose queue holds
all undelivered messages returns `-1` and changes nothing. -/
theorem send_exhausted (t : MessageState × List Event)
    (h : Reach step anyStep (messageinit, []) t) (hfree : t.1.freeMessageBuffer = -1) (r : ℕ)
    (hr : r < NUMOFMESSAGEQUEUES)
    (hall : ∀ q < NUMOFMESSAGEQUEUES, q ≠ r → isEmpty (t.1.messageQueue q) = true)
    (sPid : ℤ) (msg : Payload) : sendMessage t.1 sPid r msg = .ok (-1, t.1) := by
  obtain ⟨box, free, queued, hpool, -⟩ := represents_of_reach h
  obtain rfl : free = [] := by
    cases free with
    | nil => rfl
    | cons i free =>
      have hhead := hpool.linked.1
      omega
  have hothers : ((List.range NUMOFMESSAGEQUEUES).erase r).flatMap queued = [] := by
    refine List.flatMap_eq_nil_iff.2 fun q hq => ?_
    obtain ⟨hne, hq⟩ := (List.nodup_range.mem_erase_iff).1 hq
    have hlt := List.mem_range.1 hq
    have hsize := of_decide_eq_true (hall q hlt hne)
    rw [hpool.size_eq hlt] at hsize
    exact List.length_eq_zero_iff.1 hsize
  refine Pool.sendMessage_full hr ?_ sPid msg
  -- with no free buffer the queues hold all of them
  have hlen := (hpool.perm_split hr).length_eq
  rw [hothers, List.nil_append, List.append_nil, List.length_range] at hlen
  rw [hpool.size_eq hr, hlen]

/-! ### Spreading the messages -/

/-- One message after the other to the receivers of a list. -/
theorem exists_spread (msg : Payload) (targets : List ℕ) (h : Pool t.1 free queued)
    (hvalid : ∀ r ∈ targets, r < NUMOFMESSAGEQUEUES) (hlen : targets.length ≤ free.length) :
    ∃ t' queued', Reach step anyStep t t' ∧ Pool t'.1 (free.drop targets.length) queued' ∧
      ∀ r, (queued' r).length = (queued r).length + targets.count r := by
  induction targets generalizing t free queued with
  | nil => exact ⟨t, queued, Reach.refl, h, fun r => rfl⟩
  | cons q targets ih =>
    obtain ⟨hq, hrest⟩ := List.forall_mem_cons.1 hvalid
    cases free with
    | nil => cases hlen
    | cons i free =>
      obtain ⟨t', queued', hreach, hpool, hcount⟩ :=
        ih (t := (Pool.afterSend t.1 1 q i msg, t.2 ++ [.sent q msg 0])) (h.send hq 1 msg) hrest
          (Nat.le_of_succ_le_succ hlen)
      refine ⟨t', queued', ?_, hpool, fun r => ?_⟩
      · have hstep := step_send (h.sendMessage_eq hq 1 msg)
        exact (Reach.refl.tail (.send 1 q msg) trivial hstep).trans hreach
      · rw [hcount r, List.count_cons]
        by_cases hr : r = q
        · subst hr
          rw [Function.update_self, List.length_append, beq_self_eq_true, if_pos rfl]
          simp only [List.length_singleton]
          omega
        · rw [Function.update_of_ne hr, if_neg (by simpa using Ne.symm hr)]
          omega

/-- The pool can be emptied in every way. -/
theorem exists_exhausted (msg : Payload) (targets : List ℕ)
    (hvalid : ∀ r ∈ targets, r < NUMOFMESSAGEQUEUES)
    (hlen : targets.length = NUMOFMESSAGEBUFFERS) :
    ∃ t queued, Reach step anyStep (messageinit, []) t ∧ Pool t.1 [] queued ∧
      ∀ r < NUMOFMESSAGEQUEUES, (t.1.messageQueue r).size = targets.count r := by
  obtain ⟨t, queued, hreach, hpool, hcount⟩ :=
    exists_spread (t := (messageinit, [])) msg targets pool_messageinit hvalid
      (by rw [List.length_range, hlen])
  rw [hlen, List.drop_of_length_le (by rw [List.length_range])] at hpool
  refine ⟨t, queued, hreach, hpool, fun r hr => ?_⟩
  rw [hpool.size_eq hr, hcount r, List.length_nil, Nat.zero_add]

/-- All buffers hold messages to receiver 3: the next send to it is refused. -/
theorem send_exhausted_one_queue : ∃ t, Reach step anyStep (messageinit, []) t ∧
    t.1.freeMessageBuffer = -1 ∧ sendMessage t.1 1 (3 : ℕ) (fun _ => 7) = .ok (-1, t.1) := by
  have hthree : 3 < NUMOFMESSAGEQUEUES := by unfold NUMOFMESSAGEQUEUES; decide
  obtain ⟨t, queued, hreach, hpool, hsize⟩ := exists_exhausted (fun _ => 7)
    (List.replicate NUMOFMESSAGEBUFFERS 3)
    (fun r hr => by rw [List.eq_of_mem_replicate hr]; exact hthree) List.length_replicate
  refine ⟨t, hreach, hpool.linked, send_exhausted t hreach hpool.linked 3 hthree
    (fun q hq hne => ?_) 1 _⟩
  refine decide_eq_true ?_
  rw [hsize q hq, List.count_replicate, if_neg (by simpa using Ne.symm hne)]

/-- **One message elsewhere is enough.**  All buffers hold messages, one of them to receiver 4
and the others to receiver 3; a send to receiver 5 or to receiver 3 takes the lock of a buffer
that does not exist. -/
theorem send_exhausted_leaves_pool : ∃ t, Reach step anyStep (messageinit, []) t ∧
    t.1.freeMessageBuffer = -1 ∧ sendMessage t.1 1 (5 : ℕ) (fun _ => 7) = .error .wild ∧
      sendMessage t.1 1 (3 : ℕ) (fun _ => 7) = .error .wild := by
  have hfive : 5 < NUMOFMESSAGEQUEUES := by unfold NUMOFMESSAGEQUEUES; decide
  have hpos := numofmessagebuffers_pos
  obtain ⟨t, queued, hreach, hpool, hsize⟩ := exists_exhausted (fun _ => 7)
    (4 :: List.replicate (NUMOFMESSAGEBUFFERS - 1) 3)
    (fun r hr => by
      obtain rfl | hr := List.mem_cons.1 hr
      · omega
      · have := List.eq_of_mem_replicate hr
        omega)
    (by rw [List.length_cons, List.length_replicate]; omega)
  refine ⟨t, hreach, hpool.linked, hpool.sendMessage_wild hfive ?_ 1 _,
    hpool.sendMessage_wild (by omega) ?_ 1 _⟩
  · rw [hsize 5 hfive, List.count_cons, List.count_replicate]
    simp only [Nat.reduceBEq, Bool.false_eq_true, if_false]
    omega
  · rw [hsize 3 (by omega), List.count_cons, List.count_replicate]
    simp only [Nat.reduceBEq, Bool.false_eq_true, if_false, if_true]
    omega

end Message
end Xv6
