/-
# The buffer pool: free list and queues share out the buffers

`Pool s free queued` says that the state `s` of `message.c` represents a free
list `free` and a list `queued r` of buffer numbers per receiver: the links of
`message_buffer[·][0]` visit `free`, each ring holds its list, and all lists
together are the numbers `0, …, NUMOFMESSAGEBUFFERS - 1`, each exactly once.
Nothing can then be in two places.  `messageinit` establishes it, a send moves
the first free buffer to the end of a queue (`Pool.send`), and a receive moves
the first buffer of a queue to the front of the free list (`Pool.receive`).
-/

import Xv6.Lib.FreeList
import Xv6.Message.Model

namespace Xv6
namespace Message

open Lib Function

/-- The free list `free` and the queues `queued` share out the buffers. -/
structure Pool (s : MessageState) (free : List ℕ) (queued : ℕ → List ℕ) : Prop where
  linked : Linked (fun i => s.messageBuffer i 0) s.freeMessageBuffer free
  wf : ∀ r < NUMOFMESSAGEQUEUES, (s.messageQueue r).Wf NUMOFMESSAGEBUFFERS
  contents : ∀ r < NUMOFMESSAGEQUEUES,
    (s.messageQueue r).contents NUMOFMESSAGEBUFFERS = (queued r).map Int.ofNat
  perm : (free ++ (List.range NUMOFMESSAGEQUEUES).flatMap queued).Perm
    (List.range NUMOFMESSAGEBUFFERS)

theorem numofmessagebuffers_pos : 0 < NUMOFMESSAGEBUFFERS := by
  unfold NUMOFMESSAGEBUFFERS
  decide

theorem wf_createqueue : createqueue.Wf NUMOFMESSAGEBUFFERS where
  size_le := Nat.zero_le _
  head_lt := numofmessagebuffers_pos
  tail_eq := (Nat.zero_mod _).symm

theorem linked_messageinit :
    Linked (fun i => messageinit.messageBuffer i 0) messageinit.freeMessageBuffer
      (List.range NUMOFMESSAGEBUFFERS) := by
  have hpos := numofmessagebuffers_pos
  have h : Linked (fun i => messageinit.messageBuffer i 0) ((0 : ℕ) : ℤ)
      (List.range' 0 (NUMOFMESSAGEBUFFERS - 1 + 1)) := by
    refine linked_range' 0 (NUMOFMESSAGEBUFFERS - 1) (fun i hi => ?_) ?_
    · have hne : i ≠ NUMOFMESSAGEBUFFERS - 1 := by omega
      simp only [messageinit, update_self, if_neg hne]
    · simp only [messageinit, update_self, Nat.zero_add, if_true]
  rwa [Nat.sub_add_cancel hpos, ← List.range_eq_range'] at h

/-- **`messageinit` puts every buffer on the free list.** -/
theorem pool_messageinit :
    Pool messageinit (List.range NUMOFMESSAGEBUFFERS) (fun _ => []) where
  linked := linked_messageinit
  wf := fun _ _ => wf_createqueue
  contents := fun _ _ => rfl
  perm := by
    rw [List.flatMap_eq_nil_iff.2 fun _ _ => rfl, List.append_nil]

theorem queueNo_natCast {r : ℕ} (hr : r < NUMOFMESSAGEQUEUES) : queueNo (r : ℤ) = .ok r := by
  rw [queueNo, if_pos ⟨Int.natCast_nonneg r, Int.ofNat_lt.2 hr⟩, Int.toNat_natCast]

theorem bufferNo_natCast {i : ℕ} (hi : i < NUMOFMESSAGEBUFFERS) : bufferNo (i : ℤ) = .ok i := by
  rw [bufferNo, if_pos ⟨Int.natCast_nonneg i, Int.ofNat_lt.2 hi⟩, Int.toNat_natCast]

@[simp] theorem loadPayload_storePayload (buf : MessageBuffer) (msg : Payload) :
    loadPayload (storePayload buf msg) = msg :=
  Fin.tail_cons (α := fun _ : Fin 16 => ℤ) (buf 0) msg

@[simp] theorem storePayload_zero (buf : MessageBuffer) (msg : Payload) :
    storePayload buf msg 0 = buf 0 :=
  Fin.cons_zero (α := fun _ : Fin 16 => ℤ) (buf 0) msg

@[simp] theorem loadPayload_update_zero (buf : MessageBuffer) (w : ℤ) :
    loadPayload (update buf 0 w) = loadPayload buf := by
  funext i
  exact update_of_ne (Fin.succ_ne_zero i) w buf

namespace Pool

variable {s : MessageState} {free : List ℕ} {queued : ℕ → List ℕ} {r : ℕ}

theorem size_eq (h : Pool s free queued) (hr : r < NUMOFMESSAGEQUEUES) :
    (s.messageQueue r).size = (queued r).length := by
  rw [← RingBuffer.length_contents NUMOFMESSAGEBUFFERS, h.contents r hr, List.length_map]

/-- The queue of `r` apart, and the other queues. -/
theorem perm_split (h : Pool s free queued) (hr : r < NUMOFMESSAGEQUEUES) :
    (free ++ (queued r ++ ((List.range NUMOFMESSAGEQUEUES).erase r).flatMap queued)).Perm
      (List.range NUMOFMESSAGEBUFFERS) := by
  have hq := flatMap_update_perm List.nodup_range (List.mem_range.2 hr) queued (queued r)
  rw [update_eq_self] at hq
  exact (hq.symm.append_left free).trans h.perm

theorem nodup (h : Pool s free queued) (hr : r < NUMOFMESSAGEQUEUES) :
    (free ++ (queued r ++ ((List.range NUMOFMESSAGEQUEUES).erase r).flatMap queued)).Nodup :=
  (h.perm_split hr).nodup_iff.2 List.nodup_range

/-- A buffer on the free list is in range and in no queue. -/
theorem free_lt (h : Pool s free queued) {i : ℕ} (hi : i ∈ free) : i < NUMOFMESSAGEBUFFERS :=
  List.mem_range.1 (h.perm.mem_iff.1 (List.mem_append_left _ hi))

theorem not_mem_queued_of_free (h : Pool s free queued) {i : ℕ} (hi : i ∈ free)
    (hr : r < NUMOFMESSAGEQUEUES) : i ∉ queued r := fun hq =>
  (List.nodup_append.1 (h.nodup hr)).2.2 i hi i (List.mem_append_left _ hq) rfl

theorem queued_lt (h : Pool s free queued) {i : ℕ} (hr : r < NUMOFMESSAGEQUEUES)
    (hi : i ∈ queued r) : i < NUMOFMESSAGEBUFFERS :=
  List.mem_range.1 ((h.perm_split hr).mem_iff.1 (by simp [hi]))

/-- With a free buffer left no queue is full. -/
theorem size_lt (h : Pool s free queued) (hfree : free ≠ []) (hr : r < NUMOFMESSAGEQUEUES) :
    (s.messageQueue r).size < NUMOFMESSAGEBUFFERS := by
  have hlen := (h.perm_split hr).length_eq
  have hpos := List.length_pos_of_ne_nil hfree
  rw [List.length_append, List.length_append, List.length_range] at hlen
  rw [h.size_eq hr]
  omega

/-- The state `send_message` leaves when buffer `i` was free. -/
def afterSend (s : MessageState) (sPid : ℤ) (r i : ℕ) (msg : Payload) : MessageState :=
  { messageBuffer := update s.messageBuffer i (storePayload (s.messageBuffer i) msg)
    fromArray := update s.fromArray i sPid
    freeMessageBuffer := s.messageBuffer i 0
    messageQueue := update s.messageQueue r
      ((s.messageQueue r).push NUMOFMESSAGEBUFFERS i) }

/-- **A send takes the first free buffer to the end of the queue.** -/
theorem sendMessage_eq {i : ℕ} (h : Pool s (i :: free) queued) (hr : r < NUMOFMESSAGEQUEUES)
    (sPid : ℤ) (msg : Payload) :
    sendMessage s sPid r msg = .ok (0, afterSend s sPid r i msg) := by
  have hfull : isFull (s.messageQueue r) = false := by
    have := h.size_lt (by simp) hr
    simp only [isFull, decide_eq_false_iff_not]
    omega
  have hget : getMessageBuffer s =
      .ok (i, { s with freeMessageBuffer := s.messageBuffer i 0 }) := by
    rw [getMessageBuffer, h.linked.1, bufferNo_natCast (h.free_lt (by simp))]
    rfl
  rw [sendMessage, queueNo_natCast hr]
  simp only [bind, Except.bind, hfull, Bool.false_eq_true, if_false, hget, pure, Except.pure,
    enqueue]
  rfl

theorem send {i : ℕ} (h : Pool s (i :: free) queued) (hr : r < NUMOFMESSAGEQUEUES)
    (sPid : ℤ) (msg : Payload) :
    Pool (afterSend s sPid r i msg) free (update queued r (queued r ++ [i])) where
  linked := by
    refine h.linked.2.congr fun j _ => ?_
    by_cases hj : j = i
    · subst hj
      simp [afterSend]
    · simp [afterSend, update_of_ne hj]
  wf := fun q hq => by
    by_cases hqr : q = r
    · subst hqr
      simpa [afterSend] using (h.wf q hq).push (h.size_lt (by simp) hq) _
    · simpa [afterSend, update_of_ne hqr] using h.wf q hq
  contents := fun q hq => by
    by_cases hqr : q = r
    · subst hqr
      simp [afterSend, (h.wf q hq).contents_push (h.size_lt (by simp) hq), h.contents q hq]
    · simpa [afterSend, update_of_ne hqr] using h.contents q hq
  perm := by
    have hq := flatMap_update_perm List.nodup_range (List.mem_range.2 hr) queued (queued r ++ [i])
    refine (hq.append_left free).trans (List.Perm.trans ?_ (h.perm_split hr))
    rw [List.append_assoc, List.singleton_append, ← List.append_assoc, List.cons_append,
      ← List.append_assoc]
    exact List.perm_middle

/-- The state `receive_msg` leaves when buffer `i` was first in the queue. -/
def afterReceive (s : MessageState) (r i : ℕ) : MessageState :=
  freeMessageBuffer
    { s with
      messageQueue := update s.messageQueue r
        ((s.messageQueue r).pop NUMOFMESSAGEBUFFERS) } i

/-- **A receive on an empty queue changes nothing.** -/
theorem receiveMsg_empty (h : Pool s free queued) (hr : r < NUMOFMESSAGEQUEUES)
    (hq : queued r = []) : receiveMsg s r = .ok (-1, none, s) := by
  have hsize : isEmpty (s.messageQueue r) = true := by
    rw [isEmpty, h.size_eq hr, hq]
    rfl
  rw [receiveMsg, queueNo_natCast hr]
  simp only [bind, Except.bind, hsize, if_true, pure, Except.pure]

/-- **A receive frees the first buffer of the queue and hands out its payload.** -/
theorem receiveMsg_cons {i : ℕ} {rest : List ℕ} (h : Pool s free queued)
    (hr : r < NUMOFMESSAGEQUEUES) (hq : queued r = i :: rest) :
    receiveMsg s r = .ok (0, some (loadPayload (s.messageBuffer i)), afterReceive s r i) := by
  have hsize : (s.messageQueue r).size = rest.length + 1 := by rw [h.size_eq hr, hq]; rfl
  have hempty : isEmpty (s.messageQueue r) = false := by simp [isEmpty, hsize]
  have hhead : (s.messageQueue r).data (s.messageQueue r).head = (i : ℤ) := by
    have := h.contents r hr
    rw [(h.wf r hr).contents_pop (by omega), hq, List.map_cons] at this
    exact (List.cons.inj this).1
  have hnn : ¬ (i : ℤ) < 0 := not_lt.2 (Int.natCast_nonneg i)
  rw [receiveMsg, queueNo_natCast hr]
  simp only [bind, Except.bind, hempty, Bool.false_eq_true, if_false, pure, Except.pure, dequeue,
    hhead, hnn, bufferNo_natCast (h.queued_lt hr (hq ▸ List.mem_cons_self))]
  rfl

theorem receive {i : ℕ} {rest : List ℕ} (h : Pool s free queued) (hr : r < NUMOFMESSAGEQUEUES)
    (hq : queued r = i :: rest) :
    Pool (afterReceive s r i) (i :: free) (update queued r rest) where
  linked := by
    refine ⟨rfl, ?_⟩
    have hne : ∀ j ∈ free, j ≠ i := by
      rintro j hj rfl
      exact h.not_mem_queued_of_free hj hr (by rw [hq]; simp)
    have hi : (afterReceive s r i).messageBuffer i 0 = s.freeMessageBuffer := by
      simp [afterReceive, freeMessageBuffer]
    change Linked _ ((afterReceive s r i).messageBuffer i 0) free
    rw [hi]
    refine h.linked.congr fun j hj => ?_
    simp [afterReceive, freeMessageBuffer, update_of_ne (hne j hj)]
  wf := fun q hq' => by
    by_cases hqr : q = r
    · subst hqr
      have hpos : 0 < (s.messageQueue q).size := by rw [h.size_eq hq', hq]; simp
      simpa [afterReceive, freeMessageBuffer] using (h.wf q hq').pop hpos
    · simpa [afterReceive, freeMessageBuffer, update_of_ne hqr] using h.wf q hq'
  contents := fun q hq' => by
    by_cases hqr : q = r
    · subst hqr
      have hpos : 0 < (s.messageQueue q).size := by rw [h.size_eq hq', hq]; simp
      have := h.contents q hq'
      rw [(h.wf q hq').contents_pop hpos, hq, List.map_cons] at this
      simpa [afterReceive, freeMessageBuffer] using (List.cons.inj this).2
    · simpa [afterReceive, freeMessageBuffer, update_of_ne hqr] using h.contents q hq'
  perm := by
    have hu := flatMap_update_perm List.nodup_range (List.mem_range.2 hr) queued rest
    refine (hu.append_left (i :: free)).trans (List.Perm.trans ?_ (h.perm_split hr))
    rw [hq, List.cons_append, List.cons_append]
    exact List.perm_middle.symm

/-- A receive leaves every payload as it is. -/
theorem loadPayload_afterReceive (s : MessageState) (r i j : ℕ) :
    loadPayload ((afterReceive s r i).messageBuffer j) = loadPayload (s.messageBuffer j) := by
  by_cases hj : j = i
  · subst hj
    simp [afterReceive, freeMessageBuffer]
  · simp [afterReceive, freeMessageBuffer, update_of_ne hj]

end Pool

end Message
end Xv6
