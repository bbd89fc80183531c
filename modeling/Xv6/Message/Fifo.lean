/-
# Message delivery is one FIFO per receiver

The abstract component is a mailbox per receiver: the payloads sent to it and
not yet received, in order.  `Represents s box` connects it to the globals of
`message.c` through the buffer pool.  `send_message` appends to a mailbox while
a buffer is free (`Represents.send`), and `receive_msg` takes the first payload
of a mailbox, or returns `-1` from an empty one (`Represents.receive_nil`,
`Represents.receive_cons`).

`step` runs the two calls and keeps their history.  Over every history in which
a send only starts while fewer than `NUMOFMESSAGEBUFFERS` messages are
undelivered, `message_fifo` says what the calls return and that no buffer is
ever lost or shared.
-/

import Xv6.Lib.Run
import Xv6.Message.Pool

namespace Xv6
namespace Message

open Lib Function

/-- The state represents the mailboxes: the payloads of each queue's buffers, in order. -/
def Represents (s : MessageState) (box : ℕ → List Payload) : Prop :=
  ∃ free queued, Pool s free queued ∧ ∀ r < NUMOFMESSAGEQUEUES,
    box r = (queued r).map fun i => loadPayload (s.messageBuffer i)

/-- The number of undelivered messages. -/
def undelivered (box : ℕ → List Payload) : ℕ :=
  ((List.range NUMOFMESSAGEQUEUES).map fun r => (box r).length).sum

theorem represents_messageinit : Represents messageinit fun _ => [] :=
  ⟨_, _, pool_messageinit, fun _ _ => rfl⟩

/-- Free buffers and undelivered messages account for all buffers. -/
theorem length_free_add_undelivered {s : MessageState} {free : List ℕ} {queued : ℕ → List ℕ}
    {box : ℕ → List Payload} (h : Pool s free queued)
    (hbox : ∀ r < NUMOFMESSAGEQUEUES,
      box r = (queued r).map fun i => loadPayload (s.messageBuffer i)) :
    free.length + undelivered box = NUMOFMESSAGEBUFFERS := by
  have hlen := h.perm.length_eq
  rw [List.length_append, List.length_range, List.length_flatMap] at hlen
  rw [← hlen, undelivered]
  congr 2
  refine List.map_congr_left fun r hr => ?_
  rw [hbox r (List.mem_range.1 hr), List.length_map]

namespace Represents

variable {s : MessageState} {box : ℕ → List Payload} {r : ℕ}

/-- **A send appends to the mailbox.** -/
theorem send (h : Represents s box) (hfree : undelivered box < NUMOFMESSAGEBUFFERS)
    (hr : r < NUMOFMESSAGEQUEUES) (sPid : ℤ) (msg : Payload) :
    ∃ s', sendMessage s sPid r msg = .ok (0, s') ∧
      Represents s' (update box r (box r ++ [msg])) := by
  obtain ⟨free, queued, hp, hbox⟩ := h
  have hlen := length_free_add_undelivered hp hbox
  cases free with
  | nil =>
    rw [List.length_nil] at hlen
    omega
  | cons i free =>
    refine ⟨_, hp.sendMessage_eq hr sPid msg, free, _, hp.send hr sPid msg, fun q hq => ?_⟩
    have hmem : i ∉ queued q := hp.not_mem_queued_of_free List.mem_cons_self hq
    -- the buffer of the new message is in no queue, so no other payload moves
    have hold : (queued q).map (fun j => loadPayload
        ((Pool.afterSend s sPid r i msg).messageBuffer j)) = box q := by
      rw [hbox q hq]
      refine List.map_congr_left fun j hj => ?_
      have hne : j ≠ i := fun he => hmem (he ▸ hj)
      simp [Pool.afterSend, update_of_ne hne]
    by_cases hqr : q = r
    · subst hqr
      rw [update_self, update_self, List.map_append, hold]
      simp [Pool.afterSend]
    · rw [update_of_ne hqr, update_of_ne hqr, hold]

/-- **A send appends or is refused.**  It is refused, with `-1` and no effect, if the
queue holds every buffer. -/
theorem send_cases (h : Represents s box) {sPid rPid code : ℤ} {msg : Payload}
    {s' : MessageState} (hs : sendMessage s sPid rPid msg = .ok (code, s')) :
    ∃ r : ℕ, rPid = r ∧ r < NUMOFMESSAGEQUEUES ∧
      ((code = 0 ∧ Represents s' (update box r (box r ++ [msg]))) ∨
        (code = -1 ∧ s' = s)) := by
  have hrange : 0 ≤ rPid ∧ rPid < NUMOFMESSAGEQUEUES := by
    by_contra hno
    rw [sendMessage, queueNo, if_neg hno] at hs
    cases hs
  obtain ⟨r, rfl⟩ := Int.eq_ofNat_of_zero_le hrange.1
  have hr : r < NUMOFMESSAGEQUEUES := by omega
  refine ⟨r, rfl, hr, ?_⟩
  rcases Nat.lt_or_ge (undelivered box) NUMOFMESSAGEBUFFERS with hfree | hfull
  · obtain ⟨t, ht, hrep⟩ := h.send hfree hr sPid msg
    rw [ht] at hs
    cases hs
    exact .inl ⟨rfl, hrep⟩
  · obtain ⟨free, queued, hp, hbox⟩ := h
    have hlen := length_free_add_undelivered hp hbox
    obtain rfl : free = [] := List.length_eq_zero_iff.1 (by omega)
    have hhead : s.freeMessageBuffer = -1 := hp.linked
    rw [sendMessage, queueNo_natCast hr] at hs
    simp only [bind, Except.bind] at hs
    split at hs
    · cases hs
      exact .inr ⟨rfl, rfl⟩
    · rw [getMessageBuffer, hhead] at hs
      cases hs

/-- A queue is empty exactly if the mailbox is. -/
theorem isEmpty_eq (h : Represents s box) (hr : r < NUMOFMESSAGEQUEUES) :
    isEmpty (s.messageQueue r) = (box r).isEmpty := by
  obtain ⟨free, queued, hp, hbox⟩ := h
  rw [isEmpty, hp.size_eq hr, hbox r hr]
  cases queued r <;> rfl

theorem isReceiverQueueEmpty_eq (h : Represents s box) (hr : r < NUMOFMESSAGEQUEUES) :
    isReceiverQueueEmpty s r = .ok (box r).isEmpty := by
  rw [isReceiverQueueEmpty, queueNo_natCast hr, ← h.isEmpty_eq hr]
  rfl

/-- **An empty mailbox gives `-1`, and nothing changes.** -/
theorem receive_nil (h : Represents s box) (hr : r < NUMOFMESSAGEQUEUES) (hbox : box r = []) :
    receiveMsg s r = .ok (-1, none, s) := by
  obtain ⟨free, queued, hp, hq⟩ := h
  refine hp.receiveMsg_empty hr ?_
  rw [hq r hr] at hbox
  exact List.map_eq_nil_iff.1 hbox

/-- **A receive takes the first payload of the mailbox.** -/
theorem receive_cons {msg : Payload} {rest : List Payload} (h : Represents s box)
    (hr : r < NUMOFMESSAGEQUEUES) (hbox : box r = msg :: rest) :
    ∃ s', receiveMsg s r = .ok (0, some msg, s') ∧ Represents s' (update box r rest) := by
  obtain ⟨free, queued, hp, hq⟩ := h
  rw [hq r hr] at hbox
  obtain ⟨i, is, hqr, rfl, rfl⟩ := List.map_eq_cons_iff.1 hbox
  refine ⟨_, hp.receiveMsg_cons hr hqr, _, _, hp.receive hr hqr, fun q hq' => ?_⟩
  by_cases he : q = r
  · subst he
    simp [Pool.loadPayload_afterReceive]
  · simp [update_of_ne he, hq q hq', Pool.loadPayload_afterReceive]

/-- A receive that returns leaves mailboxes. -/
theorem receive_exists (h : Represents s box) {x : ℤ × Option Payload × MessageState}
    (hs : receiveMsg s r = .ok x) : ∃ box', Represents x.2.2 box' := by
  have hr : r < NUMOFMESSAGEQUEUES := by
    by_contra hno
    rw [receiveMsg, queueNo, if_neg (by omega)] at hs
    cases hs
  cases hb : box r with
  | nil =>
    rw [h.receive_nil hr hb] at hs
    cases hs
    exact ⟨_, h⟩
  | cons msg rest =>
    obtain ⟨s', hs', hrep⟩ := h.receive_cons hr hb
    rw [hs'] at hs
    cases hs
    exact ⟨_, hrep⟩

end Represents

/-! ### Histories of calls -/

/-- A call of `send_message(s_pid, r, msg)` or of `receive_msg(r, ·)`. -/
inductive Call where
  | send (sPid : ℤ) (r : ℕ) (msg : Payload)
  | receive (r : ℕ)

/-- A call that has returned, with its return code and what it handed out. -/
inductive Event where
  | sent (r : ℕ) (msg : Payload) (code : ℤ)
  | received (r : ℕ) (code : ℤ) (msg : Option Payload)

/-- The payloads sent to `r`, in order. -/
def sentTo (r : ℕ) (log : List Event) : List Payload :=
  log.filterMap fun
    | .sent q msg _ => if q = r then some msg else none
    | .received _ _ _ => none

/-- The payloads `r` was handed by its successful receives, in order. -/
def receivedBy (r : ℕ) (log : List Event) : List Payload :=
  log.filterMap fun
    | .sent _ _ _ => none
    | .received q code msg => if q = r ∧ code = 0 then msg else none

/-- The number of messages sent and not received. -/
def outstanding (log : List Event) : ℕ :=
  ((List.range NUMOFMESSAGEQUEUES).map fun r =>
    (sentTo r log).length - (receivedBy r log).length).sum

/-- One call, taken to its return. -/
def step (t : MessageState × List Event) : Call → Option (MessageState × List Event)
  | .send sPid r msg =>
      match sendMessage t.1 sPid r msg with
      | .ok (code, s) => some (s, t.2 ++ [.sent r msg code])
      | .error _ => none
  | .receive r =>
      match receiveMsg t.1 r with
      | .ok (code, msg, s) => some (s, t.2 ++ [.received r code msg])
      | .error _ => none

theorem step_send {t : MessageState × List Event} {sPid : ℤ} {r : ℕ} {msg : Payload} {code : ℤ}
    {s : MessageState} (h : sendMessage t.1 sPid r msg = .ok (code, s)) :
    step t (.send sPid r msg) = some (s, t.2 ++ [.sent r msg code]) := by
  simp only [step, h]

theorem step_receive {t : MessageState × List Event} {r : ℕ} {code : ℤ} {msg : Option Payload}
    {s : MessageState} (h : receiveMsg t.1 r = .ok (code, msg, s)) :
    step t (.receive r) = some (s, t.2 ++ [.received r code msg]) := by
  simp only [step, h]

/-! What one more event adds to the two histories. -/

@[simp] theorem sentTo_append_sent (q r : ℕ) (log : List Event) (msg : Payload) (code : ℤ) :
    sentTo q (log ++ [.sent r msg code]) = sentTo q log ++ if r = q then [msg] else [] := by
  by_cases h : r = q <;> simp [sentTo, h]

@[simp] theorem sentTo_append_received (q r : ℕ) (log : List Event) (msg : Option Payload)
    (code : ℤ) : sentTo q (log ++ [.received r code msg]) = sentTo q log := by
  simp [sentTo]

@[simp] theorem receivedBy_append_sent (q r : ℕ) (log : List Event) (msg : Payload) (code : ℤ) :
    receivedBy q (log ++ [.sent r msg code]) = receivedBy q log := by
  simp [receivedBy]

@[simp] theorem receivedBy_append_received (q r : ℕ) (log : List Event) (msg : Option Payload)
    (code : ℤ) : receivedBy q (log ++ [.received r code msg]) =
      receivedBy q log ++ if r = q ∧ code = 0 then msg.toList else [] := by
  by_cases h : r = q ∧ code = 0
  · cases msg <;> simp [receivedBy, h]
  · simp [receivedBy, h]

/-- The calls a history may continue with: to a receiver that has a queue, and a
send only while fewer than `NUMOFMESSAGEBUFFERS` messages are undelivered. -/
def Allowed (t : MessageState × List Event) : Call → Prop
  | .send _ r _ => r < NUMOFMESSAGEQUEUES ∧ outstanding t.2 < NUMOFMESSAGEBUFFERS
  | .receive r => r < NUMOFMESSAGEQUEUES

/-- What has been sent is what has been received and what the mailboxes hold. -/
def Consistent (t : MessageState × List Event) : Prop :=
  ∃ box, Represents t.1 box ∧ ∀ r < NUMOFMESSAGEQUEUES, sentTo r t.2 = receivedBy r t.2 ++ box r

theorem Consistent.undelivered_eq {log : List Event} {box : ℕ → List Payload}
    (h : ∀ r < NUMOFMESSAGEQUEUES, sentTo r log = receivedBy r log ++ box r) :
    undelivered box = outstanding log := by
  rw [undelivered, outstanding]
  congr 1
  refine List.map_congr_left fun r hr => ?_
  rw [h r (List.mem_range.1 hr), List.length_append, Nat.add_sub_cancel_left]

/-- One call keeps the history consistent. -/
theorem Consistent.step {t t' : MessageState × List Event} {c : Call} (h : Consistent t)
    (hok : Allowed t c) (hc : step t c = some t') : Consistent t' := by
  obtain ⟨box, hrep, hlog⟩ := h
  cases c with
  | send sPid r msg =>
    obtain ⟨s, hs, hrep'⟩ := hrep.send
      (by rw [Consistent.undelivered_eq hlog]; exact hok.2) hok.1 sPid msg
    rw [step_send hs] at hc
    cases hc
    refine ⟨_, hrep', fun q hq => ?_⟩
    by_cases hqr : q = r
    · subst hqr
      simp [hlog q hq]
    · simp [update_of_ne hqr, Ne.symm hqr, hlog q hq]
  | receive r =>
    cases hbox : box r with
    | nil =>
      rw [step_receive (hrep.receive_nil hok hbox)] at hc
      cases hc
      exact ⟨box, hrep, fun q hq => by simp [hlog q hq]⟩
    | cons msg rest =>
      obtain ⟨s, hs, hrep'⟩ := hrep.receive_cons hok hbox
      rw [step_receive hs] at hc
      cases hc
      refine ⟨_, hrep', fun q hq => ?_⟩
      by_cases hqr : q = r
      · subst hqr
        simp [hlog q hq, hbox]
      · simp [update_of_ne hqr, Ne.symm hqr, hlog q hq]

theorem reach_consistent {t : MessageState × List Event}
    (h : Reach step Allowed (messageinit, []) t) : Consistent t :=
  h.invariant ⟨_, represents_messageinit, fun _ _ => rfl⟩ fun _ _ _ hx hok hs => hx.step hok hs

/-- **Message delivery is one FIFO per receiver.**  After every history of
`send_message` and `receive_msg` calls from `messageinit` in which sends start
only while fewer than `NUMOFMESSAGEBUFFERS` messages are undelivered: the `k`-th
successful receive of `r` has returned the payload of the `k`-th send to `r`; a
send that starts now returns `0`; a receive returns `-1` if all messages to `r`
are delivered, and otherwise `0` with the next payload; and the free list and
the queues together hold every buffer number exactly once. -/
theorem message_fifo {t : MessageState × List Event}
    (h : Reach step Allowed (messageinit, []) t) :
    (∀ r < NUMOFMESSAGEQUEUES, receivedBy r t.2 <+: sentTo r t.2) ∧
      (∀ sPid msg, ∀ r < NUMOFMESSAGEQUEUES, outstanding t.2 < NUMOFMESSAGEBUFFERS →
        ∃ s, sendMessage t.1 sPid r msg = .ok (0, s)) ∧
      (∀ r < NUMOFMESSAGEQUEUES,
        ((sentTo r t.2).length = (receivedBy r t.2).length →
          receiveMsg t.1 r = .ok (-1, none, t.1)) ∧
        ∀ msg, (sentTo r t.2)[(receivedBy r t.2).length]? = some msg →
          ∃ s, receiveMsg t.1 r = .ok (0, some msg, s)) ∧
      ∃ free, Linked (fun i => t.1.messageBuffer i 0) t.1.freeMessageBuffer free ∧
        (free.map Int.ofNat ++ (List.range NUMOFMESSAGEQUEUES).flatMap fun r =>
            (t.1.messageQueue r).contents NUMOFMESSAGEBUFFERS).Perm
          ((List.range NUMOFMESSAGEBUFFERS).map Int.ofNat) := by
  obtain ⟨box, hrep, hlog⟩ := reach_consistent h
  refine ⟨fun r hr => ⟨box r, (hlog r hr).symm⟩, fun sPid msg r hr hfree => ?_,
    fun r hr => ⟨fun hall => ?_, fun msg hmsg => ?_⟩, ?_⟩
  · obtain ⟨s, hs, _⟩ := hrep.send (by rwa [Consistent.undelivered_eq hlog]) hr sPid msg
    exact ⟨s, hs⟩
  · refine hrep.receive_nil hr (List.length_eq_zero_iff.1 ?_)
    rw [hlog r hr, List.length_append] at hall
    omega
  · rw [hlog r hr, List.getElem?_append_right le_rfl, Nat.sub_self] at hmsg
    cases hbox : box r with
    | nil => simp [hbox] at hmsg
    | cons m rest =>
      obtain rfl : m = msg := by simpa [hbox] using hmsg
      obtain ⟨s, hs, _⟩ := hrep.receive_cons hr hbox
      exact ⟨s, hs⟩
  · obtain ⟨free, queued, hp, _⟩ := hrep
    refine ⟨free, hp.linked, ?_⟩
    have hperm := hp.perm.map Int.ofNat
    rw [List.map_append, List.map_flatMap] at hperm
    rwa [List.flatMap_congr fun r hr => hp.contents r (List.mem_range.1 hr)]

/-- Of two messages sent to receiver 3 the first receive gives the first, and the next one gives
the second. -/
theorem message_fifo_two_sends :
    ∃ t : MessageState × List Event, Reach step Allowed (messageinit, []) t ∧
      receivedBy 3 t.2 = [fun _ => 7] ∧
      ∃ s, receiveMsg t.1 (3 : ℕ) = .ok (0, some fun _ => 8, s) := by
  have hr : 3 < NUMOFMESSAGEQUEUES := by unfold NUMOFMESSAGEQUEUES; decide
  have h₀ : outstanding [] < NUMOFMESSAGEBUFFERS := by
    unfold NUMOFMESSAGEBUFFERS outstanding NUMOFMESSAGEQUEUES
    decide
  have h₁ : outstanding [.sent 3 (fun _ => 7) 0] < NUMOFMESSAGEBUFFERS := by
    unfold NUMOFMESSAGEBUFFERS outstanding NUMOFMESSAGEQUEUES
    decide
  obtain ⟨s₁, hs₁⟩ := (message_fifo (Reach.refl (s := (messageinit, [])))).2.1 1 (fun _ => 7) 3 hr h₀
  have hreach₁ : Reach step Allowed (messageinit, []) (s₁, [.sent 3 (fun _ => 7) 0]) :=
    Reach.refl.tail (a := .send 1 3 fun _ => 7) ⟨hr, h₀⟩ (step_send hs₁)
  obtain ⟨s₂, hs₂⟩ := (message_fifo hreach₁).2.1 1 (fun _ => 8) 3 hr h₁
  have hreach₂ := hreach₁.tail (a := .send 1 3 fun _ => 8) ⟨hr, h₁⟩ (step_send hs₂)
  obtain ⟨s₃, hs₃⟩ := ((message_fifo hreach₂).2.2.1 3 hr).2 _ rfl
  have hreach₃ := hreach₂.tail (a := .receive 3) hr (step_receive hs₃)
  exact ⟨_, hreach₃, rfl, ((message_fifo hreach₃).2.2.1 3 hr).2 _ rfl⟩

end Message
end Xv6
