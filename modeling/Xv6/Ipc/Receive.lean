/-
# Wakeups that come too late

A sender's `wakeup` comes after its `send_message` in a critical section of its
own, so the receiver can take the message before it is woken for it.  The late
wakeup then finds the receiver in the sleep of its next `sys_recv`, with nothing
in its queue, and that call returns `-1` without a message
(`recv_without_message`).

In every run in which no wakeup finds its receiver asleep on an empty queue,
every `sys_recv` that returns returns `0`, and the messages returned to a
receiver are, in order, the first of those sent to it (`recv_of_reach`).
-/

import Xv6.Lib.Run
import Xv6.Ipc.Calls

namespace Xv6
namespace Ipc

open Lib
open Message (Event Payload Represents receivedBy receiveMsg)

/-- What the `sys_recv` calls of `r` have returned, in order: the code and the message. -/
def recvReturns (r : ℕ) (log : List Event) : List (ℤ × Option Payload) :=
  log.filterMap fun
    | .sent _ _ _ => none
    | .received q code msg => if q = r then some (code, msg) else none

/-- The messages `send_message` has accepted for `r`, in order. -/
def acceptedFor (r : ℕ) (log : List Event) : List Payload :=
  log.filterMap fun
    | .sent q msg code => if q = r ∧ code = 0 then some msg else none
    | .received _ _ _ => none

/-- The property: each return of `sys_recv` by `r` hands over one message, and
these are the first messages sent to `r`, in order. -/
def RecvReturnsMessages (s : State) : Prop :=
  ∀ r, ∃ got, recvReturns r s.log = got.map (fun msg => (0, some msg)) ∧
    got <+: acceptedFor r s.log

/-- A wakeup does not find its receiver asleep on an empty queue. -/
def NoLateWakeup (s : State) : Action → Prop
  | .wakeup i => ∀ r code k, s.pc i = .sent (r : ℕ) code → s.pid k = r → SleepingInRecv s k →
      s.queueEmpty r = false
  | _ => True

/-- `receive_msg` is what the process in slot `i` does next. -/
def Ready (s : State) (i : ℕ) : Prop :=
  s.pc i = .foundMessage ∨ (s.pc i = .asleep ∧ s.procState i ≠ .sleeping)

/-- A process about to receive has a message, and the calls that have returned
account for all messages. -/
structure RecvInv (s : State) : Prop where
  calls : CallInv s
  ready : ∀ i, Ready s i → s.queueEmpty (s.pid i) = false
  returned : ∀ r, recvReturns r s.log = (receivedBy r s.log).map fun msg => (0, some msg)
  history : ∃ box, Represents s.messages box ∧
    ∀ r, acceptedFor r s.log = receivedBy r s.log ++ box r

/-! What one more event adds to the histories. -/

@[simp] theorem recvReturns_sent (q r : ℕ) (log : List Event) (msg : Payload) (code : ℤ) :
    recvReturns q (log ++ [.sent r msg code]) = recvReturns q log := by
  simp [recvReturns]

@[simp] theorem recvReturns_received (q r : ℕ) (log : List Event) (msg : Option Payload)
    (code : ℤ) : recvReturns q (log ++ [.received r code msg]) =
      recvReturns q log ++ if r = q then [(code, msg)] else [] := by
  by_cases h : r = q <;> simp [recvReturns, h]

@[simp] theorem acceptedFor_sent (q r : ℕ) (log : List Event) (msg : Payload) (code : ℤ) :
    acceptedFor q (log ++ [.sent r msg code]) =
      acceptedFor q log ++ if r = q ∧ code = 0 then [msg] else [] := by
  by_cases h : r = q ∧ code = 0 <;> simp [acceptedFor, h]

@[simp] theorem acceptedFor_received (q r : ℕ) (log : List Event) (msg : Option Payload)
    (code : ℤ) : acceptedFor q (log ++ [.received r code msg]) = acceptedFor q log := by
  simp [acceptedFor]

/-! ### One step -/

variable {s s' : State} {a : Action} {i j r : ℕ}

/-- A process about to receive was so before, has just found a message, or has
just been woken. -/
theorem Shape.ready (hs : Shape s a s') (hj : Ready s' j) :
    Ready s j ∨ (a = .test j ∧ s'.queueEmpty (s.pid j) = false) ∨
      ∃ k rPid code, a = .wakeup k ∧ s.pc k = .sent rPid code ∧ SleepingInRecv s j ∧
        (s.ptable.proc j).chan = .addr rPid := by
  obtain hpc | ⟨ha, hpc⟩ | ⟨-, -, hpc, hstate⟩ | ⟨rPid, code, hpc⟩ | hpc := hs.pc_cases j
  · rcases hj with hj | ⟨hj, hawake⟩
    · exact .inl (.inl (hpc ▸ hj))
    · rw [hpc] at hj
      cases (hs.proc j).1 with
      | same hproc =>
        rw [State.procState, hproc] at hawake
        exact .inl (.inr ⟨hj, hawake⟩)
      | switched hold =>
        refine .inl (.inr ⟨hj, ?_⟩)
        rcases hold with hold | hold <;> rw [hold] <;> decide
      | slept _ _ hnew => exact absurd hnew hawake
      | woken ha hk hold hchan => exact .inr (.inr ⟨_, _, _, ha, hk, ⟨hold, hj⟩, hchan⟩)
  · refine .inr (.inl ⟨ha, ?_⟩)
    rcases hj with hj | ⟨hj, -⟩
    · rw [hj] at hpc
      split at hpc
      · cases hpc
      · next hempty => exact eq_false_of_ne_true hempty
    · rw [hj] at hpc
      split at hpc <;> cases hpc
  · rcases hj with hj | ⟨-, hawake⟩
    · rw [hj] at hpc
      cases hpc
    · exact absurd hstate hawake
  all_goals
    rcases hj with hj | ⟨hj, -⟩ <;>
      · rw [hj] at hpc
        cases hpc

/-- A queue stays non-empty until its receiver takes a message. -/
theorem Shape.queue_nonempty (hs : Shape s a s') (h : s.queueEmpty r = false) :
    s'.queueEmpty r = false ∨ ∃ i, a = .receive i ∧ s.pid i = r := by
  cases hs with
  | wakeup | test | sleep | dispatch | yield => exact .inl h
  | @send i sPid rPid code msg m _ _ hm =>
    obtain ⟨q, -, hframe, hkeep⟩ := sendMessage_queue hm
    refine .inl ?_
    by_cases hr : r = q
    · subst hr
      by_contra hempty
      rw [State.queueEmpty, hkeep (eq_true_of_ne_false hempty)] at h
      cases h
    · rw [State.queueEmpty] at h ⊢
      rwa [show ((s.goto i (.sent rPid code)).record m _).messages.messageQueue r =
        s.messages.messageQueue r from hframe r hr]
  | @receive i code msg m _ _ hm =>
    by_cases hr : r = s.pid i
    · exact .inr ⟨i, rfl, hr.symm⟩
    · refine .inl ?_
      rw [State.queueEmpty] at h ⊢
      rwa [show ((s.goto i .idle).record m _).messages.messageQueue r =
        s.messages.messageQueue r from receiveMsg_queue hm hr]

/-! ### The invariant -/

namespace RecvInv

theorem of_initial (h : Initial s) : RecvInv s where
  calls := h.callInv
  ready i hi := by
    have hpc := h.pc i
    rcases hi with hi | ⟨hi, -⟩ <;>
      · rw [hi] at hpc
        cases hpc
  returned r := by
    rw [h.log]
    rfl
  history := by
    rw [h.messages, h.log]
    exact ⟨_, Message.represents_messageinit, fun _ => rfl⟩

theorem ready_step (h : RecvInv s) (hok : NoLateWakeup s a) (hs : Shape s a s')
    (hj : Ready s' j) : s'.queueEmpty (s'.pid j) = false := by
  rw [(hs.proc j).2]
  obtain hold | ⟨-, htest⟩ | ⟨k, rPid, code, rfl, hpc, hsleep, hchan⟩ := hs.ready hj
  · obtain hkeep | ⟨i, rfl, hpid⟩ := hs.queue_nonempty (h.ready j hold)
    · exact hkeep
    · -- the process that received is the one that was ready, and it is not any more
      have hlive : s.procState j ≠ .unused :=
        h.calls.live j (by rcases hold with hold | ⟨hold, -⟩ <;> rw [hold] <;> exact nofun)
      cases hs with
      | receive hrun hpc hm =>
        obtain rfl : i = j := h.calls.eq_of_pid
          (by rcases hpc with hpc | hpc <;> rw [hpc] <;> exact nofun) hlive hpid
        have hidle : Function.update s.pc i .idle i = .idle := Function.update_self ..
        rcases hj with hj | ⟨hj, -⟩ <;>
          · have := hidle.symm.trans hj
            cases this
  · exact htest
  · rw [h.calls.chan j hsleep] at hchan
    obtain rfl : (s.pid j : ℤ) = rPid := Kernel.Chan.addr.inj hchan
    have hqueue := hok (s.pid j) code j hpc rfl hsleep
    cases hs with
    | wakeup => exact hqueue

/-- The histories of a receive that finds a message. -/
theorem receive_history {code : ℤ} {msg : Option Payload} {m : Message.MessageState}
    (h : RecvInv s) (hqueue : s.queueEmpty (s.pid i) = false)
    (hm : receiveMsg s.messages (s.pid i) = .ok (code, msg, m)) :
    ∃ msg₀, code = 0 ∧ msg = some msg₀ ∧ ∃ box, Represents m box ∧
      ∀ r, acceptedFor r s.log =
        receivedBy r (s.log ++ [.received (s.pid i) code msg]) ++ box r := by
  obtain ⟨box, hrep, hlog⟩ := h.history
  have hr : s.pid i < NUMOFMESSAGEQUEUES := by
    by_contra hno
    rw [receiveMsg, Message.queueNo, if_neg (by omega)] at hm
    cases hm
  cases hbox : box (s.pid i) with
  | nil =>
    rw [State.queueEmpty, hrep.isEmpty_eq hr, hbox] at hqueue
    cases hqueue
  | cons msg₀ rest =>
    obtain ⟨m', hm', hrep'⟩ := hrep.receive_cons hr hbox
    rw [hm'] at hm
    obtain ⟨rfl, rfl, rfl⟩ : 0 = code ∧ some msg₀ = msg ∧ m' = m := by
      simpa using Except.ok.inj hm
    refine ⟨msg₀, rfl, rfl, _, hrep', fun r => ?_⟩
    by_cases hri : r = s.pid i
    · rw [hri]
      simp [hlog, hbox]
    · simp [hlog r, Function.update_of_ne hri, Ne.symm hri]

/-- The calls that have returned go on accounting for all messages. -/
theorem history_step (h : RecvInv s) (hs : Shape s a s') :
    (∀ r, recvReturns r s'.log = (receivedBy r s'.log).map fun msg => (0, some msg)) ∧
      ∃ box, Represents s'.messages box ∧
        ∀ r, acceptedFor r s'.log = receivedBy r s'.log ++ box r := by
  obtain ⟨box, hrep, hlog⟩ := h.history
  cases hs with
  | wakeup | test | sleep | dispatch | yield => exact ⟨h.returned, h.history⟩
  | @send i sPid rPid code msg m _ _ hm =>
    obtain ⟨r, rfl, hr, hsent⟩ := hrep.send_cases hm
    refine ⟨fun q => ?_, ?_⟩
    · change recvReturns q (s.log ++ _) = (receivedBy q (s.log ++ _)).map _
      simp [h.returned q]
    · obtain ⟨rfl, hrep'⟩ | ⟨rfl, rfl⟩ := hsent
      · refine ⟨_, hrep', fun q => ?_⟩
        change acceptedFor q (s.log ++ _) = receivedBy q (s.log ++ _) ++ _
        by_cases hq : q = r
        · simp [hlog, hq]
        · simp [hlog, Function.update_of_ne hq, Ne.symm hq]
      · refine ⟨box, hrep, fun q => ?_⟩
        change acceptedFor q (s.log ++ _) = receivedBy q (s.log ++ _) ++ _
        simp [hlog]
  | @receive i code msg m hrun hpc hm =>
    have hready : Ready s i := by
      refine hpc.symm.imp_right fun hpc => ⟨hpc, ?_⟩
      rw [hrun]
      decide
    obtain ⟨msg₀, rfl, rfl, box', hrep', hlog'⟩ := h.receive_history (h.ready i hready) hm
    refine ⟨fun q => ?_, box', hrep', fun q => ?_⟩
    · change recvReturns q (s.log ++ _) = (receivedBy q (s.log ++ _)).map _
      by_cases hq : s.pid i = q <;> simp [h.returned q, hq]
    · change acceptedFor q (s.log ++ _) = receivedBy q (s.log ++ _) ++ _
      rw [acceptedFor_received]
      exact hlog' q

theorem step (h : RecvInv s) (hok : NoLateWakeup s a) (hs : Shape s a s') : RecvInv s' where
  calls := h.calls.step hs
  ready _ hj := h.ready_step hok hs hj
  returned := (h.history_step hs).1
  history := (h.history_step hs).2

end RecvInv

/-- **Every `sys_recv` that returns has a message.**  In every run in which no
wakeup finds its receiver asleep on an empty queue, the calls of `sys_recv` that
have returned to a receiver returned `0` and handed over, one each and in order,
the first messages sent to it. -/
theorem recv_of_reach (s₀ s : State) (h₀ : Initial s₀) (h : Reach step NoLateWakeup s₀ s) :
    RecvReturnsMessages s := by
  have hinv : RecvInv s :=
    h.invariant (RecvInv.of_initial h₀) fun _ _ _ hx hok hs => hx.step hok (step_shape hs)
  obtain ⟨box, -, hlog⟩ := hinv.history
  exact fun r => ⟨_, hinv.returned r, box r, (hlog r).symm⟩

/-- Process 2 finds no message and sleeps; process 1 sends it one and wakes it, and process 2
receives the message. -/
theorem recv_of_reach_wakeup :
    ∃ s, Reach step NoLateWakeup twoProcesses s ∧ (recvReturns 2 s.log).length = 1 ∧
      RecvReturnsMessages s := by
  obtain ⟨m, m', hm, hempty, hm', -⟩ := exists_exchange_twoProcesses
  have htest : Reach step NoLateWakeup twoProcesses _ :=
    Reach.refl.tail (.test 1) trivial (step_test rfl rfl isReceiverQueueEmpty_twoProcesses)
  have hsleep := htest.tail (.sleep 1) trivial (step_sleep rfl rfl)
  have hsend := hsleep.tail (.send 0 1 2 fun _ => 7) trivial (step_send rfl rfl hm)
  have hwakeup := hsend.tail (.wakeup 0) (fun r code k hpc _ _ => by
    obtain ⟨hr, -⟩ := Pc.sent.inj (hpc : Pc.sent 2 0 = .sent r code)
    obtain rfl : 2 = r := by exact_mod_cast hr
    exact (isReceiverQueueEmpty_eq_ok hempty).symm) (step_wakeup rfl rfl)
  have hrun := hwakeup.tail (.dispatch 1) trivial (step_dispatch rfl)
  have hrecv := hrun.tail (.receive 1) trivial (step_receive rfl (.inl rfl) hm')
  exact ⟨_, hrecv, rfl, recv_of_reach twoProcesses _ initial_twoProcesses hrecv⟩

/-- **A receive without a message.**  Process 1 sends process 2 a message, which
process 2 receives; process 2 calls `sys_recv` again, finds nothing and sleeps;
the wakeup for the first message comes, and the second `sys_recv` returns `-1`. -/
theorem recv_without_message :
    ∃ s, Initial twoProcesses ∧ Reach step anyStep twoProcesses s ∧ ¬ RecvReturnsMessages s := by
  obtain ⟨m, m', hm, hempty, hm', hempty', hnone⟩ := exists_exchange_twoProcesses
  have hsend : Reach step anyStep twoProcesses _ :=
    Reach.refl.tail (.send 0 1 2 fun _ => 7) trivial (step_send rfl rfl hm)
  have htest := hsend.tail (.test 1) trivial (step_test rfl rfl hempty)
  have hrecv := htest.tail (.receive 1) trivial (step_receive rfl (.inr rfl) hm')
  have htest' := hrecv.tail (.test 1) trivial (step_test rfl rfl hempty')
  have hsleep := htest'.tail (.sleep 1) trivial (step_sleep rfl rfl)
  have hwakeup := hsleep.tail (.wakeup 0) trivial (step_wakeup rfl rfl)
  have hrun := hwakeup.tail (.dispatch 1) trivial (step_dispatch rfl)
  have hrecv' := hrun.tail (.receive 1) trivial (step_receive rfl (.inl rfl) hnone)
  refine ⟨_, initial_twoProcesses, hrecv', fun h => ?_⟩
  obtain ⟨got, hgot, -⟩ := h 2
  have hmem : ((-1 : ℤ), (none : Option Payload)) ∈ got.map fun msg => (0, some msg) := by
    rw [← hgot]
    exact List.mem_filterMap.2
      ⟨.received 2 (-1) none, List.mem_append_right _ (List.mem_singleton.2 rfl), rfl⟩
  obtain ⟨msg, -, hmsg⟩ := List.mem_map.1 hmem
  cases hmsg

end Ipc
end Xv6
