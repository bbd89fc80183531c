/-
# Blocking send and receive, one critical section at a time

`sys_send` and `sys_recv` (`xv6/sysproc.c`, lines 147-175) over the message
queues and the process table.  `sys_send` is `send_message` and then `wakeup` on
the receiver's pid.  `sys_recv` is `isReceiverQueueEmpty` and then, if the queue
was empty, `sleep_receiver` (`xv6/proc.c`, lines 764-772) before `receive_msg`.
Each of these five is a critical section of its own, under its own lock, so
other processes can run between any two of them.  `Pc` says between which two a
process stands.

A process takes a step while it is `RUNNING`; a timer interrupt can take the
CPU from it and the scheduler gives it to any `RUNNABLE` process.  The log keeps
the calls that have returned from the queues.
-/

import Xv6.Kernel.ProcTable
import Xv6.Message.Fifo

namespace Xv6
namespace Ipc

open Kernel (PTable ProcState)
open Message (Event MessageState Payload isEmpty isReceiverQueueEmpty messageinit receiveMsg
  sendMessage)

/-- Where a process stands in `sys_send` or `sys_recv`. -/
inductive Pc where
  /-- In neither of the two. -/
  | idle
  /-- `send_message` to `rPid` has returned `code`; `wakeup` is next. -/
  | sent (rPid code : ℤ)
  /-- The queue was found empty; `sleep_receiver` is next. -/
  | foundEmpty
  /-- In `sleep_receiver`, or out of it with `receive_msg` next. -/
  | asleep
  /-- The queue was found non-empty; `receive_msg` is next. -/
  | foundMessage
  deriving DecidableEq, Repr

/-- The message queues, the process table, and where each process stands. -/
structure State where
  messages : MessageState
  ptable : PTable
  pc : ℕ → Pc
  log : List Event

/-- What the process in slot `i` does next, or what is done to it. -/
inductive Action where
  | send (i : ℕ) (sPid rPid : ℤ) (msg : Payload)
  | wakeup (i : ℕ)
  | test (i : ℕ)
  | sleep (i : ℕ)
  | receive (i : ℕ)
  | dispatch (i : ℕ)
  | yield (i : ℕ)

namespace State

/-- The pid of the process in slot `i`. -/
def pid (s : State) (i : ℕ) : ℕ := (s.ptable.proc i).pid

/-- The scheduling state of the process in slot `i`. -/
def procState (s : State) (i : ℕ) : ProcState := (s.ptable.proc i).state

/-- The queue of the receiver with pid `r` is empty. -/
def queueEmpty (s : State) (r : ℕ) : Bool := isEmpty (s.messages.messageQueue r)

/-- The process in slot `i` goes on to `pc`. -/
def goto (s : State) (i : ℕ) (pc : Pc) : State := { s with pc := Function.update s.pc i pc }

/-- A call on the queues has returned and left them as `m`. -/
def record (s : State) (m : MessageState) (e : Event) : State :=
  { s with messages := m, log := s.log ++ [e] }

/-- The process table becomes `t`. -/
def withTable (s : State) (t : PTable) : State := { s with ptable := t }

end State

/-- `send_message` of `sys_send`. -/
def sendStep (s : State) (i : ℕ) (sPid rPid : ℤ) (msg : Payload) : Option State :=
  match sendMessage s.messages sPid rPid msg with
  | .ok (code, m) => some ((s.goto i (.sent rPid code)).record m (.sent rPid.toNat msg code))
  | .error _ => none

/-- `isReceiverQueueEmpty` of `sys_recv`. -/
def testStep (s : State) (i : ℕ) : Option State :=
  match isReceiverQueueEmpty s.messages (s.pid i) with
  | .ok true => some (s.goto i .foundEmpty)
  | .ok false => some (s.goto i .foundMessage)
  | .error _ => none

/-- `receive_msg` of `sys_recv`, which then returns. -/
def receiveStep (s : State) (i : ℕ) : Option State :=
  match receiveMsg s.messages (s.pid i) with
  | .ok (code, msg, m) => some ((s.goto i .idle).record m (.received (s.pid i) code msg))
  | .error _ => none

/-- One step of the system. -/
def step (s : State) : Action → Option State
  | .send i sPid rPid msg =>
      if s.procState i = .running ∧ s.pc i = .idle then sendStep s i sPid rPid msg else none
  | .wakeup i =>
      if s.procState i = .running then
        match s.pc i with
        | .sent rPid _ => some ((s.goto i .idle).withTable (s.ptable.wakeup (.addr rPid)))
        | _ => none
      else none
  | .test i => if s.procState i = .running ∧ s.pc i = .idle then testStep s i else none
  | .sleep i =>
      if s.procState i = .running ∧ s.pc i = .foundEmpty then
        some ((s.goto i .asleep).withTable (s.ptable.sleep i (.addr (s.pid i))))
      else none
  | .receive i =>
      if s.procState i = .running ∧ (s.pc i = .asleep ∨ s.pc i = .foundMessage) then
        receiveStep s i
      else none
  | .dispatch i =>
      if s.procState i = .runnable then some (s.withTable (s.ptable.dispatch i)) else none
  | .yield i =>
      if s.procState i = .running then some (s.withTable (s.ptable.yield i)) else none

/-- The system before the first call: the queues as `messageinit` leaves them,
and any processes with distinct pids, none of them in a call. -/
structure Initial (s : State) : Prop where
  messages : s.messages = messageinit
  pc : ∀ i, s.pc i = .idle
  log : s.log = []
  pid_inj : ∀ i j, s.procState i ≠ .unused → s.procState j ≠ .unused →
    s.pid i = s.pid j → i = j

/-- The process in slot `i` sleeps inside `sys_recv`. -/
def SleepingInRecv (s : State) (i : ℕ) : Prop :=
  s.procState i = .sleeping ∧ s.pc i = .asleep

/-- Some sender to `r` has returned from `send_message` and has not run its `wakeup`. -/
def PendingWakeup (s : State) (r : ℕ) : Prop := ∃ j code, s.pc j = .sent r code

/-! ### What each action needs and leaves -/

/-- The steps, one constructor per outcome. -/
inductive Shape (s : State) : Action → State → Prop where
  | send {i : ℕ} {sPid rPid code : ℤ} {msg : Payload} {m : MessageState}
      (hrun : s.procState i = .running) (hpc : s.pc i = .idle)
      (hm : sendMessage s.messages sPid rPid msg = .ok (code, m)) :
      Shape s (.send i sPid rPid msg)
        ((s.goto i (.sent rPid code)).record m (.sent rPid.toNat msg code))
  | wakeup {i : ℕ} {rPid code : ℤ} (hrun : s.procState i = .running)
      (hpc : s.pc i = .sent rPid code) :
      Shape s (.wakeup i) ((s.goto i .idle).withTable (s.ptable.wakeup (.addr rPid)))
  | test {i : ℕ} (hrun : s.procState i = .running) (hpc : s.pc i = .idle) :
      Shape s (.test i)
        (s.goto i (if s.queueEmpty (s.pid i) then .foundEmpty else .foundMessage))
  | sleep {i : ℕ} (hrun : s.procState i = .running) (hpc : s.pc i = .foundEmpty) :
      Shape s (.sleep i)
        ((s.goto i .asleep).withTable (s.ptable.sleep i (.addr (s.pid i))))
  | receive {i : ℕ} {code : ℤ} {msg : Option Payload} {m : MessageState}
      (hrun : s.procState i = .running) (hpc : s.pc i = .asleep ∨ s.pc i = .foundMessage)
      (hm : receiveMsg s.messages (s.pid i) = .ok (code, msg, m)) :
      Shape s (.receive i) ((s.goto i .idle).record m (.received (s.pid i) code msg))
  | dispatch {i : ℕ} (hrun : s.procState i = .runnable) :
      Shape s (.dispatch i) (s.withTable (s.ptable.dispatch i))
  | yield {i : ℕ} (hrun : s.procState i = .running) :
      Shape s (.yield i) (s.withTable (s.ptable.yield i))

theorem isReceiverQueueEmpty_eq_ok {m : MessageState} {r : ℕ} {b : Bool}
    (h : isReceiverQueueEmpty m r = .ok b) : b = isEmpty (m.messageQueue r) := by
  unfold isReceiverQueueEmpty Message.queueNo at h
  split at h
  · exact (Except.ok.inj h).symm
  · cases h

theorem testStep_eq_some {s s' : State} {i : ℕ} (h : testStep s i = some s') :
    s' = s.goto i (if s.queueEmpty (s.pid i) then .foundEmpty else .foundMessage) := by
  unfold testStep at h
  split at h
  next hq =>
    rw [State.queueEmpty, ← isReceiverQueueEmpty_eq_ok hq]
    exact (Option.some.inj h).symm
  next hq =>
    rw [State.queueEmpty, ← isReceiverQueueEmpty_eq_ok hq]
    exact (Option.some.inj h).symm
  · cases h

/-- **Every step has the shape of its action.** -/
theorem step_shape {s s' : State} {a : Action} (h : step s a = some s') : Shape s a s' := by
  cases a with
  | send i sPid rPid msg =>
    simp only [step, Option.ite_none_right_eq_some] at h
    obtain ⟨⟨hrun, hpc⟩, h⟩ := h
    unfold sendStep at h
    split at h
    next code m hm =>
      cases h
      exact .send hrun hpc hm
    · cases h
  | wakeup i =>
    simp only [step, Option.ite_none_right_eq_some] at h
    obtain ⟨hrun, h⟩ := h
    split at h
    next rPid code hpc =>
      cases h
      exact .wakeup hrun hpc
    · cases h
  | test i =>
    simp only [step, Option.ite_none_right_eq_some] at h
    obtain ⟨⟨hrun, hpc⟩, h⟩ := h
    rw [testStep_eq_some h]
    exact .test hrun hpc
  | sleep i =>
    simp only [step, Option.ite_none_right_eq_some] at h
    obtain ⟨⟨hrun, hpc⟩, h⟩ := h
    cases h
    exact .sleep hrun hpc
  | receive i =>
    simp only [step, Option.ite_none_right_eq_some] at h
    obtain ⟨⟨hrun, hpc⟩, h⟩ := h
    unfold receiveStep at h
    split at h
    next code msg m hm =>
      cases h
      exact .receive hrun hpc hm
    · cases h
  | dispatch i =>
    simp only [step, Option.ite_none_right_eq_some] at h
    obtain ⟨hrun, h⟩ := h
    cases h
    exact .dispatch hrun
  | yield i =>
    simp only [step, Option.ite_none_right_eq_some] at h
    obtain ⟨hrun, h⟩ := h
    cases h
    exact .yield hrun

/-! The same from the other side, to build runs with. -/

section Enabled

variable {s : State} {i : ℕ}

theorem step_send {sPid rPid code : ℤ} {msg : Payload} {m : MessageState}
    (hrun : s.procState i = .running) (hpc : s.pc i = .idle)
    (hm : sendMessage s.messages sPid rPid msg = .ok (code, m)) :
    step s (.send i sPid rPid msg) =
      some ((s.goto i (.sent rPid code)).record m (.sent rPid.toNat msg code)) := by
  simp only [step, sendStep, hrun, hpc, hm, and_self, if_true]

theorem step_wakeup {rPid code : ℤ} (hrun : s.procState i = .running)
    (hpc : s.pc i = .sent rPid code) :
    step s (.wakeup i) =
      some ((s.goto i .idle).withTable (s.ptable.wakeup (.addr rPid))) := by
  simp only [step, hrun, hpc, if_true]

theorem step_test {b : Bool} (hrun : s.procState i = .running) (hpc : s.pc i = .idle)
    (hb : isReceiverQueueEmpty s.messages (s.pid i) = .ok b) :
    step s (.test i) = some (s.goto i (if b then .foundEmpty else .foundMessage)) := by
  simp only [step, testStep, hrun, hpc, hb, and_self, if_true]
  cases b <;> rfl

theorem step_sleep (hrun : s.procState i = .running) (hpc : s.pc i = .foundEmpty) :
    step s (.sleep i) =
      some ((s.goto i .asleep).withTable (s.ptable.sleep i (.addr (s.pid i)))) := by
  simp only [step, hrun, hpc, and_self, if_true]

theorem step_receive {code : ℤ} {msg : Option Payload} {m : MessageState}
    (hrun : s.procState i = .running) (hpc : s.pc i = .asleep ∨ s.pc i = .foundMessage)
    (hm : receiveMsg s.messages (s.pid i) = .ok (code, msg, m)) :
    step s (.receive i) =
      some ((s.goto i .idle).record m (.received (s.pid i) code msg)) := by
  simp only [step, receiveStep, hrun, hpc, hm, and_self, if_true]

theorem step_dispatch (hrun : s.procState i = .runnable) :
    step s (.dispatch i) = some (s.withTable (s.ptable.dispatch i)) := by
  simp only [step, hrun, if_true]

end Enabled

end Ipc
end Xv6
