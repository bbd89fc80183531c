/-
# What the steps of the calls leave alone

The facts about `sys_send` and `sys_recv` that do not depend on how they are
interleaved: the processes and their pids never change, a call of
`send_message` or `receive_msg` touches one queue, and a process that sleeps
inside `sys_recv` sleeps on its own pid.  `CallInv` collects those that are
invariants.
-/

import Xv6.Ipc.Model

namespace Xv6
namespace Ipc

open Function

open Kernel (PTable ProcState)
open Message (MessageState Payload isEmpty isReceiverQueueEmpty messageinit receiveMsg
  sendMessage)

/-! ### The queues -/

theorem getMessageBuffer_queue {m : MessageState} {g : ℕ × MessageState}
    (h : Message.getMessageBuffer m = .ok g) : g.2.messageQueue = m.messageQueue := by
  unfold Message.getMessageBuffer at h
  cases hno : Message.bufferNo m.freeMessageBuffer with
  | error e =>
    rw [hno] at h
    cases h
  | ok n =>
    rw [hno] at h
    cases h
    rfl

/-- `send_message` goes to a receiver that has a queue; no queue loses a message
by it and no other queue gets one. -/
theorem sendMessage_queue {m m' : MessageState} {sPid rPid code : ℤ} {msg : Payload}
    (h : sendMessage m sPid rPid msg = .ok (code, m')) :
    ∃ r : ℕ, rPid = r ∧ (∀ q, q ≠ r → m'.messageQueue q = m.messageQueue q) ∧
      (isEmpty (m'.messageQueue r) = true → isEmpty (m.messageQueue r) = true) := by
  unfold sendMessage Message.queueNo at h
  split at h
  · refine ⟨rPid.toNat, by omega, ?_⟩
    simp only [bind, Except.bind, pure, Except.pure] at h
    split at h
    · cases h
      exact ⟨fun _ _ => rfl, id⟩
    next hfull =>
      cases hget : Message.getMessageBuffer m with
      | error e =>
        rw [hget] at h
        cases h
      | ok g =>
        rw [hget] at h
        cases h
        have hq : g.2.messageQueue = m.messageQueue := getMessageBuffer_queue hget
        rw [hq]
        refine ⟨fun q hne => update_of_ne hne .., fun hempty => ?_⟩
        dsimp only at hempty
        rw [update_self] at hempty
        simp [Message.enqueue, hfull, isEmpty, Lib.RingBuffer.push] at hempty
  · cases h

theorem receiveMsg_queue {m m' : MessageState} {r : ℕ} {code : ℤ} {msg : Option Payload}
    (h : receiveMsg m r = .ok (code, msg, m')) {q : ℕ} (hq : q ≠ r) :
    m'.messageQueue q = m.messageQueue q := by
  unfold receiveMsg Message.queueNo at h
  split at h
  · simp only [bind, Except.bind, pure, Except.pure, Int.toNat_natCast] at h
    split at h
    · obtain ⟨-, -, rfl⟩ := by simpa using Except.ok.inj h
      rfl
    · split at h
      · obtain ⟨-, -, rfl⟩ := by simpa using Except.ok.inj h
        exact update_of_ne hq ..
      · split at h
        · cases h
        · obtain ⟨-, -, rfl⟩ := by simpa using Except.ok.inj h
          exact update_of_ne hq ..
  · cases h

/-! ### The processes -/

variable {s s' : State} {a : Action} {i j : ℕ}

/-- `wakeup` makes the processes that sleep on `chan` `RUNNABLE` and does nothing else. -/
theorem wakeup_proc (t : PTable) (chan : Kernel.Chan) (j : ℕ) :
    (t.wakeup chan).proc j =
      if (t.proc j).state = .sleeping ∧ (t.proc j).chan = chan then
        { t.proc j with state := .runnable }
      else t.proc j := rfl

/-- What a step does to the process in slot `j`: nothing, or it runs, it stops
running, it goes to sleep on its pid inside `sys_recv`, or a `wakeup` ends its sleep. -/
inductive ProcShape (s s' : State) (a : Action) (j : ℕ) : Prop where
  | same (h : s'.ptable.proc j = s.ptable.proc j)
  | switched (hold : s.procState j = .running ∨ s.procState j = .runnable)
      (hnew : s'.procState j = .running ∨ s'.procState j = .runnable)
  | slept (ha : a = .sleep j) (hold : s.procState j = .running)
      (hnew : s'.procState j = .sleeping) (hchan : (s'.ptable.proc j).chan = .addr (s.pid j))
  | woken {k : ℕ} {rPid code : ℤ} (ha : a = .wakeup k) (hpc : s.pc k = .sent rPid code)
      (hold : s.procState j = .sleeping) (hchan : (s.ptable.proc j).chan = .addr rPid)
      (hnew : s'.procState j = .runnable)

theorem Shape.proc (h : Shape s a s') (j : ℕ) : ProcShape s s' a j ∧ s'.pid j = s.pid j := by
  cases h with
  | send | test | receive => exact ⟨.same rfl, rfl⟩
  | @wakeup k rPid code hrun hpc =>
    have hproc := wakeup_proc s.ptable (.addr rPid) j
    split at hproc
    next hsleep =>
      have hpid := congrArg Kernel.Proc.pid hproc
      exact ⟨.woken rfl hpc hsleep.1 hsleep.2 (congrArg Kernel.Proc.state hproc), hpid⟩
    · exact ⟨.same hproc, congrArg Kernel.Proc.pid hproc⟩
  | @sleep i hrun _ =>
    have hproc := PTable.modify_proc s.ptable i j fun p =>
      { p with chan := .addr (s.pid i), state := .sleeping }
    split at hproc
    next hj =>
      subst hj
      have hpid := congrArg Kernel.Proc.pid hproc
      exact ⟨.slept rfl hrun (congrArg Kernel.Proc.state hproc)
        (congrArg Kernel.Proc.chan hproc), hpid⟩
    · exact ⟨.same hproc, congrArg Kernel.Proc.pid hproc⟩
  | @dispatch i hrun =>
    have hproc := PTable.modify_proc s.ptable i j fun p =>
      { p with state := .running, chan := .addr 0 }
    split at hproc
    next hj =>
      subst hj
      have hpid := congrArg Kernel.Proc.pid hproc
      exact ⟨.switched (.inr hrun) (.inl (congrArg Kernel.Proc.state hproc)), hpid⟩
    · exact ⟨.same hproc, congrArg Kernel.Proc.pid hproc⟩
  | @yield i hrun =>
    have hproc := PTable.modify_proc s.ptable i j fun p => { p with state := .runnable }
    split at hproc
    next hj =>
      subst hj
      have hpid := congrArg Kernel.Proc.pid hproc
      exact ⟨.switched (.inl hrun) (.inr (congrArg Kernel.Proc.state hproc)), hpid⟩
    · exact ⟨.same hproc, congrArg Kernel.Proc.pid hproc⟩

/-- The set of processes never changes. -/
theorem Shape.unused_iff (h : Shape s a s') (j : ℕ) :
    s'.procState j = .unused ↔ s.procState j = .unused := by
  obtain ⟨hproc, -⟩ := h.proc j
  cases hproc with
  | same h => rw [State.procState, State.procState, h]
  | switched hold hnew =>
    rcases hold with hold | hold <;> rcases hnew with hnew | hnew <;> simp [hold, hnew]
  | slept _ hold hnew _ => simp [hold, hnew]
  | woken _ _ hold _ hnew => simp [hold, hnew]

/-- Only a process that runs moves on in its call. -/
theorem Shape.pc_eq (h : Shape s a s') (hj : s.procState j ≠ .running) : s'.pc j = s.pc j := by
  have hne : ∀ {i}, s.procState i = .running → j ≠ i := by
    rintro i hrun rfl
    exact hj hrun
  cases h with
  | send hrun | wakeup hrun | test hrun | sleep hrun | receive hrun =>
    exact update_of_ne (hne hrun) ..
  | dispatch | yield => rfl

/-- How a process comes to each point of its call. -/
theorem Shape.pc_cases (hs : Shape s a s') (j : ℕ) :
    s'.pc j = s.pc j ∨
      (a = .test j ∧
        s'.pc j = if s'.queueEmpty (s.pid j) then .foundEmpty else .foundMessage) ∨
      (a = .sleep j ∧ s.pc j = .foundEmpty ∧ s'.pc j = .asleep ∧ s'.procState j = .sleeping) ∨
      (∃ rPid code, s'.pc j = .sent rPid code) ∨ s'.pc j = .idle := by
  have hupd : ∀ {k : ℕ} (pc : Pc), update s.pc k pc j = s.pc j ∨
      (j = k ∧ update s.pc k pc j = pc) := by
    intro k pc
    by_cases hjk : j = k
    · rw [hjk, update_self]
      exact .inr ⟨rfl, rfl⟩
    · rw [update_of_ne hjk]
      exact .inl rfl
  cases hs with
  | send =>
    exact (hupd _).imp_right fun h => .inr (.inr (.inl ⟨_, _, h.2⟩))
  | wakeup | receive =>
    exact (hupd _).imp_right fun h => .inr (.inr (.inr h.2))
  | test =>
    refine (hupd _).imp_right fun h => .inl ?_
    obtain ⟨rfl, h⟩ := h
    exact ⟨rfl, h⟩
  | sleep hrun hpc =>
    refine (hupd _).imp_right fun h => .inr (.inl ?_)
    obtain ⟨rfl, h⟩ := h
    refine ⟨rfl, hpc, h, ?_⟩
    rw [State.procState, State.withTable, PTable.sleep, PTable.modify_proc_self]
  | dispatch | yield => exact .inl rfl

/-- A process that a step leaves asleep in `sys_recv` was asleep before, on the
same channel, or has just gone to sleep on its pid. -/
theorem Shape.sleepingInRecv (h : Shape s a s') (hj : SleepingInRecv s' j) :
    (SleepingInRecv s j ∧ s'.ptable.proc j = s.ptable.proc j) ∨
      (a = .sleep j ∧ (s'.ptable.proc j).chan = .addr (s.pid j)) := by
  obtain ⟨hstate, hpc⟩ := hj
  cases (h.proc j).1 with
  | same hproc =>
    rw [State.procState, hproc] at hstate
    rw [h.pc_eq (by rw [State.procState, hstate]; decide)] at hpc
    exact .inl ⟨⟨hstate, hpc⟩, hproc⟩
  | switched _ hnew => rcases hnew with hnew | hnew <;> simp [hnew] at hstate
  | slept ha _ _ hchan => exact .inr ⟨ha, hchan⟩
  | woken _ _ _ _ hnew => simp [hnew] at hstate

/-! ### Invariants of the calls -/

/-- Processes are told apart by their pids, only processes are in calls, and one
that sleeps in `sys_recv` sleeps on its pid. -/
structure CallInv (s : State) : Prop where
  pid_inj : ∀ i j, s.procState i ≠ .unused → s.procState j ≠ .unused → s.pid i = s.pid j → i = j
  live : ∀ i, s.pc i ≠ .idle → s.procState i ≠ .unused
  chan : ∀ i, SleepingInRecv s i → (s.ptable.proc i).chan = .addr (s.pid i)

theorem Initial.callInv (h : Initial s) : CallInv s where
  pid_inj := h.pid_inj
  live i hi := absurd (h.pc i) hi
  chan i hi := by
    have := h.pc i
    rw [hi.2] at this
    cases this

theorem CallInv.step (h : CallInv s) (hs : Shape s a s') : CallInv s' where
  pid_inj i j hi hj heq := by
    rw [Ne, hs.unused_iff] at hi hj
    rw [(hs.proc i).2, (hs.proc j).2] at heq
    exact h.pid_inj i j hi hj heq
  live i hi := by
    rw [Ne, hs.unused_iff]
    by_cases hrun : s.procState i = .running
    · rw [hrun]
      decide
    · rw [hs.pc_eq hrun] at hi
      exact h.live i hi
  chan i hi := by
    rw [(hs.proc i).2]
    obtain ⟨hold, hproc⟩ | ⟨-, hchan⟩ := hs.sleepingInRecv hi
    · rw [hproc]
      exact h.chan i hold
    · exact hchan

/-- Two processes in calls with the same pid are one. -/
theorem CallInv.eq_of_pid (h : CallInv s) (hi : s.pc i ≠ .idle) (hj : s.procState j ≠ .unused)
    (heq : s.pid i = s.pid j) : i = j :=
  h.pid_inj i j (h.live i hi) hj heq

/-! ### A small system -/

/-- Two processes that run, with pids 1 and 2, before their first call. -/
def twoProcesses : State where
  messages := messageinit
  ptable :=
    { proc := fun i =>
        if i = 0 then { Kernel.Proc.zero with state := .running, pid := 1 }
        else if i = 1 then { Kernel.Proc.zero with state := .running, pid := 2 }
        else Kernel.Proc.zero
      nextpid := 3
      initproc := 0 }
  pc := fun _ => .idle
  log := []

theorem initial_twoProcesses : Initial twoProcesses where
  messages := rfl
  pc _ := rfl
  log := rfl
  pid_inj i j hi hj heq := by
    have hslot : ∀ k, twoProcesses.procState k ≠ .unused →
        k = 0 ∧ twoProcesses.pid k = 1 ∨ k = 1 ∧ twoProcesses.pid k = 2 := by
      intro k hk
      simp only [State.procState, State.pid, twoProcesses] at hk ⊢
      split_ifs at hk ⊢ with h0 h1
      · exact .inl ⟨h0, rfl⟩
      · exact .inr ⟨h1, rfl⟩
      · exact absurd rfl hk
    rcases hslot i hi with hi | hi <;> rcases hslot j hj with hj | hj <;> omega

theorem isReceiverQueueEmpty_twoProcesses :
    isReceiverQueueEmpty twoProcesses.messages (twoProcesses.pid 1) = .ok true :=
  Message.represents_messageinit.isReceiverQueueEmpty_eq
    (show 2 < NUMOFMESSAGEQUEUES by unfold NUMOFMESSAGEQUEUES; decide)

/-- Process 1 can send process 2 a message, and process 2 can take it. -/
theorem exists_exchange_twoProcesses :
    ∃ m m', sendMessage twoProcesses.messages 1 2 (fun _ => 7) = .ok (0, m) ∧
      isReceiverQueueEmpty m (2 : ℕ) = .ok false ∧
      receiveMsg m (2 : ℕ) = .ok (0, some fun _ => 7, m') ∧
      isReceiverQueueEmpty m' (2 : ℕ) = .ok true ∧
      receiveMsg m' (2 : ℕ) = .ok (-1, none, m') := by
  have hr : 2 < NUMOFMESSAGEQUEUES := by unfold NUMOFMESSAGEQUEUES; decide
  obtain ⟨m, hm, hbox⟩ := Message.represents_messageinit.send
    (by simp [Message.undelivered]; exact Message.numofmessagebuffers_pos) hr 1 fun _ => 7
  obtain ⟨m', hm', hbox'⟩ := hbox.receive_cons hr (update_self ..)
  exact ⟨m, m', hm, hbox.isReceiverQueueEmpty_eq hr, hm', hbox'.isReceiverQueueEmpty_eq hr,
    hbox'.receive_nil hr (update_self ..)⟩

end Ipc
end Xv6
