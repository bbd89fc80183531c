/-
# Wakeups that come too early

`sys_recv` tests its queue in one critical section and goes to sleep in another
(`xv6/sysproc.c`, lines 162-175).  A sender whose `send_message` and `wakeup`
both fall between the two wakes nobody, and the receiver goes to sleep on a
non-empty queue with no wakeup to come: `lost_wakeup` is such a schedule.

The send itself does no harm there, as long as its wakeup comes after the
sleep.  `NoEarlyWakeup` asks no more than that: the last wakeup owed to a
receiver is not spent while the receiver stands between its test and its sleep.
In every such run a receiver that sleeps on a non-empty queue is owed a wakeup
(`pendingWakeup_of_reach`).
-/

import Xv6.Lib.Run
import Xv6.Ipc.Calls

namespace Xv6
namespace Ipc

open Lib Function

/-- The property: a process that sleeps inside `sys_recv` while its queue is
non-empty is owed a wakeup. -/
def NoLostWakeup (s : State) : Prop :=
  ∀ i, SleepingInRecv s i → s.queueEmpty (s.pid i) = false → PendingWakeup s (s.pid i)

/-- Some other sender than the process in slot `i` owes `r` a wakeup. -/
def OtherPending (s : State) (i r : ℕ) : Prop := ∃ j code, j ≠ i ∧ s.pc j = .sent r code

/-- A wakeup of a receiver that has found its queue empty and does not sleep yet
is not the last one owed to it, unless its queue is still empty. -/
def NoEarlyWakeup (s : State) : Action → Prop
  | .wakeup i => ∀ r code k, s.pc i = .sent (r : ℕ) code → s.pid k = r → s.pc k = .foundEmpty →
      s.queueEmpty r = false → OtherPending s i r
  | _ => True

/-- The process in slot `i` sleeps inside `sys_recv` or is about to. -/
def Waiting (s : State) (i : ℕ) : Prop := SleepingInRecv s i ∨ s.pc i = .foundEmpty

/-- The invariant: what `NoLostWakeup` says of a sleeper already holds of a
process that is about to sleep. -/
structure WakeInv (s : State) : Prop where
  calls : CallInv s
  pending : ∀ i, Waiting s i → s.queueEmpty (s.pid i) = false → PendingWakeup s (s.pid i)

variable {s s' : State} {a : Action} {i j r : ℕ}

/-! ### What a step does to waiting receivers, queues and wakeups owed -/

/-- A process that waits did so before, or has just found its queue empty. -/
theorem Shape.waiting (hs : Shape s a s') (hj : Waiting s' j) :
    Waiting s j ∨ (a = .test j ∧ s'.queueEmpty (s.pid j) = true) := by
  rcases hj with hj | hj
  · obtain ⟨hold, -⟩ | ⟨rfl, -⟩ := hs.sleepingInRecv hj
    · exact .inl (.inl hold)
    · cases hs with
      | sleep _ hpc => exact .inl (.inr hpc)
  · obtain hpc | ⟨ha, hpc⟩ | ⟨-, -, hpc, -⟩ | ⟨rPid, code, hpc⟩ | hpc := hs.pc_cases j
    · exact .inl (.inr (hpc ▸ hj))
    · refine .inr ⟨ha, ?_⟩
      rw [hj] at hpc
      split at hpc
      · next hempty => exact hempty
      · cases hpc
    all_goals
      rw [hj] at hpc
      cases hpc

/-- A queue becomes non-empty by a send only, which then owes a wakeup. -/
theorem Shape.queue (hs : Shape s a s') (hempty : s'.queueEmpty r = false) :
    s.queueEmpty r = false ∨ PendingWakeup s' r ∨ ∃ i, a = .receive i ∧ s.pid i = r := by
  cases hs with
  | wakeup | test | sleep | dispatch | yield => exact .inl hempty
  | @send i sPid rPid code msg m _ _ hm =>
    obtain ⟨q, rfl, hframe, -⟩ := sendMessage_queue hm
    by_cases hr : r = q
    · exact .inr (.inl ⟨i, code, by rw [hr]; exact update_self ..⟩)
    · have : m.messageQueue r = s.messages.messageQueue r := hframe r hr
      refine .inl ?_
      rw [State.queueEmpty, ← this]
      exact hempty
  | @receive i code msg m _ _ hm =>
    by_cases hr : r = s.pid i
    · exact .inr (.inr ⟨i, rfl, hr.symm⟩)
    · refine .inl ?_
      rw [State.queueEmpty, ← receiveMsg_queue hm hr]
      exact hempty

/-- A wakeup is owed until it is done. -/
theorem Shape.pending (hs : Shape s a s') (h : PendingWakeup s r) :
    PendingWakeup s' r ∨ ∃ i code, a = .wakeup i ∧ s.pc i = .sent r code := by
  obtain ⟨k, code, hk⟩ := h
  have hkeep : ∀ {i : ℕ} {pc : Pc}, s.pc i ≠ .sent r code →
      update s.pc i pc k = .sent r code := by
    rintro i pc hi
    have hki : k ≠ i := by
      rintro rfl
      exact hi hk
    rw [update_of_ne hki]
    exact hk
  cases hs with
  | @wakeup i _ _ _ _ =>
    by_cases hki : k = i
    · exact .inr ⟨k, code, by rw [hki], hk⟩
    · exact .inl ⟨k, code, by rw [← hk]; exact update_of_ne hki ..⟩
  | send _ hpc | test _ hpc | sleep _ hpc =>
    exact .inl ⟨k, code, hkeep (by rw [hpc]; exact nofun)⟩
  | receive _ hpc =>
    refine .inl ⟨k, code, hkeep ?_⟩
    rcases hpc with hpc | hpc <;> rw [hpc] <;> exact nofun
  | dispatch | yield => exact .inl ⟨k, code, hk⟩

/-! ### The invariant -/

namespace WakeInv

theorem of_initial (h : Initial s) : WakeInv s where
  calls := h.callInv
  pending i hi := by
    have hpc := h.pc i
    rcases hi with hi | hi
    · rw [hi.2] at hpc
      cases hpc
    · rw [hi] at hpc
      cases hpc

/-- A wakeup of `r` ends the sleep of the process with pid `r`. -/
theorem wakeup_wakes (h : WakeInv s) {code : ℤ} (hs : Shape s (.wakeup i) s')
    (hpc : s.pc i = .sent (s.pid j) code) (hj : SleepingInRecv s j) : ¬ Waiting s' j := by
  have hpc' : s'.pc j = .asleep := by
    rw [hs.pc_eq (by rw [hj.1]; decide), hj.2]
  have hstate : s'.procState j = .runnable := by
    cases hs with
    | wakeup _ hpc₂ =>
      rw [hpc] at hpc₂
      obtain ⟨rfl, -⟩ := Pc.sent.inj hpc₂
      have hproc := wakeup_proc s.ptable (.addr (s.pid j)) j
      rw [if_pos ⟨hj.1, h.calls.chan j hj⟩] at hproc
      exact congrArg Kernel.Proc.state hproc
  rintro (hsleep | hempty)
  · rw [hsleep.1] at hstate
    cases hstate
  · rw [hempty] at hpc'
    cases hpc'

theorem step (h : WakeInv s) (hok : NoEarlyWakeup s a) (hs : Shape s a s') : WakeInv s' := by
  refine ⟨h.calls.step hs, fun j hj hempty => ?_⟩
  rw [(hs.proc j).2] at hempty ⊢
  obtain hold | ⟨rfl, htest⟩ := hs.waiting hj
  · obtain hqueue | hpending | ⟨i, rfl, hpid⟩ := hs.queue hempty
    · obtain hpending | ⟨i, code, rfl, hpc⟩ := hs.pending (h.pending j hold hqueue)
      · exact hpending
      · -- the wakeup owed to `j` is done now
        rcases hold with hsleep | hfound
        · exact absurd hj (h.wakeup_wakes hs hpc hsleep)
        · obtain ⟨k, code', hki, hk⟩ := hok (s.pid j) code j hpc rfl hfound hqueue
          refine ⟨k, code', ?_⟩
          cases hs with
          | wakeup => rw [← hk]; exact update_of_ne hki ..
    · exact hpending
    · -- the receiver of this queue is not waiting any more
      cases hs with
      | @receive _ code msg m hrun hpc hm =>
        have hij : i = j := by
          refine h.calls.eq_of_pid (by rcases hpc with hpc | hpc <;> rw [hpc] <;> exact nofun)
            ?_ hpid
          rcases hold with hsleep | hfound
          · rw [hsleep.1]
            decide
          · exact h.calls.live j (by rw [hfound]; exact nofun)
        subst hij
        rcases hold with hsleep | hfound
        · rw [hsleep.1] at hrun
          cases hrun
        · rw [hfound] at hpc
          rcases hpc with hpc | hpc <;> cases hpc
  · rw [hempty] at htest
    cases htest

end WakeInv

/-- **No lost wakeup.**  In every run in which no last wakeup comes between a
receiver's test and its sleep, a process that sleeps inside `sys_recv` while its
queue is non-empty is owed a wakeup, in every state reached. -/
theorem pendingWakeup_of_reach (s₀ s : State) (h₀ : Initial s₀)
    (h : Reach step NoEarlyWakeup s₀ s) : NoLostWakeup s := by
  have hinv : WakeInv s :=
    h.invariant (WakeInv.of_initial h₀) fun _ _ _ hx hok hs => hx.step hok (step_shape hs)
  exact fun i hi hempty => hinv.pending i (.inl hi) hempty

/-! ### A schedule that loses a wakeup -/

/-- Process 2 finds its queue empty, process 1 sends it a message, and process 2
goes to sleep before the wakeup, which is still owed. -/
theorem pendingWakeup_of_reach_send :
    ∃ s, Reach step NoEarlyWakeup twoProcesses s ∧ SleepingInRecv s 1 ∧
      s.queueEmpty (s.pid 1) = false ∧ NoLostWakeup s := by
  obtain ⟨m, -, hm, hempty, -⟩ := exists_exchange_twoProcesses
  have hqueue : Message.isEmpty (m.messageQueue 2) = false :=
    (isReceiverQueueEmpty_eq_ok hempty).symm
  have htest : Reach step NoEarlyWakeup twoProcesses (twoProcesses.goto 1 .foundEmpty) :=
    Reach.refl.tail (.test 1) trivial (step_test (b := true) rfl rfl
      isReceiverQueueEmpty_twoProcesses)
  have hsend := htest.tail (.send 0 1 2 fun _ => 7) trivial (step_send rfl rfl hm)
  have hsleep := hsend.tail (.sleep 1) trivial (step_sleep rfl rfl)
  exact ⟨_, hsleep, ⟨rfl, rfl⟩, hqueue,
    pendingWakeup_of_reach twoProcesses _ initial_twoProcesses hsleep⟩

/-- **The wakeup is lost.**  Process 2 finds its queue empty; process 1 sends it
a message and wakes it; process 2 goes to sleep. -/
theorem lost_wakeup :
    ∃ s, Initial twoProcesses ∧ Reach step anyStep twoProcesses s ∧ ¬ NoLostWakeup s := by
  obtain ⟨m, -, hm, hempty, -⟩ := exists_exchange_twoProcesses
  have hqueue : Message.isEmpty (m.messageQueue 2) = false :=
    (isReceiverQueueEmpty_eq_ok hempty).symm
  have htest : Reach step anyStep twoProcesses (twoProcesses.goto 1 .foundEmpty) :=
    Reach.refl.tail (.test 1) trivial (step_test (b := true) rfl rfl
      isReceiverQueueEmpty_twoProcesses)
  have hsend := htest.tail (.send 0 1 2 fun _ => 7) trivial (step_send rfl rfl hm)
  have hwakeup := hsend.tail (.wakeup 0) trivial (step_wakeup rfl rfl)
  have hsleep := hwakeup.tail (.sleep 1) trivial (step_sleep rfl rfl)
  refine ⟨_, initial_twoProcesses, hsleep, fun h => ?_⟩
  obtain ⟨j, code, hj⟩ := h 1 ⟨rfl, rfl⟩ hqueue
  simp only [State.goto, State.withTable, State.record, twoProcesses, Function.update_apply] at hj
  split_ifs at hj

end Ipc
end Xv6
