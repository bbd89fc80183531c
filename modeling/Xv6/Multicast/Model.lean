/-
# Multicast

`sys_send_multi` and `sys_recv_multi` (`xv6/sysproc.c`, lines 192-235) over
`sent_to_proc_buffer`, `sigraise` and `receive_from_procbuffer` (`xv6/proc.c`,
lines 788-858), and the part of the scheduler that delivers a pending
`SIGMSGSENT` (lines 448-491).

Each process has one message buffer and one pending mark for the signal.  For
every pid of its list a sender writes the buffer and then raises the signal, in
two critical sections; the scheduler, when it switches to a process with the
mark set, clears the mark and lets the process enter its handler, which calls
`recv_multi` once.  The processes of the table are given and stay; a pid that no
slot has makes `sent_to_proc_buffer` write behind the table, and one that is no
index of `procbuffer_lock` leaves that array: both end the path.

Beside the state stand the histories the properties speak of: what has been
written into each buffer, with the call that wrote it, what each process has
received, and the calls that have returned.
-/

import Xv6.Lib.Run
import Xv6.Lib.Update
import Xv6.Message.Model

namespace Xv6
namespace Multicast

open Message Function

/-- What the scheduler does for a signal: the three built-in handlers, or an
address in the process. -/
inductive Handler where
  | sigign
  | sigdfl
  | sigmsgsent
  | user
  deriving DecidableEq, Repr

/-- `struct proc`, as far as multicast reads it, with `pendingSignals[SIGMSGSENT]` and
`signalHandlers[SIGMSGSENT]`. -/
structure Proc where
  pid : ℕ
  running : Bool
  pending : Bool
  handler : Handler
  msgFromMulticast : MessageBuffer

/-- A call of `sys_send_multi` in progress. -/
structure Sending where
  /-- The number of the call. -/
  id : ℕ
  msg : Payload
  /-- The pids that are dealt with, in order. -/
  sent : List ℤ
  /-- The pids that are left. -/
  todo : List ℤ
  /-- The buffer of the first of them is written. -/
  stored : Bool
  flag : ℤ

/-- A call of `sys_send_multi` that has returned. -/
structure Sent where
  id : ℕ
  msg : Payload
  pids : List ℤ
  flag : ℤ

structure State where
  proc : ℕ → Proc
  /-- The call that the process of a slot is in. -/
  sending : ℕ → Option Sending
  /-- The times a process has still to go through its handler. -/
  due : ℕ → ℕ
  /-- The number of calls so far. -/
  calls : ℕ
  /-- What has been written into the buffer of a slot, by which call. -/
  stored : ℕ → List (ℕ × Payload)
  /-- What `recv_multi` has returned to a slot. -/
  received : ℕ → List Payload
  returned : List Sent

/-- The loops over `ptable.proc` that look for a pid. -/
def State.slotOf (s : State) (pid : ℤ) : Option ℕ :=
  (List.range NPROC).find? fun i => ((s.proc i).pid : ℤ) = pid

/-- Rewrite one slot. -/
def State.modify (s : State) (i : ℕ) (f : Proc → Proc) : State :=
  { s with proc := update s.proc i (f (s.proc i)) }

section modify

variable (s : State) (i : ℕ) (f : Proc → Proc)

theorem State.modify_proc (j : ℕ) :
    (s.modify i f).proc j = if j = i then f (s.proc i) else s.proc j := Function.update_apply ..

@[simp] theorem State.modify_sending : (s.modify i f).sending = s.sending := rfl

@[simp] theorem State.modify_due : (s.modify i f).due = s.due := rfl

@[simp] theorem State.modify_stored : (s.modify i f).stored = s.stored := rfl

@[simp] theorem State.modify_received : (s.modify i f).received = s.received := rfl

@[simp] theorem State.modify_returned : (s.modify i f).returned = s.returned := rfl

end modify

/-- `sent_to_proc_buffer`: the slot it writes to, and the state. -/
def sentToProcBuffer (s : State) (rPid : ℤ) (msg : Payload) : Except Halt (ℕ × State) :=
  if 0 ≤ rPid ∧ rPid < NPROC then
    match s.slotOf rPid with
    | none => .error .wild
    | some i => .ok (i, s.modify i fun p =>
        { p with msgFromMulticast := storePayload p.msgFromMulticast msg })
  else .error .wild

/-- `sigraise(pid, SIGMSGSENT)`. -/
def sigraise (s : State) (pid : ℤ) : ℤ × State :=
  match s.slotOf pid with
  | none => (-1, s)
  | some i => (0, s.modify i fun p => { p with pending := true })

/-- `receive_from_procbuffer`: what it writes to the caller's memory. -/
def receiveFromProcbuffer (s : State) (myid : ℤ) : Except Halt Payload :=
  if 0 ≤ myid ∧ myid < NPROC then
    match s.slotOf myid with
    | none => .error .wild
    | some i => .ok (loadPayload (s.proc i).msgFromMulticast)
  else .error .wild

/-- What can happen. -/
inductive Event where
  /-- The process of a slot enters `sys_send_multi`. -/
  | send (cur : ℕ) (pids : List ℤ) (msg : Payload)
  /-- It calls `sent_to_proc_buffer` for the next pid. -/
  | store (cur : ℕ)
  /-- It calls `sigraise` for that pid. -/
  | raise (cur : ℕ)
  /-- It returns from `sys_send_multi`. -/
  | ret (cur : ℕ)
  /-- The scheduler switches to the process of a slot. -/
  | dispatch (i : ℕ)
  /-- The process of a slot gives up the CPU. -/
  | yield (i : ℕ)
  /-- The process of a slot calls `recv_multi` from its handler. -/
  | recv (i : ℕ)

/-- `sys_send_multi` at its start. -/
def send (s : State) (cur : ℕ) (pids : List ℤ) (msg : Payload) : State :=
  { s with
    sending := update s.sending cur
      (some { id := s.calls, msg := msg, sent := [], todo := pids, stored := false, flag := 0 })
    calls := s.calls + 1 }

/-- One half of a turn of the loop: the buffer. -/
def store (s : State) (cur : ℕ) (c : Sending) (pid : ℤ) : Option State :=
  (sentToProcBuffer s pid c.msg).toOption.map fun (i, t) =>
    { t with
      sending := update t.sending cur (some { c with stored := true })
      stored := update t.stored i (t.stored i ++ [(c.id, c.msg)]) }

/-- The other half: the signal, and the flag if there is no such process. -/
def raise (s : State) (cur : ℕ) (c : Sending) (pid : ℤ) (rest : List ℤ) : State :=
  let (code, t) := sigraise s pid
  { t with
    sending := update t.sending cur (some { c with
      sent := c.sent ++ [pid]
      todo := rest
      stored := false
      flag := if code < 0 then -1 else c.flag }) }

/-- The loop has come to its end. -/
def ret (s : State) (cur : ℕ) (c : Sending) : State :=
  { s with
    sending := update s.sending cur none
    returned := { id := c.id, msg := c.msg, pids := c.sent, flag := c.flag } :: s.returned }

/-- The scheduler's part: a pending signal is cleared, and a handler of the process's own is
entered when the process goes on. -/
def dispatch (s : State) (i : ℕ) : State :=
  { s.modify i fun p => { p with running := true, pending := false } with
    due := update s.due i
      (if (s.proc i).pending = true ∧ (s.proc i).handler = .user then s.due i + 1 else s.due i) }

/-- `sys_recv_multi` from the handler. -/
def recv (s : State) (i : ℕ) : Option State :=
  (receiveFromProcbuffer s (s.proc i).pid).toOption.map fun msg =>
    { s with
      due := update s.due i (s.due i - 1)
      received := update s.received i (s.received i ++ [msg]) }

/-- The process of a slot runs on some CPU. -/
def Running (s : State) (i : ℕ) : Prop := i < NPROC ∧ (s.proc i).running = true

instance (s : State) (i : ℕ) : Decidable (Running s i) := inferInstanceAs (Decidable (_ ∧ _))

/-- One step. -/
def step (s : State) : Event → Option State
  | .send cur pids msg =>
      if Running s cur ∧ (s.sending cur).isNone = true then some (send s cur pids msg) else none
  | .store cur =>
      match s.sending cur with
      | some c =>
          match c.todo, c.stored with
          | pid :: _, false => if Running s cur then store s cur c pid else none
          | _, _ => none
      | none => none
  | .raise cur =>
      match s.sending cur with
      | some c =>
          match c.todo, c.stored with
          | pid :: rest, true => if Running s cur then some (raise s cur c pid rest) else none
          | _, _ => none
      | none => none
  | .ret cur =>
      match s.sending cur with
      | some c => if Running s cur ∧ c.todo = [] then some (ret s cur c) else none
      | none => none
  | .dispatch i =>
      if i < NPROC ∧ (s.proc i).running = false then some (dispatch s i) else none
  | .yield i =>
      if Running s i then some (s.modify i fun p => { p with running := false }) else none
  | .recv i =>
      if Running s i ∧ (s.sending i).isNone = true ∧ 0 < s.due i then recv s i else none

/-- The start: processes with distinct pids, nothing sent and no signal pending. -/
structure Boot (s : State) : Prop where
  inj : ∀ i < NPROC, ∀ j < NPROC, (s.proc i).pid = (s.proc j).pid → i = j
  pending : ∀ i, (s.proc i).pending = false
  sending : ∀ i, s.sending i = none
  due : ∀ i, s.due i = 0
  calls : s.calls = 0
  stored : ∀ i, s.stored i = []
  received : ∀ i, s.received i = []
  returned : s.returned = []

/-! ### The kinds of steps -/

/-- The steps, each with what it found and what it left. -/
inductive Shape (s s' : State) : Event → Prop where
  | send {cur : ℕ} {pids : List ℤ} {msg : Payload} (hcur : cur < NPROC) (hnone : s.sending cur = none)
      (h : s' = send s cur pids msg) : Shape s s' (.send cur pids msg)
  | store {cur : ℕ} (c : Sending) (pid : ℤ) (rest : List ℤ) (i : ℕ)
      (hc : s.sending cur = some c) (htodo : c.todo = pid :: rest) (hstored : c.stored = false)
      (hpid : 0 ≤ pid ∧ pid < NPROC) (hslot : s.slotOf pid = some i)
      (h : s' = { s.modify i fun p =>
          { p with msgFromMulticast := storePayload p.msgFromMulticast c.msg } with
        sending := update s.sending cur (some { c with stored := true })
        stored := update s.stored i (s.stored i ++ [(c.id, c.msg)]) }) :
      Shape s s' (.store cur)
  | raise {cur : ℕ} (c : Sending) (pid : ℤ) (rest : List ℤ) (i : ℕ)
      (hc : s.sending cur = some c) (htodo : c.todo = pid :: rest) (hstored : c.stored = true)
      (hslot : s.slotOf pid = some i)
      (h : s' = { s.modify i fun p => { p with pending := true } with
        sending := update s.sending cur (some { c with
          sent := c.sent ++ [pid]
          todo := rest
          stored := false }) }) : Shape s s' (.raise cur)
  | miss {cur : ℕ} (c : Sending) (pid : ℤ) (rest : List ℤ)
      (hc : s.sending cur = some c) (htodo : c.todo = pid :: rest) (hstored : c.stored = true)
      (hslot : s.slotOf pid = none)
      (h : s' = { s with
        sending := update s.sending cur (some { c with
          sent := c.sent ++ [pid]
          todo := rest
          stored := false
          flag := -1 }) }) : Shape s s' (.raise cur)
  | ret {cur : ℕ} (c : Sending) (hc : s.sending cur = some c) (htodo : c.todo = [])
      (h : s' = ret s cur c) : Shape s s' (.ret cur)
  | dispatch {i : ℕ} (h : s' = dispatch s i) : Shape s s' (.dispatch i)
  | yield {i : ℕ} (h : s' = s.modify i fun p => { p with running := false }) :
      Shape s s' (.yield i)
  | recv {i : ℕ} (j : ℕ) (hrun : Running s i) (hdue : 0 < s.due i)
      (hslot : s.slotOf (s.proc i).pid = some j)
      (h : s' = { s with
        due := update s.due i (s.due i - 1)
        received := update s.received i
          (s.received i ++ [loadPayload (s.proc j).msgFromMulticast]) }) :
      Shape s s' (.recv i)

variable {s s' : State} {e : Event}

theorem shape_store {cur : ℕ} {c : Sending} {pid : ℤ} {rest : List ℤ}
    (hc : s.sending cur = some c) (htodo : c.todo = pid :: rest) (hstored : c.stored = false)
    (h : store s cur c pid = some s') : Shape s s' (.store cur) := by
  unfold store sentToProcBuffer at h
  split at h
  next hpid =>
    cases hslot : s.slotOf pid with
    | none =>
      rw [hslot] at h
      cases h
    | some i =>
      rw [hslot] at h
      exact .store c pid rest i hc htodo hstored hpid hslot (Option.some.inj h).symm
  · cases h

theorem shape_raise {cur : ℕ} {c : Sending} {pid : ℤ} {rest : List ℤ}
    (hc : s.sending cur = some c) (htodo : c.todo = pid :: rest) (hstored : c.stored = true) :
    Shape s (raise s cur c pid rest) (.raise cur) := by
  cases hslot : s.slotOf pid with
  | none =>
    refine .miss c pid rest hc htodo hstored hslot ?_
    simp [raise, sigraise, hslot]
  | some i =>
    refine .raise c pid rest i hc htodo hstored hslot ?_
    simp [raise, sigraise, hslot, State.modify]

theorem shape_recv {i : ℕ} (hrun : Running s i) (hdue : 0 < s.due i) (h : recv s i = some s') :
    Shape s s' (.recv i) := by
  unfold recv receiveFromProcbuffer at h
  split at h
  · cases hslot : s.slotOf (s.proc i).pid with
    | none =>
      rw [hslot] at h
      cases h
    | some j =>
      rw [hslot] at h
      exact .recv j hrun hdue hslot (Option.some.inj h).symm
  · cases h

/-- **Every step is of one of these kinds.** -/
theorem step_shape (h : step s e = some s') : Shape s s' e := by
  cases e with
  | send cur pids msg =>
    simp only [step] at h
    split at h
    next hguard =>
      exact .send hguard.1.1 (Option.isNone_iff_eq_none.1 hguard.2) (Option.some.inj h).symm
    · cases h
  | store cur =>
    simp only [step] at h
    split at h
    next c hc =>
      split at h
      next pid rest htodo hstored =>
        split at h
        · exact shape_store hc htodo hstored h
        · cases h
      · cases h
    · cases h
  | raise cur =>
    simp only [step] at h
    split at h
    next c hc =>
      split at h
      next pid rest htodo hstored =>
        split at h
        · exact Option.some.inj h ▸ shape_raise hc htodo hstored
        · cases h
      · cases h
    · cases h
  | ret cur =>
    simp only [step] at h
    split at h
    next c hc =>
      split at h
      · next hguard => exact .ret c hc hguard.2 (Option.some.inj h).symm
      · cases h
    · cases h
  | dispatch i =>
    simp only [step] at h
    split at h
    · exact .dispatch (Option.some.inj h).symm
    · cases h
  | yield i =>
    simp only [step] at h
    split at h
    · exact .yield (Option.some.inj h).symm
    · cases h
  | recv i =>
    simp only [step] at h
    split at h
    · next hguard => exact shape_recv hguard.1 hguard.2.2 h
    · cases h

end Multicast
end Xv6
