/-
# System calls with numbers in them

`sys_send`, `sys_send_multi`, `sys_sigraise`, `sys_join_container` and
`sys_destroy_container` (`xv6/sysproc.c`, lines 147-302) with `sigraise` and
`sent_to_proc_buffer` (`xv6/proc.c`, lines 788-835), over the process table, the
containers, the message queues and, for each slot of the table, the buffer for
multicast and the pending signals.  The numbers come from a process as they are: an
index outside an array, or a search of the process table that finds nothing and goes
on behind its end, is `Halt.wild`.

`sys_send_multi` has two arrays of `len` words on the kernel stack, where `room` bytes
are left.  What the messages say is read elsewhere.

The other steps are those of the two tables, and what receivers and the scheduler do
to the rest.  Any pending signal may be taken away at any time.
-/

import Xv6.Kernel.Destroy
import Xv6.Kernel.Steps
import Xv6.Message.Fifo
import Xv6.Signal.Dispatch

namespace Xv6
namespace Request

open Lib Function
open Kernel (Chan PTable Running)
open Message (MessageBuffer MessageState Payload isFull messageinit receiveMsg sendMessage
  storePayload)
open Signal (NSIG SIGMSGSENT)

/-- The two tables, the message queues, and what else belongs to a slot of the process table. -/
structure State extends Kernel.State where
  messages : MessageState
  msgFromMulticast : ℕ → MessageBuffer
  pendingSignals : ℕ → ℕ → Bool

namespace State

/-- The loops over `ptable.proc` that look for a pid. -/
def slotOf (s : State) (pid : ℤ) : Option ℕ := s.ptable.firstSlot fun p => p.pid == pid

def setPending (s : State) (i sig : ℕ) (flag : Bool) : State :=
  { s with
    pendingSignals := update s.pendingSignals i
      (update (s.pendingSignals i) sig flag) }

def sigraise (s : State) (pid signalNumber : ℤ) : Except Halt (ℤ × State) :=
  match s.slotOf pid with
  | none => .ok (-1, s)
  | some i =>
    if 0 ≤ signalNumber ∧ signalNumber < NSIG then
      .ok (0, s.setPending i signalNumber.toNat true)
    else .error .wild

/-- `sent_to_proc_buffer`, which returns `0`. -/
def sentToProcBuffer (s : State) (rPid : ℤ) (msg : Payload) : Except Halt State :=
  if 0 ≤ rPid ∧ rPid < NPROC then
    match s.slotOf rPid with
    | none => .error .wild
    | some i => .ok { s with
        msgFromMulticast := update s.msgFromMulticast i
          (storePayload (s.msgFromMulticast i) msg) }
  else .error .wild

/-- `send_message`, and `wakeup` on the number of the receiver. -/
def sysSend (s : State) (senderPid recPid : ℤ) (msg : Payload) : Except Halt (ℤ × State) := do
  let (sendCode, messages) ← sendMessage s.messages senderPid recPid msg
  .ok (sendCode, { s with messages := messages, ptable := s.ptable.wakeup (.addr recPid) })

/-- A turn of the loop of `sys_send_multi`, with the flag. -/
def sendTurn (msg : Payload) (x : ℤ × State) (pid : ℤ) : Except Halt (ℤ × State) := do
  let s ← x.2.sentToProcBuffer pid msg
  let (interruptCode, s) ← s.sigraise pid SIGMSGSENT
  .ok (if interruptCode < 0 then -1 else x.1, s)

def sysSendMulti (room : ℕ) (s : State) (len : ℤ) (recPid : ℕ → ℤ) (msg : Payload) :
    Except Halt (ℤ × State) :=
  if 0 ≤ len ∧ 8 * len ≤ room then
    ((List.range len.toNat).map recPid).foldlM (sendTurn msg) (0, s)
  else .error .wild

/-- A call on the two tables. -/
def onTables (s : State) (r : Except Halt (ℤ × Kernel.State)) : Except Halt (ℤ × State) :=
  r.map fun r => (r.1, { s with toState := r.2 })

end State

/-- The calls. -/
inductive Call where
  | send (senderPid recPid : ℤ) (msg : Payload)
  | sendMulti (senderPid len : ℤ) (recPid : ℕ → ℤ) (msg : Payload)
  | sigraise (pid signalNumber : ℤ)
  | joinContainer (containerId : ℤ)
  | destroyContainer (containerId : ℤ)

/-- What a call by the process of slot `cur` returns, and the state. -/
def exec (room : ℕ) (s : State) (cur : ℕ) : Call → Except Halt (ℤ × State)
  | .send senderPid recPid msg => s.sysSend senderPid recPid msg
  | .sendMulti _ len recPid msg => s.sysSendMulti room len recPid msg
  | .sigraise pid signalNumber => s.sigraise pid signalNumber
  | .joinContainer containerId => s.onTables (Kernel.sysJoinContainer s.toState cur containerId)
  | .destroyContainer containerId =>
      s.onTables (Kernel.sysDestroyContainer s.toState cur containerId)

/-- What can happen. -/
inductive Event where
  /-- The process of a slot makes one of the calls. -/
  | call (cur : ℕ) (c : Call)
  /-- A step of the two tables. -/
  | tables (e : Kernel.Event)
  /-- `sleep_receiver` by the process of a slot. -/
  | sleepReceiver (cur : ℕ)
  /-- `receive_msg` by the process of a slot. -/
  | receive (cur : ℕ)
  /-- A pending signal is cleared. -/
  | clear (i sig : ℕ)

/-- Apart from `sleep_receiver`, the kernel sleeps on addresses of its own. -/
def ownChannel : Kernel.Event → Bool
  | .call _ (.sleep (.addr a)) => (Vm.KERNBASE : ℤ) ≤ a
  | _ => true

/-- One step. -/
def step (room : ℕ) (s : State) : Event → Option State
  | .call cur c =>
      if Running s.toState cur then (exec room s cur c).toOption.map Prod.snd else none
  | .tables e =>
      if ownChannel e then (Kernel.step s.toState e).map fun t => { s with toState := t } else none
  | .sleepReceiver cur =>
      if Running s.toState cur then
        some { s with ptable := s.ptable.sleep cur (.addr (s.ptable.proc cur).pid) }
      else none
  | .receive cur =>
      if Running s.toState cur then
        (receiveMsg s.messages (s.ptable.proc cur).pid).toOption.map fun r =>
          { s with messages := r.2.2 }
      else none
  | .clear i sig => some (s.setPending i sig false)

/-- The machine with its first process. -/
def boot : State where
  toState := Kernel.boot
  messages := messageinit
  msgFromMulticast _ _ := 0
  pendingSignals _ _ := false

end Request
end Xv6
