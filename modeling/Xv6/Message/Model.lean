/-
# Message buffers and receiver queues: `message.c` over `queue.c`

`enqueue`, `dequeue`, `isEmpty`, `isFull` (`xv6/queue.c`, lines 37-81) and
`GetMessageBuffer`, `FreeMessageBuffer`, `messageinit`, `send_message`,
`receive_msg`, `isReceiverQueueEmpty` (`xv6/message.c`, lines 34-102 and
130-170).

A message buffer is `MessageSize = 16` words.  Word 0 threads the free list
through the unused buffers, ending in `-1`; words 1 to 15 hold a payload.  Each
receiver has a ring of buffer numbers with room for all of them.  A buffer
number is an index of `message_buffer`, `from_array` and `message_buffer_lock`:
one that is not in range stops the path with `Halt.wild`, as does a receiver
that has no queue.  `GetMessageBuffer` takes the lock of the buffer at the head
of the free list before it looks whether there is one, so an empty free list is
such a stop.
-/

import Xv6.Lib.RingBuffer
import Xv6.Param

namespace Xv6
namespace Message

open Lib Function

/-- The words of a message that travel: `MessageSize - 1` of them. -/
abbrev Payload := Fin 15 → ℤ

/-- `MessageBuffer`: `MessageSize` words. -/
abbrev MessageBuffer := Fin 16 → ℤ

-- Word `0` of a buffer is also its link in the free list.
instance messageSize_neZero : NeZero 16 := ⟨by decide⟩

/-- `queue`: a ring of buffer numbers. -/
abbrev Queue := RingBuffer ℤ

/-- `createqueue`. -/
def createqueue : Queue := { size := 0, data := fun _ => 0, head := 0, tail := 0 }

def isEmpty (q : Queue) : Bool := q.size = 0

def isFull (q : Queue) : Bool := q.size = NUMOFMESSAGEBUFFERS

/-- `enqueue`: the return code and the queue. -/
def enqueue (q : Queue) (a : ℤ) : ℤ × Queue :=
  if isFull q then (-1, q) else (0, q.push NUMOFMESSAGEBUFFERS a)

/-- `dequeue`: the element, or `-1` from an empty queue. -/
def dequeue (q : Queue) : ℤ × Queue :=
  if isEmpty q then (-1, q) else (q.data q.head, q.pop NUMOFMESSAGEBUFFERS)

/-- The globals of `message.c`. -/
structure MessageState where
  messageBuffer : ℕ → MessageBuffer
  fromArray : ℕ → ℤ
  freeMessageBuffer : ℤ
  messageQueue : ℕ → Queue

/-- The queue a process id indexes. -/
def queueNo (pid : ℤ) : Except Halt ℕ :=
  if 0 ≤ pid ∧ pid < NUMOFMESSAGEQUEUES then .ok pid.toNat else .error .wild

/-- The buffer a buffer number indexes. -/
def bufferNo (msgNo : ℤ) : Except Halt ℕ :=
  if 0 ≤ msgNo ∧ msgNo < NUMOFMESSAGEBUFFERS then .ok msgNo.toNat else .error .wild

/-- `GetMessageBuffer`: unlink the head of the free list. -/
def getMessageBuffer (s : MessageState) : Except Halt (ℕ × MessageState) := do
  let msgNo ← bufferNo s.freeMessageBuffer
  return (msgNo, { s with freeMessageBuffer := s.messageBuffer msgNo 0 })

/-- `FreeMessageBuffer`: link a buffer in front of the free list. -/
def freeMessageBuffer (s : MessageState) (msgNo : ℕ) : MessageState :=
  { s with
    messageBuffer := update s.messageBuffer msgNo
      (update (s.messageBuffer msgNo) 0 s.freeMessageBuffer)
    freeMessageBuffer := msgNo }

/-- `messageinit`: every buffer free, linked in order, and every queue empty. -/
def messageinit : MessageState :=
  { messageBuffer := fun i =>
      update (fun _ => 0) 0 (if i = NUMOFMESSAGEBUFFERS - 1 then -1 else (i : ℤ) + 1)
    fromArray := fun _ => 0
    freeMessageBuffer := 0
    messageQueue := fun _ => createqueue }

/-- The copy loop of `send_message`: word `i` from word `i - 1` of the message,
word 0 untouched. -/
def storePayload (buf : MessageBuffer) (msg : Payload) : MessageBuffer := Fin.cons (buf 0) msg

/-- The copy loop of `receive_msg`: word `i - 1` of the message from word `i`. -/
def loadPayload (buf : MessageBuffer) : Payload := Fin.tail buf

/-- `send_message(s_pid, r_pid, msg)`: the return code and the state. -/
def sendMessage (s : MessageState) (sPid rPid : ℤ) (msg : Payload) :
    Except Halt (ℤ × MessageState) := do
  let r ← queueNo rPid
  if isFull (s.messageQueue r) then
    return (-1, s)
  let (msgNo, s) ← getMessageBuffer s
  return (0,
    { s with
      messageQueue := update s.messageQueue r (enqueue (s.messageQueue r) msgNo).2
      fromArray := update s.fromArray msgNo sPid
      messageBuffer := update s.messageBuffer msgNo
        (storePayload (s.messageBuffer msgNo) msg) })

/-- `receive_msg(myid, msg)`: the return code, what is written to `msg`, and the state. -/
def receiveMsg (s : MessageState) (myid : ℤ) :
    Except Halt (ℤ × Option Payload × MessageState) := do
  let r ← queueNo myid
  if isEmpty (s.messageQueue r) then
    return (-1, none, s)
  let (a, q) := dequeue (s.messageQueue r)
  let s := { s with messageQueue := update s.messageQueue r q }
  if a < 0 then
    return (-1, none, s)
  let msgNo ← bufferNo a
  return (0, some (loadPayload (s.messageBuffer msgNo)), freeMessageBuffer s msgNo)

/-- `isReceiverQueueEmpty`. -/
def isReceiverQueueEmpty (s : MessageState) (myid : ℤ) : Except Halt Bool := do
  let r ← queueNo myid
  return isEmpty (s.messageQueue r)

end Message
end Xv6
