/-
# A node of the voting protocol: `maekawa.c`

The wait queue (`xv6/maekawa.c`, lines 44-152), `precedes` and the message
handler `recvHandler` (lines 222-390), with the variables of one child process.
A child is named by its index `i`, which stands for the pid `offset + 1 + i`;
pids that are no child's are negative indices.  Timestamps are integers.

`recvHandler` takes the variables of a child and a message to the new variables
and the records it writes, each with its receiver.  A handler that writes outside
`childPipe` or before the queue's first cell has no result.  `pendingInquire` is
zero throughout: the lines that would set it are commented out.
-/

import Xv6.Lib.RingBuffer

namespace Xv6
namespace Maekawa

open Lib

/-- `struct request`. -/
structure Request where
  pid : ℤ
  timeStamp : ℤ
  deriving DecidableEq, Repr

/-- `precedes`. -/
def precedes (a b : Request) : Bool :=
  a.timeStamp < b.timeStamp ∨ (a.timeStamp = b.timeStamp ∧ a.pid < b.pid)

/-! ### The wait queue -/

def MAXQSize : ℕ := 100

/-- `queueRequest`: a ring of requests. -/
abbrev QueueRequest := RingBuffer Request

/-- `enqueueRequestQueue`.  No caller looks at its return code. -/
def enqueueRequestQueue (q : QueueRequest) (a : Request) : QueueRequest :=
  if q.size = MAXQSize then q else q.push MAXQSize a

/-- `removeElementRequestQueue(q, u)`.  The shift starts at `u`, so with `u = -1`
it writes before the first cell; a queue that wraps around stays as it is. -/
def removeElementRequestQueue (q : QueueRequest) (u : ℤ) : Option QueueRequest :=
  if q.size = 0 then some q
  else if q.size = 1 then
    if u = q.head then some (q.pop MAXQSize) else some q
  else if q.head < q.tail then
    if u < 0 then none else some (q.shiftOut u.toNat)
  else some q

/-- The cells from the head on, in the order the loops of `recvHandler` visit them. -/
def cells (q : QueueRequest) : List ℕ :=
  (List.range q.size).map fun k => (q.head + k) % MAXQSize

/-- One turn of those loops: keep the request that precedes, and its cell. -/
def pickEarlier (q : QueueRequest) (best : Request × ℤ) (ptr : ℕ) : Request × ℤ :=
  if precedes (q.data ptr) best.1 then (q.data ptr, ptr) else best

/-- The loop of the `RELINQUISH` case: from the current request over the queue. -/
def earliestFrom (q : QueueRequest) (current : Request) : Request × ℤ :=
  (cells q).foldl (pickEarlier q) (current, -1)

/-- The loop of the `RELEASE` case: over a queue that is not empty. -/
def earliestWaiting (q : QueueRequest) : Request × ℤ :=
  (cells q).tail.foldl (pickEarlier q) (q.data q.head, q.head)

/-- The test loop of the `REQUEST` case: over the cells `0 … size - 1`, wherever
the head is. -/
def scanFails (q : QueueRequest) (req : Request) : Bool :=
  (List.range q.size).any fun u => precedes (q.data u) req

/-! ### The node -/

/-- The messages, less their sender. -/
inductive Body where
  | request (timeStamp : ℤ)
  | locked
  | inquire
  | release
  | relinquish
  | failed
  | complete
  deriving DecidableEq, Repr

/-- A record with the child it comes from or goes to. -/
abbrev Message := ℕ × Body

/-- Where a child stands in `main`. -/
inductive Pc where
  /-- Not yet past `read(childPipe[i][0], pids, ..)`. -/
  | start
  /-- In `acquireLockMaekawa`. -/
  | acquiring
  /-- Between `acquireLockMaekawa` and `releaseLockMaekawa`. -/
  | critical
  /-- In `releaseLockMaekawa` or after it. -/
  | serving
  deriving DecidableEq, Repr

/-- The variables of a child. -/
structure Node where
  failedBit : Bool
  processStatus : ℕ
  lockedCount : ℤ
  currentLockingRequest : Request
  waitQueue : QueueRequest
  completeAndStop : ℕ
  pc : Pc

/-- A child when it is forked; `completeAndStop` is set before its first loop. -/
def Node.init (completeAndStop : ℕ) : Node where
  failedBit := false
  processStatus := 0
  lockedCount := 0
  currentLockingRequest := ⟨-1, 0⟩
  waitQueue := { size := 0, data := fun _ => ⟨-1, 0⟩, head := 0, tail := 0 }
  completeAndStop := completeAndStop
  pc := .start

/-- `write(childPipe[dest - offset - 1][1], ..)`, with `P` pipes. -/
def writeTo (P : ℕ) (dest : ℤ) (body : Body) : Option (List Message) :=
  if 0 ≤ dest ∧ dest < P then some [(dest.toNat, body)] else none

/-- The `REQUEST` case of `recvHandler`. -/
def Node.onRequest (P : ℕ) (n : Node) (req : Request) : Option (Node × List Message) :=
  if n.processStatus ≠ 1 then
    (writeTo P req.pid .locked).map fun out =>
      ({ n with processStatus := 1, currentLockingRequest := req }, out)
  else
    let q := enqueueRequestQueue n.waitQueue req
    let failedflag := scanFails q req || precedes n.currentLockingRequest req
    (if failedflag then writeTo P req.pid .failed
      else writeTo P n.currentLockingRequest.pid .inquire).map fun out =>
        ({ n with waitQueue := q }, out)

/-- The `INQUIRE` case. -/
def Node.onInquire (P : ℕ) (n : Node) (sender : ℕ) : Option (Node × List Message) :=
  if n.failedBit then
    (writeTo P sender .relinquish).map fun out => ({ n with lockedCount := n.lockedCount - 1 }, out)
  else some (n, [])

/-- The `RELINQUISH` case. -/
def Node.onRelinquish (P : ℕ) (n : Node) : Option (Node × List Message) := do
  let (newRequest, newRindex) := earliestFrom n.waitQueue n.currentLockingRequest
  let q ← removeElementRequestQueue n.waitQueue newRindex
  let out ← writeTo P newRequest.pid .locked
  some ({ n with
    waitQueue := enqueueRequestQueue q n.currentLockingRequest
    currentLockingRequest := newRequest
    processStatus := 1 }, out)

/-- The `RELEASE` case. -/
def Node.onRelease (P : ℕ) (n : Node) : Option (Node × List Message) :=
  if n.waitQueue.size = 0 then
    some ({ n with processStatus := 0, currentLockingRequest := ⟨-1, -1⟩ }, [])
  else do
    let (newR, newRindex) := earliestWaiting n.waitQueue
    let q ← removeElementRequestQueue n.waitQueue newRindex
    let out ← writeTo P newR.pid .locked
    some ({ n with
      waitQueue := q
      currentLockingRequest := newR
      processStatus := 1 }, out)

/-- `recvHandler`. -/
def recvHandler (P : ℕ) (n : Node) : Message → Option (Node × List Message)
  | (sender, .request timeStamp) => n.onRequest P ⟨sender, timeStamp⟩
  | (_, .locked) => some ({ n with lockedCount := n.lockedCount + 1 }, [])
  | (_, .failed) => some ({ n with failedBit := true }, [])
  | (sender, .inquire) => n.onInquire P sender
  | (_, .relinquish) => n.onRelinquish P
  | (_, .release) => n.onRelease P
  | (_, .complete) => some ({ n with completeAndStop := n.completeAndStop + 1 }, [])

end Maekawa
end Xv6
