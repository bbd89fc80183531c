/-
# The children and their pipes

The system of `P = N * N` children that `main` of `xv6/maekawa.c` forks (lines
423-590): voting sets, `acquireLockMaekawa`, `releaseLockMaekawa` and the loop
that serves messages until every requester is done.  Each child has one pipe,
which delivers the records written to it whole, once and in order.

One step of a child is one write, one read with its handling, or the entry to or
exit from its critical section.  Which children request, and with which
timestamps, is arbitrary.  The record of pids that the parent sends to each child
first is left out: a child begins in `Pc.start`, and its `start` step stands for
having read it.
-/

import Xv6.Lib.Network
import Xv6.Maekawa.Node

namespace Xv6
namespace Maekawa

open Lib

/-- The grid size, the children that request, and the timestamps they take. -/
structure Config where
  N : ℕ
  requests : ℕ → Bool
  time : ℕ → ℤ

namespace Config

/-- Number of children. -/
def P (c : Config) : ℕ := c.N * c.N

/-- Number of votes needed. -/
def K (c : Config) : ℕ := 2 * c.N - 1

/-- `S[x]`, as the loop of `main` fills it: the first `K` children in the row or
the column of `x`. -/
def S (c : Config) (x : ℕ) : List ℕ :=
  ((List.range c.P).filter fun y => y / c.N = x / c.N ∨ y % c.N = x % c.N).take c.K

/-- The children that do not request. -/
def idle (c : Config) : ℕ := ((List.range c.P).filter fun i => !c.requests i).length

end Config

/-- The children, what each has still to write, and the pipes. -/
abbrev State := Network Node Body

/-- All children forked, nothing sent. -/
def init (c : Config) : State where
  node _ := Node.init c.idle
  outbox _ := []
  pipe _ := []

/-- A step of child `i`. -/
inductive Action where
  | start (i : ℕ)
  | write (i : ℕ)
  | handle (i : ℕ)
  | enter (i : ℕ)
  | leave (i : ℕ)
  deriving DecidableEq, Repr

/-- The writes of `sendRequest`. -/
def sendRequest (c : Config) (i : ℕ) : List Message :=
  (c.S i).map fun y => (y, .request (c.time i))

/-- The writes of `releaseLockMaekawa`. -/
def releaseLockMaekawa (c : Config) (i : ℕ) : List Message :=
  (c.S i).map fun y => (y, .release)

/-- The writes of `main` after it. -/
def sendComplete (c : Config) : List Message :=
  (List.range c.P).map fun y => (y, .complete)

/-- The child is at the `read` of one of its two loops. -/
def Reading (c : Config) (n : Node) : Prop :=
  (n.pc = .acquiring ∧ n.lockedCount < c.K) ∨ (n.pc = .serving ∧ n.completeAndStop < c.P)

instance (c : Config) (n : Node) : Decidable (Reading c n) :=
  inferInstanceAs (Decidable (_ ∨ _))

/-- One step: a child begins `acquireLockMaekawa` (or the serving loop, if it does
not request), makes its next write, reads and handles a message, ends
`acquireLockMaekawa`, or goes on to `releaseLockMaekawa`. -/
def step (c : Config) (s : State) : Action → Option State
  | .start i =>
      if i < c.P ∧ (s.node i).pc = .start then
        if c.requests i then
          some (s.turn i { s.node i with lockedCount := 0, pc := .acquiring } (sendRequest c i))
        else some (s.turn i { s.node i with pc := .serving } [])
      else none
  | .write i => s.write i
  | .handle i =>
      if s.outbox i = [] ∧ Reading c (s.node i) then
        match s.pipe i with
        | [] => none
        | m :: rest =>
            (recvHandler c.P (s.node i) m).map fun (n, out) => s.receive i rest n out
      else none
  | .enter i =>
      if s.outbox i = [] ∧ (s.node i).pc = .acquiring ∧ c.K ≤ (s.node i).lockedCount then
        some (s.turn i { s.node i with lockedCount := c.K, processStatus := 1, pc := .critical } [])
      else none
  | .leave i =>
      if (s.node i).pc = .critical then
        some (s.turn i { s.node i with pc := .serving } (releaseLockMaekawa c i ++ sendComplete c))
      else none

/-- The child is past the loop of `acquireLockMaekawa` and has not begun to release. -/
def InCriticalSection (c : Config) (s : State) (i : ℕ) : Prop :=
  (s.node i).pc = .critical ∨ ((s.node i).pc = .acquiring ∧ c.K ≤ (s.node i).lockedCount)

instance (c : Config) (s : State) (i : ℕ) : Decidable (InCriticalSection c s i) :=
  inferInstanceAs (Decidable (_ ∨ _))

end Maekawa
end Xv6
