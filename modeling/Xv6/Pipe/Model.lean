/-
# Pipes

`pipewrite`, `piperead` and `pipeclose` (`xv6/pipe.c`, lines 59-121) on one pipe,
with any number of processes in the two calls at a time.  The pipe's lock is held
between the points at which a call sleeps, so a call goes from one sleep to the next
without a stop; `writeLoop` and `piperead` are these stretches.  Whether the caller has
been killed is looked at once in each of them, just before it would sleep, and is
an input of the step.

A sleeping call may go on at any time: what is proved does not depend on which
`wakeup` woke it.  Beside the pipe the system keeps the bytes stored, each with the
call that stored it, and what the calls have returned.  The page of a pipe with
both ends closed is freed, and there is no step on it.
-/

import Xv6.Lib.Counter
import Xv6.Lib.Run
import Xv6.Lib.Update
import Xv6.Files.Table

namespace Xv6
namespace Pipes

open Lib Function
open Files (PIPESIZE)

variable {α : Type*}

/-- `struct pipe`. -/
structure Pipe (α : Type*) where
  data : ℕ → α
  nread : BitVec 32
  nwrite : BitVec 32
  readopen : Bool
  writeopen : Bool

namespace Pipe

/-- A pipe as `pipealloc` fills it in.  The bytes are those of a page that was free. -/
def alloc (page : ℕ → α) : Pipe α where
  data := page
  nread := 0
  nwrite := 0
  readopen := true
  writeopen := true

/-- `p->nwrite == p->nread + PIPESIZE`. -/
def Full (p : Pipe α) : Prop := p.nwrite = p.nread + BitVec.ofNat 32 PIPESIZE

instance (p : Pipe α) : Decidable p.Full := inferInstanceAs (Decidable (_ = _))

/-- `p->nread == p->nwrite`. -/
def Empty (p : Pipe α) : Prop := p.nread = p.nwrite

instance (p : Pipe α) : Decidable p.Empty := inferInstanceAs (Decidable (_ = _))

/-- `p->data[p->nwrite++ % PIPESIZE] = a`. -/
def store (p : Pipe α) (a : α) : Pipe α :=
  { p with
    data := update p.data (p.nwrite.toNat % PIPESIZE) a
    nwrite := p.nwrite + 1 }

/-- `p->data[p->nread++ % PIPESIZE]`. -/
def take (p : Pipe α) : α × Pipe α :=
  (p.data (p.nread.toNat % PIPESIZE), { p with nread := p.nread + 1 })

end Pipe

/-- How a stretch of `pipewrite` ends: all bytes are stored, the call gives up, or it sleeps. -/
inductive Stop where
  | done
  | refused
  | asleep
  deriving DecidableEq, Repr

/-- The loop of `pipewrite` from byte `i` on, with at most the given number of bytes left, up to
the next sleep: where it is then, how it ended, and the pipe. -/
def writeLoop (killed : Bool) (addr : ℕ → α) : ℕ → ℕ → Pipe α → ℕ × Stop × Pipe α
  | 0, i, p => (i, .done, p)
  | left + 1, i, p =>
      if p.Full then
        if p.readopen = false ∨ killed then (i, .refused, p) else (i, .asleep, p)
      else writeLoop killed addr left (i + 1) (p.store (addr i))

/-- The copying loop of `piperead`, for `n` bytes at most. -/
def readLoop : ℕ → Pipe α → List α × Pipe α
  | 0, p => ([], p)
  | n + 1, p =>
      if p.Empty then ([], p)
      else
        let (a, p) := p.take
        let (rest, p) := readLoop n p
        (a :: rest, p)

/-- What `piperead` does until it sleeps or returns: the bytes read, and nothing for `-1`. -/
inductive Reading (α : Type*) where
  | asleep
  | refused
  | got (bytes : List α)

/-- `piperead`, from its beginning or from its sleep on. -/
def piperead (killed : Bool) (n : ℤ) (p : Pipe α) : Reading α × Pipe α :=
  if p.Empty ∧ p.writeopen then (if killed then .refused else .asleep, p)
  else
    let (bytes, p) := readLoop n.toNat p
    (.got bytes, p)

/-- `pipeclose`. -/
def pipeclose (p : Pipe α) (writable : Bool) : Pipe α :=
  if writable then { p with writeopen := false } else { p with readopen := false }

/-! ### The system -/

/-- A call that sleeps: `pipewrite` with the number of the call and the next byte, or
`piperead`. -/
inductive Sleeper (α : Type*) where
  | write (call : ℕ) (addr : ℕ → α) (n : ℤ) (i : ℕ)
  | read (n : ℤ)

/-- A byte that was stored: by which process, in which call, as which byte of the call. -/
structure Stored (α : Type*) where
  p : ℕ
  call : ℕ
  i : ℕ
  byte : α

/-- A call that has returned, with what it returned. -/
inductive Return (α : Type*) where
  | write (p call : ℕ) (r : ℤ)
  | read (p : ℕ) (n : ℤ) (bytes : List α)
  | readRefused (p : ℕ) (n : ℤ)

/-- The bytes that a call has returned. -/
def Return.bytes : Return α → List α
  | .read _ _ bytes => bytes
  | _ => []

/-- What a stretch of `pipewrite` returns, if it returns. -/
def Stop.returns (p call : ℕ) (n : ℤ) : Stop → List (Return α)
  | .done => [.write p call n]
  | .refused => [.write p call (-1)]
  | .asleep => []

/-- The pipe, the sleeping call of each process, and what has happened so far. -/
structure System (α : Type*) where
  pipe : Pipe α
  sleeper : ℕ → Option (Sleeper α)
  calls : ℕ
  stored : List (Stored α)
  returns : List (Return α)

/-- The events. -/
inductive Act (α : Type*) where
  | write (p : ℕ) (addr : ℕ → α) (n : ℤ) (killed : Bool)
  | read (p : ℕ) (n : ℤ) (killed : Bool)
  | resume (p : ℕ) (killed : Bool)
  | close (writable : Bool)

namespace System

/-- A pipe that has just been made. -/
def boot (page : ℕ → α) : System α where
  pipe := .alloc page
  sleeper _ := none
  calls := 0
  stored := []
  returns := []

/-- The process `p` goes on with its call of `pipewrite` at byte `i`. -/
def write (s : System α) (p call : ℕ) (addr : ℕ → α) (n : ℤ) (i : ℕ) (killed : Bool) : System α :=
  let (j, stop, pipe) := writeLoop killed addr (n - i).toNat i s.pipe
  { s with
    pipe := pipe
    stored := s.stored ++ (List.range' i (j - i)).map fun k => ⟨p, call, k, addr k⟩
    sleeper := update s.sleeper p
      (if stop = .asleep then some (.write call addr n j) else none)
    returns := s.returns ++ stop.returns p call n }

/-- The process `p` goes on with its call of `piperead`. -/
def read (s : System α) (p : ℕ) (n : ℤ) (killed : Bool) : System α :=
  match piperead killed n s.pipe with
  | (.asleep, pipe) =>
      { s with pipe := pipe, sleeper := update s.sleeper p (some (.read n)) }
  | (.refused, pipe) =>
      { s with
        pipe := pipe
        sleeper := update s.sleeper p none
        returns := s.returns ++ [.readRefused p n] }
  | (.got bytes, pipe) =>
      { s with
        pipe := pipe
        sleeper := update s.sleeper p none
        returns := s.returns ++ [.read p n bytes] }

/-- One step. -/
def step (s : System α) (a : Act α) : Option (System α) :=
  if s.pipe.readopen = false ∧ s.pipe.writeopen = false then none
  else
    match a with
    | .write p addr n killed =>
        if (s.sleeper p).isNone then
          some ({ s with calls := s.calls + 1 }.write p s.calls addr n 0 killed)
        else none
    | .read p n killed => if (s.sleeper p).isNone then some (s.read p n killed) else none
    | .resume p killed =>
        match s.sleeper p with
        | none => none
        | some (.write call addr n i) => some (s.write p call addr n i killed)
        | some (.read n) => some (s.read p n killed)
    | .close writable => some { s with pipe := pipeclose s.pipe writable }

/-- The bytes stored, in order. -/
def bytes (s : System α) : List α := s.stored.map Stored.byte

/-- The bytes returned by the reads, in order. -/
def received (s : System α) : List α := s.returns.flatMap Return.bytes

end System

end Pipes
end Xv6
