/-
# The process table

`ptable` of `xv6/proc.c` with the operations that allocate, end and reap a
process (`allocproc`, `fork`, `exit`, `wait`: lines 138-390) and those that
move it between its states (`sleep`, `wakeup1`, `wakeup`, `kill`, `yield`:
lines 590-710).  A process is named by its slot.  Of `struct proc` the model
keeps what these functions and the scheduler read: the state, the pid, the
parent, the channel slept on, the killed mark and the container id.  The
kernel stack, the page table, the open files and the signal fields take part
only through the two allocations that can fail, which are arguments of `fork`.

`wait` and `sleep` are cut at their `sched`: one call of `wait` is one turn of
its loop, which reaps a child, gives up, or puts the caller to sleep.
-/

import Xv6.Param

namespace Xv6
namespace Kernel

/-- `enum procstate`. -/
inductive ProcState where
  | unused
  | embryo
  | sleeping
  | runnable
  | running
  | zombie
  deriving DecidableEq, Repr

/-- A sleep channel, `void *chan`: the address of a process slot, or any other
word, among them `0` and the pids that `sleep_receiver` uses. -/
inductive Chan where
  | addr (a : ℤ)
  | slot (i : ℕ)
  deriving DecidableEq, Repr

/-- `struct proc`, as far as process management reads it. -/
structure Proc where
  state : ProcState
  pid : ℕ
  parent : Option ℕ
  chan : Chan
  killed : Bool
  containerId : ℤ
  deriving DecidableEq, Repr

/-- A slot of the zeroed table. -/
def Proc.zero : Proc where
  state := .unused
  pid := 0
  parent := none
  chan := .addr 0
  killed := false
  containerId := 0

/-- `ptable.proc` by slot, `nextpid` and `initproc`. -/
structure PTable where
  proc : ℕ → Proc
  nextpid : ℕ
  initproc : ℕ

namespace PTable

/-- Rewrite one slot. -/
def modify (t : PTable) (i : ℕ) (f : Proc → Proc) : PTable :=
  { t with proc := Function.update t.proc i (f (t.proc i)) }

@[simp] theorem modify_nextpid (t : PTable) (i : ℕ) (f : Proc → Proc) :
    (t.modify i f).nextpid = t.nextpid := rfl

@[simp] theorem modify_initproc (t : PTable) (i : ℕ) (f : Proc → Proc) :
    (t.modify i f).initproc = t.initproc := rfl

@[simp] theorem modify_proc_self (t : PTable) (i : ℕ) (f : Proc → Proc) :
    (t.modify i f).proc i = f (t.proc i) := Function.update_self ..

theorem modify_proc_of_ne (t : PTable) {i j : ℕ} (h : j ≠ i) (f : Proc → Proc) :
    (t.modify i f).proc j = t.proc j := Function.update_of_ne h ..

theorem modify_proc (t : PTable) (i j : ℕ) (f : Proc → Proc) :
    (t.modify i f).proc j = if j = i then f (t.proc i) else t.proc j :=
  Function.update_apply ..

/-- The loops over `ptable.proc` that stop at the first slot with a property. -/
def firstSlot (t : PTable) (p : Proc → Bool) : Option ℕ :=
  (List.range NPROC).find? fun i => p (t.proc i)

/-! ### Sleeping and waking -/

/-- `wakeup1`: every process sleeping on `chan` becomes `RUNNABLE`. -/
def wakeup1 (t : PTable) (chan : Chan) : PTable :=
  { t with proc := fun i =>
      if (t.proc i).state = .sleeping ∧ (t.proc i).chan = chan then
        { t.proc i with state := .runnable }
      else t.proc i }

/-- `wakeup` takes the lock around `wakeup1`. -/
def wakeup (t : PTable) (chan : Chan) : PTable := t.wakeup1 chan

/-- `sleep` up to its `sched`. -/
def sleep (t : PTable) (cur : ℕ) (chan : Chan) : PTable :=
  t.modify cur fun p => { p with chan := chan, state := .sleeping }

/-- `yield` up to its `sched`. -/
def yield (t : PTable) (cur : ℕ) : PTable :=
  t.modify cur fun p => { p with state := .runnable }

/-- The scheduler's choice starts to run.  A process that comes back from
`sleep` clears its channel before it does anything else. -/
def dispatch (t : PTable) (i : ℕ) : PTable :=
  t.modify i fun p => { p with state := .running, chan := .addr 0 }

/-- `kill`: the first slot with that pid, in use or not. -/
def kill (t : PTable) (pid : ℤ) : ℤ × PTable :=
  match t.firstSlot fun p => p.pid == pid with
  | none => (-1, t)
  | some i => (0, t.modify i fun p =>
      { p with
        killed := true
        state := if p.state = .sleeping then .runnable else p.state })

/-! ### Creation -/

/-- `allocproc`.  `kstack` tells whether the kernel stack could be allocated;
if not, the slot goes back to `UNUSED` with the pid it was given. -/
def allocproc (t : PTable) (kstack : Bool) : Option ℕ × PTable :=
  match t.firstSlot fun p => p.state = .unused with
  | none => (none, t)
  | some i =>
      let t := { t.modify i fun p => { p with state := .embryo, pid := t.nextpid } with
        nextpid := t.nextpid + 1 }
      if kstack then (some i, t.modify i fun p => { p with containerId := 0 })
      else (none, t.modify i fun p => { p with state := .unused })

/-- `fork` by the process in slot `cur`.  `pgdir` tells whether `copyuvm` found
the memory for the copy. -/
def fork (t : PTable) (cur : ℕ) (kstack pgdir : Bool) : ℤ × PTable :=
  match t.allocproc kstack with
  | (none, t) => (-1, t)
  | (some np, t) =>
      if pgdir then
        ((t.proc np).pid, t.modify np fun p => { p with parent := some cur, state := .runnable })
      else (-1, t.modify np fun p => { p with state := .unused })

/-- The table after `userinit`: one process, which becomes `initproc`. -/
def userinit : PTable where
  proc := Function.update (fun _ => Proc.zero) 0 { Proc.zero with state := .runnable, pid := 1 }
  nextpid := 2
  initproc := 0

/-! ### The end of a process -/

/-- The channel of a parent pointer. -/
def parentChan : Option ℕ → Chan
  | none => .addr 0
  | some i => .slot i

/-- One turn of the loop of `exit` that hands the children to `initproc`. -/
def reparent (cur : ℕ) (t : PTable) (i : ℕ) : PTable :=
  if (t.proc i).parent = some cur then
    let t := t.modify i fun p => { p with parent := some t.initproc }
    if (t.proc i).state = .zombie then t.wakeup1 (.slot t.initproc) else t
  else t

/-- `exit` by the process in slot `cur`. -/
def exit (t : PTable) (cur : ℕ) : Except Halt PTable :=
  if cur = t.initproc then .error (.panic "init exiting")
  else
    let t := t.wakeup1 (parentChan (t.proc cur).parent)
    let t := (List.range NPROC).foldl (reparent cur) t
    .ok (t.modify cur fun p => { p with state := .zombie })

/-- What one turn of `wait` ends in. -/
inductive WaitResult where
  | reaped (pid : ℕ)
  | failed
  | asleep
  deriving DecidableEq, Repr

/-- One turn of the loop of `wait`.  A reaped slot keeps its container id. -/
def wait (t : PTable) (cur : ℕ) : WaitResult × PTable :=
  match t.firstSlot fun p => p.parent = some cur ∧ p.state = .zombie with
  | some i =>
      (.reaped (t.proc i).pid, t.modify i fun p =>
        { p with pid := 0, parent := none, killed := false, state := .unused })
  | none =>
      if (t.firstSlot fun p => p.parent = some cur).isNone ∨ (t.proc cur).killed then (.failed, t)
      else (.asleep, t.sleep cur (.slot cur))

end PTable
end Kernel
end Xv6
