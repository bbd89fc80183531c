/-
# System calls on the two tables

The container calls of `xv6/sysproc.c` (lines 266-302) with
`destroy_container_processes` (`xv6/proc.c`, lines 860-875), and the step
function of the system they form with process creation, termination, sleep,
wakeup and the scheduler.  Each call is one step, made by the process of a
slot that is `RUNNING`; a call that panics or leaves an array has no successor
state.
-/

import Xv6.Kernel.Scheduler

namespace Xv6
namespace Kernel

/-- `destroy_container_processes`.  The loop holds `ptable.lock` when it calls
`kill`, which acquires it again: the first slot that the loop finds, in use or
not, stops the kernel. -/
def PTable.destroyContainerProcesses (t : PTable) (pid : ℕ) (a pcid : ℤ) : Except Halt PTable :=
  match t.firstSlot fun p => p.containerId = a ∧ p.pid ≠ pid with
  | some _ => .error (.panic "acquire")
  | none => .ok (if pcid = a then (t.kill pid).2 else t)

/-- The state in which the machine starts its first process. -/
def boot : State where
  ptable := PTable.userinit
  containers := ContainerTable.containerInit

/-- `sys_create_container`. -/
def sysCreateContainer (s : State) : ℤ × State :=
  (s.containers.getContainer.1, { s with containers := s.containers.getContainer.2 })

/-- `sys_destroy_container`. -/
def sysDestroyContainer (s : State) (cur : ℕ) (containerId : ℤ) : Except Halt (ℤ × State) := do
  let p := s.ptable.proc cur
  let containers ← s.containers.destroyContainerKernel containerId
  let ptable ← s.ptable.destroyContainerProcesses p.pid containerId p.containerId
  .ok (0, ⟨ptable, containers⟩)

/-- `sys_join_container`: the process takes the container id before the table is asked. -/
def sysJoinContainer (s : State) (cur : ℕ) (containerId : ℤ) : Except Halt (ℤ × State) := do
  let ptable := s.ptable.modify cur fun p => { p with containerId := containerId }
  let (stat, containers) ←
    s.containers.setProcessToContainer (s.ptable.proc cur).pid containerId
  .ok (stat, ⟨ptable, containers⟩)

/-- `sys_leave_container`. -/
def sysLeaveContainer (s : State) (cur : ℕ) : Except Halt (ℤ × State) := do
  let p := s.ptable.proc cur
  if p.containerId = 0 then .ok (-1, s)
  else
    let (stat, containers) ← s.containers.removeProcessFromContainer p.pid p.containerId
    .ok (stat, ⟨s.ptable.modify cur fun p => { p with containerId := 0 }, containers⟩)

/-- What the process of a slot can do. -/
inductive Call where
  | createContainer
  | destroyContainer (containerId : ℤ)
  | joinContainer (containerId : ℤ)
  | leaveContainer
  | fork (kstack pgdir : Bool)
  | exit
  | wait
  | kill (pid : ℤ)
  | sleep (chan : Chan)
  | yield
  deriving DecidableEq, Repr

/-- A call by a slot's process, a `wakeup` by anyone, an interrupt among them,
or a round of the scheduler. -/
inductive Event where
  | call (cur : ℕ) (c : Call)
  | wakeup (chan : Chan)
  | schedule
  deriving DecidableEq, Repr

/-- The state after a call by the process in slot `cur`. -/
def exec (s : State) (cur : ℕ) : Call → Except Halt State
  | .createContainer => .ok (sysCreateContainer s).2
  | .destroyContainer a => (sysDestroyContainer s cur a).map Prod.snd
  | .joinContainer c => (sysJoinContainer s cur c).map Prod.snd
  | .leaveContainer => (sysLeaveContainer s cur).map Prod.snd
  | .fork kstack pgdir => .ok { s with ptable := (s.ptable.fork cur kstack pgdir).2 }
  | .exit => (s.ptable.exit cur).map fun t => { s with ptable := t }
  | .wait => .ok { s with ptable := (s.ptable.wait cur).2 }
  | .kill pid => .ok { s with ptable := (s.ptable.kill pid).2 }
  | .sleep chan => .ok { s with ptable := s.ptable.sleep cur chan }
  | .yield => .ok { s with ptable := s.ptable.yield cur }

/-- A slot of the table whose process runs on some CPU. -/
def Running (s : State) (cur : ℕ) : Prop :=
  cur < NPROC ∧ (s.ptable.proc cur).state = .running

instance (s : State) (cur : ℕ) : Decidable (Running s cur) :=
  inferInstanceAs (Decidable (_ ∧ _))

/-- One step of the system. -/
def step (s : State) : Event → Option State
  | .call cur c => if Running s cur then (exec s cur c).toOption else none
  | .wakeup chan => some { s with ptable := s.ptable.wakeup chan }
  | .schedule => some (schedulerRound s).2.2

end Kernel
end Xv6
