/-
# One round of the scheduler

The body of the loop of `scheduler` (`xv6/proc.c`, lines 412-500): ask the
container table for the container to run, scan the process table cyclically
from behind that container's last process for one that may run in its round,
record the choice and run it.  A process may run in a container's round if it
is `RUNNABLE` and belongs to the host or has its bit set in the container.  The
delivery of pending signals to the chosen process is left out.
-/

import Xv6.Kernel.ContainerTable
import Xv6.Kernel.ProcTable

namespace Xv6
namespace Kernel

open Lib

/-- `ptable` and `container_table`. -/
structure State where
  ptable : PTable
  containers : ContainerTable

/-- The two tests of the selection loop: neither of its `continue`s is taken. -/
def eligible (s : State) (cid i : ℕ) : Bool :=
  let p := s.ptable.proc i
  p.state = .runnable ∧ ¬ ((s.containers.container cid).proc p.pid = 0 ∧ p.containerId ≠ 0)

/-- The selection loop in the round of container `cid`. -/
def selectProcess (s : State) (cid : ℕ) : Option ℕ :=
  nextAfter NPROC (eligible s cid) (s.containers.container cid).lastProcess

/-- One round: the container whose round it is, the slot that is run, if any,
and the state when it starts to run. -/
def schedulerRound (s : State) : ℕ × Option ℕ × State :=
  let (cid, containers) := s.containers.getContainerToRun
  match selectProcess { s with containers := containers } cid with
  | none => (cid, none, { s with containers := containers })
  | some i =>
      (cid, some i,
        { ptable := s.ptable.dispatch i
          containers := containers.setLastProcessOfContainer i cid })

end Kernel
end Xv6
