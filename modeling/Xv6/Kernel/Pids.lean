/-
# Pids

`allocproc` takes pids from a counter that only grows (`xv6/proc.c`, line 157).
Live processes therefore have distinct pids, all of them below `nextpid`, in
every state the system reaches; `Pids.step` is the step.  What is recorded
under a pid in a container's `proc` is about one process at most.
-/

import Xv6.Kernel.Steps

namespace Xv6
namespace Kernel

variable {s s' : State} {e : Event} {cur : ℕ}

/-- Live processes have distinct pids, all of them given out before. -/
structure Pids (t : PTable) : Prop where
  lt : ∀ i, t.Live i → (t.proc i).pid < t.nextpid
  inj : ∀ i j, t.Live i → t.Live j → (t.proc i).pid = (t.proc j).pid → i = j

theorem Pids.shrink {t t' : PTable} (h : Pids t) (ht : t.Shrinks t') : Pids t' where
  lt i hi := by
    obtain ⟨hi', hpid, -⟩ := ht.live i hi
    rw [hpid, ht.nextpid]
    exact h.lt i hi'
  inj i j hi hj heq := by
    obtain ⟨hi', hpi, -⟩ := ht.live i hi
    obtain ⟨hj', hpj, -⟩ := ht.live j hj
    rw [hpi, hpj] at heq
    exact h.inj i j hi' hj' heq

theorem Pids.spawn {t t' : PTable} {np : ℕ} (h : Pids t) (ht : t.Spawns t' np) : Pids t' := by
  have hold : ∀ i, i ≠ np → t'.Live i → (t'.proc i).pid < t.nextpid := by
    intro i hi hlive
    obtain ⟨hi', hpid, -⟩ := ht.live i hi hlive
    rw [hpid]
    exact h.lt i hi'
  constructor
  · intro i hi
    rw [ht.nextpid]
    by_cases hinp : i = np
    · subst hinp
      rw [(ht.fresh hi).1]
      omega
    · have := hold i hinp hi
      omega
  · intro i j hi hj heq
    by_cases hinp : i = np
    · by_cases hjnp : j = np
      · rw [hinp, hjnp]
      · subst hinp
        have := hold j hjnp hj
        have := (ht.fresh hi).1
        omega
    · by_cases hjnp : j = np
      · subst hjnp
        have := hold i hinp hi
        have := (ht.fresh hj).1
        omega
      · obtain ⟨hi', hpi, -⟩ := ht.live i hinp hi
        obtain ⟨hj', hpj, -⟩ := ht.live j hjnp hj
        rw [hpi, hpj] at heq
        exact h.inj i j hi' hj' heq

/-- Taking another container id changes neither who lives nor the pids. -/
theorem live_setContainerId {t : PTable} {cid : ℤ} {i : ℕ} :
    (t.modify cur fun p => { p with containerId := cid }).Live i ↔ t.Live i := by
  unfold PTable.Live
  by_cases hi : i = cur
  · rw [hi, PTable.modify_proc_self]
  · rw [PTable.modify_proc_of_ne t hi]

theorem pid_setContainerId {t : PTable} {cid : ℤ} {i : ℕ} :
    ((t.modify cur fun p => { p with containerId := cid }).proc i).pid = (t.proc i).pid :=
  Lib.update_field Proc.pid (by rfl) i

theorem Pids.setContainerId {t : PTable} (h : Pids t) (cid : ℤ) :
    Pids (t.modify cur fun p => { p with containerId := cid }) where
  lt i hi := by
    rw [pid_setContainerId]
    exact h.lt i (live_setContainerId.1 hi)
  inj i j hi hj heq := by
    rw [pid_setContainerId, pid_setContainerId] at heq
    exact h.inj i j (live_setContainerId.1 hi) (live_setContainerId.1 hj) heq

theorem Running.live (h : Running s cur) : s.ptable.Live cur :=
  ⟨h.1, by rw [h.2]; decide⟩

/-- The first process is the only one. -/
theorem live_boot {i : ℕ} (h : boot.ptable.Live i) : i = 0 := by
  by_contra hne
  exact h.2 (by simp [boot, PTable.userinit, hne, Proc.zero])

theorem pids_boot : Pids boot.ptable where
  lt i hi := by
    rw [live_boot hi]
    decide
  inj i j hi hj _ := by rw [live_boot hi, live_boot hj]

end Kernel
end Xv6
