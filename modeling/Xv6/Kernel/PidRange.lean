/-
# Pids as indices

The kernel indexes four arrays by pid: `container.proc` and `procbuffer_lock`,
with `NPROC` entries each, and `queue_lock` and `message_queue`, with
`NUMOFMESSAGEQUEUES`.  None of the functions that do so (`scheduler`,
`set_process_to_container`, `remove_process_from_container`, `send_message`,
`receive_msg`, `sent_to_proc_buffer`) looks at the pid first.

`nextpid` only grows, so a live pid is within the arrays exactly as long as no
fork that succeeds takes one beyond them (`pids_index_tables`); the 63rd child
of the first process already does (`pid_beyond_tables`).
-/

import Xv6.Lib.Run
import Xv6.Kernel.Pids

namespace Xv6
namespace Kernel

open Lib

variable {s s' : State} {e : Event}

/-- A pid that is an index of each array the kernel indexes by pid. -/
structure IndexesTables (pid : ℕ) : Prop where
  proc : pid < NPROC
  queue : pid < NUMOFMESSAGEQUEUES

instance (pid : ℕ) : Decidable (IndexesTables pid) :=
  decidable_of_iff (pid < NPROC ∧ pid < NUMOFMESSAGEQUEUES)
    ⟨fun h => ⟨h.1, h.2⟩, fun h => ⟨h.proc, h.queue⟩⟩

/-- The arrays have one length. -/
theorem IndexesTables.of_lt {pid : ℕ} (h : pid < NPROC) : IndexesTables pid where
  proc := h
  queue := by
    unfold NUMOFMESSAGEQUEUES
    exact h

/-- A fork is made while the counter is below `NPROC`, or there is no free slot, no page for the
stack or none for the page table. -/
def ForksInRange (s : State) : Event → Prop
  | .call _ (.fork kstack pgdir) =>
      s.ptable.nextpid < NPROC ∨ (s.ptable.firstSlot fun p => p.state = .unused) = none ∨
        kstack = false ∨ pgdir = false
  | _ => True

instance (s : State) (e : Event) : Decidable (ForksInRange s e) := by
  unfold ForksInRange
  split <;> infer_instance

/-- Every live pid is an index. -/
def PidsInRange (s : State) : Prop := ∀ i, s.ptable.Live i → (s.ptable.proc i).pid < NPROC

theorem PidsInRange.shrink (h : PidsInRange s) (ht : s.ptable.Shrinks s'.ptable) :
    PidsInRange s' := by
  intro i hi
  obtain ⟨hi', hpid, -⟩ := ht.live i hi
  rw [hpid]
  exact h i hi'

theorem PTable.fork_fails {t : PTable} {kstack pgdir : Bool} (cur : ℕ)
    (h : (t.firstSlot fun p => p.state = .unused) = none ∨ kstack = false ∨ pgdir = false) :
    (t.fork cur kstack pgdir).1 = -1 := by
  cases hslot : t.firstSlot fun p => p.state = .unused with
  | none => simp [PTable.fork, PTable.allocproc, hslot]
  | some k =>
    obtain rfl | rfl := h.resolve_left (by rw [hslot]; exact Option.some_ne_none k)
    · cases pgdir <;> simp [PTable.fork, PTable.allocproc, hslot]
    · cases kstack <;> simp [PTable.fork, PTable.allocproc, hslot]

/-- A fork that takes a slot and fails gives it back: what lives afterwards is elsewhere. -/
theorem PTable.ne_of_fork_fails {t : PTable} {cur i k : ℕ} {kstack pgdir : Bool}
    (hslot : (t.firstSlot fun p => p.state = .unused) = some k)
    (hfail : (t.fork cur kstack pgdir).1 = -1) (h : (t.fork cur kstack pgdir).2.Live i) :
    i ≠ k := by
  rintro rfl
  have hstate := h.2
  revert hfail hstate
  cases kstack <;> cases pgdir <;> simp [PTable.fork, PTable.allocproc, hslot]

/-- A process found after a fork was there before, or it is the child of a fork that
succeeded and has the next pid. -/
theorem PTable.live_fork {t : PTable} {cur i : ℕ} {kstack pgdir : Bool}
    (h : (t.fork cur kstack pgdir).2.Live i) :
    (t.Live i ∧ ((t.fork cur kstack pgdir).2.proc i).pid = (t.proc i).pid) ∨
      (((t.fork cur kstack pgdir).2.proc i).pid = t.nextpid ∧
        (t.fork cur kstack pgdir).1 ≠ -1) := by
  cases hslot : t.firstSlot fun p => p.state = .unused with
  | none =>
    have hsame : (t.fork cur kstack pgdir).2 = t := by simp [PTable.fork, PTable.allocproc, hslot]
    rw [hsame] at h ⊢
    exact .inl ⟨h, rfl⟩
  | some k =>
    by_cases hik : i = k
    · have hsucc : (t.fork cur kstack pgdir).1 ≠ -1 := fun hfail =>
        PTable.ne_of_fork_fails hslot hfail h hik
      have hpid : ((t.fork cur kstack pgdir).2.proc i).pid = t.nextpid := by
        subst hik
        cases kstack <;> cases pgdir <;> simp [PTable.fork, PTable.allocproc, hslot]
      exact .inr ⟨hpid, hsucc⟩
    · have hother : (t.fork cur kstack pgdir).2.proc i = t.proc i := by
        cases kstack <;> cases pgdir <;>
          simp [PTable.fork, PTable.allocproc, hslot, PTable.modify_proc_of_ne, hik]
      unfold PTable.Live at h
      rw [hother] at h ⊢
      exact .inl ⟨h, rfl⟩

theorem PidsInRange.step (h : PidsInRange s) (hok : ForksInRange s e)
    (hs : Kernel.step s e = some s') : PidsInRange s' := by
  cases step_shape hs with
  | shrink ht _ => exact h.shrink ht
  | @spawn cur kstack pgdir np ht _ =>
    have hfork : s'.ptable = (s.ptable.fork cur kstack pgdir).2 := by
      unfold Kernel.step at hs
      dsimp only at hs
      split at hs
      · cases hs
        rfl
      · cases hs
    intro i hi
    rw [hfork] at hi ⊢
    obtain ⟨hlive, hpid⟩ | ⟨hpid, hsucc⟩ := PTable.live_fork hi
    · rw [hpid]
      exact h i hlive
    · rw [hpid]
      exact hok.resolve_right fun hno => hsucc (PTable.fork_fails cur hno)
  | create _ _ ht _ =>
    unfold PidsInRange
    rwa [ht]
  | destroy _ _ _ ht _ => exact h.shrink ht
  | join _ _ ht _ | leave _ _ _ _ ht _ =>
    intro i hi
    rw [ht] at hi ⊢
    rw [pid_setContainerId]
    exact h i (live_setContainerId.1 hi)

theorem pidsInRange_boot : PidsInRange boot := by
  intro i hi
  rw [live_boot hi]
  decide

/-- A pid within the array is recorded and removed without leaving it. -/
theorem ContainerTable.writeProcess_in_range {bit : ℤ} {t : ContainerTable} {pid c : ℕ}
    (hpid : pid < NPROC) (hc : c < NCONTAINER) : ∃ r, writeProcess bit t pid c = .ok r := by
  have hindex : index (c : ℤ) = .ok c := by
    unfold index
    rw [if_pos (by omega)]
    rfl
  unfold writeProcess
  simp only [hindex, bind, Except.bind]
  split_ifs with hdead
  · exact ⟨_, rfl⟩
  · exact ⟨_, rfl⟩

/-- **Live pids are indices.**  In every run in which each fork that succeeds is made while
`nextpid` is below `NPROC`, every live process of every state reached has a pid within the
arrays, and recording it in a container or removing it stays within the record. -/
theorem pids_index_tables (s : State) (h : Reach step ForksInRange boot s) (i : ℕ)
    (hi : s.ptable.Live i) :
    IndexesTables (s.ptable.proc i).pid ∧ ∀ c < NCONTAINER,
      (∃ r, s.containers.setProcessToContainer (s.ptable.proc i).pid c = .ok r) ∧
      ∃ r, s.containers.removeProcessFromContainer (s.ptable.proc i).pid c = .ok r := by
  have hinv : PidsInRange s :=
    h.invariant pidsInRange_boot fun _ _ _ hx hok hs => hx.step hok hs
  refine ⟨.of_lt (hinv i hi), fun c hc => ⟨?_, ?_⟩⟩
  · exact ContainerTable.writeProcess_in_range (hinv i hi) hc
  · exact ContainerTable.writeProcess_in_range (hinv i hi) hc

/-- The first process forks. -/
theorem pids_index_tables_fork :
    ∃ s, Reach step ForksInRange boot s ∧ (s.ptable.proc 1).pid = 2 ∧ IndexesTables 2 := by
  obtain ⟨s, hs, hlive, hpid⟩ : ∃ s, Reach step ForksInRange boot s ∧
      s.ptable.Live 1 ∧ (s.ptable.proc 1).pid = 2 :=
    exists_reach_of_any [.schedule, .call 0 (.fork true true)] (by decide +kernel)
  have hindex := (pids_index_tables s hs 1 hlive).1
  rw [hpid] at hindex
  exact ⟨s, hs, hpid, hindex⟩

/-- **The 63rd child.**  Sixty-four processes fit into the table, but the last one has
pid 64, and to record it in container 1 is to write behind the array. -/
theorem pid_beyond_tables : ∃ s, Reach step anyStep boot s ∧
    s.ptable.Live 63 ∧ ¬ IndexesTables (s.ptable.proc 63).pid ∧
    (s.containers.setProcessToContainer (s.ptable.proc 63).pid 1).isOk = false := by
  obtain ⟨s, hs, hlive, hpid, hwild⟩ : ∃ s, Reach step anyStep boot s ∧
      s.ptable.Live 63 ∧ (s.ptable.proc 63).pid = 64 ∧
      (s.containers.setProcessToContainer (s.ptable.proc 63).pid 1).isOk = false :=
    exists_reach_of_any
      (.schedule :: .call 0 .createContainer :: List.replicate 63 (.call 0 (.fork true true)))
      (by decide +kernel)
  refine ⟨s, hs, hlive, fun hindex => ?_, hwild⟩
  have hlt := hindex.proc
  rw [hpid] at hlt
  exact absurd hlt (by decide)

end Kernel
end Xv6
