/-
# Runnable processes that no round runs

The scheduler runs a process in the rounds of the containers that have its bit
set, and in all rounds if it belongs to the host.  `Schedulable s i` says that
some container `get_container_to_run` can come to has the process of slot `i`
among its eligible ones.

A process whose container id is that of a dead container is in no such round:
it stays `RUNNABLE` for ever.  `sys_join_container` makes one by taking over the
id it is given before the container table refuses it, and
`sys_destroy_container` makes one of a caller that belongs to the container.
In every run in which processes join only the host or alive containers and no
member destroys its container, `schedulable_of_reach` has every `RUNNABLE`
process schedulable in every state reached.
-/

import Xv6.Lib.Run
import Xv6.Kernel.Pids

namespace Xv6
namespace Kernel

open Lib

/-- The container table after `k` calls of `get_container_to_run`. -/
def ContainerTable.afterRounds (t : ContainerTable) : ℕ → ContainerTable
  | 0 => t
  | k + 1 => (t.afterRounds k).getContainerToRun.2

/-- `get_container_to_run` returns `cid` in some round from `s` on, if the
containers stay as they are. -/
def CanReturn (s : State) (cid : ℕ) : Prop :=
  ∃ k, (s.containers.afterRounds k).getContainerToRun.1 = cid

/-- Some round can run the process in slot `i`. -/
def Schedulable (s : State) (i : ℕ) : Prop :=
  ∃ cid, CanReturn s cid ∧ eligible s cid i = true

/-- No `RUNNABLE` process is stranded. -/
def AllSchedulable (s : State) : Prop :=
  ∀ i < NPROC, (s.ptable.proc i).state = .runnable → Schedulable s i

/-! ### The containers whose rounds come -/

namespace ContainerTable

variable {t : ContainerTable} {cid : ℕ}

theorem afterRounds_container (k : ℕ) : (t.afterRounds k).container = t.container := by
  induction k with
  | zero => rfl
  | succ k ih => rw [afterRounds, getContainerToRun_container, ih]

/-- While some container is alive each call moves on to the next hit of the scan. -/
theorem nextAfter_afterRounds (hlt : cid < NCONTAINER) (h : (t.container cid).status = .alive)
    (k : ℕ) :
    nextAfter NCONTAINER (fun c => (t.container c).status = .alive)
        (t.afterRounds k).currentContainer = some (t.afterRounds (k + 1)).currentContainer ∧
      (t.afterRounds k).getContainerToRun.1 = (t.afterRounds (k + 1)).currentContainer := by
  obtain ⟨j, hj⟩ := nextAfter_isSome (p := fun c => (t.container c).status = .alive) hlt
    (decide_eq_true h) (t.afterRounds k).currentContainer
  have hj' := hj
  rw [← afterRounds_container (t := t) k] at hj'
  rw [hj, afterRounds]
  unfold getContainerToRun
  rw [hj']
  exact ⟨rfl, rfl⟩

/-- **Every alive container has its round.** -/
theorem exists_afterRounds (hlt : cid < NCONTAINER) (h : (t.container cid).status = .alive) :
    ∃ k, (t.afterRounds k).getContainerToRun.1 = cid := by
  have hrounds := rounds_of_cursor (x := fun k => (t.afterRounds k).currentContainer)
    (fun k => (nextAfter_afterRounds hlt h k).1)
    ((List.range NCONTAINER).filter fun c => (t.container c).status = .alive).length 0
  have hmem : cid ∈ (List.range NCONTAINER).filter fun c => (t.container c).status = .alive :=
    List.mem_filter.2 ⟨List.mem_range.2 hlt, decide_eq_true h⟩
  rw [← (rounds_perm (by decide) (t.afterRounds 0).currentContainer).mem_iff, hrounds,
    List.mem_map] at hmem
  obtain ⟨k, -, hk⟩ := hmem
  exact ⟨k, (nextAfter_afterRounds hlt h k).2.trans hk⟩

end ContainerTable

/-! ### The invariant -/

/-- The runs that strand nobody: a process joins the host or an alive
container, no container is destroyed by a member, and pids stay indices of
`proc`. -/
def JoinsAlive (s : State) : Event → Prop
  | .call _ (.joinContainer c) => c = 0 ∨ (s.containers.container c.toNat).status = .alive
  | .call cur (.destroyContainer a) => (s.ptable.proc cur).containerId = a → a = 0
  | .call _ (.fork _ _) => s.ptable.nextpid < NPROC
  | _ => True

/-- The process in slot `i` belongs to the host, or to an alive container that has its bit. -/
def AtHome (s : State) (i : ℕ) : Prop :=
  (s.ptable.proc i).containerId = 0 ∨ ∃ c < NCONTAINER, (s.ptable.proc i).containerId = c ∧
    (s.containers.container c).status = .alive ∧
    (s.containers.container c).proc (s.ptable.proc i).pid ≠ 0

theorem AtHome.schedulable {s : State} {i : ℕ} (h : AtHome s i)
    (hstate : (s.ptable.proc i).state = .runnable) : Schedulable s i := by
  obtain hhost | ⟨c, hc, -, halive, hbit⟩ := h
  · exact ⟨_, ⟨0, rfl⟩, decide_eq_true ⟨hstate, fun hno => hno.2 hhost⟩⟩
  · exact ⟨c, ContainerTable.exists_afterRounds hc halive,
      decide_eq_true ⟨hstate, fun hno => hbit hno.1⟩⟩

/-- Distinct pids, and every live process at home. -/
structure HomeInv (s : State) : Prop where
  pids : Pids s.ptable
  home : ∀ i, s.ptable.Live i → AtHome s i

namespace HomeInv

variable {s s' : State} {e : Event} {cur n : ℕ}

theorem of_boot : HomeInv boot where
  pids := pids_boot
  home i hi := by
    rw [live_boot hi]
    exact .inl rfl

theorem shrink (h : HomeInv s) (ht : s.ptable.Shrinks s'.ptable)
    (hc : s.containers.SameMembers s'.containers) : HomeInv s' where
  pids := h.pids.shrink ht
  home i hi := by
    obtain ⟨hi', hpid, hcid⟩ := ht.live i hi
    unfold AtHome
    simp only [hpid, hcid, (hc _).1, (hc _).2]
    exact h.home i hi'

theorem spawn {np : ℕ} (h : HomeInv s) (ht : s.ptable.Spawns s'.ptable np)
    (hc : s'.containers = s.containers) : HomeInv s' where
  pids := h.pids.spawn ht
  home i hi := by
    by_cases hinp : i = np
    · subst hinp
      exact .inl (ht.fresh hi).2
    · obtain ⟨hi', hpid, hcid⟩ := ht.live i hinp hi
      unfold AtHome
      rw [hpid, hcid, hc]
      exact h.home i hi'

theorem create (h : HomeInv s) (ht : s'.ptable = s.ptable)
    (hc : s'.containers = s.containers.modify n fun c => { c with status := .alive }) :
    HomeInv s' where
  pids := ht ▸ h.pids
  home i hi := by
    rw [ht] at hi
    unfold AtHome
    rw [ht]
    refine (h.home i hi).imp_right ?_
    rintro ⟨c, hclt, hcid, halive, hbit⟩
    refine ⟨c, hclt, hcid, ?_⟩
    rw [hc]
    by_cases hcn : c = n
    · rw [hcn, ContainerTable.modify_container_self]
      exact ⟨rfl, hcn ▸ hbit⟩
    · rw [ContainerTable.modify_container_of_ne _ hcn]
      exact ⟨halive, hbit⟩

theorem destroy (h : HomeInv s) (hcur : Running s cur)
    (hlone : ∀ i < NPROC, (s.ptable.proc i).containerId = n →
      (s.ptable.proc i).pid = (s.ptable.proc cur).pid)
    (hid : (s.ptable.proc cur).containerId = n → (n : ℤ) = 0) (ht : s.ptable.Shrinks s'.ptable)
    (hc : s'.containers = s.containers.modify n ContainerTable.destroyed) : HomeInv s' where
  pids := h.pids.shrink ht
  home i hi := by
    obtain ⟨hi', hpid, hcid⟩ := ht.live i hi
    unfold AtHome
    rw [hpid, hcid]
    obtain hhost | ⟨c, hclt, hicid, hmember⟩ := h.home i hi'
    · exact .inl hhost
    · by_cases hcn : c = n
      · -- only the caller can have the id of the destroyed container
        subst hcn
        obtain rfl := h.pids.inj i cur hi' hcur.live (hlone i hi'.1 hicid)
        exact .inl (hicid.trans (hid hicid))
      · refine .inr ⟨c, hclt, hicid, ?_⟩
        rw [hc, ContainerTable.modify_container_of_ne _ hcn]
        exact hmember

/-- The caller takes the id `cid` while its word in `n` becomes `bit`. -/
theorem write {bit cid : ℤ} (h : HomeInv s) (hcur : Running s cur)
    (hhome : cid = 0 ∨ n < NCONTAINER ∧ cid = n ∧ bit ≠ 0 ∧
      (s.containers.container n).status = .alive)
    (ht : s'.ptable = s.ptable.modify cur fun p => { p with containerId := cid })
    (hc : s.containers.Written bit (s.ptable.proc cur).pid n s'.containers) : HomeInv s' where
  pids := ht ▸ h.pids.setContainerId cid
  home i hi := by
    rw [ht, live_setContainerId] at hi
    unfold AtHome
    rw [ht, pid_setContainerId]
    by_cases hicur : i = cur
    · subst hicur
      rw [PTable.modify_proc_self]
      refine hhome.imp_right ?_
      rintro ⟨hlt, hcid, hbit, halive⟩
      obtain ⟨hdead, -⟩ | ⟨-, hc⟩ := hc
      · rw [halive] at hdead
        cases hdead
      · refine ⟨n, hlt, hcid, ?_⟩
        rw [hc, ContainerTable.writeBit_status, ContainerTable.writeBit_proc, if_pos ⟨rfl, rfl⟩]
        exact ⟨halive, hbit⟩
    · rw [PTable.modify_proc_of_ne _ hicur]
      refine (h.home i hi).imp_right ?_
      rintro ⟨c, hclt, hcid, hmember⟩
      refine ⟨c, hclt, hcid, ?_⟩
      obtain ⟨-, hc⟩ | ⟨-, hc⟩ := hc
      · rw [hc]
        exact hmember
      · rw [hc, ContainerTable.writeBit_status, ContainerTable.writeBit_proc, if_neg]
        · exact hmember
        · exact fun heq => hicur (h.pids.inj i cur hi hcur.live heq.2)

theorem step (h : HomeInv s) (hok : JoinsAlive s e) (hs : Shape s s' e) : HomeInv s' := by
  cases hs with
  | shrink ht hc => exact h.shrink ht hc
  | spawn np ht hc => exact h.spawn ht hc
  | create _ _ ht hc => exact h.create ht hc
  | destroy hcur _ hlone ht hc => exact h.destroy hcur hlone hok ht hc
  | join hcur hn ht hc =>
    refine h.write hcur ?_ ht hc
    exact Or.imp_right (fun halive => ⟨hn, rfl, by decide, halive⟩) hok
  | leave hcur _ _ _ ht hc => exact h.write hcur (.inl rfl) ht hc

end HomeInv

/-- **No runnable process is stranded.**  In every run in which processes join
only the host or alive containers and no member destroys its container, every
`RUNNABLE` process of every state reached is eligible in a round that comes. -/
theorem schedulable_of_reach (s : State) (h : Reach step JoinsAlive boot s) :
    AllSchedulable s := by
  have hinv : HomeInv s :=
    h.invariant HomeInv.of_boot fun _ _ _ hx hok hs => hx.step hok (step_shape hs)
  intro i hi hstate
  exact (hinv.home i ⟨hi, by rw [hstate]; decide⟩).schedulable hstate

/-- The first process creates a container, joins it and is preempted. -/
theorem schedulable_of_reach_join :
    ∃ s, Reach step JoinsAlive boot s ∧ (s.ptable.proc 0).containerId = 1 ∧
      (s.ptable.proc 0).state = .runnable ∧ AllSchedulable s := by
  have hrun : Reach step JoinsAlive boot (schedulerRound boot).2.2 :=
    Reach.refl.tail Event.schedule trivial rfl
  have hcreate := hrun.tail (.call 0 .createContainer) trivial rfl
  have hjoin := hcreate.tail (.call 0 (.joinContainer 1)) (.inr rfl) rfl
  have hyield := hjoin.tail (.call 0 .yield) trivial rfl
  exact ⟨_, hyield, rfl, rfl, schedulable_of_reach _ hyield⟩

/-- **Joining a dead container strands the process.**  Once it has slept and is
woken it stays `RUNNABLE`: its container id is not the host's, and no container
has its bit. -/
theorem join_dead_stranded : ∃ s, Reach step anyStep boot s ∧ ¬ AllSchedulable s := by
  refine ⟨_, reach_of_foldlM [.schedule, .call 0 (.joinContainer 5), .call 0 (.sleep (.addr 9)),
    .wakeup (.addr 9)] rfl, fun h => ?_⟩
  obtain ⟨cid, -, helig⟩ := h 0 (by decide) rfl
  refine (of_decide_eq_true helig).2 ⟨?_, by decide⟩
  exact congrFun ((sameMembers_schedulerRound (s := boot) cid).2) _

end Kernel
end Xv6
