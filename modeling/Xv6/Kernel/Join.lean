/-
# A join that fails

`sys_join_container` (`xv6/sysproc.c`, lines 283-291) writes the id it is given
into the caller's `container_id` and only then asks `set_process_to_container`
(`xv6/container_manager.c`, lines 83-95) for the container.  A dead container
is answered with `-1`, and the id stays.  So a failed join changes nothing only
where the process had that id before: in the runs of `JoinsWithin`, which leave
out all other joins of a container that is not alive, every failed join leaves
both tables as they were, and every process has an id of the table.
-/

import Xv6.Kernel.Membership

namespace Xv6
namespace Kernel

open Lib

/-- An alive container other than the host. -/
def AliveContainer (s : State) (c : ℤ) : Prop :=
  1 ≤ c ∧ c < NCONTAINER ∧ (s.containers.container c.toNat).status = .alive

instance (s : State) (c : ℤ) : Decidable (AliveContainer s c) :=
  inferInstanceAs (Decidable (_ ∧ _ ∧ _))

/-- Every join is one of an alive container, or of the container the process is in already. -/
def JoinsWithin (s : State) : Event → Prop
  | .call cur (.joinContainer c) => AliveContainer s c ∨ (s.ptable.proc cur).containerId = c
  | _ => True

/-- The container ids of the processes are in the table, and nothing makes the host's record
alive. -/
structure Ranged (s : State) : Prop where
  id : ∀ i, s.ptable.Live i →
    0 ≤ (s.ptable.proc i).containerId ∧ (s.ptable.proc i).containerId < NCONTAINER
  host : (s.containers.container 0).status = .dead

namespace Ranged

variable {s s' : State} {e : Event} {cur n : ℕ}

theorem of_boot : Ranged boot where
  id i hi := by
    rw [live_boot hi]
    decide
  host := rfl

/-- The calls that give the caller an id and rewrite a member's word. -/
theorem write {bit : ℤ} (h : Ranged s) {cid : ℤ} (hcid : 0 ≤ cid ∧ cid < NCONTAINER)
    (ht : s'.ptable = s.ptable.modify cur fun p => { p with containerId := cid })
    (hc : s.containers.Written bit (s.ptable.proc cur).pid n s'.containers) : Ranged s' where
  id i hi := by
    rw [ht] at hi ⊢
    by_cases hicur : i = cur
    · rw [hicur, PTable.modify_proc_self]
      exact hcid
    · rw [PTable.modify_proc_of_ne _ hicur]
      exact h.id i (live_setContainerId.1 hi)
  host := by
    obtain ⟨-, hc⟩ | ⟨-, hc⟩ := hc <;> rw [hc]
    · exact h.host
    · rw [ContainerTable.writeBit_status]
      exact h.host

theorem step (h : Ranged s) (hs : Shape s s' e) : Ranged s' := by
  cases hs with
  | shrink ht hc =>
    refine ⟨fun i hi => ?_, (hc 0).1.trans h.host⟩
    obtain ⟨hi', -, hcid⟩ := ht.live i hi
    rw [hcid]
    exact h.id i hi'
  | spawn np ht hc =>
    refine ⟨fun i hi => ?_, hc ▸ h.host⟩
    by_cases hinp : i = np
    · subst hinp
      rw [(ht.fresh hi).2]
      decide
    · obtain ⟨hi', -, hcid⟩ := ht.live i hinp hi
      rw [hcid]
      exact h.id i hi'
  | create hn _ ht hc =>
    refine ⟨fun i hi => ?_, ?_⟩
    · rw [ht] at hi ⊢
      exact h.id i hi
    · rw [hc, ContainerTable.modify_container_of_ne _ (by omega)]
      exact h.host
  | @destroy _ n _ _ _ ht hc =>
    refine ⟨fun i hi => ?_, ?_⟩
    · obtain ⟨hi', -, hcid⟩ := ht.live i hi
      rw [hcid]
      exact h.id i hi'
    · rw [hc]
      by_cases hn : 0 = n
      · rw [← hn, ContainerTable.modify_container_self]
        rfl
      · rw [ContainerTable.modify_container_of_ne _ hn]
        exact h.host
  | join _ hn ht hc => exact h.write ⟨by omega, by omega⟩ ht hc
  | leave _ _ _ _ ht hc => exact h.write ⟨le_rfl, by decide⟩ ht hc

theorem of_reach (h : Reach Kernel.step JoinsWithin boot s) : Ranged s :=
  h.invariant of_boot fun _ _ _ hx _ hs => hx.step (step_shape hs)

end Ranged

/-! ### The call -/

variable {s s' : State} {cur : ℕ} {c : ℤ}

/-- A container of the table that is dead: the call returns `-1` after the id has been set. -/
theorem sysJoinContainer_dead {n : ℕ} (hn : n < NCONTAINER)
    (hdead : (s.containers.container n).status = .dead) : sysJoinContainer s cur n =
      .ok (-1, ⟨s.ptable.modify cur fun p => { p with containerId := n }, s.containers⟩) := by
  have hindex : ContainerTable.index n = .ok n := if_pos ⟨by omega, by omega⟩
  have hset : s.containers.setProcessToContainer (s.ptable.proc cur).pid n =
      .ok (-1, s.containers) := by
    change (ContainerTable.index n >>= _) = _
    rw [hindex]
    exact if_pos hdead
  change (s.containers.setProcessToContainer (s.ptable.proc cur).pid n >>= _) = _
  rw [hset]
  rfl

/-- A join that returns `-1` found a dead container of the table. -/
theorem dead_of_sysJoinContainer (h : sysJoinContainer s cur c = .ok (-1, s')) :
    ∃ n : ℕ, c = n ∧ n < NCONTAINER ∧ (s.containers.container n).status = .dead := by
  obtain ⟨⟨stat, t⟩, hset, h⟩ := bind_eq_ok.1 h
  obtain ⟨hstat, -⟩ := Prod.mk.inj (Except.ok.inj h)
  obtain ⟨n, hidx, hset⟩ := bind_eq_ok.1 hset
  obtain ⟨hc, hn⟩ := ContainerTable.index_eq_ok hidx
  refine ⟨n, hc, hn, ?_⟩
  by_contra halive
  rw [if_neg halive] at hset
  split at hset
  · cases hset
    exact absurd hstat (by decide)
  · cases hset

/-- Giving a process the id that it has. -/
theorem modify_containerId_self (t : PTable) (cur : ℕ) :
    (t.modify cur fun p => { p with containerId := (t.proc cur).containerId }) = t := by
  have hproc : Function.update t.proc cur
      { t.proc cur with containerId := (t.proc cur).containerId } = t.proc :=
    Function.update_eq_self cur t.proc
  unfold PTable.modify
  rw [hproc]

/-- **A failed join changes nothing.**  In every run whose joins are of alive containers or of
the container the process is in, and for every such join by a process that runs: if it returns
`-1`, both tables are as before; if the container is not alive, it returns `-1`; and the
container id of every process is in the table. -/
theorem failed_join_changes_nothing (s : State) (h : Reach step JoinsWithin boot s) :
    (∀ cur c s', Running s cur → JoinsWithin s (.call cur (.joinContainer c)) →
        sysJoinContainer s cur c = .ok (-1, s') → s' = s) ∧
      (∀ cur c, Running s cur → JoinsWithin s (.call cur (.joinContainer c)) →
        ¬ AliveContainer s c → ∃ s', sysJoinContainer s cur c = .ok (-1, s')) ∧
      ∀ i, s.ptable.Live i →
        0 ≤ (s.ptable.proc i).containerId ∧ (s.ptable.proc i).containerId < NCONTAINER := by
  have hranged := Ranged.of_reach h
  refine ⟨fun cur c s' hcur hok hjoin => ?_, fun cur c hcur hok hdead => ?_, hranged.id⟩
  · obtain ⟨n, rfl, hn, hdead⟩ := dead_of_sysJoinContainer hjoin
    -- the container is dead, so it is the one the process is in
    have hid : (s.ptable.proc cur).containerId = n := by
      obtain halive | hid := hok
      · exact absurd (halive.2.2.symm.trans hdead) (by decide)
      · exact hid
    rw [sysJoinContainer_dead hn hdead, ← hid, modify_containerId_self] at hjoin
    exact (Prod.mk.inj (Except.ok.inj hjoin)).2.symm
  · have hid : (s.ptable.proc cur).containerId = c := hok.resolve_left hdead
    obtain ⟨hpos, hlt⟩ := hranged.id cur hcur.live
    rw [hid] at hpos hlt
    obtain ⟨n, rfl⟩ := Int.eq_ofNat_of_zero_le hpos
    have hstatus : (s.containers.container n).status = .dead := by
      by_cases hn : n = 0
      · rw [hn]
        exact hranged.host
      · cases hs : (s.containers.container n).status with
        | dead => rfl
        | alive => exact absurd ⟨by omega, hlt, hs⟩ hdead
    exact ⟨_, sysJoinContainer_dead (by omega) hstatus⟩

/-- A member destroys its container and joins it again: the call fails and leaves the state. -/
theorem failed_join_changes_nothing_again :
    ∃ s, Reach step JoinsWithin boot s ∧ (s.ptable.proc 0).containerId = 1 ∧
      sysJoinContainer s 0 1 = .ok (-1, s) := by
  have hrun : Reach step JoinsWithin boot (schedulerRound boot).2.2 :=
    Reach.refl.tail Event.schedule trivial rfl
  have hcreate := hrun.tail (.call 0 .createContainer) trivial rfl
  have hjoin := hcreate.tail (.call 0 (.joinContainer 1)) (.inl (by decide)) rfl
  have hdestroy := hjoin.tail (.call 0 (.destroyContainer 1)) trivial rfl
  obtain ⟨hsame, hfail, -⟩ := failed_join_changes_nothing _ hdestroy
  obtain ⟨s', hs'⟩ := hfail 0 1 (by decide) (.inr rfl) (by decide)
  obtain rfl := hsame 0 1 s' (by decide) (.inr rfl) hs'
  exact ⟨_, hdestroy, rfl, hs'⟩

/-- **Joining a dead container moves the process.**  The call returns `-1` and the process of
the host has the id `5`. -/
theorem failed_join_moves : ∃ s s', Reach step anyStep boot s ∧ Running s 0 ∧
    sysJoinContainer s 0 5 = .ok (-1, s') ∧
      (s.ptable.proc 0).containerId = 0 ∧ (s'.ptable.proc 0).containerId = 5 :=
  ⟨_, _, reach_of_foldlM [.schedule] rfl, by decide, rfl, rfl, rfl⟩

end Kernel
end Xv6
