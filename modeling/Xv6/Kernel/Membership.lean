/-
# Membership is recorded twice

A process carries the id of its container (`container_id`), and the container
carries a word per pid (`proc`).  `Agrees` says that the two views are equal:
a live process has container id `c` exactly if `c` is alive and its word in `c`
is set.

The calls do not keep them equal by themselves.  `sys_join_container` writes
`container_id` before it asks whether the container is alive, so joining a dead
id leaves the process with it; it does not remove the process from the
container it was in; and `sys_destroy_container` by a member leaves its
`container_id`.  In every run that avoids these three, `agrees_of_reach` has
the agreement in every state reached.
-/

import Xv6.Lib.Run
import Xv6.Kernel.Pids

namespace Xv6
namespace Kernel

open Lib

/-- Container `c` is alive and its word for the process in slot `i` is set. -/
def Recorded (s : State) (i c : ℕ) : Prop :=
  (s.containers.container c).status = .alive ∧
    (s.containers.container c).proc (s.ptable.proc i).pid = 1

instance (s : State) (i c : ℕ) : Decidable (Recorded s i c) :=
  inferInstanceAs (Decidable (_ ∧ _))

/-- The two views of membership are equal for every live process and every
container but the host. -/
def Agrees (s : State) : Prop :=
  ∀ i, s.ptable.Live i → ∀ c, 1 ≤ c → c < NCONTAINER →
    (Recorded s i c ↔ (s.ptable.proc i).containerId = c)

/-- The runs that keep the views equal: a process joins an alive container, or
the host, and only from the host or from that same container; no container is
destroyed by a member; and pids stay indices of `proc`. -/
def JoinsFromHost (s : State) : Event → Prop
  | .call cur (.joinContainer c) =>
      ((s.ptable.proc cur).containerId = 0 ∨ (s.ptable.proc cur).containerId = c) ∧
        (c = 0 ∨ (s.containers.container c.toNat).status = .alive)
  | .call cur (.destroyContainer a) => (s.ptable.proc cur).containerId = a → a = 0
  | .call _ (.fork _ _) => s.ptable.nextpid < NPROC
  | _ => True

/-- The invariant behind `Agrees`: words of pids not yet given out and of dead
containers are zero. -/
structure MemberInv (s : State) : Prop where
  pids : Pids s.ptable
  nextpid : s.ptable.nextpid ≤ NPROC
  agrees : Agrees s
  fresh : ∀ c, 1 ≤ c → ∀ pid, s.ptable.nextpid ≤ pid → (s.containers.container c).proc pid = 0
  dead : ∀ c, 1 ≤ c → (s.containers.container c).status = .dead →
    ∀ pid, (s.containers.container c).proc pid = 0

namespace MemberInv

variable {s s' : State} {e : Event} {cur n : ℕ}

theorem of_boot : MemberInv boot where
  pids := pids_boot
  nextpid := by decide
  agrees i hi c hc _ := by
    rw [live_boot hi]
    constructor
    · rintro ⟨halive, -⟩
      cases halive
    · intro h
      have : (0 : ℤ) = c := h
      omega
  fresh _ _ _ _ := rfl
  dead _ _ _ _ := rfl

theorem shrink (h : MemberInv s) (ht : s.ptable.Shrinks s'.ptable)
    (hc : s.containers.SameMembers s'.containers) : MemberInv s' where
  pids := h.pids.shrink ht
  nextpid := by rw [ht.nextpid]; exact h.nextpid
  agrees i hi c hc1 hclt := by
    obtain ⟨hi', hpid, hcid⟩ := ht.live i hi
    unfold Recorded
    rw [(hc c).1, (hc c).2, hpid, hcid]
    exact h.agrees i hi' c hc1 hclt
  fresh c hc1 pid hpid := by
    rw [(hc c).2]
    exact h.fresh c hc1 pid (ht.nextpid ▸ hpid)
  dead c hc1 hdead pid := by
    rw [(hc c).1] at hdead
    rw [(hc c).2]
    exact h.dead c hc1 hdead pid

theorem spawn {np : ℕ} (h : MemberInv s) (ht : s.ptable.Spawns s'.ptable np)
    (hc : s'.containers = s.containers) (hlt : s.ptable.nextpid < NPROC) : MemberInv s' where
  pids := h.pids.spawn ht
  nextpid := by rw [ht.nextpid]; exact hlt
  agrees i hi c hc1 hclt := by
    unfold Recorded
    rw [hc]
    by_cases hinp : i = np
    · -- no word is set for the new pid
      subst hinp
      obtain ⟨hpid, hcid⟩ := ht.fresh hi
      rw [hpid, hcid, h.fresh c hc1 _ (Nat.le_refl _)]
      omega
    · obtain ⟨hi', hpid, hcid⟩ := ht.live i hinp hi
      rw [hpid, hcid]
      exact h.agrees i hi' c hc1 hclt
  fresh c hc1 pid hpid := by
    rw [hc]
    exact h.fresh c hc1 pid (by have := ht.nextpid; omega)
  dead c hc1 hdead := by
    rw [hc] at hdead ⊢
    exact h.dead c hc1 hdead

theorem create (h : MemberInv s) (hn : 1 ≤ n)
    (hdead : (s.containers.container n).status = .dead) (ht : s'.ptable = s.ptable)
    (hc : s'.containers = s.containers.modify n fun c => { c with status := .alive }) :
    MemberInv s' := by
  have hproc : ∀ c, (s'.containers.container c).proc = (s.containers.container c).proc := by
    intro c
    rw [hc]
    exact Lib.update_field Container.proc (by rfl) c
  refine ⟨ht ▸ h.pids, ht ▸ h.nextpid, fun i hi c hc1 hclt => ?_, fun c hc1 pid hpid => ?_,
    fun c hc1 hdead' pid => ?_⟩
  · unfold Recorded
    rw [ht] at hi ⊢
    rw [hproc]
    by_cases hcn : c = n
    · -- the container was empty, and nobody had its id
      subst hcn
      have hbit := h.dead c hc1 hdead (s.ptable.proc i).pid
      have hid := h.agrees i hi c hc1 hclt
      unfold Recorded at hid
      rw [hdead] at hid
      rw [hbit]
      constructor
      · rintro ⟨-, hone⟩
        cases hone
      · intro hcid
        cases (hid.2 hcid).1
    · rw [hc, ContainerTable.modify_container_of_ne _ hcn]
      exact h.agrees i hi c hc1 hclt
  · rw [hproc]
    exact h.fresh c hc1 pid (ht ▸ hpid)
  · rw [hproc]
    by_cases hcn : c = n
    · rw [hcn]
      exact h.dead n hn hdead pid
    · rw [hc, ContainerTable.modify_container_of_ne _ hcn] at hdead'
      exact h.dead c hc1 hdead' pid

/-- Where no process but the caller has id `n`, and the caller has not, the
container can go. -/
theorem destroy (h : MemberInv s) (hcur : Running s cur)
    (hlone : ∀ i < NPROC, (s.ptable.proc i).containerId = n →
      (s.ptable.proc i).pid = (s.ptable.proc cur).pid)
    (hid : (s.ptable.proc cur).containerId = n → (n : ℤ) = 0) (ht : s.ptable.Shrinks s'.ptable)
    (hc : s'.containers = s.containers.modify n ContainerTable.destroyed) : MemberInv s' := by
  have hself : s'.containers.container n = ContainerTable.destroyed (s.containers.container n) := by
    rw [hc, ContainerTable.modify_container_self]
  have hother : ∀ c, c ≠ n → s'.containers.container c = s.containers.container c := by
    intro c hcn
    rw [hc, ContainerTable.modify_container_of_ne _ hcn]
  have hempty : 1 ≤ n → ∀ i, s.ptable.Live i → (s.ptable.proc i).containerId ≠ n := by
    intro hn i hi hcid
    obtain rfl := h.pids.inj i cur hi hcur.live (hlone i hi.1 hcid)
    have := hid hcid
    omega
  have hzero : 1 ≤ n → ∀ pid, (s'.containers.container n).proc pid = 0 := by
    intro hn pid
    rw [hself]
    change (if pid < NPROC then 0 else _) = _
    split
    · rfl
    · exact h.fresh n hn pid (by have := h.nextpid; omega)
  refine ⟨h.pids.shrink ht, ht.nextpid ▸ h.nextpid, fun i hi c hc1 hclt => ?_,
    fun c hc1 pid hpid => ?_, fun c hc1 hdead pid => ?_⟩
  · obtain ⟨hi', hpid, hcid⟩ := ht.live i hi
    unfold Recorded
    rw [hpid, hcid]
    by_cases hcn : c = n
    · subst hcn
      rw [hself]
      constructor
      · rintro ⟨halive, -⟩
        cases halive
      · intro hcid
        exact absurd hcid (hempty hc1 i hi')
    · rw [hother c hcn]
      exact h.agrees i hi' c hc1 hclt
  · by_cases hcn : c = n
    · exact hcn ▸ hzero (hcn ▸ hc1) pid
    · rw [hother c hcn]
      exact h.fresh c hc1 pid (ht.nextpid ▸ hpid)
  · by_cases hcn : c = n
    · exact hcn ▸ hzero (hcn ▸ hc1) pid
    · rw [hother c hcn] at hdead ⊢
      exact h.dead c hc1 hdead pid

/-- The two calls that write a member's word, at once: the caller takes the id
`cid`, and its word in `n` becomes `bit`. -/
theorem write {bit cid : ℤ} (h : MemberInv s) (hcur : Running s cur)
    (halive : 1 ≤ n → (s.containers.container n).status = .alive)
    (hcaller : ∀ c, 1 ≤ c → c < NCONTAINER → c ≠ n → (s.ptable.proc cur).containerId ≠ c ∧ cid ≠ c)
    (hn : 1 ≤ n → (bit = 1 ↔ cid = n))
    (ht : s'.ptable = s.ptable.modify cur fun p => { p with containerId := cid })
    (hc : s.containers.Written bit (s.ptable.proc cur).pid n s'.containers) : MemberInv s' := by
  have hstatus : ∀ c, (s'.containers.container c).status = (s.containers.container c).status := by
    intro c
    obtain ⟨-, hc⟩ | ⟨-, hc⟩ := hc <;> rw [hc]
    exact ContainerTable.writeBit_status ..
  have hproc : ∀ c, 1 ≤ c → ∀ pid, (s'.containers.container c).proc pid =
      if c = n ∧ pid = (s.ptable.proc cur).pid then bit else
        (s.containers.container c).proc pid := by
    intro c hc1 pid
    obtain ⟨hdead, hc⟩ | ⟨-, hc⟩ := hc
    · split
      next heq =>
        rw [halive (heq.1 ▸ hc1)] at hdead
        cases hdead
      · rw [hc]
    · rw [hc, ContainerTable.writeBit_proc]
  have hlt := h.pids.lt cur hcur.live
  refine ⟨ht ▸ h.pids.setContainerId cid, ht ▸ h.nextpid, fun i hi c hc1 hclt => ?_,
    fun c hc1 pid hpid => ?_, fun c hc1 hdead pid => ?_⟩
  · unfold Recorded
    rw [ht] at hi ⊢
    rw [live_setContainerId] at hi
    rw [pid_setContainerId, hstatus, hproc c hc1]
    by_cases hicur : i = cur
    · subst hicur
      rw [PTable.modify_proc_self]
      by_cases hcn : c = n
      · subst hcn
        rw [if_pos ⟨rfl, rfl⟩]
        simp only [halive hc1, true_and]
        exact hn hc1
      · -- in the other containers it was not, and is not, a member
        obtain ⟨hold, hnew⟩ := hcaller c hc1 hclt hcn
        rw [if_neg fun heq => hcn heq.1]
        refine (h.agrees i hi c hc1 hclt).trans ?_
        exact ⟨fun heq => absurd heq hold, fun heq => absurd heq hnew⟩
    · rw [PTable.modify_proc_of_ne _ hicur, if_neg]
      · exact h.agrees i hi c hc1 hclt
      · exact fun heq => hicur (h.pids.inj i cur hi hcur.live heq.2)
  · rw [ht] at hpid
    rw [hproc c hc1, if_neg, h.fresh c hc1 pid hpid]
    rintro ⟨-, rfl⟩
    exact absurd hlt (by exact Nat.not_lt.2 hpid)
  · rw [hstatus] at hdead
    rw [hproc c hc1, if_neg, h.dead c hc1 hdead]
    rintro ⟨rfl, -⟩
    rw [halive hc1] at hdead
    cases hdead

theorem step (h : MemberInv s) (hok : JoinsFromHost s e) (hs : Shape s s' e) :
    MemberInv s' := by
  cases hs with
  | shrink ht hc => exact h.shrink ht hc
  | spawn np ht hc => exact h.spawn ht hc hok
  | create hn hdead ht hc => exact h.create hn hdead ht hc
  | destroy hcur _ hlone ht hc => exact h.destroy hcur hlone hok ht hc
  | @join cur n hcur hn ht hc =>
    obtain ⟨hfrom, halive⟩ := hok
    refine h.write hcur (fun hn => ?_) (fun c hc1 _ hcn => ?_) (fun _ => by simp) ht hc
    · obtain h0 | halive := halive
      · omega
      · exact halive
    · omega
  | @leave cur n hcur hn hpos hid ht hc =>
    have hmember := (h.agrees cur hcur.live n (by omega) hn).2 hid
    refine h.write hcur (fun _ => hmember.1) (fun c hc1 _ hcn => ?_) (fun _ => ?_) ht hc
    · omega
    · omega

end MemberInv

/-- **The two views agree.**  In every run in which processes join alive
containers from the host and no member destroys its container, every state
reached records each live process in the container it has the id of and in no
other. -/
theorem agrees_of_reach (s : State) (h : Reach step JoinsFromHost boot s) :
    Agrees s ∧ ∀ i, s.ptable.Live i → ∀ c d, 1 ≤ c → c < NCONTAINER → 1 ≤ d → d < NCONTAINER →
      Recorded s i c → Recorded s i d → c = d := by
  have hagrees : Agrees s :=
    (h.invariant MemberInv.of_boot fun _ _ _ hx hok hs => hx.step hok (step_shape hs)).agrees
  refine ⟨hagrees, fun i hi c d hc hclt hd hdlt hic hid => ?_⟩
  have hic' := (hagrees i hi c hc hclt).1 hic
  have hid' := (hagrees i hi d hd hdlt).1 hid
  omega

/-- The first process creates a container and joins it. -/
theorem agrees_of_reach_join :
    ∃ s, Reach step JoinsFromHost boot s ∧ (s.ptable.proc 0).containerId = 1 ∧ Agrees s := by
  have hrun : Reach step JoinsFromHost boot (schedulerRound boot).2.2 :=
    Reach.refl.tail Event.schedule trivial rfl
  have hcreate := hrun.tail (.call 0 .createContainer) trivial rfl
  have hjoin := hcreate.tail (.call 0 (.joinContainer 1)) ⟨.inl rfl, .inr rfl⟩ rfl
  exact ⟨_, hjoin, rfl, (agrees_of_reach _ hjoin).1⟩

/-- **Joining a dead container.**  The call returns `-1`, yet the process has
the container's id from then on. -/
theorem join_dead_disagrees : ∃ s, Reach step anyStep boot s ∧ ¬ Agrees s := by
  refine ⟨_, reach_of_foldlM [.schedule, .call 0 (.joinContainer 5)] rfl, fun h => ?_⟩
  have hiff := h 0 (by decide) 5 (by decide) (by decide)
  exact absurd (hiff.2 rfl).1 (by decide)

end Kernel
end Xv6
