/-
# The kinds of steps

`step_shape` puts every step of the system into one of six kinds: the process
table shrinks, a fork uses a pid, or one of the four container calls rewrites a
container record, each with what it found and what it left.  The invariants of
the system are proved from these kinds and never from the step function.
-/

import Xv6.Kernel.Frame

namespace Xv6
namespace Kernel

open Lib

/-- The kinds of steps, by the event that makes them. -/
inductive Shape (s s' : State) : Event → Prop where
  | shrink {e : Event} (ht : s.ptable.Shrinks s'.ptable)
      (hc : s.containers.SameMembers s'.containers) : Shape s s' e
  | spawn {cur : ℕ} {kstack pgdir : Bool} (np : ℕ) (ht : s.ptable.Spawns s'.ptable np)
      (hc : s'.containers = s.containers) : Shape s s' (.call cur (.fork kstack pgdir))
  | create {cur n : ℕ} (hn : 1 ≤ n) (hdead : (s.containers.container n).status = .dead)
      (ht : s'.ptable = s.ptable)
      (hc : s'.containers = s.containers.modify n fun c => { c with status := .alive }) :
      Shape s s' (.call cur .createContainer)
  | destroy {cur n : ℕ} (hcur : Running s cur) (hn : n < NCONTAINER)
      (hlone : ∀ i < NPROC, (s.ptable.proc i).containerId = n →
        (s.ptable.proc i).pid = (s.ptable.proc cur).pid)
      (ht : s.ptable.Shrinks s'.ptable)
      (hc : s'.containers = s.containers.modify n ContainerTable.destroyed) :
      Shape s s' (.call cur (.destroyContainer n))
  | join {cur n : ℕ} (hcur : Running s cur) (hn : n < NCONTAINER)
      (ht : s'.ptable = s.ptable.modify cur fun p => { p with containerId := n })
      (hc : s.containers.Written 1 (s.ptable.proc cur).pid n s'.containers) :
      Shape s s' (.call cur (.joinContainer n))
  | leave {cur n : ℕ} (hcur : Running s cur) (hn : n < NCONTAINER) (hpos : n ≠ 0)
      (hid : (s.ptable.proc cur).containerId = n)
      (ht : s'.ptable = s.ptable.modify cur fun p => { p with containerId := 0 })
      (hc : s.containers.Written 0 (s.ptable.proc cur).pid n s'.containers) :
      Shape s s' (.call cur .leaveContainer)

variable {s s' : State} {e : Event} {cur : ℕ}

/-- A call that only touches the process table. -/
theorem Shape.of_ptable {t : PTable} (h : s.ptable.Shrinks t) :
    Shape s { s with ptable := t } e :=
  .shrink h (ContainerTable.SameMembers.refl _)

theorem shape_create : Shape s (sysCreateContainer s).2 (.call cur .createContainer) := by
  unfold sysCreateContainer ContainerTable.getContainer
  cases hfind : (List.range' 1 (NCONTAINER - 1)).find? fun i =>
      (s.containers.container i).status = .dead with
  | none => exact Shape.of_ptable PTable.Shrinks.refl
  | some n =>
    have hmem := List.mem_range'_1.1 (List.mem_of_find?_eq_some hfind)
    have hdead := List.find?_some (p := fun i =>
      decide ((s.containers.container i).status = .dead)) hfind
    exact .create hmem.1 (of_decide_eq_true hdead) rfl rfl

theorem shape_destroy {a : ℤ} {r : ℤ × State} (hcur : Running s cur)
    (h : sysDestroyContainer s cur a = .ok r) :
    Shape s r.2 (.call cur (.destroyContainer a)) := by
  unfold sysDestroyContainer at h
  cases hk : s.containers.destroyContainerKernel a with
  | error e => simp [hk, bind, Except.bind] at h
  | ok containers =>
    obtain ⟨n, rfl, hn, rfl⟩ := ContainerTable.destroyContainerKernel_eq_ok hk
    unfold PTable.destroyContainerProcesses at h
    cases hslot : s.ptable.firstSlot fun p =>
        p.containerId = n ∧ p.pid ≠ (s.ptable.proc cur).pid with
    | some i =>
      simp only [hk, hslot, bind, Except.bind] at h
      cases h
    | none =>
      simp only [hk, hslot, bind, Except.bind] at h
      cases h
      refine .destroy hcur hn (fun i hi hid => ?_) ?_ rfl
      · have := PTable.firstSlot_eq_none hslot hi
        simpa [hid] using this
      · dsimp only
        split
        · exact PTable.shrinks_kill _ _
        · exact PTable.Shrinks.refl

theorem shape_join {c : ℤ} {r : ℤ × State} (hcur : Running s cur)
    (h : sysJoinContainer s cur c = .ok r) : Shape s r.2 (.call cur (.joinContainer c)) := by
  unfold sysJoinContainer ContainerTable.setProcessToContainer at h
  cases hw : ContainerTable.writeProcess 1 s.containers (s.ptable.proc cur).pid c with
  | error e => simp [hw, bind, Except.bind] at h
  | ok w =>
    obtain ⟨n, rfl, hn, hwritten⟩ := ContainerTable.writeProcess_eq_ok hw
    simp only [hw, bind, Except.bind] at h
    cases h
    exact .join hcur hn rfl hwritten

theorem shape_leave {r : ℤ × State} (hcur : Running s cur)
    (h : sysLeaveContainer s cur = .ok r) : Shape s r.2 (.call cur .leaveContainer) := by
  unfold sysLeaveContainer ContainerTable.removeProcessFromContainer at h
  dsimp only at h
  split at h
  · cases h
    exact Shape.of_ptable PTable.Shrinks.refl
  next hid =>
    cases hw : ContainerTable.writeProcess 0 s.containers (s.ptable.proc cur).pid
        (s.ptable.proc cur).containerId with
    | error e => simp [hw, bind, Except.bind] at h
    | ok w =>
      obtain ⟨n, hn, hlt, hwritten⟩ := ContainerTable.writeProcess_eq_ok hw
      simp only [hw, bind, Except.bind] at h
      cases h
      exact .leave hcur hlt (by omega) hn rfl hwritten

theorem shrinks_schedulerRound : s.ptable.Shrinks (schedulerRound s).2.2.ptable := by
  unfold schedulerRound
  dsimp only
  cases hsel : selectProcess { s with containers := s.containers.getContainerToRun.2 }
      s.containers.getContainerToRun.1 with
  | none => exact PTable.Shrinks.refl
  | some i =>
    obtain ⟨-, helig⟩ := nextAfter_eq_some (by decide) hsel
    exact PTable.shrinks_dispatch (of_decide_eq_true helig).1

theorem sameMembers_schedulerRound :
    s.containers.SameMembers (schedulerRound s).2.2.containers := by
  intro c
  obtain ⟨hstatus, hproc⟩ := ContainerTable.sameMembers_getContainerToRun s.containers c
  unfold schedulerRound
  dsimp only
  split
  · exact ⟨hstatus, hproc⟩
  next i _ =>
    obtain ⟨hstatus', hproc'⟩ := ContainerTable.sameMembers_setLastProcessOfContainer
      s.containers.getContainerToRun.2 i s.containers.getContainerToRun.1 c
    exact ⟨hstatus'.trans hstatus, hproc'.trans hproc⟩

theorem shape_exec {c : Call} (hcur : Running s cur) (h : exec s cur c = .ok s') :
    Shape s s' (.call cur c) := by
  cases c with
  | createContainer =>
    cases h
    exact shape_create
  | destroyContainer a =>
    obtain ⟨r, hr, rfl⟩ := map_eq_ok h
    exact shape_destroy hcur hr
  | joinContainer c =>
    obtain ⟨r, hr, rfl⟩ := map_eq_ok h
    exact shape_join hcur hr
  | leaveContainer =>
    obtain ⟨r, hr, rfl⟩ := map_eq_ok h
    exact shape_leave hcur hr
  | fork kstack pgdir =>
    cases h
    obtain hshrink | ⟨np, hspawn⟩ := s.ptable.fork_cases cur kstack pgdir
    · exact Shape.of_ptable hshrink
    · exact .spawn np hspawn rfl
  | exit =>
    obtain ⟨t, ht, rfl⟩ := map_eq_ok h
    exact Shape.of_ptable (PTable.shrinks_exit hcur.2 ht)
  | wait =>
    cases h
    exact Shape.of_ptable (PTable.shrinks_wait hcur.2)
  | kill pid =>
    cases h
    exact Shape.of_ptable (PTable.shrinks_kill _ _)
  | sleep chan =>
    cases h
    exact Shape.of_ptable (PTable.shrinks_sleep hcur.2 chan)
  | yield =>
    cases h
    exact Shape.of_ptable (PTable.shrinks_of_running hcur.2 fun _ => ⟨rfl, rfl⟩)

/-- **Every step has one of the six kinds.** -/
theorem step_shape (h : step s e = some s') : Shape s s' e := by
  cases e with
  | wakeup chan =>
    cases h
    exact Shape.of_ptable (PTable.shrinks_wakeup1 _ _)
  | schedule =>
    cases h
    exact .shrink shrinks_schedulerRound sameMembers_schedulerRound
  | call cur c =>
    unfold step at h
    dsimp only at h
    obtain ⟨hcur, h⟩ := Option.ite_none_right_eq_some.1 h
    cases hexec : exec s cur c with
    | error e =>
      rw [hexec] at h
      cases h
    | ok t =>
      rw [hexec] at h
      cases h
      exact shape_exec hcur hexec

end Kernel
end Xv6
