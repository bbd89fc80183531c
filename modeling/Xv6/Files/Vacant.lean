/-
# The records of dead containers

`destroy_container_kernel` (`xv6/container_manager.c`, lines 68-81) leaves an
empty record, and `get_container` gives the record out again as it is.  So a new
container starts empty if nothing was recorded for it while it was dead.  This is
so in every run in which no process joins a dead container (`Vacant.step`):
`sys_join_container` sets `container_id` even when the container is refused, and
such a process registers names and pages in the dead record.

That `destroy_container` finds no other member is by the pids: with two processes
of one pid it would miss one of them.
-/

import Xv6.Files.CallRecords

namespace Xv6
namespace Files

open Lib Kernel

variable {s s' : State} {p q c cid : ℕ}

/-- A record with no member, no page and no name. -/
structure Unused (c : Container) : Prop where
  proc : ∀ pid < NPROC, c.proc pid = 0
  lastSpace : c.lastSpace = 0
  lastFileIndex : c.lastFileIndex = 0

/-- A process of the host, or of a container that is alive, may have this container id. -/
def Enrolled (t : ContainerTable) (cid : ℕ) : Prop :=
  cid = 0 ∨ (t.container cid).status = .alive

instance (t : ContainerTable) (cid : ℕ) : Decidable (Enrolled t cid) :=
  inferInstanceAs (Decidable (_ ∨ _))

/-- The records of dead containers are empty and nobody is in them. -/
structure Vacant (s : State) : Prop where
  pid_lt : ∀ q < NPROC, (s.proc q).inUse = true → (s.proc q).pid < s.nextpid
  pid_inj : ∀ q < NPROC, ∀ r < NPROC, (s.proc q).inUse = true → (s.proc r).inUse = true →
    (s.proc q).pid = (s.proc r).pid → q = r
  enrolled : ∀ q < NPROC, (s.proc q).inUse = true → Enrolled s.containers (s.proc q).containerId
  unused : ∀ c, 1 ≤ c → (s.containers.container c).status = .dead → Unused (s.containers.container c)

/-- Whether a process joins only a container that is alive, or the host. -/
def JoinsAlive (s : State) (e : Event) : Prop :=
  match e.call with
  | .joinContainer cid => Enrolled s.containers cid
  | _ => True

instance (s : State) (e : Event) : Decidable (JoinsAlive s e) := by
  unfold JoinsAlive
  rcases e.call with _ | _ <;> infer_instance

namespace Vacant

theorem of_same (h : Vacant s) (hsame : SameRecords s s') : Vacant s' := by
  refine ⟨fun q hq huse => ?_, fun q hq r hr huse huse' heq => ?_, fun q hq huse => ?_, ?_⟩
  · rw [hsame.inUse] at huse
    rw [hsame.pid, hsame.nextpid]
    exact h.pid_lt q hq huse
  · rw [hsame.inUse] at huse huse'
    rw [hsame.pid, hsame.pid] at heq
    exact h.pid_inj q hq r hr huse huse' heq
  · rw [hsame.inUse] at huse
    rw [hsame.containers, hsame.containerId]
    exact h.enrolled q hq huse
  · rw [hsame.containers]
    exact h.unused

/-- The pages and names themselves do not count. -/
theorem of_eq (h : Vacant s) (hcontainers : s'.containers = s.containers) (hproc : s'.proc = s.proc)
    (hnextpid : s'.nextpid = s.nextpid) : Vacant s' := by
  refine ⟨?_, ?_, ?_, ?_⟩
  · rw [hproc, hnextpid]
    exact h.pid_lt
  · rw [hproc]
    exact h.pid_inj
  · rw [hproc, hcontainers]
    exact h.enrolled
  · rw [hcontainers]
    exact h.unused

/-- The record of a container that is alive, or of the host, may change in any way. -/
theorem modify (h : Vacant s) (hcid : Enrolled s.containers cid) (f : Container → Container)
    (hf : ∀ c, (f c).status = c.status) :
    Vacant { s with containers := s.containers.modify cid f } := by
  have hstatus : ∀ c, ((s.containers.modify cid f).container c).status =
      (s.containers.container c).status := update_field Container.status (hf _)
  refine ⟨h.pid_lt, h.pid_inj, fun q hq huse => ?_, fun c hc hdead => ?_⟩
  · exact (h.enrolled q hq huse).imp_right (hstatus _).trans
  · rw [hstatus] at hdead
    have hne : c ≠ cid := by
      rintro rfl
      obtain rfl | halive := hcid
      · omega
      · rw [hdead] at halive
        cases halive
    change Unused ((s.containers.modify cid f).container c)
    rw [ContainerTable.modify_container_of_ne _ hne]
    exact h.unused c hc hdead

/-- A process may change in its memory, and get a container id that is given out. -/
theorem setProc (h : Vacant s) {x : Proc} (hinUse : x.inUse = (s.proc p).inUse)
    (hpid : x.pid = (s.proc p).pid) (hcid : x.inUse = true → Enrolled s.containers x.containerId) :
    Vacant (s.setProc p x) := by
  have hproc : ∀ q, ((s.setProc p x).proc q).inUse = (s.proc q).inUse ∧
      ((s.setProc p x).proc q).pid = (s.proc q).pid := fun q => by
    by_cases hq : q = p
    · rw [hq, setProc_self]
      exact ⟨hinUse, hpid⟩
    · rw [setProc_of_ne s hq]
      exact ⟨rfl, rfl⟩
  refine ⟨fun q hq huse => ?_, fun q hq r hr huse huse' heq => ?_, fun q hq huse => ?_, h.unused⟩
  · rw [(hproc q).1] at huse
    rw [(hproc q).2]
    exact h.pid_lt q hq huse
  · rw [(hproc _).1] at huse huse'
    rw [(hproc q).2, (hproc r).2] at heq
    exact h.pid_inj q hq r hr huse huse' heq
  · by_cases hqp : q = p
    · rw [hqp, setProc_self] at huse ⊢
      exact hcid huse
    · rw [setProc_of_ne s hqp] at huse ⊢
      exact h.enrolled q hq huse

/-- Calls that leave the records alone. -/
theorem recordsBut (h : Vacant s) {touched : ℕ → Prop} (hp : p < NPROC)
    (hsame : RecordsBut touched p s s') : Vacant s' := by
  obtain ⟨x, hx, hsame⟩ := hsame
  refine (h.setProc hx.inUse hx.pid fun huse => ?_).of_same hsame
  rw [hx.containerId]
  exact h.enrolled p hp (hx.inUse.symm.trans huse)

theorem fork (h : Vacant s) (q : ℕ) {child : Proc} (hpid : child.pid = s.nextpid)
    (hcid : child.containerId = 0) :
    Vacant ({ s with nextpid := s.nextpid + 1 }.setProc q child) := by
  have hproc : ∀ r ≠ q, ({ s with nextpid := s.nextpid + 1 }.setProc q child).proc r = s.proc r :=
    fun r hr => setProc_of_ne _ hr _
  refine ⟨fun r hr huse => ?_, fun r hr r' hr' huse huse' heq => ?_, fun r hr huse => ?_, h.unused⟩
  · change _ < s.nextpid + 1
    by_cases hrq : r = q
    · rw [hrq, setProc_self, hpid]
      omega
    · rw [hproc r hrq] at huse ⊢
      have hlt := h.pid_lt r hr huse
      omega
  · -- the child's pid is new
    by_cases hrq : r = q <;> by_cases hrq' : r' = q
    · rw [hrq, hrq']
    · rw [hproc r' hrq'] at huse' heq
      rw [hrq, setProc_self, hpid] at heq
      have hlt := h.pid_lt r' hr' huse'
      omega
    · rw [hproc r hrq] at huse heq
      rw [hrq', setProc_self, hpid] at heq
      have hlt := h.pid_lt r hr huse
      omega
    · rw [hproc r hrq] at huse heq
      rw [hproc r' hrq'] at huse' heq
      exact h.pid_inj r hr r' hr' huse huse' heq
  · by_cases hrq : r = q
    · rw [hrq, setProc_self, hcid]
      exact .inl rfl
    · rw [hproc r hrq] at huse ⊢
      exact h.enrolled r hr huse

theorem exit (h : Vacant s) (p : ℕ) :
    Vacant (s.setProc p { s.proc p with inUse := false, pid := 0 }) := by
  have hproc : ∀ q, ((s.setProc p { s.proc p with inUse := false, pid := 0 }).proc q).inUse = true →
      (s.setProc p { s.proc p with inUse := false, pid := 0 }).proc q = s.proc q := fun q huse => by
    by_cases hq : q = p
    · rw [hq, setProc_self] at huse
      cases huse
    · exact setProc_of_ne s hq _
  refine ⟨fun q hq huse => ?_, fun q hq r hr huse huse' heq => ?_, fun q hq huse => ?_, h.unused⟩
  · have hsame := hproc q huse
    rw [hsame] at huse ⊢
    exact h.pid_lt q hq huse
  · have hsame := hproc q huse
    have hsame' := hproc r huse'
    rw [hsame] at huse heq
    rw [hsame'] at huse' heq
    exact h.pid_inj q hq r hr huse huse' heq
  · have hsame := hproc q huse
    rw [hsame] at huse ⊢
    exact h.enrolled q hq huse

theorem create (h : Vacant s) : Vacant (sysCreateContainer s).2 := by
  unfold sysCreateContainer
  obtain hnone | ⟨i, -, -, -, hsome⟩ := s.containers.getContainer_cases
  · rw [hnone]
    exact h
  · rw [hsome]
    refine ⟨h.pid_lt, h.pid_inj, fun q hq huse => (h.enrolled q hq huse).imp_right fun halive => ?_,
      fun c hc hdead => ?_⟩
    · dsimp only
      by_cases hqi : (s.proc q).containerId = i
      · rw [hqi, ContainerTable.modify_container_self]
      · rw [ContainerTable.modify_container_of_ne _ hqi]
        exact halive
    · dsimp only at hdead ⊢
      by_cases hci : c = i
      · rw [hci, ContainerTable.modify_container_self] at hdead
        cases hdead
      · rw [ContainerTable.modify_container_of_ne _ hci] at hdead ⊢
        exact h.unused c hc hdead

/-- A container without members is destroyed. -/
theorem destroyed (h : Vacant s) (hnone : ∀ q < NPROC, (s.proc q).inUse = true →
    (s.proc q).containerId ≠ c) :
    Vacant { s with containers := s.containers.modify c ContainerTable.destroyed } := by
  refine ⟨h.pid_lt, h.pid_inj, fun q hq huse => ?_, fun d hd hdead => ?_⟩
  · refine (h.enrolled q hq huse).imp_right fun halive => ?_
    change ((s.containers.modify c _).container _).status = _
    rw [ContainerTable.modify_container_of_ne _ (hnone q hq huse)]
    exact halive
  · dsimp only at hdead ⊢
    by_cases hdc : d = c
    · rw [hdc, ContainerTable.modify_container_self]
      exact ⟨fun pid hpid => if_pos hpid, rfl, rfl⟩
    · rw [ContainerTable.modify_container_of_ne _ hdc] at hdead ⊢
      exact h.unused d hd hdead

theorem destroy (h : Vacant s) (hp : p < NPROC) (huse : (s.proc p).inUse = true)
    (hs : sysDestroyContainer s p c = .ok s') : Vacant s' := by
  obtain ⟨-, hothers, hs⟩ := sysDestroyContainer_eq_ok hs
  have honly : ∀ q < NPROC, (s.proc q).inUse = true → (s.proc q).containerId = c → q = p :=
    fun q hq huse' hcid => h.pid_inj q hq p hp huse' huse (hothers q hq hcid)
  obtain ⟨-, hexit⟩ | ⟨hcaller, rfl⟩ := hs
  · -- the caller was a member, and exits
    have hgone := (h.exit p).destroyed (c := c) fun q hq huse' hcid => by
      by_cases hqp : q = p
      · rw [hqp, setProc_self] at huse'
        cases huse'
      · rw [setProc_of_ne s hqp] at huse' hcid
        exact hqp (honly q hq huse' hcid)
    exact hgone.of_same (exit_records hexit)
  · refine h.destroyed fun q hq huse' hcid => hcaller ?_
    rw [← honly q hq huse' hcid]
    exact hcid

/-- Recording or removing a member, and the process's new container id. -/
theorem written (h : Vacant s) {bit : ℤ} {pid n : ℕ} {t : ContainerTable}
    (hn : Enrolled s.containers n) (hw : ContainerTable.Written bit s.containers pid n t) (p : ℕ)
    (hcid : Enrolled s.containers cid) :
    Vacant ({ s with containers := t }.setProc p { s.proc p with containerId := cid }) := by
  obtain ⟨-, rfl⟩ | ⟨-, rfl⟩ := hw
  · exact h.setProc rfl rfl fun _ => hcid
  · have hbit := h.modify hn (fun c => { c with proc := Function.update c.proc pid bit }) fun _ => rfl
    refine hbit.setProc rfl rfl fun _ => hcid.imp_right fun halive => ?_
    change ((s.containers.writeBit bit pid n).container cid).status = _
    rw [ContainerTable.writeBit_status]
    exact halive

theorem register (h : Vacant s) {r : Renaming} {addr : ℕ} (hcid : Enrolled s.containers cid)
    (hs : s.register r addr cid = .ok s') : Vacant s' := by
  obtain ⟨-, hs⟩ | ⟨-, rfl⟩ := register_cases hs
  · obtain ⟨-, rfl⟩ | ⟨-, rfl⟩ := setFileInContainer_cases hs
    · exact (h.modify hcid (fun c => { c with
        lastFileIndex := (s.containers.container cid).lastFileIndex + 1 }) fun _ => rfl).of_eq rfl rfl rfl
    · exact h.modify hcid _ fun _ => rfl
  · exact h

theorem containerMalloc (h : Vacant s) {page : ℕ} (hcid : Enrolled s.containers cid)
    (hs : s.getSpaceInContainer cid = .ok (page, s')) : Vacant s' := by
  obtain ⟨-, ⟨-, rfl⟩ | ⟨-, rfl⟩⟩ := getSpaceInContainer_cases hs
  · exact (h.modify hcid (fun c => { c with
      lastSpace := (s.containers.container cid).lastSpace + 1 }) fun _ => rfl).of_eq rfl rfl rfl
  · exact (h.modify hcid (fun c => { c with lastSpace := page + 1 }) fun _ => rfl).of_eq rfl rfl rfl

/-- **Dead containers stay empty**, as long as nobody joins them. -/
theorem step {e : Event} (h : Vacant s) (hok : JoinsAlive s e) (hs : step s e = some s') :
    Vacant s' := by
  obtain ⟨hp, huse, hexec⟩ := step_eq_some hs
  obtain ⟨p, call⟩ := e
  dsimp only at hp huse hexec
  have hmember := h.enrolled p hp huse
  cases call with
  | «open» addr omode =>
    obtain rfl | ⟨r, t, hreg, -, hrest⟩ := exec_open hexec
    · exact h
    · exact (h.register hmember hreg).recordsBut hp hrest
  | fork =>
    obtain hsame | ⟨q, child, -, -, hpid, hcid, -, hsame⟩ := fork_records hexec
    · exact h.of_same hsame
    · exact (h.fork q hpid hcid).of_same hsame
  | exit => exact (h.exit p).of_same (exit_records hexec)
  | createContainer =>
    cases hexec
    exact h.create
  | destroyContainer cid => exact h.destroy hp huse hexec
  | joinContainer cid =>
    obtain ⟨t, -, hw, rfl⟩ := exec_joinContainer hexec
    exact h.written hok hw p hok
  | leaveContainer =>
    obtain rfl | ⟨t, hw, rfl⟩ := exec_leaveContainer hexec
    · exact h
    · exact h.written hmember hw p (.inl rfl)
  | containerMalloc units =>
    obtain rfl | ⟨-, page, hspace⟩ := exec_containerMalloc hexec
    · exact h
    · exact h.containerMalloc hmember hspace
  | _ => exact h.recordsBut hp (exec_records id hexec)

/-- With one process, of pid 1, and all containers dead and empty. -/
theorem of_boot (disk : Disk) (ninodes : ℕ) (freelist : List ℕ) (console : List Char) :
    Vacant (boot disk ninodes freelist console) := by
  have hzero : ∀ q, ((boot disk ninodes freelist console).proc q).inUse = true → q = 0 := by
    intro q huse
    by_contra hq
    change (Function.update (fun _ => ({} : Proc)) 0 { inUse := true, pid := 1 } q).inUse = true at huse
    rw [Function.update_of_ne hq] at huse
    cases huse
  refine ⟨fun q _ huse => ?_, fun q _ r _ huse huse' _ => (hzero q huse).trans (hzero r huse').symm,
    fun q _ huse => ?_, fun c _ _ => ⟨fun _ _ => rfl, rfl, rfl⟩⟩
  · rw [hzero q huse]
    exact Nat.one_lt_two
  · rw [hzero q huse]
    exact .inl rfl

end Vacant

end Files
end Xv6
