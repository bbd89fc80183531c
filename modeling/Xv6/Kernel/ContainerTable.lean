/-
# The container table

`container_table` and `current_container` of `xv6/container_manager.c` (lines
13-146): creating and destroying a container, recording and removing a member,
and what the scheduler asks of it.  A container's members are the words of
`proc`, indexed by pid; the array has `NPROC` of them.  A pid of `NPROC` or more
reads the memory behind the array, which the model keeps as further words of
`proc`, and a write there, like any use of a container id outside the table,
is `Halt.wild`.  `runstate`, which nothing reads, and the pages and file names
behind the two counters are left out.
-/

import Xv6.Lib.CyclicScan
import Xv6.Lib.Update
import Xv6.Param

namespace Xv6
namespace Kernel

open Lib Function

/-- `int status;//alive or dead`: the values `0` and `1`. -/
inductive Status where
  | dead
  | alive
  deriving DecidableEq, Repr

/-- `struct container`. -/
structure Container where
  status : Status
  proc : ℕ → ℤ
  lastProcess : ℕ
  lastSpace : ℕ
  lastFileIndex : ℕ

/-- `container_table.container` by id, and `current_container`. -/
structure ContainerTable where
  container : ℕ → Container
  currentContainer : ℕ

namespace ContainerTable

/-- Rewrite one container. -/
def modify (t : ContainerTable) (cid : ℕ) (f : Container → Container) : ContainerTable :=
  { t with container := update t.container cid (f (t.container cid)) }

@[simp] theorem modify_container_self (t : ContainerTable) (cid : ℕ) (f : Container → Container) :
    (t.modify cid f).container cid = f (t.container cid) := update_self ..

theorem modify_container_of_ne (t : ContainerTable) {cid c : ℕ} (h : c ≠ cid)
    (f : Container → Container) : (t.modify cid f).container c = t.container c :=
  update_of_ne h ..

/-- The record of a container id passed as an `int`. -/
def index (cid : ℤ) : Except Halt ℕ :=
  if 0 ≤ cid ∧ cid < NCONTAINER then .ok cid.toNat else .error .wild

/-- The table after `container_init`, which runs on zeroed memory. -/
def containerInit : ContainerTable where
  container _ :=
    { proc := fun _ => 0
      status := .dead
      lastProcess := 0
      lastSpace := 0
      lastFileIndex := 0 }
  currentContainer := 0

/-- `get_container`: the first dead container after the host becomes alive. -/
def getContainer (t : ContainerTable) : ℤ × ContainerTable :=
  match (List.range' 1 (NCONTAINER - 1)).find? fun i => (t.container i).status = .dead with
  | none => (-1, t)
  | some i => (i, t.modify i fun c => { c with status := .alive })

/-- A container after `destroy_container_kernel`. -/
def destroyed (c : Container) : Container :=
  { c with
    status := .dead
    proc := fun pid => if pid < NPROC then 0 else c.proc pid
    lastFileIndex := 0
    lastProcess := 0
    lastSpace := 0 }

/-- `destroy_container_kernel`. -/
def destroyContainerKernel (t : ContainerTable) (a : ℤ) : Except Halt ContainerTable := do
  let a ← index a
  .ok (t.modify a destroyed)

/-- A container record with one member's word rewritten. -/
def writeBit (t : ContainerTable) (bit : ℤ) (pid cid : ℕ) : ContainerTable :=
  t.modify cid fun c => { c with proc := update c.proc pid bit }

/-- The common body of the two functions below: a dead container is refused,
an alive one gets `bit` at index `pid`. -/
def writeProcess (bit : ℤ) (t : ContainerTable) (pid : ℕ) (cid : ℤ) :
    Except Halt (ℤ × ContainerTable) := do
  let cid ← index cid
  if (t.container cid).status = .dead then .ok (-1, t)
  else if pid < NPROC then .ok (0, t.writeBit bit pid cid)
  else .error .wild

/-- `set_process_to_container`. -/
def setProcessToContainer := writeProcess 1

/-- `remove_process_from_container`. -/
def removeProcessFromContainer := writeProcess 0

/-- `get_container_to_run`: the next alive container after the current one
becomes the current one; with none alive the current one is returned again. -/
def getContainerToRun (t : ContainerTable) : ℕ × ContainerTable :=
  match nextAfter NCONTAINER (fun cid => (t.container cid).status = .alive) t.currentContainer with
  | none => (t.currentContainer, t)
  | some cid => (cid, { t with currentContainer := cid })

/-- Only `current_container` moves. -/
@[simp] theorem getContainerToRun_container (t : ContainerTable) :
    t.getContainerToRun.2.container = t.container := by
  unfold getContainerToRun
  split <;> rfl

/-- `set_last_process_of_container`. -/
def setLastProcessOfContainer (t : ContainerTable) (lastProcess cid : ℕ) : ContainerTable :=
  t.modify cid fun c => { c with lastProcess := lastProcess }

/-! ### What the operations leave -/

/-- Statuses and members are the same; the cursors may have moved. -/
def SameMembers (t t' : ContainerTable) : Prop :=
  ∀ c, (t'.container c).status = (t.container c).status ∧
    (t'.container c).proc = (t.container c).proc

theorem SameMembers.refl (t : ContainerTable) : SameMembers t t := fun _ => ⟨rfl, rfl⟩

theorem sameMembers_getContainerToRun (t : ContainerTable) :
    SameMembers t t.getContainerToRun.2 := by
  intro c
  rw [getContainerToRun_container]
  exact ⟨rfl, rfl⟩

theorem sameMembers_setLastProcessOfContainer (t : ContainerTable) (lastProcess cid : ℕ) :
    SameMembers t (t.setLastProcessOfContainer lastProcess cid) := by
  intro c
  by_cases hc : c = cid
  · rw [hc, setLastProcessOfContainer, modify_container_self]
    exact ⟨rfl, rfl⟩
  · rw [setLastProcessOfContainer, modify_container_of_ne t hc]
    exact ⟨rfl, rfl⟩

theorem index_eq_ok {cid : ℤ} {n : ℕ} (h : index cid = .ok n) : cid = n ∧ n < NCONTAINER := by
  unfold index at h
  obtain ⟨hrange, h⟩ := else_error_eq_ok.1 h
  cases h
  omega

@[simp] theorem writeBit_status (t : ContainerTable) (bit : ℤ) (pid cid c : ℕ) :
    ((t.writeBit bit pid cid).container c).status = (t.container c).status :=
  Lib.update_field Container.status (by rfl) c

theorem writeBit_proc (t : ContainerTable) (bit : ℤ) (pid cid c q : ℕ) :
    ((t.writeBit bit pid cid).container c).proc q =
      if c = cid ∧ q = pid then bit else (t.container c).proc q := by
  by_cases hc : c = cid
  · subst hc
    rw [writeBit, modify_container_self]
    by_cases hq : q = pid
    · rw [hq, if_pos ⟨rfl, rfl⟩]
      exact update_self ..
    · rw [if_neg fun h => hq h.2]
      exact update_of_ne hq ..
  · rw [writeBit, modify_container_of_ne t hc, if_neg fun h => hc h.1]

/-- What is left of a write to the members of a container: nothing if it is
dead, the word if it is alive. -/
def Written (bit : ℤ) (t : ContainerTable) (pid cid : ℕ) (t' : ContainerTable) : Prop :=
  ((t.container cid).status = .dead ∧ t' = t) ∨
    ((t.container cid).status = .alive ∧ t' = t.writeBit bit pid cid)

theorem writeProcess_eq_ok {bit : ℤ} {t : ContainerTable} {pid : ℕ} {cid : ℤ}
    {r : ℤ × ContainerTable} (h : writeProcess bit t pid cid = .ok r) :
    ∃ n : ℕ, cid = n ∧ n < NCONTAINER ∧ Written bit t pid n r.2 := by
  unfold writeProcess at h
  cases hidx : index cid with
  | error e =>
    rw [hidx] at h
    cases h
  | ok n =>
    obtain ⟨hcid, hlt⟩ := index_eq_ok hidx
    rw [hidx] at h
    refine ⟨n, hcid, hlt, ?_⟩
    change (if (t.container n).status = .dead then _ else _) = _ at h
    split at h
    next hdead =>
      cases h
      exact .inl ⟨hdead, rfl⟩
    next hdead =>
      have halive : (t.container n).status = .alive := by
        cases hs : (t.container n).status with
        | dead => exact absurd hs hdead
        | alive => rfl
      split at h
      · cases h
        exact .inr ⟨halive, rfl⟩
      · cases h

/-- `get_container` gives out a dead container, or none. -/
theorem getContainer_cases (t : ContainerTable) :
    t.getContainer = (-1, t) ∨ ∃ i, 1 ≤ i ∧ i < NCONTAINER ∧ (t.container i).status = .dead ∧
      t.getContainer = ((i : ℤ), t.modify i fun c => { c with status := .alive }) := by
  unfold getContainer
  split
  · exact .inl rfl
  next i hfind =>
    have hmem := List.mem_range'_1.1 (List.mem_of_find?_eq_some hfind)
    have hdead : (t.container i).status = .dead := by simpa using List.find?_some hfind
    exact .inr ⟨i, hmem.1, by omega, hdead, rfl⟩

theorem destroyContainerKernel_eq_ok {t t' : ContainerTable} {a : ℤ}
    (h : t.destroyContainerKernel a = .ok t') :
    ∃ n : ℕ, a = n ∧ n < NCONTAINER ∧ t' = t.modify n destroyed := by
  unfold destroyContainerKernel at h
  cases hidx : index a with
  | error e =>
    rw [hidx] at h
    cases h
  | ok n =>
    obtain ⟨ha, hlt⟩ := index_eq_ok hidx
    rw [hidx] at h
    exact ⟨n, ha, hlt, (Except.ok.inj h).symm⟩

end ContainerTable
end Kernel
end Xv6
