/-
# The fields of a container's record

`struct container` (`xv6/container_manager.c`, lines 13-31) has the container's
status, its members, the scheduler's cursor, and two arrays of 100 entries with a
counter each: for the pages of `container_malloc` and for the names that `sys_open`
registers.  Each call changes the field it is about and no other (`exec_fields`),
as long as there is an entry left for what it records (`HasEntry`): neither counter
is checked against the length of its array, and behind each array lies its counter.
-/

import Xv6.Files.Strings

namespace Xv6
namespace Files

open Lib Kernel

/-- The fields of a record, the arrays with their counters. -/
inductive Field where
  | status
  | proc
  | lastProcess
  | space
  | files

variable {s s' s'' : State} {p c cid addr omode : ℕ} {f : Field} {path : Name}

/-- A field is the same in two records, but for the entries of the arrays. -/
def Field.Equal (x y : Container) : Field → Prop
  | .status => y.status = x.status
  | .proc => y.proc = x.proc
  | .lastProcess => y.lastProcess = x.lastProcess
  | .space => y.lastSpace = x.lastSpace
  | .files => y.lastFileIndex = x.lastFileIndex

/-- A field of a container's record is the same in two states. -/
structure Field.Same (s s' : State) (c : ℕ) (f : Field) : Prop where
  equal : f.Equal (s.containers.container c) (s'.containers.container c)
  space : f = .space → s'.spaceMapping c = s.spaceMapping c
  files : f = .files → s'.filesOfContainer c = s.filesOfContainer c

theorem Field.Equal.refl (x : Container) (f : Field) : f.Equal x x := by
  cases f <;> rfl

namespace Field.Same

theorem of_eq (hcontainers : s'.containers.container c = s.containers.container c)
    (hspace : s'.spaceMapping = s.spaceMapping) (hfiles : s'.filesOfContainer = s.filesOfContainer) :
    f.Same s s' c := by
  refine ⟨?_, fun _ => congrFun hspace c, fun _ => congrFun hfiles c⟩
  rw [hcontainers]
  exact .refl ..

theorem of_records (hcontainers : s'.containers = s.containers)
    (hspace : s'.spaceMapping = s.spaceMapping) (hfiles : s'.filesOfContainer = s.filesOfContainer) :
    f.Same s s' c :=
  of_eq (by rw [hcontainers]) hspace hfiles

theorem trans (h : f.Same s s' c) (h' : f.Same s' s'' c) : f.Same s s'' c := by
  refine ⟨?_, fun hf => (h'.space hf).trans (h.space hf), fun hf => (h'.files hf).trans (h.files hf)⟩
  cases f <;> exact Eq.trans h'.equal h.equal

/-- The record of one container has been rewritten, and the field is not among what changed. -/
theorem modify (g : Container → Container) (hcontainers : s'.containers = s.containers.modify cid g)
    (hg : c = cid → f.Equal (s.containers.container cid) (g (s.containers.container cid)))
    (hspace : f = .space → s'.spaceMapping c = s.spaceMapping c)
    (hfiles : f = .files → s'.filesOfContainer c = s.filesOfContainer c) : f.Same s s' c := by
  refine ⟨?_, hspace, hfiles⟩
  rw [hcontainers]
  by_cases hc : c = cid
  · rw [hc, ContainerTable.modify_container_self]
    exact hg hc
  · rw [ContainerTable.modify_container_of_ne _ hc]
    exact .refl ..

/-- A member recorded or removed. -/
theorem written {bit : ℤ} {pid : ℕ} {x : ContainerTable} (hf : ¬ (f = .proc ∧ c = cid))
    (hw : ContainerTable.Written bit s.containers pid cid x) :
    f.Same s { s with containers := x } c := by
  obtain ⟨-, rfl⟩ | ⟨-, rfl⟩ := hw
  · exact of_eq rfl rfl rfl
  · refine .modify (fun c => { c with proc := Function.update c.proc pid bit }) rfl (fun hc => ?_)
      (fun _ => rfl) fun _ => rfl
    cases f <;> first | rfl | exact absurd ⟨rfl, hc⟩ hf

/-- A container given out. -/
theorem created (hf : ¬ (f = .status ∧ (c : ℤ) = (sysCreateContainer s).1)) :
    f.Same s (sysCreateContainer s).2 c := by
  unfold sysCreateContainer at hf ⊢
  obtain hnone | ⟨i, -, -, -, hsome⟩ := s.containers.getContainer_cases
  · rw [hnone]
    exact of_eq rfl rfl rfl
  · rw [hsome] at hf ⊢
    refine .modify (fun c => { c with status := .alive }) rfl (fun hc => ?_) (fun _ => rfl) fun _ => rfl
    cases f <;> first | rfl | exact absurd ⟨rfl, congrArg Nat.cast hc⟩ hf

/-- A page recorded, if there is an entry for it. -/
theorem allotted {page : ℕ} (hf : ¬ (f = .space ∧ c = cid))
    (hlt : (s.containers.container cid).lastSpace < NCENTRY)
    (h : s.getSpaceInContainer cid = .ok (page, s')) : f.Same s s' c := by
  obtain ⟨-, ⟨-, rfl⟩ | ⟨heq, -⟩⟩ := getSpaceInContainer_cases h
  · refine .modify (fun c => { c with lastSpace := (s.containers.container cid).lastSpace + 1 }) rfl
      (fun hc => ?_) (fun hspace => ?_) fun _ => rfl
    · cases f <;> first | rfl | exact absurd ⟨rfl, hc⟩ hf
    · exact Function.update_of_ne (fun hc => hf ⟨hspace, hc⟩) ..
  · omega

/-- A name registered, if there is an entry for it. -/
theorem registered (hf : ¬ (f = .files ∧ c = cid))
    (hlt : (s.containers.container cid).lastFileIndex < NCENTRY)
    (h : s.setFileInContainer addr cid = .ok s') : f.Same s s' c := by
  unfold State.setFileInContainer at h
  dsimp only at h
  rw [if_pos hlt] at h
  cases h
  refine .modify (fun c => { c with
    lastFileIndex := (s.containers.container cid).lastFileIndex + 1 }) rfl (fun hc => ?_)
    (fun _ => rfl) (fun hfiles => ?_)
  · cases f <;> first | rfl | exact absurd ⟨rfl, hc⟩ hf
  · exact Function.update_of_ne (fun hc => hf ⟨hfiles, hc⟩) ..

end Field.Same

/-! ### The calls -/

/-- The name that a call of `sys_open` registers, if it does. -/
def registered (s : State) (p addr omode : ℕ) : Option Name := do
  let path ← (s.proc p).fetchstr addr
  let r ← ((s.proc p).renaming s.fileTable addr path omode).toOption
  if r.register then
    some (if r.append then path ++ suffix (s.proc p).containerId else path)
  else none

/-- What `registered` says of a call, by the choice that `sys_open` makes. -/
theorem registered_eq {r : Renaming} (hpath : (s.proc p).fetchstr addr = some path)
    (hr : (s.proc p).renaming s.fileTable addr path omode = .ok r) :
    registered s p addr omode =
      if r.register then some (if r.append then path ++ suffix (s.proc p).containerId else path)
      else none := by
  unfold registered
  rw [hpath, Option.bind_eq_bind, Option.bind_some, hr]
  rfl

/-- **`sys_open` and the tables**: it leaves them alone, or puts the address of the name it goes
on with into that of its container; and then the name is there. -/
theorem sysOpen_registered {n : ℤ} (huse : (s.proc p).inUse = true)
    (h : sysOpen s p addr omode = .ok (n, s')) :
    ∃ x, s'.containers = x.containers ∧ s'.spaceMapping = x.spaceMapping ∧
      s'.filesOfContainer = x.filesOfContainer ∧
      (registered s p addr omode = none ∧ x = s ∨
        ∃ name, registered s p addr omode = some name ∧
          s.setFileInContainer addr (s.proc p).containerId = .ok x ∧
          Stays s' p addr name) := by
  obtain ⟨hpath, rfl⟩ | ⟨path, r, x, hpath, hr, hmapped, hreg, hsame⟩ := (sysOpen_opening h).records
  · refine ⟨s', rfl, rfl, rfl, .inl ⟨?_, rfl⟩⟩
    unfold registered
    rw [hpath]
    rfl
  · refine ⟨x, hsame.containers, hsame.spaceMapping, hsame.filesOfContainer, ?_⟩
    rw [registered_eq hpath hr]
    unfold State.register at hreg
    split at hreg
    next hregister =>
      rw [if_pos hregister]
      refine .inr ⟨_, rfl, hreg, ?_⟩
      refine Stays.of_same ?_ hsame
      have hinUse : ((s.proc p).renamed r addr path).inUse = (s.proc p).inUse := by
        unfold Proc.renamed
        split <;> rfl
      unfold Stays
      rw [setProc_self]
      exact ⟨hinUse.trans huse, .renamed hpath hmapped⟩
    next hregister =>
      rw [if_neg hregister]
      exact .inl ⟨rfl, (Except.ok.inj hreg).symm⟩

/-- There is an entry for what the call records. -/
def HasEntry (s : State) (e : Event) : Prop :=
  match e.call with
  | .open addr omode => registered s e.p addr omode ≠ none →
      (s.containers.container (s.proc e.p).containerId).lastFileIndex < NCENTRY
  | .containerMalloc units => units < PGSIZE →
      (s.containers.container (s.proc e.p).containerId).lastSpace < NCENTRY
  | _ => True

instance (s : State) (e : Event) : Decidable (HasEntry s e) := by
  unfold HasEntry
  rcases e.call with _ | _ <;> infer_instance

/-- The field of a container's record that a call is about. -/
def Event.On (s : State) (e : Event) (c : ℕ) (f : Field) : Prop :=
  match e.call with
  | .containerMalloc _ => f = .space ∧ c = (s.proc e.p).containerId
  | .open _ _ => f = .files ∧ c = (s.proc e.p).containerId
  | .joinContainer cid => f = .proc ∧ c = cid
  | .leaveContainer => f = .proc ∧ c = (s.proc e.p).containerId
  | .createContainer => f = .status ∧ (c : ℤ) = (sysCreateContainer s).1
  | .destroyContainer cid => c = cid
  | _ => False

/-- **A call changes the field it is about and no other.** -/
theorem exec_fields {call : Call} (huse : (s.proc p).inUse = true) (hentry : HasEntry s ⟨p, call⟩)
    (hexec : exec s p call = .ok s') (hf : ¬ Event.On s ⟨p, call⟩ c f) : f.Same s s' c := by
  cases call with
  | «open» addr omode =>
    obtain ⟨n, hopen⟩ := map_snd_eq_ok hexec
    obtain ⟨x, hcontainers, hspace, hfiles, hcase⟩ := sysOpen_registered huse hopen
    have hrest : f.Same x s' c := .of_records hcontainers hspace hfiles
    obtain ⟨-, rfl⟩ | ⟨name, hname, hset, -⟩ := hcase
    · exact hrest
    · exact (Field.Same.registered hf (hentry (by rw [hname]; nofun)) hset).trans hrest
  | fork =>
    obtain hsame | ⟨q, child, -, -, -, -, -, hsame⟩ := fork_records hexec
    · exact .of_records hsame.containers hsame.spaceMapping hsame.filesOfContainer
    · exact .of_records hsame.containers hsame.spaceMapping hsame.filesOfContainer
  | exit =>
    have hsame := exit_records hexec
    exact .of_records hsame.containers hsame.spaceMapping hsame.filesOfContainer
  | createContainer =>
    cases hexec
    exact .created hf
  | destroyContainer cid =>
    have hdestroyed : f.Same s { s with
        containers := s.containers.modify cid ContainerTable.destroyed } c :=
      .of_eq (ContainerTable.modify_container_of_ne _ hf _) rfl rfl
    obtain ⟨-, -, ⟨-, hexit⟩ | ⟨-, rfl⟩⟩ := sysDestroyContainer_eq_ok hexec
    · have hsame := exit_records hexit
      exact hdestroyed.trans
        (.of_records hsame.containers hsame.spaceMapping hsame.filesOfContainer)
    · exact hdestroyed
  | joinContainer cid =>
    obtain ⟨x, -, hw, rfl⟩ := exec_joinContainer hexec
    exact (Field.Same.written hf hw).trans (.of_eq rfl rfl rfl)
  | leaveContainer =>
    obtain rfl | ⟨x, hw, rfl⟩ := exec_leaveContainer hexec
    · exact .of_eq rfl rfl rfl
    · exact (Field.Same.written hf hw).trans (.of_eq rfl rfl rfl)
  | containerMalloc units =>
    obtain rfl | ⟨hunits, page, hspace⟩ := exec_containerMalloc hexec
    · exact .of_eq rfl rfl rfl
    · exact .allotted hf (hentry hunits) hspace
  | _ =>
    obtain ⟨x, -, hsame⟩ := exec_records id hexec
    exact .of_records hsame.containers hsame.spaceMapping hsame.filesOfContainer

end Files
end Xv6
