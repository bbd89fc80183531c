/-
# The container records through `sys_open`

What leaves `container_table` (`xv6/container_manager.c`, lines 13-31) with its
pages and names, and the memory of the processes, as they are (`SameRecords`), and
what `sys_open` does to them: it appends a suffix to the caller's string, and
registers the name (`xv6/sysfile.c`, lines 438-472).
-/

import Xv6.Files.Grounded

namespace Xv6
namespace Files

open Lib

/-- A process but for its directory and its descriptors. -/
def Proc.image (p : Proc) : Proc := { p with cwd := 0, ofile := fun _ => none }

variable {s s' s'' t : State} {p f addr omode cid d : ℕ} {path path' : Name}

/-- The container table, the pages and the names are the same, and so are the processes but for
their directories and descriptors. -/
structure SameRecords (s s' : State) : Prop where
  containers : s'.containers = s.containers
  spaceMapping : s'.spaceMapping = s.spaceMapping
  filesOfContainer : s'.filesOfContainer = s.filesOfContainer
  nextpid : s'.nextpid = s.nextpid
  image : ∀ q, (s'.proc q).image = (s.proc q).image

namespace SameRecords

theorem refl (s : State) : SameRecords s s := ⟨rfl, rfl, rfl, rfl, fun _ => rfl⟩

theorem trans (h : SameRecords s s') (h' : SameRecords s' s'') : SameRecords s s'' :=
  ⟨h'.containers.trans h.containers, h'.spaceMapping.trans h.spaceMapping,
    h'.filesOfContainer.trans h.filesOfContainer, h'.nextpid.trans h.nextpid,
    fun q => (h'.image q).trans (h.image q)⟩

theorem inUse (h : SameRecords s s') (q : ℕ) : (s'.proc q).inUse = (s.proc q).inUse :=
  show (s'.proc q).image.inUse = (s.proc q).image.inUse from congrArg Proc.inUse (h.image q)

theorem pid (h : SameRecords s s') (q : ℕ) : (s'.proc q).pid = (s.proc q).pid :=
  show (s'.proc q).image.pid = (s.proc q).image.pid from congrArg Proc.pid (h.image q)

theorem containerId (h : SameRecords s s') (q : ℕ) :
    (s'.proc q).containerId = (s.proc q).containerId :=
  show (s'.proc q).image.containerId = (s.proc q).image.containerId from congrArg Proc.containerId (h.image q)

theorem mem (h : SameRecords s s') (q : ℕ) : (s'.proc q).mem = (s.proc q).mem :=
  show (s'.proc q).image.mem = (s.proc q).image.mem from congrArg Proc.mem (h.image q)

theorem sz (h : SameRecords s s') (q : ℕ) : (s'.proc q).sz = (s.proc q).sz :=
  show (s'.proc q).image.sz = (s.proc q).image.sz from congrArg Proc.sz (h.image q)

/-- Nothing of the records and of the processes was touched. -/
theorem of_proc_eq (hproc : s'.proc = s.proc) (hnextpid : s'.nextpid = s.nextpid)
    (hcontainers : s'.containers = s.containers) (hspace : s'.spaceMapping = s.spaceMapping)
    (hfiles : s'.filesOfContainer = s.filesOfContainer) : SameRecords s s' :=
  ⟨hcontainers, hspace, hfiles, hnextpid, fun q => by rw [hproc]⟩

theorem setFile (s : State) (f : ℕ) (x : File) : SameRecords s (s.setFile f x) :=
  of_proc_eq rfl rfl rfl rfl rfl

theorem setCache (s : State) (c : ICache) : SameRecords s (s.setCache c) :=
  of_proc_eq rfl rfl rfl rfl rfl

/-- A process of which only the directory and the descriptors change. -/
theorem setProc (s : State) {x : Proc} (hx : x.image = (s.proc p).image) :
    SameRecords s (s.setProc p x) := by
  exact ⟨rfl, rfl, rfl, rfl, update_field Proc.image hx⟩

theorem setFd (s : State) (p fd : ℕ) (o : Option ℕ) : SameRecords s (s.setFd p fd o) :=
  setProc s rfl

/-- The same new process in both. -/
theorem setProc_both (h : SameRecords s s') {x y : Proc} (hx : y.image = x.image) (p : ℕ) :
    SameRecords (s.setProc p x) (s'.setProc p y) := by
  refine ⟨h.containers, h.spaceMapping, h.filesOfContainer, h.nextpid, fun q => ?_⟩
  by_cases hq : q = p
  · rw [hq, setProc_self, setProc_self, hx]
  · rw [setProc_of_ne s hq, setProc_of_ne s' hq]
    exact h.image q

theorem fileTable (h : SameRecords s s') (d : ℕ) : s'.fileTable d = s.fileTable d := by
  unfold State.fileTable
  rw [h.containers, h.filesOfContainer]

theorem of_wrote {inum : ℕ} (h : Wrote inum s s') : SameRecords s s' :=
  of_proc_eq h.proc h.nextpid h.containers h.spaceMapping h.filesOfContainer

/-- Descriptors do not count. -/
theorem of_setFd {fd : ℕ} {o : Option ℕ} (h : SameRecords (s.setFd p fd o) s') : SameRecords s s' :=
  (setFd s p fd o).trans h

theorem scratch {n : ℕ} (h : s.scratch n = .ok s') : SameRecords s s' := by
  obtain rfl := scratch_eq_ok h
  exact .of_proc_eq rfl rfl rfl rfl rfl

theorem stable : Stable SameRecords where
  trans := .trans
  rest _ _ _ _ := of_proc_eq rfl rfl rfl rfl rfl
  fd := setFd
  file s f x _ := setFile s f x
  put _ _ := of_proc_eq rfl rfl rfl rfl rfl

theorem fileFd {r : Option (ℕ × ℕ)} (h : s.fileFd p = (r, s')) : SameRecords s s' :=
  stable.fileFd h

theorem filewrite {src : List Char} {n : ℤ} (h : s.filewrite f src = .ok (n, s')) :
    SameRecords s s' := by
  obtain rfl | ⟨page, data, rfl⟩ | ⟨k, done, -, -, hloop⟩ := filewrite_cases h
  · exact .refl s'
  · exact .of_proc_eq rfl rfl rfl rfl rfl
  · exact .of_wrote (filewriteLoop_wrote hloop)

end SameRecords

/-! ### `open` -/

theorem register_proc {r : Renaming} (h : s.register r addr cid = .ok t) : t.proc = s.proc := by
  obtain ⟨-, h⟩ | ⟨-, rfl⟩ := register_cases h
  · obtain ⟨-, rfl⟩ | ⟨-, rfl⟩ := setFileInContainer_cases h
    · rfl
    · rfl
  · rfl

/-- Registering reads and changes nothing but the records. -/
theorem SameRecords.register {r : Renaming} (h : SameRecords s s')
    (hs : s'.register r addr cid = .ok t) :
    ∃ t', s.register r addr cid = .ok t' ∧ SameRecords t' t := by
  unfold State.register State.setFileInContainer at hs ⊢
  rw [h.containers, h.filesOfContainer] at hs
  dsimp only at hs ⊢
  split
  next hreg =>
    rw [if_pos hreg] at hs
    split
    next hlt =>
      rw [if_pos hlt] at hs
      cases hs
      exact ⟨_, rfl, rfl, h.spaceMapping, rfl, h.nextpid, h.image⟩
    next hlt =>
      rw [if_neg hlt] at hs
      split
      next heq =>
        rw [if_pos heq] at hs
        cases hs
        exact ⟨_, rfl, rfl, h.spaceMapping, rfl, h.nextpid, h.image⟩
      next heq =>
        rw [if_neg heq] at hs
        cases hs
  next hreg =>
    rw [if_neg hreg] at hs
    cases hs
    exact ⟨_, rfl, h⟩

/-- Registering does not look at the processes. -/
theorem register_setProc {r : Renaming} {x : Proc} (h : (s.setProc p x).register r addr cid = .ok t) :
    ∃ t', s.register r addr cid = .ok t' ∧ t = t'.setProc p x := by
  have hmap : (s.setProc p x).register r addr cid =
      (s.register r addr cid).map fun t => t.setProc p x := by
    unfold State.register State.setFileInContainer
    dsimp only [State.setProc]
    split_ifs <;> rfl
  rw [hmap] at h
  obtain ⟨t', ht, rfl⟩ := map_eq_ok h
  exact ⟨t', ht, rfl⟩

/-- **What becomes of a name and of the records** when `sys_open` chooses the name. -/
theorem rename_records {makeCopy : Bool}
    (h : s.rename p addr path omode = .ok (path', makeCopy, s')) :
    ∃ r t, (s.proc p).renaming s.fileTable addr path omode = .ok r ∧
      path' = (if r.append then path ++ suffix (s.proc p).containerId else path) ∧
      makeCopy = r.makeCopy ∧
      (r.append = true → addr + path.length + 3 ≤ (s.proc p).mapped) ∧
      s.register r addr (s.proc p).containerId = .ok t ∧
      SameRecords (t.setProc p ((s.proc p).renamed r addr path)) s' := by
  obtain ⟨r, hr, hcopy, hpath, hmapped, hreg⟩ := rename_eq_ok h
  have hpages : SameRecords s { s with freelist := s.freelist.drop r.pages } :=
    .of_proc_eq rfl rfl rfl rfl rfl
  obtain ⟨t, ht, hsame⟩ := (hpages.setProc_both rfl p).register hreg
  obtain ⟨t', ht', rfl⟩ := register_setProc ht
  exact ⟨r, t', hr, hpath, hcopy, hmapped, ht', hsame⟩

theorem openInode_records {makeCopy : Bool} {r : Option ℕ}
    (h : s.openInode p path omode makeCopy = .ok (r, s')) : SameRecords s s' := by
  have hl := openInode_looked h
  cases hl with
  | failed | found | created => exact .of_proc_eq rfl rfl rfl rfl rfl

theorem Copying.records {i : ℕ} (h : Copying s p path i s') : SameRecords s s' := by
  cases h with
  | lost hpage _ => exact (SameRecords.scratch hpage).trans (.setCache _ _)
  | full hpage _ _ hfd =>
    exact (SameRecords.scratch hpage).trans
      ((SameRecords.setCache _ _).trans ((SameRecords.fileFd hfd).trans (.setCache _ _)))
  | copied hpage _ _ hfd hwrote =>
    exact (SameRecords.scratch hpage).trans ((SameRecords.setCache _ _).trans
      ((SameRecords.fileFd hfd).trans ((SameRecords.setFile _ _ _).trans (.of_wrote hwrote))))

/-- After the choice of the name, `sys_open` changes no record and no memory of a process. -/
theorem Opening.after_rename {n : ℤ} (h : Opening s p addr omode n s') :
    ((s.proc p).fetchstr addr = none ∧ s' = s) ∨
      ∃ path path' makeCopy s₁, (s.proc p).fetchstr addr = some path ∧
        s.rename p addr path omode = .ok (path', makeCopy, s₁) ∧ SameRecords s₁ s' := by
  cases h with
  | unnamed hpath => exact .inl ⟨hpath, rfl⟩
  | missing hpath hname hlook =>
    exact .inr ⟨_, _, _, _, hpath, hname, openInode_records hlook⟩
  | full hpath hname hlook hfd =>
    have hrec := (openInode_records hlook).trans (.fileFd hfd)
    exact .inr ⟨_, _, _, _, hpath, hname, hrec.trans (.setCache _ _)⟩
  | refused hpath hname hlook hfd _ =>
    exact .inr ⟨_, _, _, _, hpath, hname, (openInode_records hlook).trans (.fileFd hfd)⟩
  | opened hpath hname hlook hfd _ =>
    have hrec := (openInode_records hlook).trans (.fileFd hfd)
    exact .inr ⟨_, _, _, _, hpath, hname, hrec.trans (.setFile _ _ _)⟩
  | copied hpath hname hlook hfd _ hcopy =>
    have hrec := (openInode_records hlook).trans (.fileFd hfd)
    exact .inr ⟨_, _, _, _, hpath, hname, (hrec.trans (.setFile _ _ _)).trans hcopy.records⟩

/-- **`sys_open` changes the records where it registers the name, and nowhere else.** -/
theorem Opening.records {n : ℤ} (h : Opening s p addr omode n s') :
    ((s.proc p).fetchstr addr = none ∧ s' = s) ∨
      ∃ path r t, (s.proc p).fetchstr addr = some path ∧
        (s.proc p).renaming s.fileTable addr path omode = .ok r ∧
        (r.append = true → addr + path.length + 3 ≤ (s.proc p).mapped) ∧
        s.register r addr (s.proc p).containerId = .ok t ∧
        SameRecords (t.setProc p ((s.proc p).renamed r addr path)) s' := by
  refine h.after_rename.imp_right ?_
  rintro ⟨path, path', makeCopy, s₁, hpath, hname, hsame⟩
  obtain ⟨r, t, hr, -, -, hmapped, hreg, hsame'⟩ := rename_records hname
  exact ⟨path, r, t, hpath, hr, hmapped, hreg, hsame'.trans hsame⟩

end Files
end Xv6
