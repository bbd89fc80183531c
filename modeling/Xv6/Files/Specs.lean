/-
# What the calls return

For each function of the file calls and the container calls that returns, the
state it returns: one lemma for a function, on which the proofs about the calls
rest instead of its body.
-/

import Xv6.Files.References

namespace Xv6
namespace Files

open Function

variable {s s' : State} {p fd f cid addr omode : ℕ} {path path' : Name}

/-! ### Tables -/

theorem scratch_eq_ok {n : ℕ} (h : s.scratch n = .ok s') :
    s' = { s with freelist := s.freelist.drop n } := by
  unfold State.scratch at h
  split at h
  · cases h
  · cases h
    rfl

theorem filedup_eq_ok (h : s.filedup f = .ok s') :
    s' = s.setFile f { s.file f with ref := (s.file f).ref + 1 } := by
  unfold State.filedup at h
  split at h
  · cases h
  · cases h
    rfl

theorem argfd_eq_some {fd : ℤ} (h : s.argfd p fd = some f) :
    (s.proc p).ofile fd.toNat = some f := by
  unfold State.argfd at h
  split at h
  · cases h
  · exact h

theorem fdalloc_eq_some (h : s.fdalloc p = some fd) :
    fd < NOFILE ∧ (s.proc p).ofile fd = none := by
  have hnone : (s.proc p).ofile fd = none := by simpa using List.find?_some h
  exact ⟨List.mem_range.1 (List.mem_of_find?_eq_some h), hnone⟩

theorem filealloc_eq_some (h : s.filealloc = some f) : f < NFILE ∧ (s.file f).ref = 0 := by
  have href : (s.file f).ref = 0 := by simpa using List.find?_some h
  exact ⟨List.mem_range.1 (List.mem_of_find?_eq_some h), href⟩

theorem kalloc_eq (s : State) :
    s.kalloc = (s.freelist.head?, { s with freelist := s.freelist.tail }) := by
  unfold State.kalloc
  split
  · next hfree => rw [hfree]; cases s; cases hfree; rfl
  · next page rest hfree => rw [hfree]; rfl

/-! ### The name that `sys_open` goes on with -/

/-- The address goes behind the others, or with all entries taken into the counter. -/
theorem setFileInContainer_cases (h : s.setFileInContainer addr cid = .ok s') :
    ((s.containers.container cid).lastFileIndex < NCENTRY ∧ s' = { s with
        filesOfContainer := update s.filesOfContainer cid
          (update (s.filesOfContainer cid)
            (s.containers.container cid).lastFileIndex addr)
        containers := s.containers.modify cid fun c =>
          { c with lastFileIndex := (s.containers.container cid).lastFileIndex + 1 } }) ∨
      (s.containers.container cid).lastFileIndex = NCENTRY ∧ s' = { s with
        containers := s.containers.modify cid fun c => { c with lastFileIndex := addr + 1 } } := by
  unfold State.setFileInContainer at h
  dsimp only at h
  split at h
  next hlt =>
    cases h
    exact .inl ⟨hlt, rfl⟩
  · obtain ⟨heq, h⟩ := else_error_eq_ok.1 h
    cases h
    exact .inr ⟨heq, rfl⟩

/-- The suffix is stored if it lies in mapped memory. -/
theorem appendSuffix_eq_ok (h : s.appendSuffix p addr path = .ok (path', s')) :
    addr + path.length + 3 ≤ (s.proc p).mapped ∧ path' = path ++ suffix (s.proc p).containerId ∧
      s' = s.setProc p ((s.proc p).store (addr + path.length)
        (suffix (s.proc p).containerId ++ [NUL])) := by
  unfold State.appendSuffix at h
  dsimp only at h
  obtain ⟨hmapped, h⟩ := ite_error_eq_ok.1 h
  cases h
  exact ⟨by omega, rfl, rfl⟩

/-- The container table with the address registered, if there is a name to register. -/
def State.register (s : State) (r : Renaming) (addr cid : ℕ) : Except Halt State :=
  if r.register then s.setFileInContainer addr cid else .ok s

/-- The process after the suffix has been appended to its string, if it was. -/
def Proc.renamed (proc : Proc) (r : Renaming) (addr : ℕ) (path : Name) : Proc :=
  if r.append then proc.store (addr + path.length) (suffix proc.containerId ++ [NUL]) else proc

theorem register_cases {r : Renaming} (h : s.register r addr cid = .ok s') :
    r.register = true ∧ s.setFileInContainer addr cid = .ok s' ∨ r.register = false ∧ s' = s := by
  unfold State.register at h
  split at h
  · next hreg => exact .inl ⟨hreg, h⟩
  · next hreg => exact .inr ⟨by simpa using hreg, (Except.ok.inj h).symm⟩

/-- The name, the pages taken for it, the suffix and the entry in the table. -/
theorem rename_eq_ok {makeCopy : Bool} (h : s.rename p addr path omode = .ok (path', makeCopy, s')) :
    ∃ r, (s.proc p).renaming s.fileTable addr path omode = .ok r ∧ makeCopy = r.makeCopy ∧
      path' = (if r.append then path ++ suffix (s.proc p).containerId else path) ∧
      (r.append = true → addr + path.length + 3 ≤ (s.proc p).mapped) ∧
      ({ s with freelist := s.freelist.drop r.pages }.setProc p
        ((s.proc p).renamed r addr path)).register r addr (s.proc p).containerId = .ok s' := by
  obtain ⟨r, hr, h⟩ := bind_eq_ok.1 h
  obtain ⟨s₁, h₁, h⟩ := bind_eq_ok.1 h
  obtain ⟨⟨path₂, s₂⟩, h₂, h⟩ := bind_eq_ok.1 h
  obtain ⟨s₃, h₃, h⟩ := bind_eq_ok.1 h
  cases h
  obtain rfl := scratch_eq_ok h₁
  refine ⟨r, hr, rfl, ?_⟩
  unfold Proc.renamed
  split at h₂
  next happend =>
    obtain ⟨hmapped, rfl, rfl⟩ := appendSuffix_eq_ok h₂
    rw [if_pos happend, if_pos happend]
    refine ⟨rfl, fun _ => hmapped, ?_⟩
    rw [setProc_self] at h₃
    exact h₃
  next happend =>
    cases h₂
    rw [if_neg happend, if_neg happend, State.setProc, Function.update_eq_self]
    exact ⟨rfl, fun hyes => absurd hyes happend, h₃⟩

/-! ### Reads and writes -/

theorem consoleread_length {first : Bool} {n : ℕ} {input bytes rest : List Char}
    (h : consoleread first n input = .ok (bytes, rest)) : bytes.length ≤ n := by
  induction n generalizing first input bytes rest with
  | zero =>
    cases h
    exact Nat.le_refl 0
  | succ n ih =>
    cases input with
    | nil => cases h
    | cons c input =>
      unfold consoleread at h
      split at h
      · cases h
        exact Nat.zero_le _
      · split at h
        · cases h
          exact Nat.succ_le_succ (Nat.zero_le n)
        · obtain ⟨⟨bytes', rest'⟩, hread, h⟩ := bind_eq_ok.1 h
          cases h
          exact Nat.succ_le_succ (ih hread)

/-- A read takes bytes from a pipe or the console, or moves the offset. -/
theorem fileread_cases {n : ℕ} {m : ℤ} {bytes : List Char}
    (h : s.fileread f n = .ok (m, bytes, s')) : bytes.length ≤ n ∧ (s' = s ∨
      ((s.file f).type = .pipe ∧
        ∃ page data, s' = s.setPipe page { s.pipe page with data := data }) ∨
      ∃ console k, s' = { s with console := console }.advance f k) := by
  unfold State.fileread at h
  dsimp only at h
  split at h
  · cases h
    exact ⟨Nat.zero_le n, .inl rfl⟩
  · split at h
    next htype =>
      unfold State.piperead at h
      dsimp only at h
      split at h
      · cases h
      · cases h
        exact ⟨List.length_take_le .., .inr (.inl ⟨htype, _, _, rfl⟩)⟩
    · obtain ⟨d, -, h⟩ := bind_eq_ok.1 h
      split at h
      · split at h
        · cases h
          exact ⟨Nat.zero_le n, .inl rfl⟩
        · obtain ⟨⟨bytes', rest⟩, hread, h⟩ := bind_eq_ok.1 h
          cases h
          exact ⟨consoleread_length hread, .inr (.inr ⟨rest, _, rfl⟩)⟩
      · split at h
        · cases h
          exact ⟨Nat.zero_le n, .inl rfl⟩
        next bytes' hread =>
          cases h
          unfold readi at hread
          split at hread
          · cases hread
          · cases hread
            exact ⟨List.length_take_le .., .inr (.inr ⟨s.console, _, rfl⟩)⟩
    · cases h

/-- A write puts bytes into a pipe, or goes through the loop for an inode. -/
theorem filewrite_cases {src : List Char} {n : ℤ} (h : s.filewrite f src = .ok (n, s')) :
    s' = s ∨ (∃ page data, s' = s.setPipe page { s.pipe page with data := data }) ∨
      ∃ k done, (s.file f).Uses k ∧ (s.file f).writable = true ∧
        State.filewriteLoop src.length s f k src = .ok (done, s') := by
  unfold State.filewrite at h
  dsimp only at h
  split at h
  · cases h
    exact .inl rfl
  next hwritable =>
    split at h
    · unfold State.pipewrite at h
      dsimp only at h
      split at h
      · cases h
        exact .inr (.inl ⟨_, _, rfl⟩)
      · split at h
        · cases h
        · cases h
          exact .inr (.inl ⟨_, _, rfl⟩)
    next k htype hip =>
      obtain ⟨⟨done, s₁⟩, hloop, h⟩ := bind_eq_ok.1 h
      cases h
      exact .inr (.inr ⟨k, done, ⟨htype, hip⟩, by simpa using hwritable, hloop⟩)
    · cases h

theorem sysRead_cases {fd : ℤ} {buf n : ℕ} {m : ℤ} (h : sysRead s p fd buf n = .ok (m, s')) :
    s' = s ∨ ∃ f bytes s₁, s.fileread f n = .ok (m, bytes, s₁) ∧
      s' = s₁.setProc p ((s₁.proc p).store buf bytes) := by
  unfold sysRead at h
  split at h
  · cases h
    exact .inl rfl
  next f _ =>
    split at h
    · cases h
      exact .inl rfl
    · obtain ⟨tag, -, h⟩ := bind_eq_ok.1 h
      split at h
      · obtain ⟨⟨r, bytes, s₁⟩, hread, h⟩ := bind_eq_ok.1 h
        cases h
        exact .inr ⟨f, bytes, s₁, hread, rfl⟩
      · cases h
        exact .inl rfl

theorem sysWrite_eq_ok {fd : ℤ} {buf n : ℕ} {m : ℤ} (h : sysWrite s p fd buf n = .ok (m, s')) :
    s' = s ∨ ∃ f, s.argfd p fd = some f ∧
      s.filewrite f ((s.proc p).load buf n) = .ok (m, s') := by
  unfold sysWrite at h
  split at h
  · cases h
    exact .inl rfl
  next f hfd =>
    split at h
    · cases h
      exact .inl rfl
    · obtain ⟨tag, -, h⟩ := bind_eq_ok.1 h
      split at h
      · exact .inr ⟨f, hfd, h⟩
      · cases h
        exact .inl rfl

/-! ### Pipes -/

/-- `pipealloc`, if it succeeds: two free entries and a page become a pipe. -/
theorem pipealloc_some {g : ℕ} (h : s.pipealloc = (some (f, g), s')) :
    ∃ page rest, f < NFILE ∧ (s.file f).ref = 0 ∧ g < NFILE ∧ g ≠ f ∧ (s.file g).ref = 0 ∧
      s.freelist = page :: rest ∧
      s' = (({ s with freelist := rest }.setPipe page
          { readopen := true, writeopen := true }).setFile f
            { s.file f with
              type := .pipe, ref := 1, readable := true, writable := false, pipe := page }).setFile g
            { s.file g with
              type := .pipe, ref := 1, readable := false, writable := true, pipe := page } := by
  unfold State.pipealloc at h
  split at h
  · cases h
  next f' hf =>
    dsimp only at h
    split at h
    · cases h
    next g' hg =>
      obtain ⟨hflt, hfref⟩ := filealloc_eq_some hf
      obtain ⟨hglt, hgref⟩ := filealloc_eq_some hg
      have hne : g' ≠ f' := by
        rintro rfl
        rw [setFile_self] at hgref
        cases hgref
      rw [setFile_of_ne s hne] at hgref h
      split at h
      · cases h
      next page s₂ hk =>
        cases h
        unfold State.kalloc at hk
        split at hk
        · cases hk
        next page' rest hlist =>
          cases hk
          refine ⟨_, rest, hflt, hfref, hglt, hne, hgref, hlist, ?_⟩
          congr 1
          exact setFile_setFile ({ s with freelist := rest }.setPipe _ _) f _ _

/-! ### Containers -/

theorem map_snd_eq_ok {n : Except Halt (ℤ × State)} (h : n.map Prod.snd = .ok s') :
    ∃ m, n = .ok (m, s') := by
  cases n with
  | error e => cases h
  | ok r => exact ⟨r.1, congrArg Except.ok (Prod.ext rfl (Except.ok.inj h))⟩

/-- The page goes behind the others, or with all entries taken into the counter. -/
theorem getSpaceInContainer_cases {page : ℕ} (h : s.getSpaceInContainer cid = .ok (page, s')) :
    page = s.freelist.head?.getD 0 ∧
      ((s.containers.container cid).lastSpace < NCENTRY ∧ s' = { s with
          freelist := s.freelist.tail
          spaceMapping := update s.spaceMapping cid (update (s.spaceMapping cid)
            (s.containers.container cid).lastSpace page)
          containers := s.containers.modify cid fun c =>
            { c with lastSpace := (s.containers.container cid).lastSpace + 1 } } ∨
        (s.containers.container cid).lastSpace = NCENTRY ∧ s' = { s with
          freelist := s.freelist.tail
          containers := s.containers.modify cid fun c => { c with lastSpace := page + 1 } }) := by
  unfold State.getSpaceInContainer at h
  rw [kalloc_eq] at h
  dsimp only at h
  split at h
  next hlt =>
    cases h
    exact ⟨rfl, .inl ⟨hlt, rfl⟩⟩
  · obtain ⟨heq, h⟩ := else_error_eq_ok.1 h
    cases h
    exact ⟨rfl, .inr ⟨heq, rfl⟩⟩

theorem sysContainerMalloc_eq_ok {units n : ℤ} (h : sysContainerMalloc s p units = .ok (n, s')) :
    (PGSIZE ≤ units ∧ n = -1 ∧ s' = s) ∨
      (units < PGSIZE ∧ ∃ page : ℕ, n = page ∧
        s.getSpaceInContainer (s.proc p).containerId = .ok (page, s')) := by
  unfold sysContainerMalloc at h
  split at h
  next hlt =>
    obtain ⟨⟨page, t⟩, hspace, h⟩ := bind_eq_ok.1 h
    cases h
    exact .inr ⟨hlt, page, rfl, hspace⟩
  next hge =>
    cases h
    exact .inl ⟨by omega, rfl, rfl⟩

theorem exec_containerMalloc {units : ℤ} (h : exec s p (.containerMalloc units) = .ok s') :
    s' = s ∨ (units < PGSIZE ∧
      ∃ page, s.getSpaceInContainer (s.proc p).containerId = .ok (page, s')) := by
  obtain ⟨n, h⟩ := map_snd_eq_ok h
  refine (sysContainerMalloc_eq_ok h).imp (·.2.2) ?_
  rintro ⟨hlt, page, -, hspace⟩
  exact ⟨hlt, page, hspace⟩

/-- A page at most, and the records of the containers. -/
theorem exec_containerMalloc_eq {units : ℤ} (h : exec s p (.containerMalloc units) = .ok s') :
    ∃ f m t, s' = { s with freelist := f, spaceMapping := m, containers := t } := by
  obtain rfl | ⟨-, page, hspace⟩ := exec_containerMalloc h
  · exact ⟨_, _, _, rfl⟩
  · obtain ⟨-, ⟨-, rfl⟩ | ⟨-, rfl⟩⟩ := getSpaceInContainer_cases hspace
    · exact ⟨_, _, _, rfl⟩
    · exact ⟨_, _, _, rfl⟩

theorem exec_joinContainer (h : exec s p (.joinContainer cid) = .ok s') :
    ∃ t, cid < NCONTAINER ∧
      Kernel.ContainerTable.Written 1 s.containers (s.proc p).pid cid t ∧
      s' = { s with containers := t }.setProc p { s.proc p with containerId := cid } := by
  obtain ⟨n, h⟩ := map_snd_eq_ok h
  obtain ⟨⟨stat, t⟩, hw, h⟩ := bind_eq_ok.1 h
  cases h
  obtain ⟨n, hn, hlt, hw⟩ := Kernel.ContainerTable.writeProcess_eq_ok hw
  obtain rfl : cid = n := by omega
  exact ⟨t, hlt, hw, rfl⟩

theorem exec_leaveContainer (h : exec s p .leaveContainer = .ok s') :
    s' = s ∨ ∃ t,
      Kernel.ContainerTable.Written 0 s.containers (s.proc p).pid (s.proc p).containerId t ∧
      s' = { s with containers := t }.setProc p { s.proc p with containerId := 0 } := by
  obtain ⟨n, h⟩ := map_snd_eq_ok h
  unfold sysLeaveContainer at h
  split at h
  · cases h
    exact .inl rfl
  · obtain ⟨⟨stat, t⟩, hw, h⟩ := bind_eq_ok.1 h
    cases h
    obtain ⟨n, hn, -, hw⟩ := Kernel.ContainerTable.writeProcess_eq_ok hw
    obtain rfl : (s.proc p).containerId = n := by omega
    exact .inr ⟨t, hw, rfl⟩

/-- A container is destroyed if no other process has its id; a caller with that id exits. -/
theorem sysDestroyContainer_eq_ok (h : sysDestroyContainer s p cid = .ok s') :
    cid < NCONTAINER ∧
      (∀ q < NPROC, (s.proc q).containerId = cid → (s.proc q).pid = (s.proc p).pid) ∧
      ((s.proc p).containerId = cid ∧
          exit { s with containers := s.containers.modify cid Kernel.ContainerTable.destroyed } p =
            .ok s' ∨
        (s.proc p).containerId ≠ cid ∧
          s' = { s with containers := s.containers.modify cid Kernel.ContainerTable.destroyed }) := by
  obtain ⟨t, ht, h⟩ := bind_eq_ok.1 h
  obtain ⟨n, hn, hlt, rfl⟩ := Kernel.ContainerTable.destroyContainerKernel_eq_ok ht
  obtain rfl : cid = n := by omega
  dsimp only at h
  obtain ⟨hothers, h⟩ := ite_error_eq_ok.1 h
  refine ⟨hlt, fun q hq hcid => ?_, ?_⟩
  · by_contra hpid
    exact hothers (List.any_eq_true.2 ⟨q, List.mem_range.2 hq, decide_eq_true ⟨hcid, hpid⟩⟩)
  · split at h
    · next hcid => exact .inl ⟨hcid, h⟩
    · next hcid => exact .inr ⟨hcid, (Except.ok.inj h).symm⟩

/-- Two pages at most are taken. -/
theorem sysGetFileContainerId_eq_ok {n : ℤ} (h : sysGetFileContainerId s p addr = .ok (n, s')) :
    ∃ m, s' = { s with freelist := s.freelist.drop m } := by
  unfold sysGetFileContainerId at h
  split at h
  · cases h
    exact ⟨0, rfl⟩
  · obtain ⟨s₁, hpage, h⟩ := bind_eq_ok.1 h
    obtain rfl := scratch_eq_ok hpage
    obtain ⟨-, h⟩ := ite_error_eq_ok.1 h
    split at h
    · cases h
      exact ⟨1, rfl⟩
    · obtain ⟨found, -, h⟩ := bind_eq_ok.1 h
      obtain ⟨s₂, hpage', h⟩ := bind_eq_ok.1 h
      cases h
      obtain rfl := scratch_eq_ok hpage'
      exact ⟨1 + 1, by rw [← List.drop_drop]⟩

/-! ### Steps -/

/-- `fork` finds no slot, or makes the child after its descriptors were copied. -/
theorem fork_cases (h : fork s p = .ok s') :
    s' = s ∨ ∃ q x, q < NPROC ∧ (s.proc q).inUse = false ∧
      (List.range NOFILE).foldlM (State.dupFd p q) s = .ok x ∧
      s' = { x.setCache (x.fs.icache.idup (x.proc p).cwd) with nextpid := x.nextpid + 1 }.setProc q
        { x.proc p with
          pid := x.nextpid, containerId := 0, ofile := (x.proc q).ofile, inUse := true } := by
  unfold fork at h
  split at h
  · cases h
    exact .inl rfl
  next q hfind =>
    have hfree : (s.proc q).inUse = false := by simpa using List.find?_some hfind
    obtain ⟨x, hloop, h⟩ := bind_eq_ok.1 h
    cases h
    exact .inr ⟨q, x, List.mem_range.1 (List.mem_of_find?_eq_some hfind), hfree, hloop, rfl⟩

theorem exit_eq_ok (h : exit s p = .ok s') :
    ∃ x, (List.range NOFILE).foldlM (State.closeFd p) s = .ok x ∧
      s' = (x.iput (x.proc p).cwd).setProc p { x.proc p with inUse := false, pid := 0 } := by
  unfold exit at h
  split at h
  · cases h
  · obtain ⟨x, hloop, h⟩ := bind_eq_ok.1 h
    cases h
    exact ⟨x, hloop, rfl⟩

theorem map_fst_eq_ok {n : Except Halt (ℤ × State)} {m : ℤ} (h : n.map Prod.fst = .ok m) :
    ∃ s', n = .ok (m, s') := by
  cases n with
  | error e => cases h
  | ok r => exact ⟨r.2, congrArg Except.ok (Prod.ext (Except.ok.inj h) rfl)⟩

/-- A step is a call by a process that exists. -/
theorem step_eq_some {e : Event} (h : step s e = some s') :
    e.p < NPROC ∧ (s.proc e.p).inUse = true ∧ exec s e.p e.call = .ok s' := by
  unfold step at h
  obtain ⟨hcaller, h⟩ := Option.ite_none_right_eq_some.1 h
  exact ⟨hcaller.1, hcaller.2, ok_of_toOption h⟩

end Files
end Xv6
