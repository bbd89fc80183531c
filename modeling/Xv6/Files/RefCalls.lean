/-
# Reference counts through the other file calls

What `read`, `write`, `close`, `dup`, `pipe`, `chdir`, `mkdir` and `mknod` do to
the counts and to the other processes.  All of them leave every count right,
except that `sys_close` of a file that is not marked with the caller's container
drops the descriptor and nothing else (`unclosed`).
-/

import Xv6.Files.RefOpen

namespace Xv6
namespace Files

open Lib

variable {s s' : State} {p q fd f k addr : ℕ} {spare : Spare}

/-! ### `read` and `write` -/

theorem Same.setPipe_data (s : State) (page : ℕ) (data : List Char) :
    Same s (s.setPipe page { s.pipe page with data := data }) := by
  refine { Same.refl s with pipe := fun pg w => ?_ }
  change (Function.update s.pipe page _ pg).isOpen w = _
  by_cases hpg : pg = page
  · subst hpg
    rw [Function.update_self]
    rfl
  · rw [Function.update_of_ne hpg]

theorem fileread_same {n : ℕ} {m : ℤ} {bytes : List Char}
    (h : s.fileread f n = .ok (m, bytes, s')) : Same s s' ∧ s'.proc = s.proc := by
  obtain ⟨-, rfl | ⟨-, page, data, rfl⟩ | ⟨console, k, rfl⟩⟩ := fileread_cases h
  · exact ⟨.refl s', rfl⟩
  · exact ⟨.setPipe_data s page data, rfl⟩
  · have hconsole : Wrote 0 s { s with console := console } := { Wrote.refl 0 s with }
    exact ⟨.of_wrote (hconsole.trans (.advance 0 _ f k)), rfl⟩

theorem filewrite_same {src : List Char} {n : ℤ} (h : s.filewrite f src = .ok (n, s')) :
    Same s s' ∧ s'.proc = s.proc := by
  obtain rfl | ⟨page, data, rfl⟩ | ⟨k, done, -, -, hloop⟩ := filewrite_cases h
  · exact ⟨.refl s', rfl⟩
  · exact ⟨.setPipe_data s page data, rfl⟩
  · have hwrote := filewriteLoop_wrote hloop
    exact ⟨.of_wrote hwrote, hwrote.proc⟩

theorem Counted.sysRead {fd : ℤ} {buf n : ℕ} {m : ℤ} (h : Counted spare s)
    (hs : sysRead s p fd buf n = .ok (m, s')) : Counted spare s' ∧ Alone p s s' := by
  obtain rfl | ⟨f, bytes, s₁, hread, rfl⟩ := sysRead_cases hs
  · exact ⟨h, .of_proc_eq rfl⟩
  · obtain ⟨hsame, hproc⟩ := fileread_same hread
    exact ⟨(h.congr hsame).congr (.setProc s₁ rfl rfl rfl),
      Alone.trans (.of_proc_eq hproc) (.setProc s₁ rfl)⟩

theorem Counted.sysWrite {fd : ℤ} {buf n : ℕ} {m : ℤ} (h : Counted spare s)
    (hs : sysWrite s p fd buf n = .ok (m, s')) : Counted spare s' ∧ Alone p s s' := by
  obtain rfl | ⟨f, -, hwrite⟩ := sysWrite_eq_ok hs
  · exact ⟨h, .of_proc_eq rfl⟩
  · obtain ⟨hsame, hproc⟩ := filewrite_same hwrite
    exact ⟨h.congr hsame, .of_proc_eq hproc⟩

/-! ### `close`, `dup` and `pipe` -/

theorem pipeclose_proc (s : State) (page : ℕ) (w : Bool) :
    (s.pipeclose page w).proc = s.proc := by
  unfold State.pipeclose
  dsimp only
  split_ifs <;> rfl

theorem fileclose_proc (h : s.fileclose f = .ok s') : s'.proc = s.proc := by
  unfold State.fileclose at h
  dsimp only at h
  obtain ⟨-, h⟩ := ite_error_eq_ok.1 h
  split at h
  · cases h
    rfl
  · split at h
    · cases h
      exact pipeclose_proc ..
    · cases h
      rfl
    · cases h
      rfl

theorem filedup_proc (h : s.filedup f = .ok s') : s'.proc = s.proc := by
  obtain rfl := filedup_eq_ok h
  rfl

/-- The file that `sys_close` keeps when it is not marked with the caller's container. -/
def unclosed (s : State) (p : ℕ) (fd : ℤ) (spare : Spare) : Spare :=
  match s.argfd p fd with
  | none => spare
  | some f => if s.tagOf p f = .ok (s.proc p).containerId then spare else spare.addFile f

theorem Counted.sysClose {fd n : ℤ} (h : Counted spare s) (hs : sysClose s p fd = .ok (n, s')) :
    Counted (unclosed s p fd spare) s' ∧ Alone p s s' := by
  unfold Files.sysClose at hs
  split at hs
  next hfd =>
    cases hs
    rw [unclosed, hfd]
    exact ⟨h, .of_proc_eq rfl⟩
  next f hfd =>
    have hsome := argfd_eq_some hfd
    obtain ⟨tag, htag, hs⟩ := bind_eq_ok.1 hs
    -- the check reads the descriptor's file and the caller's memory, which are as before
    have hproc : (s.setFd p fd.toNat none).proc p = _ := setFd_self s none
    have htag' : s.tagOf p f = .ok tag := by
      unfold State.tagOf at htag ⊢
      rw [hproc] at htag
      exact htag
    have halone := Alone.setFd s p fd.toNat none
    rw [unclosed, hfd]
    dsimp only
    rw [htag']
    rw [hproc] at hs
    split at hs
    next hown =>
      obtain ⟨s₁, hclose, hs⟩ := bind_eq_ok.1 hs
      cases hs
      obtain ⟨-, -, hf⟩ := h.slot p _ f hsome
      rw [if_pos (congrArg Except.ok hown)]
      exact ⟨(h.unpoint hsome).fileclose hf hclose,
        halone.trans (.of_proc_eq (fileclose_proc hclose))⟩
    next hown =>
      cases hs
      rw [if_neg fun heq => hown (Except.ok.inj heq)]
      exact ⟨h.unpoint hsome, halone⟩

theorem Counted.sysDup {fd n : ℤ} (h : Counted spare s) (hp : p < NPROC)
    (hs : sysDup s p fd = .ok (n, s')) : Counted spare s' ∧ Alone p s s' := by
  unfold Files.sysDup at hs
  split at hs
  next f fd' hfd halloc =>
    obtain ⟨s₁, hdup, hs⟩ := bind_eq_ok.1 hs
    cases hs
    obtain ⟨-, -, hf⟩ := h.slot p _ f (argfd_eq_some hfd)
    obtain ⟨hlt, hnone⟩ := fdalloc_eq_some halloc
    exact ⟨h.dup hp hlt hf hnone hdup,
      (Alone.setFd s p _ _).trans (.of_proc_eq (filedup_proc hdup))⟩
  · cases hs
    exact ⟨h, .of_proc_eq rfl⟩

/-- `pipealloc`, if it fails: the entries taken are free again. -/
theorem Counted.pipealloc_none (h : Counted spare s) (hs : s.pipealloc = (none, s')) :
    Counted spare s' ∧ s'.proc = s.proc := by
  unfold State.pipealloc at hs
  split at hs
  · cases hs
    exact ⟨h, rfl⟩
  next f hf =>
    obtain ⟨hflt, hfref⟩ := filealloc_eq_some hf
    have halloc := h.alloc hflt hfref
    have hfile := setFile_self s (f := f) { s.file f with ref := 1 }
    have hfree := halloc.unalloc hflt (by rw [hfile]) (by rw [hfile]; exact h.closed f hflt hfref)
      (x := { s.file f with ref := 0, type := .none }) rfl rfl
    dsimp only at hs
    split at hs
    · cases hs
      exact ⟨hfree, rfl⟩
    next g hg =>
      obtain ⟨hglt, hgref⟩ := filealloc_eq_some hg
      split at hs
      · cases hs
        have hne : g ≠ f := by
          rintro rfl
          rw [setFile_self] at hgref
          cases hgref
        refine ⟨hfree.rewrite hglt ?_ rfl rfl, rfl⟩
        rw [setFile_of_ne _ hne]
        exact hgref
      · cases hs

/-- `pipealloc` holds the two entries it returns. -/
theorem Counted.pipealloc_some {g : ℕ} (h : Counted spare s)
    (hs : s.pipealloc = (some (f, g), s')) :
    Counted ((spare.addFile g).addFile f) s' ∧ f < NFILE ∧ g < NFILE ∧
      s'.proc = s.proc := by
  obtain ⟨page, rest, hf, hfref, hg, hne, hgref, hfree, rfl⟩ := Files.pipealloc_some hs
  have hread := (h.pipe_open hfree).setEnd hf (h.closed f hf hfref) (f :: spare.files)
    { s.file f with type := .pipe, ref := 1, readable := true, writable := false, pipe := page }
    ⟨rfl, rfl, rfl⟩ Nat.one_ne_zero
    (by
      change 1 + spare.files.count f = (s.file f).ref + (f :: spare.files).count f
      rw [hfref, List.count_cons_self]
      omega)
    fun j hj => List.count_cons_of_ne hj.symm
  have hread : Counted ((spare.addFile f).addEnd page true) _ := hread
  refine ⟨hread.setEnd hg ?_ (f :: g :: spare.files) _
    ⟨rfl, rfl, rfl⟩ Nat.one_ne_zero ?_ fun j hj => ?_, hf, hg, rfl⟩
  · rw [setFile_of_ne _ hne]
    exact h.closed g hg hgref
  · rw [setFile_of_ne _ hne]
    change 1 + (f :: spare.files).count g = (s.file g).ref + (f :: g :: spare.files).count g
    rw [hgref, List.count_cons_of_ne hne.symm, List.count_cons_of_ne hne.symm,
      List.count_cons_self]
    omega
  · change (f :: g :: spare.files).count j = (f :: spare.files).count j
    rw [List.count_cons, List.count_cons_of_ne hj.symm, List.count_cons]

theorem Counted.sysPipe {n : ℤ} (h : Counted spare s) (hp : p < NPROC)
    (hs : sysPipe s p addr = .ok (n, s')) : Counted spare s' ∧ Alone p s s' := by
  unfold Files.sysPipe at hs
  split at hs
  · cases hs
    exact ⟨h, .of_proc_eq rfl⟩
  · split at hs
    next s₁ halloc =>
      cases hs
      obtain ⟨hcount, hproc⟩ := h.pipealloc_none halloc
      exact ⟨hcount, .of_proc_eq hproc⟩
    next f g s₁ halloc =>
      obtain ⟨hcount, hf, hg, hproc⟩ := h.pipealloc_some halloc
      split at hs
      · obtain ⟨s₂, hclose, hs⟩ := bind_eq_ok.1 hs
        obtain ⟨s₃, hclose', hs⟩ := bind_eq_ok.1 hs
        cases hs
        refine ⟨(hcount.fileclose hf hclose).fileclose hg hclose', .of_proc_eq ?_⟩
        rw [fileclose_proc hclose', fileclose_proc hclose, hproc]
      next fd₀ hfd₀ =>
        obtain ⟨hlt₀, hnone₀⟩ := fdalloc_eq_some hfd₀
        have hread := hcount.point hp hlt₀ hf hnone₀
        have halone : Alone p s (s₁.setFd p fd₀ (some f)) :=
          Alone.trans (.of_proc_eq hproc) (.setFd s₁ p fd₀ _)
        dsimp only at hs
        split at hs
        · obtain ⟨s₂, hclose, hs⟩ := bind_eq_ok.1 hs
          obtain ⟨s₃, hclose', hs⟩ := bind_eq_ok.1 hs
          cases hs
          have hback := hread.unpoint
            (show ((s₁.setFd p fd₀ (some f)).proc p).ofile fd₀ = some f by
              rw [setFd_ofile, if_pos ⟨rfl, rfl⟩])
          refine ⟨(hback.fileclose hf hclose).fileclose hg hclose',
            (halone.trans (.setFd _ p fd₀ none)).trans (.of_proc_eq ?_)⟩
          rw [fileclose_proc hclose', fileclose_proc hclose]
        next fd₁ hfd₁ =>
          obtain ⟨hlt₁, hnone₁⟩ := fdalloc_eq_some hfd₁
          cases hs
          have hwrite := hread.point hp hlt₁ hg hnone₁
          exact ⟨hwrite.congr (.setProc _ rfl rfl rfl),
            (halone.trans (.setFd _ p fd₁ _)).trans (.setProc _ rfl)⟩

/-! ### `chdir`, `mkdir` and `mknod` -/

/-- The cache entry at which the lookup of `sys_chdir` ends, with the cache. -/
def directoryLooked (s : State) (p addr : ℕ) : Option (ℕ × ICache) := do
  let path ← (s.proc p).fetchstr addr
  let (k, c) ← (namei s.fs.disk s.fs.icache (s.proc p).cwd path).toOption
  k.map (·, c)

/-- `sys_chdir` gives back what it looked up, or keeps a directory and drops the one
before. -/
theorem sysChdir_cases {n : ℤ} (h : sysChdir s p addr = .ok (n, s')) :
    (∃ c, Held s.fs.icache none c ∧ s' = s.setCache c) ∨
      ∃ k c, directoryLooked s p addr = some (k, c) ∧ Held s.fs.icache (some k) c ∧
      (s.fs.disk (c.inode k).inum).type = .dir ∧
      s' = ((s.setCache c).iput (s.proc p).cwd).setProc p { s.proc p with cwd := k } := by
  unfold sysChdir at h
  dsimp only at h
  split at h
  · cases h
    exact .inl ⟨_, .refl _, rfl⟩
  next path hpath =>
    obtain ⟨⟨k, c⟩, hname, h⟩ := bind_eq_ok.1 h
    obtain ⟨hc, -, -⟩ := namei_spec hname
    cases k with
    | none =>
      cases h
      exact .inl ⟨_, hc, rfl⟩
    | some k =>
      obtain ⟨d, hlock, h⟩ := bind_eq_ok.1 h
      obtain ⟨rfl, -⟩ := ICache.ilock_eq_ok hlock
      split at h
      · cases h
        exact .inl ⟨_, hc.put, rfl⟩
      next hdir =>
        cases h
        refine .inr ⟨k, c, ?_, hc, not_not.1 hdir, rfl⟩
        simp [directoryLooked, hpath, hname, Except.toOption]

/-- `sys_mkdir` and `sys_mknod` give back what they looked up, or make an inode and drop it. -/
theorem make_cases {type : FileType} {major : ℕ} {n : ℤ}
    (h : s.make p addr type major = .ok (n, s')) :
    (∃ c, Held s.fs.icache none c ∧ s' = s.setCache c) ∨
      ∃ path k fs, (s.proc p).fetchstr addr = some path ∧
      Created s.fs path type major 0 (some k) fs ∧ s' = { s with fs := fs }.iput k := by
  unfold State.make at h
  split at h
  · cases h
    exact .inl ⟨_, .refl _, rfl⟩
  next path hpath =>
    obtain ⟨⟨k, fs⟩, hcreate, h⟩ := bind_eq_ok.1 h
    have hfs := FileSys.create_spec hcreate
    cases k with
    | none =>
      cases h
      cases hfs with
      | failed hc => exact .inl ⟨_, hc, rfl⟩
    | some k =>
      cases h
      exact .inr ⟨path, k, fs, hpath, hfs, rfl⟩

/-- A process goes to another directory and gives up the one it was in. -/
theorem Counted.move (h : Counted (spare.addInode k) s) (hp : p < NPROC)
    (huse : (s.proc p).inUse = true) :
    Counted spare ((s.iput (s.proc p).cwd).setProc p { s.proc p with cwd := k }) := by
  have hmove := h.setProc hp { s.proc p with cwd := k } ((s.proc p).cwd :: spare.inodes) rfl
    fun j => by
      have hold := Proc.one_in_add_count (k := j) huse spare.inodes
      have hnew : _ = (k :: spare.inodes).count j :=
        Proc.one_in_add_count (x := { s.proc p with cwd := k }) huse spare.inodes
      change _ = (k :: spare.inodes).count j + _
      omega
  exact (show Counted (spare.addInode (s.proc p).cwd) _ from hmove).iput

theorem Counted.sysChdir {n : ℤ} (h : Counted spare s) (hp : p < NPROC)
    (huse : (s.proc p).inUse = true) (hs : sysChdir s p addr = .ok (n, s')) :
    Counted spare s' ∧ Alone p s s' := by
  obtain ⟨c, hc, rfl⟩ | ⟨k, c, -, hc, -, rfl⟩ := sysChdir_cases hs
  · exact ⟨h.unheld hc, .of_proc_eq rfl⟩
  · have halone : Alone p s ((s.setCache c).iput (s.proc p).cwd) := .of_proc_eq rfl
    exact ⟨(h.held hc).move hp huse, halone.trans (.setProc _ rfl)⟩

theorem Counted.make {type : FileType} {major : ℕ} {n : ℤ} (h : Counted spare s)
    (hs : s.make p addr type major = .ok (n, s')) : Counted spare s' ∧ Alone p s s' := by
  obtain ⟨c, hc, rfl⟩ | ⟨path, k, fs, -, hfs, rfl⟩ := make_cases hs
  · exact ⟨h.unheld hc, .of_proc_eq rfl⟩
  · refine ⟨Counted.iput ?_, .of_proc_eq rfl⟩
    cases hfs with
    | found hc _ _ _ => exact h.held hc
    | made hc _ _ _ => exact (h.held hc).congr { Same.refl (s.setCache _) with }

end Files
end Xv6
