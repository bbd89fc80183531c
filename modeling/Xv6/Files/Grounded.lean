/-
# No dangling inode

The calls that are not calm (`Xv6.Files.Calm`), each with what it does to the
file system, and the first invariant that goes through all calls: the entries of
directories and the referenced entries of the cache lead to inodes that are
allocated (`Grounded`).  So a lookup never meets a free inode.

`Opening.fs_invariant` takes an invariant of the file system through `sys_open`:
it has to go through the lookup of the name, and through the lookup of the
original if the file is copied.
-/

import Xv6.Files.Calm

namespace Xv6
namespace Files

open Lib

variable {s s' : State} {fs fs' : FileSys} {p addr omode k inum : ℕ} {path : Name} {c : ICache}

/-! ### `open` -/

/-- The name that `sys_open` looks up, whether it copies the file, and the state by then. -/
def named (s : State) (p addr omode : ℕ) : Option (Name × Bool × State) := do
  let path ← (s.proc p).fetchstr addr
  (s.rename p addr path omode).toOption

/-- The cache entry at which this lookup ends, and the state by then. -/
def looked (s : State) (p addr omode : ℕ) : Option (ℕ × State) := do
  let (path, makeCopy, s) ← named s p addr omode
  let (k, s) ← (s.openInode p path omode makeCopy).toOption
  k.map (·, s)

/-- The name of the original that `copy_helper_COW` looks up, and the state by then. -/
def original (s : State) (p addr omode : ℕ) : Option (Name × State) := do
  let (path, makeCopy, _) ← named s p addr omode
  let (k, s) ← looked s p addr omode
  let (_, f) ← (s.fileFd p).1
  let s := (s.fileFd p).2
  if makeCopy ∧ TagPasses s p k then do
    let s ← ((s.opened p f k omode).scratch 1).toOption
    some (State.original path, s)
  else none

/-- The cache entry at which this lookup ends, with the cache and the state. -/
def originalLooked (s : State) (p addr omode : ℕ) : Option (ℕ × ICache × State) := do
  let (path, s) ← original s p addr omode
  let (k, c) ← (namei s.fs.disk s.fs.icache (s.proc p).cwd path).toOption
  k.map (·, c, s)

/-- What holds of a file system through calm calls. -/
def Kept (I : FileSys → Prop) : Prop := ∀ fs fs', CalmFs fs fs' → I fs → I fs'

/-- The file system with other bytes in one file. -/
def FileSys.write (fs : FileSys) (i : ℕ) (data : List Char) : FileSys :=
  { fs with disk := Function.update fs.disk i { fs.disk i with data := data } }

theorem FileSys.write_self (fs : FileSys) (i : ℕ) (data : List Char) :
    (fs.write i data).disk i = { fs.disk i with data := data } := Function.update_self ..

theorem FileSys.write_of_ne (fs : FileSys) {i j : ℕ} (h : j ≠ i) (data : List Char) :
    (fs.write i data).disk j = fs.disk j := Function.update_of_ne h ..

/-- What is not the bytes of a file stays. -/
theorem FileSys.write_field {α : Type} (fs : FileSys) (i j : ℕ) (data : List Char) (g : Dinode → α)
    (hg : ∀ d : Dinode, g { d with data := data } = g d) :
    g ((fs.write i data).disk j) = g (fs.disk j) := update_field g (hg _) j

theorem FileSys.write_type (fs : FileSys) (i j : ℕ) (data : List Char) :
    ((fs.write i data).disk j).type = (fs.disk j).type :=
  fs.write_field i j data Dinode.type fun _ => rfl

theorem FileSys.write_entries (fs : FileSys) (i j : ℕ) (data : List Char) :
    ((fs.write i data).disk j).entries = (fs.disk j).entries :=
  fs.write_field i j data Dinode.entries fun _ => rfl

theorem FileSys.write_creator (fs : FileSys) (i j : ℕ) (data : List Char) :
    ((fs.write i data).disk j).creator = (fs.disk j).creator :=
  fs.write_field i j data Dinode.creator fun _ => rfl

theorem Wrote.fs_eq (h : Wrote inum s s') : ∃ data, s'.fs = s.fs.write inum data := by
  obtain ⟨data, hdata⟩ := h.data
  have hdisk : s'.fs.disk = (s.fs.write inum data).disk := funext fun i => by
    by_cases hi : i = inum
    · rw [hi, FileSys.write_self, hdata]
    · rw [FileSys.write_of_ne s.fs hi, h.disk i hi]
  exact ⟨data, calc
    s'.fs = ⟨s'.fs.ninodes, s'.fs.disk, s'.fs.icache⟩ := rfl
    _ = _ := by rw [h.ninodes, h.icache, hdisk]; rfl⟩

/-- The copy: an invariant goes through it if it goes through the lookup of the original and
through writes to the copy. -/
theorem Copying.fs_invariant {I : FileSys → Prop} {i : ℕ} (hI : Kept I)
    (h : Copying s p path i s') (hwrite : ∀ fs data, I fs → I (fs.write i data))
    (hlook : ∀ s₁ j c, s.scratch 1 = .ok s₁ →
      namei s₁.fs.disk s₁.fs.icache (s₁.proc p).cwd (State.original path) = .ok (some j, c) →
      (s₁.fs.disk (c.inode j).inum).type ≠ .free → I s₁.fs → I { s₁.fs with icache := c })
    (h₀ : I s.fs) : I s'.fs := by
  cases h with
  | lost hpage hname =>
    have h₁ := hI _ _ (Calm.of_renamed (scratch_renamed p hpage)).fs h₀
    exact hI _ _ (.unheld (namei_spec hname).1) h₁
  | full hpage hname htype hfd =>
    have h₁ := hI _ _ (Calm.of_renamed (scratch_renamed p hpage)).fs h₀
    have h₂ := hI _ _ (Calm.fileFd hfd).fs (hlook _ _ _ hpage hname htype h₁)
    exact hI _ _ (.put _ _) h₂
  | copied hpage hname htype hfd hwrote =>
    have h₁ := hI _ _ (Calm.of_renamed (scratch_renamed p hpage)).fs h₀
    have h₂ := hI _ _ (Calm.fileFd hfd).fs (hlook _ _ _ hpage hname htype h₁)
    obtain ⟨data, hfs⟩ := hwrote.fs_eq
    rw [hfs]
    exact hwrite _ data h₂

/-- **An invariant goes through `sys_open`** if it goes through its lookups, and through the
writes to a copy. -/
theorem Opening.fs_invariant {I : FileSys → Prop} {n : ℤ} (hI : Kept I)
    (h : Opening s p addr omode n s')
    (hlook : ∀ path makeCopy s₁ k s₂, named s p addr omode = some (path, makeCopy, s₁) →
      looked s p addr omode = some (k, s₂) → Looked s₁ p path omode makeCopy (some k) s₂ →
      I s₁.fs → I s₂.fs)
    (hcopy : ∀ k c s₁, originalLooked s p addr omode = some (k, c, s₁) →
      Held s₁.fs.icache (some k) c → (s₁.fs.disk (c.inode k).inum).type ≠ .free →
      I s₁.fs → I { s₁.fs with icache := c })
    (hwrite : ∀ path s₁ k s₂ fs data, named s p addr omode = some (path, true, s₁) →
      looked s p addr omode = some (k, s₂) →
      I fs → I (fs.write (s₂.fs.icache.inode k).inum data))
    (h₀ : I s.fs) : I s'.fs := by
  -- the way to the end of the lookup is the same for all that get there
  have hlooked : ∀ {path path' makeCopy s₁ k s₂}, (s.proc p).fetchstr addr = some path →
      s.rename p addr path omode = .ok (path', makeCopy, s₁) →
      s₁.openInode p path' omode makeCopy = .ok (some k, s₂) →
      named s p addr omode = some (path', makeCopy, s₁) ∧ looked s p addr omode = some (k, s₂) ∧
        I s₂.fs := by
    intro path path' makeCopy s₁ k s₂ hpath hname hlk
    have h₁ := hI _ _ (Calm.of_renamed (rename_renamed hname)).fs h₀
    have hnamed : named s p addr omode = some (path', makeCopy, s₁) := by
      simp [named, hpath, hname, Except.toOption]
    have hend : looked s p addr omode = some (k, s₂) := by simp [looked, hnamed, hlk, Except.toOption]
    exact ⟨hnamed, hend, hlook path' makeCopy s₁ k s₂ hnamed hend (openInode_looked hlk) h₁⟩
  cases h with
  | unnamed hpath => exact h₀
  | missing hpath hname hlk =>
    have h₁ := hI _ _ (Calm.of_renamed (rename_renamed hname)).fs h₀
    have hl := openInode_looked hlk
    cases hl with
    | failed hc => exact hI _ _ (.unheld hc) h₁
  | full hpath hname hlk hfd =>
    obtain ⟨-, -, h₂⟩ := hlooked hpath hname hlk
    exact hI _ _ (.put _ _) (hI _ _ (Calm.fileFd hfd).fs h₂)
  | refused hpath hname hlk hfd _ | opened hpath hname hlk hfd _ =>
    obtain ⟨-, -, h₂⟩ := hlooked hpath hname hlk
    exact hI _ _ (Calm.fileFd hfd).fs h₂
  | @copied path path' s₁ s₂ s₃ s₄ k fd f hpath hname hlk hfd htag hcopying =>
    obtain ⟨hnamed, hend, h₂⟩ := hlooked hpath hname hlk
    refine Copying.fs_invariant hI hcopying (fun fs data hx => ?_)
      (fun x j c hpage hname' htype hx => ?_) (hI _ _ (Calm.fileFd hfd).fs h₂)
    · rw [fileFd_fs hfd]
      exact hwrite path' s₁ k s₂ fs data hnamed hend hx
    · have horiginal : originalLooked s p addr omode = some (j, c, x) := by
        simp [originalLooked, original, hnamed, hend, hfd, htag, hpage, hname', Except.toOption]
      exact hcopy j c x horiginal (namei_spec hname').1 htype hx

/-! ### The other busy calls -/

/-- `sys_write` is calm, or writes to the inode of one of the caller's files. -/
theorem sysWrite_cases {fd : ℤ} {buf n : ℕ} {m : ℤ} (h : sysWrite s p fd buf n = .ok (m, s')) :
    (s'.fs = s.fs ∧ s'.file = s.file) ∨ ∃ f k, s.argfd p fd = some f ∧ (s.file f).Uses k ∧
      (s.file f).writable = true ∧ Wrote (s.fs.icache.inode k).inum s s' := by
  obtain rfl | ⟨f, hfd, hwrite⟩ := sysWrite_eq_ok h
  · exact .inl ⟨rfl, rfl⟩
  · obtain rfl | ⟨page, data, rfl⟩ | ⟨k, done, huses, hw, hloop⟩ := filewrite_cases hwrite
    · exact .inl ⟨rfl, rfl⟩
    · exact .inl ⟨rfl, rfl⟩
    · exact .inr ⟨f, k, hfd, huses, hw, filewriteLoop_wrote hloop⟩

/-- **An invariant goes through every call** if it goes through `sys_open`, through writes,
through the lookup of `sys_chdir`, and through what `sys_mkdir` and `sys_mknod` make. -/
theorem Kept.exec {I : FileSys → Prop} {call : Call} (hI : Kept I)
    (hp : 0 < (s.fs.icache.inode (s.proc p).cwd).ref) (huse : (s.proc p).inUse = true)
    (h : exec s p call = .ok s')
    (hopen : ∀ addr omode n, call = .open addr omode → Opening s p addr omode n s' → I s'.fs)
    (hwrite : ∀ i data, I (s.fs.write i data))
    (hlook : ∀ addr k c, call = .chdir addr → directoryLooked s p addr = some (k, c) →
      Held s.fs.icache (some k) c → (s.fs.disk (c.inode k).inum).type = .dir →
      I { s.fs with icache := c })
    (hmake : ∀ addr path type major k fs, (s.proc p).fetchstr addr = some path →
      type ≠ .free → type ≠ .file → Created s.fs path type major 0 (some k) fs →
      I { fs with icache := fs.icache.iput k })
    (h₀ : I s.fs) : I s'.fs := by
  have hmade : ∀ {addr type major m}, type ≠ .free → type ≠ .file →
      s.make p addr type major = .ok (m, s') → I s'.fs := by
    intro addr type major m hfree hfile hs
    obtain ⟨c, hc, rfl⟩ | ⟨path, k, fs, hpath, hfs, rfl⟩ := make_cases hs
    · exact hI _ _ (.unheld hc) h₀
    · exact hmake addr path type major k fs hpath hfree hfile hfs
  by_cases hbusy : call.Busy
  · cases call with
    | «open» addr omode =>
      obtain ⟨n, hcall⟩ := map_snd_eq_ok h
      exact hopen addr omode n rfl (sysOpen_opening hcall)
    | write fd buf n =>
      obtain ⟨m, hcall⟩ := map_snd_eq_ok h
      obtain ⟨hfs, -⟩ | ⟨f, k, -, -, -, hwrote⟩ := sysWrite_cases hcall
      · rw [hfs]
        exact h₀
      · obtain ⟨data, hfs⟩ := hwrote.fs_eq
        rw [hfs]
        exact hwrite _ data
    | chdir addr =>
      obtain ⟨m, hcall⟩ := map_snd_eq_ok h
      obtain ⟨c, hc, rfl⟩ | ⟨k, c, hlooked, hc, hdir, rfl⟩ := sysChdir_cases hcall
      · exact hI _ _ (.unheld hc) h₀
      · exact hI _ _ (.put _ _) (hlook addr k c rfl hlooked hc hdir)
    | mkdir addr | mknod addr major =>
      obtain ⟨m, hcall⟩ := map_snd_eq_ok h
      exact hmade (by decide) (by decide) hcall
    | _ => exact absurd hbusy nofun
  · exact hI _ _ (exec_calm hbusy hp huse h).fs h₀

/-! ### Allocated inodes -/

/-- Directories and referenced cache entries lead to inodes that are allocated. -/
structure Grounded (fs : FileSys) : Prop where
  root : (fs.disk ROOTINO).type ≠ .free
  entry : ∀ d, (fs.disk d).type = .dir → ∀ e ∈ (fs.disk d).entries, e.inum ≠ 0 →
    (fs.disk e.inum).type ≠ .free
  live : ∀ k, 0 < (fs.icache.inode k).ref → (fs.disk (fs.icache.inode k).inum).type ≠ .free

/-- The inode that is made has the type asked for; all others keep theirs. -/
theorem madeDisk_type {disk : Disk} {dir i : ℕ} {name : Name} {d : Dinode} (hne : dir ≠ inum) :
    (madeDisk disk dir inum name d i).type = if i = inum then d.type else (disk i).type := by
  by_cases hi : i = inum
  · rw [hi, madeDisk_new hne, if_pos rfl]
  · rw [if_neg hi]
    by_cases hd : i = dir
    · rw [hd, madeDisk_dir hne]
    · rw [madeDisk_of_ne hd hi]

namespace Grounded

theorem kept : Kept Grounded := fun fs fs' hc h => by
  refine ⟨?_, ?_, fun k hk => ?_⟩
  · rw [hc.disk]
    exact h.root
  · rw [hc.disk]
    exact h.entry
  · obtain ⟨hlive, hinum⟩ := hc.live k hk
    rw [hc.disk, hinum]
    exact h.live k hlive

theorem write (h : Grounded fs) (i : ℕ) (data : List Char) : Grounded (fs.write i data) := by
  refine ⟨?_, fun d hd e he hne => ?_, fun k hk => ?_⟩
  · rw [FileSys.write_type]
    exact h.root
  · rw [FileSys.write_type] at hd ⊢
    rw [FileSys.write_entries] at he
    exact h.entry d hd e he hne
  · rw [FileSys.write_type]
    exact h.live k hk

/-- A lookup that ends at an allocated inode. -/
theorem look (h : Grounded fs) (hc : Held fs.icache (some k) c)
    (htype : (fs.disk (c.inode k).inum).type ≠ .free) : Grounded { fs with icache := c } := by
  refine ⟨h.root, h.entry, fun j hj => ?_⟩
  change 0 < (c.inode j).ref at hj
  change (fs.disk (c.inode j).inum).type ≠ .free
  by_cases hjk : j = k
  · rw [hjk]
    exact htype
  · have hlive := hc.of_live hj hjk
    rw [hc.inum j hlive]
    exact h.live j hlive

theorem created {type : FileType} {major creator : ℕ} (h : Grounded fs) (htype : type ≠ .free)
    (hs : Created fs path type major creator (some k) fs') : Grounded fs' := by
  cases hs with
  | found hc _ _ hfile =>
    exact h.look hc (by rw [hfile.2]; decide)
  | @made k dir c hc hdir _ hfree =>
    have hne := ne_of_dir hdir hfree.2
    -- what was allocated still is, and so is the new inode
    have hkeeps : ∀ i, (i = (c.inode k).inum ∨ (fs.disk i).type ≠ .free) →
        (madeDisk fs.disk dir (c.inode k).inum (lastElement path)
          (FileSys.newInode type major creator (c.inode k).inum dir) i).type ≠ .free := by
      intro i hi
      rw [madeDisk_type hne]
      split
      · exact htype
      · next hnew => exact hi.resolve_left hnew
    refine ⟨hkeeps _ (.inr h.root), fun d hd e he hzero => ?_, fun j hj => ?_⟩
    · dsimp only at hd he ⊢
      by_cases hdn : d = (c.inode k).inum
      · rw [hdn, madeDisk_new hne] at he
        unfold FileSys.newInode at he
        dsimp only at he
        split at he
        · simp only [List.mem_cons, List.not_mem_nil, or_false] at he
          obtain rfl | rfl := he
          · exact hkeeps _ (.inl rfl)
          · exact hkeeps _ (.inr (by rw [hdir]; decide))
        · cases he
      · rw [madeDisk_type hne, if_neg hdn] at hd
        by_cases hdd : d = dir
        · subst hdd
          rw [madeDisk_dir hne] at he
          obtain rfl | he := mem_linked he
          · exact hkeeps _ (.inl rfl)
          · exact hkeeps _ (.inr (h.entry d hd e he hzero))
        · rw [madeDisk_of_ne hdd hdn] at he
          exact hkeeps _ (.inr (h.entry d hd e he hzero))
    · dsimp only at hj ⊢
      by_cases hjk : j = k
      · rw [hjk]
        exact hkeeps _ (.inl rfl)
      · have hlive := hc.of_live hj hjk
        rw [hc.inum j hlive]
        exact hkeeps _ (.inr (h.live j hlive))

theorem retag (h : Grounded fs) (k cid : ℕ) : Grounded (fs.retag k cid) := by
  refine ⟨h.root, h.entry, fun j hj => ?_⟩
  change 0 < ((fs.icache.set k _).inode j).ref at hj
  change (fs.disk ((fs.icache.set k _).inode j).inum).type ≠ .free
  by_cases hjk : j = k
  · rw [hjk, ICache.set_inode_self] at hj ⊢
    exact h.live k hj
  · rw [ICache.set_inode_of_ne _ hjk] at hj ⊢
    exact h.live j hj

theorem looked {makeCopy : Bool} (h : Grounded s.fs)
    (hs : Looked s p path omode makeCopy (some k) s') : Grounded s'.fs := by
  cases hs with
  | found _ hc _ htype _ => exact h.look hc htype
  | created _ hfs => exact (h.created (by decide) hfs).retag _ _

/-- **Every call leaves the file system grounded.** -/
theorem step {e : Event} {spare : Spare} (h : Grounded s.fs) (hsound : Sound spare s)
    (hs : Files.step s e = some s') : Grounded s'.fs := by
  obtain ⟨hp, huse, hexec⟩ := step_eq_some hs
  refine kept.exec (hsound.cwd_live hp huse) huse hexec (fun _ _ _ _ hopen => ?_)
    (fun i data => h.write i data) (fun _ _ _ _ _ hc hdir => h.look hc (by rw [hdir]; decide))
    (fun _ _ _ _ _ _ _ hfree _ hfs => kept _ _ (.put _ _) (h.created hfree hfs)) h
  exact hopen.fs_invariant kept (fun _ _ _ _ _ _ _ hl h₁ => h₁.looked hl)
    (fun _ _ _ _ hc htype h₁ => h₁.look hc htype)
    (fun _ _ _ _ _ data _ _ h₁ => h₁.write _ data) h

end Grounded

end Files
end Xv6
