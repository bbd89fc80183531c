/-
# The parts of `sys_open`

What each part of `sys_open` and of the reads and writes it makes does to the
state, stated once.  `Renamed`: choosing the name touches the caller's memory,
its container's table and the free list.  `Looked`: the lookup ends without an
inode, with one it found, or with one that `create` found or made and that got
the caller's `container_id`.  `Wrote`: reads and writes of an open file change
offsets, the console and the data of one inode.
-/

import Xv6.Files.Create
import Xv6.Files.Specs

namespace Xv6
namespace Files

variable {s s' s'' : State} {p addr omode f g k inum fd : ℕ} {path path' : Name} {r : Option ℕ}

/-! ### The name -/

/-- Only the memory of the process, the container table, the names in it and the free list
have changed. -/
structure Renamed (p : ℕ) (s s' : State) : Prop where
  fs : s'.fs = s.fs
  file : s'.file = s.file
  pipe : s'.pipe = s.pipe
  nextpid : s'.nextpid = s.nextpid
  other : ∀ q ≠ p, s'.proc q = s.proc q
  self : ∃ mem, s'.proc p = { s.proc p with mem := mem }
  freelist : s'.freelist <:+ s.freelist

namespace Renamed

theorem refl (p : ℕ) (s : State) : Renamed p s s :=
  ⟨rfl, rfl, rfl, rfl, fun _ _ => rfl, ⟨_, rfl⟩, List.suffix_refl _⟩

/-- What no lookup reads of a process may have changed. -/
theorem proc (h : Renamed p s s') (q : ℕ) : ∃ mem, s'.proc q = { s.proc q with mem := mem } := by
  by_cases hq : q = p
  · rw [hq]
    exact h.self
  · exact ⟨_, h.other q hq⟩

theorem containerId (h : Renamed p s s') (q : ℕ) :
    (s'.proc q).containerId = (s.proc q).containerId := by
  obtain ⟨mem, hmem⟩ := h.proc q
  rw [hmem]

theorem cwd (h : Renamed p s s') (q : ℕ) : (s'.proc q).cwd = (s.proc q).cwd := by
  obtain ⟨mem, hmem⟩ := h.proc q
  rw [hmem]

end Renamed

theorem scratch_renamed {n : ℕ} (p : ℕ) (h : s.scratch n = .ok s') : Renamed p s s' := by
  obtain rfl := scratch_eq_ok h
  exact { Renamed.refl p s with freelist := List.drop_suffix n _ }

theorem rename_renamed {makeCopy : Bool}
    (h : s.rename p addr path omode = .ok (path', makeCopy, s')) : Renamed p s s' := by
  obtain ⟨r, -, -, -, -, h⟩ := rename_eq_ok h
  have hnamed : Renamed p s ({ s with freelist := s.freelist.drop r.pages }.setProc p
      ((s.proc p).renamed r addr path)) := by
    refine { Renamed.refl p s with
      other := fun q hq => setProc_of_ne _ hq _
      self := ?_
      freelist := List.drop_suffix .. }
    rw [setProc_self]
    unfold Proc.renamed
    split
    · exact ⟨_, rfl⟩
    · exact ⟨_, rfl⟩
  obtain ⟨-, h⟩ | ⟨-, rfl⟩ := register_cases h
  · obtain ⟨-, rfl⟩ | ⟨-, rfl⟩ := setFileInContainer_cases h
    · exact { hnamed with }
    · exact { hnamed with }
  · exact hnamed

/-! ### The inode -/

/-- The assignment to `ip->container_id`. -/
def FileSys.retag (fs : FileSys) (k cid : ℕ) : FileSys :=
  { fs with icache := fs.icache.set k { fs.icache.inode k with containerId := cid } }

/-- How the lookup of `sys_open` can end. -/
inductive Looked (s : State) (p : ℕ) (path : Name) (omode : ℕ) (makeCopy : Bool) :
    Option ℕ → State → Prop where
  | failed {c : ICache} (hc : Held s.fs.icache none c) :
      Looked s p path omode makeCopy none (s.setCache c)
  | found {k : ℕ} {c : ICache} (hnew : (creates omode || makeCopy) = false)
      (hc : Held s.fs.icache (some k) c)
      (hinode : inodeOf s.fs.disk s.fs.icache (s.proc p).cwd path = some (c.inode k).inum)
      (htype : (s.fs.disk (c.inode k).inum).type ≠ .free)
      (hdir : (s.fs.disk (c.inode k).inum).type = .dir → omode = O_RDONLY) :
      Looked s p path omode makeCopy (some k) (s.setCache c)
  | created {k : ℕ} {fs : FileSys} (hnew : (creates omode || makeCopy) = true)
      (hfs : Created s.fs path .file 0 (s.proc p).containerId (some k) fs) :
      Looked s p path omode makeCopy (some k)
        { s with fs := fs.retag k (s.proc p).containerId }

/-- What the lookup does: a call that creates or copies asks `create`, another one `namei`, and
it gives up a directory that is to be written. -/
theorem openInode_cases {makeCopy : Bool}
    (h : s.openInode p path omode makeCopy = .ok (r, s')) :
    ((creates omode || makeCopy) = true ∧ ∃ fs,
      s.fs.create (s.proc p).cwd path .file 0 (s.proc p).containerId = .ok (r, fs) ∧
      s' = { s with fs := r.elim fs fun k => fs.retag k (s.proc p).containerId }) ∨
    ((creates omode || makeCopy) = false ∧ ∃ o c,
      namei s.fs.disk s.fs.icache (s.proc p).cwd path = .ok (o, c) ∧
      ((r = o ∧ s' = s.setCache c ∧ ∀ k ∈ o, (s.fs.disk (c.inode k).inum).type ≠ .free ∧
        ((s.fs.disk (c.inode k).inum).type = .dir → omode = O_RDONLY)) ∨
      (r = none ∧ ∃ k, o = some k ∧ s' = (s.setCache c).iput k ∧
        (s.fs.disk (c.inode k).inum).type = .dir ∧ omode ≠ O_RDONLY))) := by
  unfold State.openInode at h
  dsimp only at h
  split at h
  next hnew =>
    obtain ⟨⟨o, fs⟩, hcreate, h⟩ := bind_eq_ok.1 h
    cases o with
    | none | some k =>
      cases h
      exact .inl ⟨hnew, fs, hcreate, rfl⟩
  next hnew =>
    obtain ⟨⟨o, c⟩, hnamei, h⟩ := bind_eq_ok.1 h
    refine .inr ⟨by simpa using hnew, o, c, hnamei, ?_⟩
    cases o with
    | none =>
      cases h
      exact .inl ⟨rfl, rfl, nofun⟩
    | some k =>
      obtain ⟨d, hlock, h⟩ := bind_eq_ok.1 h
      obtain ⟨rfl, hfree⟩ := ICache.ilock_eq_ok hlock
      split at h
      next hdir =>
        cases h
        exact .inr ⟨rfl, k, rfl, rfl, hdir⟩
      next hdir =>
        cases h
        refine .inl ⟨rfl, rfl, ?_⟩
        rintro k ⟨⟩
        exact ⟨hfree, fun htype => by_contra fun hmode => hdir ⟨htype, hmode⟩⟩

theorem openInode_looked {makeCopy : Bool}
    (h : s.openInode p path omode makeCopy = .ok (r, s')) :
    Looked s p path omode makeCopy r s' := by
  obtain ⟨hnew, fs, hcreate, rfl⟩ | ⟨hnew, o, c, hnamei, hend⟩ := openInode_cases h
  · have hfs := FileSys.create_spec hcreate
    cases r with
    | none =>
      cases hfs with
      | failed hc => exact .failed hc
    | some k => exact .created hnew hfs
  · obtain ⟨hc, hinode, -⟩ := namei_spec hnamei
    obtain ⟨rfl, rfl, hgood⟩ | ⟨rfl, k, rfl, rfl, -⟩ := hend
    · cases r with
      | none => exact .failed hc
      | some k => exact .found hnew hc hinode.symm (hgood k rfl).1 (hgood k rfl).2
    · exact .failed hc.put

theorem Looked.pos {makeCopy : Bool}
    (h : Looked s p path omode makeCopy (some k) s') :
    0 < (s'.fs.icache.inode k).ref := by
  cases h with
  | found _ hc _ _ _ => exact hc.pos
  | @created k fs _ hfs =>
    change 0 < ((fs.icache.set k _).inode k).ref
    rw [ICache.set_inode_self]
    cases hfs with
    | found hc _ _ _ => exact hc.pos
    | made hc _ _ _ => exact hc.pos

/-! ### The descriptor -/

/-- `filealloc` and `fdalloc` take free places. -/
theorem fileFd_some (h : s.fileFd p = (some (fd, f), s')) :
    f < NFILE ∧ fd < NOFILE ∧ (s.file f).ref = 0 ∧ (s.proc p).ofile fd = none ∧
      s' = (s.setFile f { s.file f with ref := 1 }).setFd p fd (some f) := by
  unfold State.fileFd at h
  split at h
  · cases h
  next f' hf =>
    split at h
    · cases h
    next fd' hfd =>
      cases h
      have href : (s.file f).ref = 0 := by simpa using List.find?_some hf
      have hnone : (s.proc p).ofile fd = none := by simpa using List.find?_some hfd
      exact ⟨List.mem_range.1 (List.mem_of_find?_eq_some hf),
        List.mem_range.1 (List.mem_of_find?_eq_some hfd), href, hnone, rfl⟩

/-- Without a descriptor the entry is as free as it was. -/
theorem fileFd_none (h : s.fileFd p = (none, s')) :
    s' = s ∨ ∃ f, f < NFILE ∧ (s.file f).ref = 0 ∧
      s' = s.setFile f { s.file f with type := .none } := by
  unfold State.fileFd at h
  split at h
  · exact .inl (Prod.mk.inj h).2.symm
  next f' hf =>
    split at h
    · have href : (s.file f').ref = 0 := by simpa using List.find?_some hf
      exact .inr ⟨f', List.mem_range.1 (List.mem_of_find?_eq_some hf), href,
        (Prod.mk.inj h).2.symm⟩
    · cases h

theorem fileFd_fs {r : Option (ℕ × ℕ)} (h : s.fileFd p = (r, s')) : s'.fs = s.fs := by
  cases r with
  | none =>
    obtain rfl | ⟨f, -, -, rfl⟩ := fileFd_none h
    · rfl
    · rfl
  | some r =>
    obtain ⟨-, -, -, -, rfl⟩ := fileFd_some h
    rfl

/-! ### Reads and writes -/

/-- Only offsets, the console and the data of one inode have changed. -/
structure Wrote (inum : ℕ) (s s' : State) : Prop where
  icache : s'.fs.icache = s.fs.icache
  ninodes : s'.fs.ninodes = s.fs.ninodes
  disk : ∀ i ≠ inum, s'.fs.disk i = s.fs.disk i
  data : ∃ data, s'.fs.disk inum = { s.fs.disk inum with data := data }
  file : ∀ f, ∃ off, s'.file f = { s.file f with off := off }
  proc : s'.proc = s.proc
  pipe : s'.pipe = s.pipe
  nextpid : s'.nextpid = s.nextpid
  containers : s'.containers = s.containers
  spaceMapping : s'.spaceMapping = s.spaceMapping
  filesOfContainer : s'.filesOfContainer = s.filesOfContainer
  freelist : s'.freelist = s.freelist

namespace Wrote

theorem refl (inum : ℕ) (s : State) : Wrote inum s s :=
  ⟨rfl, rfl, fun _ _ => rfl, ⟨_, rfl⟩, fun _ => ⟨_, rfl⟩, rfl, rfl, rfl, rfl, rfl, rfl, rfl⟩

theorem trans (h : Wrote inum s s') (h' : Wrote inum s' s'') : Wrote inum s s'' where
  icache := h'.icache.trans h.icache
  ninodes := h'.ninodes.trans h.ninodes
  disk i hi := (h'.disk i hi).trans (h.disk i hi)
  data := by
    obtain ⟨data, hdata⟩ := h.data
    obtain ⟨data', hdata'⟩ := h'.data
    exact ⟨data', by rw [hdata', hdata]⟩
  file f := by
    obtain ⟨off, hoff⟩ := h.file f
    obtain ⟨off', hoff'⟩ := h'.file f
    exact ⟨off', by rw [hoff', hoff]⟩
  proc := h'.proc.trans h.proc
  pipe := h'.pipe.trans h.pipe
  nextpid := h'.nextpid.trans h.nextpid
  containers := h'.containers.trans h.containers
  spaceMapping := h'.spaceMapping.trans h.spaceMapping
  filesOfContainer := h'.filesOfContainer.trans h.filesOfContainer
  freelist := h'.freelist.trans h.freelist

theorem advance (inum : ℕ) (s : State) (f n : ℕ) : Wrote inum s (s.advance f n) :=
  { refl inum s with
    file := fun g => by
      by_cases hg : g = f
      · subst hg
        exact ⟨_, Function.update_self ..⟩
      · exact ⟨_, Function.update_of_ne hg ..⟩ }

/-- The inode of an open file is the same. -/
theorem uses (h : Wrote inum s s') (f : ℕ) :
    (s'.file f).type = (s.file f).type ∧ (s'.file f).ip = (s.file f).ip := by
  obtain ⟨off, hoff⟩ := h.file f
  rw [hoff]
  exact ⟨rfl, rfl⟩

end Wrote

theorem writeChunk_wrote {src : List Char} (h : s.writeChunk f k src = some s') :
    Wrote (s.fs.icache.inode k).inum s s' := by
  unfold State.writeChunk at h
  dsimp only at h
  split at h
  · split at h
    · cases h
    · rw [← Option.some.inj h]
      exact .advance _ s f _
  · obtain ⟨d, hd, rfl⟩ := Option.map_eq_some_iff.1 h
    refine Wrote.trans ?_ (.advance _ _ f _)
    obtain ⟨data, rfl⟩ : ∃ data, d =
        { s.fs.disk (s.fs.icache.inode k).inum with data := data } := by
      unfold writei at hd
      split at hd
      · cases hd
      · exact ⟨_, (Option.some.inj hd).symm⟩
    exact { Wrote.refl (s.fs.icache.inode k).inum s with
      disk := fun i hi => Function.update_of_ne hi ..
      data := ⟨data, Function.update_self ..⟩ }

theorem filewriteLoop_wrote {turns : ℕ} {src : List Char} {done : Bool}
    (h : State.filewriteLoop turns s f k src = .ok (done, s')) :
    Wrote (s.fs.icache.inode k).inum s s' := by
  induction turns generalizing s src with
  | zero =>
    cases h
    exact .refl ..
  | succ turns ih =>
    unfold State.filewriteLoop at h
    split at h
    · cases h
      exact .refl ..
    · obtain ⟨_, -, h⟩ := bind_eq_ok.1 h
      split at h
      · cases h
        exact .refl ..
      next s₁ hchunk =>
        have hfirst := writeChunk_wrote hchunk
        have hrest := ih h
        rw [hfirst.icache] at hrest
        exact hfirst.trans hrest

/-- A write to a file of an inode. -/
theorem filewrite_wrote {src : List Char} {n : ℤ} (htype : (s.file f).type = .inode)
    (hip : (s.file f).ip = some k) (h : s.filewrite f src = .ok (n, s')) :
    Wrote (s.fs.icache.inode k).inum s s' := by
  unfold State.filewrite at h
  dsimp only at h
  rw [htype, hip] at h
  dsimp only at h
  split at h
  · cases h
    exact .refl _ s
  · obtain ⟨⟨done, s₁⟩, hloop, h⟩ := bind_eq_ok.1 h
    cases h
    exact filewriteLoop_wrote hloop

/-- A read of a file of an inode. -/
theorem fileread_wrote {n : ℕ} {m : ℤ} {bytes : List Char} (inum : ℕ)
    (htype : (s.file f).type = .inode) (h : s.fileread f n = .ok (m, bytes, s')) :
    Wrote inum s s' := by
  obtain ⟨-, rfl | ⟨hpipe, -⟩ | ⟨console, k, rfl⟩⟩ := fileread_cases h
  · exact .refl inum s'
  · rw [htype] at hpipe
    cases hpipe
  · have hconsole : Wrote inum s { s with console := console } := { Wrote.refl inum s with }
    exact hconsole.trans (.advance inum _ f _)

/-- **The copy writes to the copy alone.** -/
theorem copyLoop_wrote {turns : ℕ} (hg : (s.file g).type = .inode)
    (hf : (s.file f).type = .inode) (hip : (s.file f).ip = some k)
    (h : State.copyLoop turns s g f = .ok s') : Wrote (s.fs.icache.inode k).inum s s' := by
  induction turns generalizing s with
  | zero =>
    cases h
    exact .refl ..
  | succ turns ih =>
    obtain ⟨⟨n, bytes, s₁⟩, hread, h⟩ := bind_eq_ok.1 h
    have h₁ := fileread_wrote (s.fs.icache.inode k).inum hg hread
    dsimp only at h
    split at h
    · cases h
      exact h₁
    · obtain ⟨⟨m, s₂⟩, hwrite, h⟩ := bind_eq_ok.1 h
      have h₂ : Wrote (s₁.fs.icache.inode k).inum s₁ s₂ :=
        filewrite_wrote ((h₁.uses f).1.trans hf) ((h₁.uses f).2.trans hip) hwrite
      rw [h₁.icache] at h₂
      have h₁₂ := h₁.trans h₂
      dsimp only at h
      split at h
      · cases h
        exact h₁₂
      · have h₃ := ih ((h₁₂.uses g).1.trans hg) ((h₁₂.uses f).1.trans hf)
          ((h₁₂.uses f).2.trans hip) h
        rw [h₁₂.icache] at h₃
        exact h₁₂.trans h₃

end Files
end Xv6
