/-
# Calls that leave the file system calm

Most calls change neither the disk nor what the referenced entries of the inode
cache hold: they drop references, or take one more on an entry that has some.
`CalmFs` says so of the file system, and `Calm` adds that no open file has been
pointed to an inode.  What is left are the calls that look up a name and keep
the inode, and those that write: `open`, `chdir`, `mkdir`, `mknod` and `write`.
-/

import Xv6.Files.RefSound

namespace Xv6
namespace Files

open Lib

variable {s s' s'' : State} {fs fs' : FileSys} {p fd f k : ℕ} {r : Option ℕ}

/-! ### What the calls write -/

/-- An entry of the file table that is not of an inode, or of the one it was of before. -/
def File.Keeps (x y : File) : Prop :=
  y.type = .inode → x.type = .inode ∧ y.ip = x.ip ∧ y.writable = x.writable ∧
    y.openedIn = x.openedIn

/-- What holds from one state to another through all the writes of `read`, `close`, `dup`, `pipe`
and `exit` but those to a process. -/
structure Stable (R : State → State → Prop) : Prop where
  trans : ∀ {s s' s''}, R s s' → R s' s'' → R s s''
  rest : ∀ s pipe freelist console,
    R s { s with pipe := pipe, freelist := freelist, console := console }
  fd : ∀ s p fd o, R s (s.setFd p fd o)
  file : ∀ s f x, (s.file f).Keeps x → R s (s.setFile f x)
  put : ∀ s k, R s (s.iput k)

namespace Stable

variable {R : State → State → Prop}

theorem refl (hR : Stable R) (s : State) : R s s := hR.rest s s.pipe s.freelist s.console

/-- Another count of references. -/
theorem setRef (hR : Stable R) (s : State) (f n : ℕ) :
    R s (s.setFile f { s.file f with ref := n }) :=
  hR.file s f _ fun hf => ⟨hf, rfl, rfl, rfl⟩

/-- An entry that is not of an inode afterwards. -/
theorem setFile (hR : Stable R) (s : State) (f : ℕ) {x : File} (hx : x.type ≠ .inode) :
    R s (s.setFile f x) :=
  hR.file s f x fun h => absurd h hx

theorem fileFd (hR : Stable R) {r : Option (ℕ × ℕ)} (h : s.fileFd p = (r, s')) : R s s' := by
  cases r with
  | none =>
    obtain rfl | ⟨f, -, -, rfl⟩ := fileFd_none h
    · exact hR.refl s'
    · exact hR.setFile s f (by nofun)
  | some r =>
    obtain ⟨-, -, -, -, rfl⟩ := fileFd_some h
    exact hR.trans (hR.setRef s r.2 1) (hR.fd _ _ _ _)

theorem filedup (hR : Stable R) (h : s.filedup f = .ok s') : R s s' := by
  obtain rfl := filedup_eq_ok h
  exact hR.setRef s f _

theorem pipeclose (hR : Stable R) (s : State) (page : ℕ) (w : Bool) :
    R s (s.pipeclose page w) := by
  unfold State.pipeclose
  dsimp only
  split_ifs <;> exact hR.rest s _ _ _

theorem fileclose (hR : Stable R) (h : s.fileclose f = .ok s') : R s s' := by
  unfold State.fileclose at h
  dsimp only at h
  obtain ⟨-, h⟩ := ite_error_eq_ok.1 h
  split at h
  · cases h
    exact hR.setRef s f _
  · have hclosed : R s (s.setFile f { s.file f with ref := 0, type := .none }) :=
      hR.setFile s f (by nofun)
    split at h
    · cases h
      exact hR.trans hclosed (hR.pipeclose _ _ _)
    · cases h
      exact hR.trans hclosed (hR.put _ _)
    · cases h
      exact hclosed

theorem fileread (hR : Stable R) {n : ℕ} {m : ℤ} {bytes : List Char}
    (h : s.fileread f n = .ok (m, bytes, s')) : R s s' := by
  obtain ⟨-, rfl | ⟨-, page, data, rfl⟩ | ⟨console, k, rfl⟩⟩ := fileread_cases h
  · exact hR.refl s'
  · exact hR.rest s _ _ _
  · exact hR.trans (hR.rest s s.pipe s.freelist console)
      (hR.file _ f _ fun hf => ⟨hf, rfl, rfl, rfl⟩)

theorem pipealloc (hR : Stable R) {r : Option (ℕ × ℕ)} (h : s.pipealloc = (r, s')) : R s s' := by
  cases r with
  | some r =>
    obtain ⟨f, g⟩ := r
    obtain ⟨page, rest, -, -, -, -, -, -, rfl⟩ := pipealloc_some h
    exact hR.trans (hR.trans (hR.rest s _ rest s.console) (hR.setFile _ f (by nofun)))
      (hR.setFile _ g (by nofun))
  | none =>
    unfold State.pipealloc at h
    split at h
    · cases h
      exact hR.refl s
    next f hf =>
      have hfirst : R s ((s.setFile f { s.file f with ref := 1 }).setFile f
          { s.file f with ref := 0, type := .none }) :=
        hR.trans (hR.setRef s f 1) (hR.setFile _ f (by nofun))
      dsimp only at h
      split at h
      · cases h
        exact hfirst
      · split at h
        · cases h
          exact hR.trans hfirst (hR.setFile _ _ (by nofun))
        · cases h

theorem sysClose (hR : Stable R) {fd n : ℤ} (h : sysClose s p fd = .ok (n, s')) : R s s' := by
  unfold Files.sysClose at h
  split at h
  · cases h
    exact hR.refl s
  · have hfd := hR.fd s p fd.toNat none
    obtain ⟨tag, -, h⟩ := bind_eq_ok.1 h
    split at h
    · obtain ⟨s₁, hclose, h⟩ := bind_eq_ok.1 h
      cases h
      exact hR.trans hfd (hR.fileclose hclose)
    · cases h
      exact hfd

theorem sysDup (hR : Stable R) {fd n : ℤ} (h : sysDup s p fd = .ok (n, s')) : R s s' := by
  unfold Files.sysDup at h
  split at h
  · obtain ⟨s₁, hdup, h⟩ := bind_eq_ok.1 h
    cases h
    exact hR.trans (hR.fd _ _ _ _) (hR.filedup hdup)
  · cases h
    exact hR.refl s

/-- `sys_pipe` fails, or stores two descriptors in the end. -/
theorem sysPipe (hR : Stable R) {addr : ℕ} {n : ℤ} (h : sysPipe s p addr = .ok (n, s')) :
    R s s' ∨ ∃ s₁ fd₀ fd₁, R s s₁ ∧
      s' = s₁.setProc p ((s₁.proc p).store addr (intBytes fd₀ ++ intBytes fd₁)) := by
  unfold Files.sysPipe at h
  split at h
  · cases h
    exact .inl (hR.refl s)
  · split at h
    next s₁ halloc =>
      cases h
      exact .inl (hR.pipealloc halloc)
    next f g s₁ halloc =>
      have hpipe := hR.pipealloc halloc
      split at h
      · obtain ⟨s₂, hclose, h⟩ := bind_eq_ok.1 h
        obtain ⟨s₃, hclose', h⟩ := bind_eq_ok.1 h
        cases h
        exact .inl (hR.trans hpipe (hR.trans (hR.fileclose hclose) (hR.fileclose hclose')))
      next fd₀ _ =>
        have hfd := hR.trans hpipe (hR.fd s₁ p fd₀ (some f))
        dsimp only at h
        split at h
        · obtain ⟨s₂, hclose, h⟩ := bind_eq_ok.1 h
          obtain ⟨s₃, hclose', h⟩ := bind_eq_ok.1 h
          cases h
          have hback := hR.trans hfd (hR.fd _ p fd₀ none)
          exact .inl (hR.trans hback (hR.trans (hR.fileclose hclose) (hR.fileclose hclose')))
        next fd₁ _ =>
          cases h
          exact .inr ⟨_, fd₀, fd₁, hR.trans hfd (hR.fd _ p fd₁ (some g)), rfl⟩

/-- The loop of `exit`. -/
theorem closeFds (hR : Stable R) (h : (List.range NOFILE).foldlM (State.closeFd p) s = .ok s') :
    R s s' := by
  refine foldlM_range_invariant (I := fun _ x => R s x) NOFILE (hR.refl s)
    (fun i _ x y hx hy => ?_) h
  unfold State.closeFd at hy
  split at hy
  · cases hy
    exact hx
  · exact hR.trans hx (hR.trans (hR.fd _ _ _ _) (hR.fileclose hy))

end Stable

/-- The disk and the owners in the cache are the same, and every entry that is referenced was so
before, for the same inode. -/
structure CalmFs (fs fs' : FileSys) : Prop where
  disk : fs'.disk = fs.disk
  tag : ∀ k, (fs'.icache.inode k).containerId = (fs.icache.inode k).containerId
  live : ∀ k, 0 < (fs'.icache.inode k).ref → 0 < (fs.icache.inode k).ref ∧
    (fs'.icache.inode k).inum = (fs.icache.inode k).inum

namespace CalmFs

theorem of_eq (h : fs' = fs) : CalmFs fs fs' := by
  subst h
  exact ⟨rfl, fun _ => rfl, fun _ hk => ⟨hk, rfl⟩⟩

theorem trans {fs'' : FileSys} (h : CalmFs fs fs') (h' : CalmFs fs' fs'') : CalmFs fs fs'' := by
  refine ⟨h'.disk.trans h.disk, fun k => (h'.tag k).trans (h.tag k), fun k hk => ?_⟩
  obtain ⟨hk', hinum'⟩ := h'.live k hk
  obtain ⟨hk, hinum⟩ := h.live k hk'
  exact ⟨hk, hinum'.trans hinum⟩

/-- A lookup that holds nothing at its end. -/
theorem unheld {c : ICache} (hc : Held fs.icache none c) : CalmFs fs { fs with icache := c } := by
  refine ⟨rfl, hc.tag, fun k hk => ?_⟩
  have href : (c.inode k).ref = (fs.icache.inode k).ref := hc.ref k
  have hlive : 0 < (fs.icache.inode k).ref := href ▸ hk
  exact ⟨hlive, hc.inum k hlive⟩

theorem put (fs : FileSys) (k : ℕ) : CalmFs fs { fs with icache := fs.icache.iput k } := by
  refine ⟨rfl, fun _ => ICache.iput_tag .., fun j hj => ⟨?_, ICache.iput_inum ..⟩⟩
  have href := ICache.iput_ref fs.icache k j
  change 0 < ((fs.icache.iput k).inode j).ref at hj
  omega

/-- One more reference on an entry that has some. -/
theorem idup {k : ℕ} (hk : 0 < (fs.icache.inode k).ref) :
    CalmFs fs { fs with icache := fs.icache.idup k } := by
  have hheld := ICache.idup_held fs.icache k
  refine ⟨rfl, hheld.tag, fun j hj => ?_⟩
  have hlive : 0 < (fs.icache.inode j).ref := by
    by_cases hjk : j = k
    · rw [hjk]
      exact hk
    · exact hheld.of_live hj hjk
  exact ⟨hlive, hheld.inum j hlive⟩

end CalmFs

/-- The file system is calm, no cache entry was recycled, and every open file of an inode was
one before. -/
structure Calm (s s' : State) : Prop where
  fs : CalmFs s.fs s'.fs
  inum : ∀ k, (s'.fs.icache.inode k).inum = (s.fs.icache.inode k).inum
  file : ∀ f, (s'.file f).type = .inode → (s.file f).type = .inode ∧
    (s'.file f).ip = (s.file f).ip ∧ (s'.file f).writable = (s.file f).writable ∧
    (s'.file f).openedIn = (s.file f).openedIn

namespace Calm

theorem of_eq (hfs : s'.fs = s.fs) (hfile : s'.file = s.file) : Calm s s' :=
  ⟨.of_eq hfs, fun k => by rw [hfs],
    fun f hf => by rw [hfile] at hf ⊢; exact ⟨hf, rfl, rfl, rfl⟩⟩

theorem trans (h : Calm s s') (h' : Calm s' s'') : Calm s s'' := by
  refine ⟨h.fs.trans h'.fs, fun k => (h'.inum k).trans (h.inum k), fun f hf => ?_⟩
  obtain ⟨hf', hip', hw', ho'⟩ := h'.file f hf
  obtain ⟨hf, hip, hw, ho⟩ := h.file f hf'
  exact ⟨hf, hip'.trans hip, hw'.trans hw, ho'.trans ho⟩

theorem of_renamed (h : Renamed p s s') : Calm s s' := .of_eq h.fs h.file

theorem put (s : State) (k : ℕ) : Calm s (s.iput k) :=
  ⟨.put s.fs k, fun _ => ICache.iput_inum .., fun _ hf => ⟨hf, rfl, rfl, rfl⟩⟩

theorem idup (hk : 0 < (s.fs.icache.inode k).ref) :
    Calm s (s.setCache (s.fs.icache.idup k)) := by
  exact ⟨.idup hk, update_field Inode.inum (by rfl), fun _ hf => ⟨hf, rfl, rfl, rfl⟩⟩

theorem stable : Stable Calm where
  trans := .trans
  rest _ _ _ _ := .of_eq rfl rfl
  fd _ _ _ _ := .of_eq rfl rfl
  put := put
  file s f x hx := by
    refine ⟨.of_eq rfl, fun _ => rfl, fun g hg => ?_⟩
    by_cases hgf : g = f
    · subst hgf
      rw [setFile_self] at hg ⊢
      exact hx hg
    · rw [setFile_of_ne s hgf] at hg ⊢
      exact ⟨hg, rfl, rfl, rfl⟩

theorem fileFd {r : Option (ℕ × ℕ)} (h : s.fileFd p = (r, s')) : Calm s s' := stable.fileFd h

end Calm

/-! ### The calls -/

theorem fork_calm (hp : 0 < (s.fs.icache.inode (s.proc p).cwd).ref)
    (huse : (s.proc p).inUse = true) (h : fork s p = .ok s') : Calm s s' := by
  obtain rfl | ⟨q, x, -, hfree, hloop, rfl⟩ := fork_cases h
  · exact .of_eq rfl rfl
  · have hne : p ≠ q := by
      rintro rfl
      rw [huse] at hfree
      cases hfree
    -- the loop touches reference counts of files and the child's descriptors
    have hend : s.fs = x.fs ∧ Calm s x ∧ x.proc p = s.proc p := by
      refine foldlM_range_invariant
        (I := fun _ x => s.fs = x.fs ∧ Calm s x ∧ x.proc p = s.proc p) NOFILE
        ⟨rfl, .of_eq rfl rfl, rfl⟩ (fun i _ x y hx hy => ?_) hloop
      obtain ⟨hfs, hcalm, hproc⟩ := hx
      unfold State.dupFd at hy
      split at hy
      · cases hy
        exact ⟨hfs, hcalm, hproc⟩
      · have hsame := filedup_proc hy
        have hdup := Calm.stable.trans (Calm.stable.fd x q i _) (Calm.stable.filedup hy)
        refine ⟨?_, hcalm.trans hdup, ?_⟩
        · obtain rfl := filedup_eq_ok hy
          exact hfs
        · rw [hsame, setFd_of_ne x hne]
          exact hproc
    obtain ⟨hfs, hcalm, hproc⟩ := hend
    rw [← hproc, hfs] at hp
    exact hcalm.trans ((Calm.idup hp).trans (.of_eq rfl rfl))

theorem exit_calm (h : exit s p = .ok s') : Calm s s' := by
  obtain ⟨x, hloop, rfl⟩ := exit_eq_ok h
  exact (Calm.stable.closeFds hloop).trans ((Calm.put _ _).trans (.of_eq rfl rfl))

/-- The calls that look up a name and keep the inode, and `write`. -/
def Call.Busy : Call → Prop
  | .open _ _ | .write _ _ _ | .chdir _ | .mkdir _ | .mknod _ _ => True
  | _ => False

/-- **All other calls are calm**, by a process whose directory is referenced. -/
theorem exec_calm {call : Call} (hcall : ¬ call.Busy)
    (hp : 0 < (s.fs.icache.inode (s.proc p).cwd).ref) (huse : (s.proc p).inUse = true)
    (h : exec s p call = .ok s') : Calm s s' := by
  cases call with
  | «open» addr omode | write fd buf n | chdir addr | mkdir addr | mknod addr major =>
    exact absurd trivial hcall
  | read fd buf n =>
    obtain ⟨m, hread⟩ := map_snd_eq_ok h
    obtain rfl | ⟨f, bytes, s₁, hfile, rfl⟩ := sysRead_cases hread
    · exact .of_eq rfl rfl
    · exact (Calm.stable.fileread hfile).trans (.of_eq rfl rfl)
  | close fd =>
    obtain ⟨m, hclose⟩ := map_snd_eq_ok h
    exact Calm.stable.sysClose hclose
  | dup fd =>
    obtain ⟨m, hdup⟩ := map_snd_eq_ok h
    exact Calm.stable.sysDup hdup
  | pipe addr =>
    obtain ⟨m, hpipe⟩ := map_snd_eq_ok h
    obtain hcalm | ⟨s₁, fd₀, fd₁, hcalm, rfl⟩ := Calm.stable.sysPipe hpipe
    · exact hcalm
    · exact hcalm.trans (.of_eq rfl rfl)
  | fork => exact fork_calm hp huse h
  | exit => exact exit_calm h
  | createContainer | compute mem sz =>
    cases h
    exact .of_eq rfl rfl
  | destroyContainer cid =>
    obtain ⟨-, -, ⟨-, hexit⟩ | ⟨-, rfl⟩⟩ := sysDestroyContainer_eq_ok h
    · have hexit := exit_calm hexit
      exact ⟨hexit.fs, hexit.inum, hexit.file⟩
    · exact .of_eq rfl rfl
  | joinContainer cid =>
    obtain ⟨t, -, -, rfl⟩ := exec_joinContainer h
    exact .of_eq rfl rfl
  | leaveContainer =>
    obtain rfl | ⟨t, -, rfl⟩ := exec_leaveContainer h
    · exact .of_eq rfl rfl
    · exact .of_eq rfl rfl
  | containerMalloc units =>
    obtain ⟨f, m, t, rfl⟩ := exec_containerMalloc_eq h
    exact .of_eq rfl rfl
  | getFileContainerId addr =>
    obtain ⟨n, hget⟩ := map_snd_eq_ok h
    obtain ⟨m, rfl⟩ := sysGetFileContainerId_eq_ok hget
    exact .of_eq rfl rfl

end Files
end Xv6
