/-
# Who owns an existing file

`sys_open` writes the caller's container into the cache entry of the inode that
`create` returns (`xv6/sysfile.c`, lines 486-495), and for a regular file `create`
returns an existing one of that name just as well (lines 282-300).  As long as a call
that creates or copies finds no regular file under its name (`CreatesNew`), no inode
that was there changes its owner (`open_keeps_owners`).  A process of a container
that opens a host file with `O_CREATE | O_RDONLY`, as `user_my` does, takes it over
(`open_takes_over`).
-/

import Xv6.Lib.Run
import Xv6.Files.Records

namespace Xv6
namespace Files

open Lib

variable {s s' : State} {fs fs' : FileSys} {disk : Disk} {p k i j cwd addr omode major creator : ℕ}
  {path name : Name} {type : FileType}

/-! ### What `create` returns -/

/-- A path with one more element. -/
theorem resolve_concat (names : List Name) : resolve disk i (names ++ [name]) =
    (resolve disk i names).bind fun j =>
      if (disk j).type = .dir then dirlookup (disk j).entries name else none := by
  induction names generalizing i with
  | nil =>
    change (if (disk i).type = .dir then (dirlookup (disk i).entries name).bind some
      else none) = _
    rw [Option.bind_fun_some]
    rfl
  | cons first rest ih =>
    rw [List.cons_append, resolve, resolve]
    split
    · cases dirlookup (disk i).entries first with
      | none => rfl
      | some j => exact ih
    · rfl

/-- The inode of a path lies in the directory of its parent. -/
theorem inodeOf_parent {c : ICache} {dir : ℕ} (hne : elements path ≠ [])
    (hparent : resolve disk (startInum c cwd path) (elements path).dropLast = some dir)
    (hdir : (disk dir).type = .dir) :
    inodeOf disk c cwd path = dirlookup (disk dir).entries (lastElement path) := by
  have hlast : lastElement path = (elements path).getLast hne := by
    rw [lastElement, List.getLastD_eq_getLast?, List.getLast?_eq_some_getLast hne]
    rfl
  rw [inodeOf, ← List.dropLast_concat_getLast hne, resolve_concat, hparent, Option.bind_some,
    if_pos hdir, hlast]

/-- **What `create` returns**: the regular file of that name, or if there is no file of that
name an inode that was free. -/
theorem FileSys.create_returns (h : fs.create cwd path type major creator = .ok (some k, fs')) :
    (inodeOf fs.disk fs.icache cwd path = some (fs'.icache.inode k).inum ∧
        (fs.disk (fs'.icache.inode k).inum).type = .file) ∨
      (inodeOf fs.disk fs.icache cwd path = none ∧
        (fs.disk (fs'.icache.inode k).inum).type = .free) := by
  obtain ⟨hr, -⟩ | ⟨k', dir, c, hk, -, hdir, hne, hres, hcase⟩ := FileSys.create_eq_ok h
  · cases hr
  · cases hk
    have hinode := inodeOf_parent hne hres hdir
    obtain ⟨hlookup, hfile, rfl⟩ | ⟨hlookup, hfree, rfl⟩ := hcase
    · exact .inl ⟨hinode.trans hlookup, hfile.2⟩
    · exact .inr ⟨hinode.trans hlookup, hfree.2⟩

/-! ### The cache entries through `sys_open` -/

/-- No `container_id` has changed, referenced entries hold the same inodes, and no inode was
allocated or freed. -/
structure SameOwners (s s' : State) : Prop where
  type : ∀ i, (s'.fs.disk i).type = (s.fs.disk i).type
  tag : ∀ j, (s'.fs.icache.inode j).containerId = (s.fs.icache.inode j).containerId
  inum : ∀ j, 0 < (s.fs.icache.inode j).ref →
    (s'.fs.icache.inode j).inum = (s.fs.icache.inode j).inum

namespace SameOwners

variable {s'' : State}

theorem of_fs_eq (h : s'.fs = s.fs) : SameOwners s s' :=
  ⟨fun i => by rw [h], fun j => by rw [h], fun j _ => by rw [h]⟩

theorem iput (s : State) (k : ℕ) : SameOwners s (s.iput k) :=
  ⟨fun _ => rfl, fun j => ICache.iput_tag _ k j, fun j _ => ICache.iput_inum _ k j⟩

theorem trans (h : SameOwners s s') (h' : SameOwners s' s'') (hpos : ∀ j,
    0 < (s.fs.icache.inode j).ref → 0 < (s'.fs.icache.inode j).ref) : SameOwners s s'' :=
  ⟨fun i => (h'.type i).trans (h.type i), fun j => (h'.tag j).trans (h.tag j),
    fun j hj => (h'.inum j (hpos j hj)).trans (h.inum j hj)⟩

theorem scratch {n : ℕ} (h : s.scratch n = .ok s') : s'.fs = s.fs := (scratch_renamed 0 h).fs

/-- The copy leaves the owners of what is referenced. -/
theorem copying {inum : ℕ} (h : Copying s p path inum s') : SameOwners s s' := by
  cases h with
  | @lost s₁ c hpage hname =>
    have hc := (namei_spec hname).1
    rw [scratch hpage] at hc
    refine ⟨fun i => ?_, hc.tag, hc.inum⟩
    change (s₁.fs.disk i).type = _
    rw [scratch hpage]
  | @full s₁ s₂ c k hpage hname _ hfd =>
    have hc := (namei_spec hname).1
    rw [scratch hpage] at hc
    have hfs := fileFd_fs hfd
    refine ⟨fun i => ?_, fun j => ?_, fun j hj => ?_⟩
    · change (s₂.fs.disk i).type = _
      rw [hfs]
      change (s₁.fs.disk i).type = _
      rw [scratch hpage]
    · change ((s₂.fs.icache.iput k).inode j).containerId = _
      rw [ICache.iput_tag, hfs]
      exact hc.tag j
    · change ((s₂.fs.icache.iput k).inode j).inum = _
      rw [ICache.iput_inum, hfs]
      exact hc.inum j hj
  | @copied s₁ s₂ s₃ c k fd g hpage hname _ hfd hwrote =>
    have hc := (namei_spec hname).1
    rw [scratch hpage] at hc
    have hcache : s'.fs.icache = c := by
      rw [hwrote.icache]
      change s₂.fs.icache = c
      rw [fileFd_fs hfd]
      rfl
    rw [← hcache] at hc
    refine ⟨fun i => ?_, hc.tag, hc.inum⟩
    have hdisk : s₂.fs.disk = s.fs.disk := by
      rw [fileFd_fs hfd]
      change s₁.fs.disk = _
      rw [scratch hpage]
    rw [← hdisk]
    by_cases hi : i = inum
    · obtain ⟨data, hdata⟩ := hwrote.data
      rw [hi, hdata]
      rfl
    · rw [hwrote.disk i hi]
      rfl

end SameOwners

/-- A call that creates or copies finds no regular file under the name it looks up. -/
def CreatesNew (s : State) (p addr omode : ℕ) : Prop :=
  ∀ path ∈ (s.proc p).fetchstr addr,
    ∀ r ∈ ((s.proc p).renaming s.fileTable addr path omode).toOption,
      (creates omode || r.makeCopy) = true →
        ∀ i ∈ inodeOf s.fs.disk s.fs.icache (s.proc p).cwd
          (if r.append then path ++ suffix (s.proc p).containerId else path),
          (s.fs.disk i).type ≠ .file

instance (s : State) (p addr omode : ℕ) : Decidable (CreatesNew s p addr omode) :=
  inferInstanceAs (Decidable (∀ path ∈ (s.proc p).fetchstr addr, _))

/-- The cache entry has the owner it had, or an inode that was allocated in between. -/
def OwnerKept (s s' : State) (k : ℕ) : Prop :=
  (s'.fs.icache.inode k).containerId = (s.fs.icache.inode k).containerId ∨
    ((s.fs.disk (s'.fs.icache.inode k).inum).type = .free ∧
      (s'.fs.disk (s'.fs.icache.inode k).inum).type = .file)

/-- After the lookup. -/
theorem looked_owners {makeCopy : Bool} {r : Option ℕ} {s₁ : State}
    (hname : s.rename p addr path omode = .ok (name, makeCopy, s₁))
    (hpath : (s.proc p).fetchstr addr = some path) (hnew : CreatesNew s p addr omode)
    (h : s₁.openInode p name omode makeCopy = .ok (r, s')) (j : ℕ) :
    (s'.fs.icache.inode j).containerId = (s.fs.icache.inode j).containerId ∨
      (0 < (s'.fs.icache.inode j).ref ∧ (s.fs.disk (s'.fs.icache.inode j).inum).type = .free ∧
        (s'.fs.disk (s'.fs.icache.inode j).inum).type = .file) := by
  obtain ⟨x, t, hx, hname', hcopy, -, -, -⟩ := rename_records hname
  have hren := rename_renamed hname
  obtain ⟨hmakes, fs, hcreate, rfl⟩ | ⟨-, o, c, hnamei, hend⟩ := openInode_cases h
  · rw [hren.fs, hren.cwd, hren.containerId] at hcreate
    have hspec := FileSys.create_spec hcreate
    cases r with
    | none =>
      cases hspec with
      | failed hc => exact .inl (hc.tag j)
    | some k =>
      change (((fs.retag k _).icache.inode j).containerId = _) ∨
        0 < ((fs.retag k _).icache.inode j).ref ∧
          (s.fs.disk ((fs.retag k _).icache.inode j).inum).type = .free ∧
          (fs.disk ((fs.retag k _).icache.inode j).inum).type = .file
      unfold FileSys.retag
      obtain ⟨hinode, hfile⟩ | ⟨-, hfree⟩ := FileSys.create_returns hcreate
      · -- the condition leaves no regular file to be found
        rw [hcopy] at hmakes
        rw [hname'] at hinode
        exact absurd hfile (hnew path hpath x (by rw [hx]; rfl) hmakes _ hinode)
      · by_cases hj : j = k
        · subst hj
          refine .inr ?_
          dsimp only
          rw [ICache.set_inode_self]
          cases hspec with
          | found hc _ _ hfile =>
            rw [hfile.2] at hfree
            cases hfree
          | @made _ dir c hc hdir _ _ =>
            refine ⟨hc.pos, hfree, ?_⟩
            change (madeDisk _ _ _ _ _ _).type = _
            rw [madeDisk_new (ne_of_dir hdir hfree)]
            rfl
        · refine .inl ?_
          dsimp only
          rw [ICache.set_inode_of_ne _ hj]
          cases hspec with
          | found hc _ _ _ => exact hc.tag j
          | made hc _ _ _ => exact hc.tag j
  · rw [hren.fs, hren.cwd] at hnamei
    have hc := (namei_spec hnamei).1
    obtain ⟨-, rfl, -⟩ | ⟨-, k, -, rfl, -⟩ := hend
    · exact .inl (hc.tag j)
    · exact .inl ((ICache.iput_tag c k j).trans (hc.tag j))

/-- What comes after the lookup keeps it. -/
theorem SameOwners.kept {t : State} (h : SameOwners t s')
    (hlooked : (t.fs.icache.inode j).containerId = (s.fs.icache.inode j).containerId ∨
      (0 < (t.fs.icache.inode j).ref ∧ (s.fs.disk (t.fs.icache.inode j).inum).type = .free ∧
        (t.fs.disk (t.fs.icache.inode j).inum).type = .file)) :
    OwnerKept s s' j := by
  unfold OwnerKept
  rw [h.tag j]
  refine hlooked.imp_right fun ⟨hpos, hfree, hfile⟩ => ?_
  rw [h.inum j hpos, h.type]
  exact ⟨hfree, hfile⟩

/-- **Opening never changes the owner of an existing file**, as long as a call that creates or
copies finds no regular file under the name: every cache entry keeps its `container_id`, unless
the inode in it is one that the call has allocated. -/
theorem open_keeps_owners (s : State) (p addr omode : ℕ) (n : ℤ) (s' : State)
    (hnew : CreatesNew s p addr omode) (h : sysOpen s p addr omode = .ok (n, s')) (k : ℕ) :
    OwnerKept s s' k := by
  cases sysOpen_opening h with
  | unnamed => exact .inl rfl
  | missing hpath hname hlook =>
    exact (SameOwners.of_fs_eq rfl).kept (looked_owners hname hpath hnew hlook k)
  | @full path path' makeCopy s₁ s₂ s₃ j hpath hname hlook hfd =>
    have hsame := (SameOwners.of_fs_eq (fileFd_fs hfd)).trans (SameOwners.iput s₃ j)
      fun i hi => by rw [fileFd_fs hfd]; exact hi
    exact hsame.kept (looked_owners hname hpath hnew hlook k)
  | refused hpath hname hlook hfd =>
    exact (SameOwners.of_fs_eq (fileFd_fs hfd)).kept
      (looked_owners hname hpath hnew hlook k)
  | @opened path path' s₁ s₂ s₃ j fd f hpath hname hlook hfd =>
    have hfs : (s₃.opened p f j omode).fs = s₂.fs := by
      change s₃.fs = s₂.fs
      exact fileFd_fs hfd
    exact (SameOwners.of_fs_eq hfs).kept (looked_owners hname hpath hnew hlook k)
  | @copied path path' s₁ s₂ s₃ s₄ j fd f hpath hname hlook hfd _ hcopy =>
    have hfs : (s₃.opened p f j omode).fs = s₂.fs := by
      change s₃.fs = s₂.fs
      exact fileFd_fs hfd
    have hsame := (SameOwners.of_fs_eq hfs).trans (SameOwners.copying hcopy)
      fun i hi => by rw [hfs]; exact hi
    exact hsame.kept (looked_owners hname hpath hnew hlook k)

/-- A process of container 1 makes `foo`, while the host's `README` is open. -/
theorem open_keeps_owners_foo : ∃ s s', Reach step anyStep smallBoot s ∧
    sysOpen s 0 2 (O_CREATE ||| O_RDWR) = .ok (1, s') ∧ ∀ k, OwnerKept s s' k := by
  obtain ⟨s, hs, hnew, hok⟩ : ∃ s, Reach step anyStep smallBoot s ∧
      CreatesNew s 0 2 (O_CREATE ||| O_RDWR) ∧
      (sysOpen s 0 2 (O_CREATE ||| O_RDWR)).map Prod.fst = .ok 1 :=
    exists_reach_of_any [⟨0, .name "README".toList⟩, ⟨0, .open 2 O_RDONLY⟩, ⟨0, .createContainer⟩,
      ⟨0, .joinContainer 1⟩, ⟨0, .name "foo".toList⟩] (by decide +kernel)
  obtain ⟨s', hopen⟩ := map_fst_eq_ok hok
  exact ⟨s, s', hs, hopen, fun k => open_keeps_owners s 0 2 _ _ s' hnew hopen k⟩

/-- **A host file is taken over.**  `README` is open in the host with owner `0`; a process of
container 1 opens it with `O_CREATE | O_RDONLY`, and its owner is `1`. -/
theorem open_takes_over : ∃ s, Reach step anyStep smallBoot s ∧
    (s.fs.icache.inode 1).inum = 2 ∧ (s.fs.icache.inode 1).ref = 1 ∧
    (s.fs.disk 2).type = .file ∧ (s.fs.icache.inode 1).containerId = 0 ∧
    ((sysOpen s 0 2 (O_CREATE ||| O_RDONLY)).toOption.any fun r =>
      (r.2.fs.icache.inode 1).inum = 2 ∧ (r.2.fs.icache.inode 1).containerId = 1) = true :=
  exists_reach_of_any [⟨0, .name "README".toList⟩, ⟨0, .open 2 O_RDONLY⟩, ⟨0, .createContainer⟩,
    ⟨0, .joinContainer 1⟩] (by decide +kernel)

end Files
end Xv6
