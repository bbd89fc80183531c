/-
# What `create` does to the disk

`dirlink` and `create` (`xv6/fs.c`, lines 551-579, and `xv6/sysfile.c`, lines
282-325).  A directory keeps the answers it gives for other names when an entry
is added; `Created` lists the three ways in which `create` can end: nothing on
the disk has changed, a regular file of that name was there, or a free inode
has been filled in and entered into the directory.
-/

import Xv6.Files.Cache

namespace Xv6
namespace Files

open Function

/-! ### Directories -/

variable {e x : Dirent} {entries : List Dirent} {name : Name} {i : ℕ}

theorem mem_of_dirlookup (h : dirlookup entries name = some i) :
    ∃ e ∈ entries, e.inum = i ∧ i ≠ 0 ∧ e.name = name := by
  obtain ⟨e, hfind, rfl⟩ := Option.map_eq_some_iff.1 h
  have he : e.inum ≠ 0 ∧ e.name = name := by simpa using List.find?_some hfind
  exact ⟨e, List.mem_of_find?_eq_some hfind, rfl, he.1, he.2⟩

theorem mem_linked (h : x ∈ linked e entries) : x = e ∨ x ∈ entries := by
  induction entries with
  | nil => exact .inl (List.mem_singleton.1 h)
  | cons y entries ih =>
    unfold linked at h
    split at h
    · obtain rfl | h := List.mem_cons.1 h
      · exact .inl rfl
      · exact .inr (List.mem_cons_of_mem y h)
    · obtain rfl | h := List.mem_cons.1 h
      · exact .inr List.mem_cons_self
      · exact (ih h).imp_right (List.mem_cons_of_mem y)

/-- An entry for another name changes no answer. -/
theorem dirlookup_linked_of_ne (h : e.name ≠ name) :
    dirlookup (linked e entries) name = dirlookup entries name := by
  induction entries with
  | nil => simp [linked, dirlookup, h]
  | cons y entries ih =>
    unfold linked
    split
    · next hzero => simp [dirlookup, h, hzero]
    · unfold dirlookup at ih ⊢
      rw [List.find?_cons, List.find?_cons]
      split
      · rfl
      · exact ih

/-- The new entry is found. -/
theorem dirlookup_linked_self (hi : i ≠ 0)
    (h : dirlookup entries name = none) : dirlookup (linked ⟨i, name⟩ entries) name = some i := by
  induction entries with
  | nil => simp [linked, dirlookup, hi]
  | cons e entries ih =>
    unfold linked
    unfold dirlookup at h ih ⊢
    split
    · simp [hi]
    · rw [Option.map_eq_none_iff, List.find?_cons] at h
      rw [List.find?_cons]
      split at h
      · cases h
      · exact ih (by rw [h]; rfl)

/-- The disk after a free inode has been filled in and entered into a directory. -/
def madeDisk (disk : Disk) (dir inum : ℕ) (name : Name) (d : Dinode) : Disk :=
  update (update disk inum d) dir
    { update disk inum d dir with
      entries := linked ⟨inum, name⟩ (update disk inum d dir).entries }

theorem dirlink_eq_ok {disk disk' : Disk} {dir : ℕ} (h : dirlink disk dir e = .ok disk') :
    disk' = update disk dir { disk dir with entries := linked e (disk dir).entries } := by
  unfold dirlink at h
  dsimp only at h
  split at h
  · cases h
  · exact (Except.ok.inj h).symm

section

variable {disk : Disk} {dir inum : ℕ} {d : Dinode}

theorem madeDisk_dir (h : dir ≠ inum) : madeDisk disk dir inum name d dir =
    { disk dir with entries := linked ⟨inum, name⟩ (disk dir).entries } := by
  rw [madeDisk, update_self, update_of_ne h]

theorem ne_of_dir {disk : Disk} {dir i : ℕ} (hdir : (disk dir).type = .dir)
    (hfree : (disk i).type = .free) : dir ≠ i := by
  rintro rfl
  rw [hfree] at hdir
  cases hdir

theorem madeDisk_new (h : dir ≠ inum) : madeDisk disk dir inum name d inum = d := by
  rw [madeDisk, update_of_ne h.symm, update_self]

theorem madeDisk_of_ne (h : i ≠ dir) (h' : i ≠ inum) : madeDisk disk dir inum name d i = disk i := by
  rw [madeDisk, update_of_ne h, update_of_ne h']

end

/-! ### The three ends of `create` -/

theorem FileSys.ialloc_eq_ok {fs : FileSys} {inum : ℕ} (h : fs.ialloc = .ok inum) :
    1 ≤ inum ∧ (fs.disk inum).type = .free := by
  unfold ialloc at h
  split at h
  next n hfind =>
    cases h
    simpa using List.find?_some hfind
  · cases h

/-- How `create` can end. -/
inductive Created (fs : FileSys) (path : Name) (type : FileType) (major creator : ℕ) :
    Option ℕ → FileSys → Prop where
  | failed {c : ICache} (hc : Held fs.icache none c) :
      Created fs path type major creator none { fs with icache := c }
  | found {k dir : ℕ} {c : ICache} (hc : Held fs.icache (some k) c)
      (hdir : (fs.disk dir).type = .dir)
      (hlookup : dirlookup (fs.disk dir).entries (lastElement path) = some (c.inode k).inum)
      (hfile : type = .file ∧ (fs.disk (c.inode k).inum).type = .file) :
      Created fs path type major creator (some k) { fs with icache := c }
  | made {k dir : ℕ} {c : ICache} (hc : Held fs.icache (some k) c)
      (hdir : (fs.disk dir).type = .dir)
      (hlookup : dirlookup (fs.disk dir).entries (lastElement path) = none)
      (hfree : 1 ≤ (c.inode k).inum ∧ (fs.disk (c.inode k).inum).type = .free) :
      Created fs path type major creator (some k)
        { fs with
          icache := c
          disk := madeDisk fs.disk dir (c.inode k).inum (lastElement path)
            (FileSys.newInode type major creator (c.inode k).inum dir) }

/-- **What `create` does**: without an inode only references have moved; else the path has a
parent directory, with the regular file of that name or with a free inode entered under it. -/
theorem FileSys.create_eq_ok {fs fs' : FileSys} {cwd : ℕ} {path : Name} {type : FileType}
    {major creator : ℕ} {r : Option ℕ}
    (h : fs.create cwd path type major creator = .ok (r, fs')) :
    (r = none ∧ ∃ c, Held fs.icache none c ∧ fs' = { fs with icache := c }) ∨
    ∃ k dir c, r = some k ∧ Held fs.icache (some k) c ∧ (fs.disk dir).type = .dir ∧
      elements path ≠ [] ∧
      resolve fs.disk (startInum fs.icache cwd path) (elements path).dropLast = some dir ∧
      ((dirlookup (fs.disk dir).entries (lastElement path) = some (c.inode k).inum ∧
        (type = .file ∧ (fs.disk (c.inode k).inum).type = .file) ∧ fs' = { fs with icache := c }) ∨
      (dirlookup (fs.disk dir).entries (lastElement path) = none ∧
        (1 ≤ (c.inode k).inum ∧ (fs.disk (c.inode k).inum).type = .free) ∧ fs' = { fs with
          icache := c
          disk := madeDisk fs.disk dir (c.inode k).inum (lastElement path)
            (FileSys.newInode type major creator (c.inode k).inum dir) })) := by
  obtain ⟨⟨rp, c₁⟩, hparent, h⟩ := bind_eq_ok.1 h
  obtain ⟨hheld, hdp⟩ := nameiparent_spec hparent
  cases rp with
  | none =>
    cases h
    exact .inl ⟨rfl, c₁, hheld, rfl⟩
  | some dp =>
    obtain ⟨hdir, hne, hres⟩ := hdp dp rfl
    obtain ⟨d, hlock, h⟩ := bind_eq_ok.1 h
    obtain ⟨rfl, -⟩ := ICache.ilock_eq_ok hlock
    split at h
    next inum hlookup =>
      obtain ⟨⟨ip, c₂⟩, hget, h⟩ := bind_eq_ok.1 h
      obtain ⟨hheld', hinum⟩ := hheld.move hget
      obtain ⟨t, hlock', h⟩ := bind_eq_ok.1 h
      obtain ⟨rfl, -⟩ := ICache.ilock_eq_ok hlock'
      split at h
      next hfile =>
        cases h
        exact .inr ⟨ip, _, _, rfl, hheld', hdir, hne, hres,
          .inl ⟨by rw [hlookup, hinum], hfile, rfl⟩⟩
      · cases h
        exact .inl ⟨rfl, _, hheld'.put, rfl⟩
    next hlookup =>
      obtain ⟨inum, halloc, h⟩ := bind_eq_ok.1 h
      obtain ⟨⟨ip, c₂⟩, hget, h⟩ := bind_eq_ok.1 h
      obtain ⟨disk, hlink, h⟩ := bind_eq_ok.1 h
      cases h
      obtain ⟨hheld', hinum⟩ := hheld.move hget
      -- the directory keeps its entry while the new inode gets one
      have hdp' : (c₂.inode dp).inum = (c₁.inode dp).inum :=
        (ICache.iget_spec hget).2.1.inum dp hheld.pos
      have hfree := FileSys.ialloc_eq_ok halloc
      rw [← hinum] at hfree
      have hdisk := dirlink_eq_ok hlink
      dsimp only at hdisk
      rw [hdp', ← hinum] at hdisk
      rw [hdisk]
      exact .inr ⟨ip, _, _, rfl, hheld', hdir, hne, hres, .inr ⟨hlookup, hfree, rfl⟩⟩

/-- **`create` ends in one of three ways.** -/
theorem FileSys.create_spec {fs fs' : FileSys} {cwd : ℕ} {path : Name} {type : FileType}
    {major creator : ℕ} {r : Option ℕ}
    (h : fs.create cwd path type major creator = .ok (r, fs')) :
    Created fs path type major creator r fs' := by
  obtain ⟨rfl, c, hc, rfl⟩ | ⟨k, dir, c, rfl, hc, hdir, -, -, hcase⟩ := FileSys.create_eq_ok h
  · exact .failed hc
  · obtain ⟨hlookup, hfile, rfl⟩ | ⟨hlookup, hfree, rfl⟩ := hcase
    · exact .found hc hdir hlookup hfile
    · exact .made hc hdir hlookup hfree

end Files
end Xv6
