/-
# Links, and what directories look like

`sys_link` (`xv6/sysfile.c`, lines 158-204), which the other calls are joined by here,
and the invariant of the directories that the calls leave behind: no name stands in
a directory twice, a name has `DIRSIZ` bytes at most and no NUL, and the entry `.`
of a directory leads to the directory itself (`Tidy`).  `link` gives a second name
to an inode and does not look at containers at all: neither is a suffix appended
to the name, nor is the `container_id` of the inode compared.
-/

import Xv6.Files.CallRecords
import Xv6.Files.Naming

namespace Xv6
namespace Files

open Lib Function

/-- `sys_link`.  The count of links, which it raises and lowers again if it fails, is left
out. -/
def sysLink (s : State) (p old new : ℕ) : Except Halt (ℤ × State) :=
  let proc := s.proc p
  match proc.fetchstr old, proc.fetchstr new with
  | some old, some new => do
      match ← namei s.fs.disk s.fs.icache proc.cwd old with
      | (none, c) => .ok (-1, s.setCache c)
      | (some ip, c) => do
          let d ← c.ilock s.fs.disk ip
          if d.type = .dir then .ok (-1, s.setCache (c.iput ip))
          else
            match ← nameiparent s.fs.disk c proc.cwd new with
            | (none, c) => .ok (-1, s.setCache (c.iput ip))
            | (some dp, c) => do
                let d ← c.ilock s.fs.disk dp
                match dirlookup d.entries (lastElement new) with
                -- `dirlink` takes a reference to what it finds, and drops it
                | some inum => do
                    let (k, c) ← c.iget inum
                    .ok (-1, s.setCache (((c.iput k).iput dp).iput ip))
                | none => do
                    let disk ← dirlink s.fs.disk (c.inode dp).inum
                      ⟨(c.inode ip).inum, lastElement new⟩
                    .ok (0, { s with
                      fs := { s.fs with disk := disk, icache := (c.iput dp).iput ip } })
  | _, _ => .ok (-1, s)

/-- A call, or a link. -/
inductive DirAct where
  | call (e : Event)
  | link (p old new : ℕ)

/-- One step. -/
def dirStep (s : State) : DirAct → Option State
  | .call e => step s e
  | .link p old new =>
      if p < NPROC ∧ (s.proc p).inUse then ((sysLink s p old new).map Prod.snd).toOption else none

variable {s s' : State} {fs fs' : FileSys} {p q k old new : ℕ} {path : Name} {c c₀ c₁ : ICache}

/-! ### `sys_link` -/

/-- A lookup that gave back what it took, after another one. -/
theorem Held.andThen {o : Option ℕ} (h : Held c₀ o c) (h' : Held c none c₁) : Held c₀ o c₁ := by
  refine ⟨fun j => ?_, fun j hj => ?_, fun j => (h'.tag j).trans (h.tag j)⟩
  · rw [h'.ref j, h.ref j, if_neg (show ¬ none = some j from nofun)]
    rfl
  · have hpos : 0 < (c.inode j).ref := by
      rw [h.ref j]
      omega
    rw [h'.inum j hpos, h.inum j hj]

/-- The disk with another entry in one directory. -/
def enteredDisk (disk : Disk) (dir : ℕ) (e : Dirent) : Disk :=
  update disk dir { disk dir with entries := linked e (disk dir).entries }

theorem enteredDisk_type (disk : Disk) (dir i : ℕ) (e : Dirent) :
    (enteredDisk disk dir e i).type = (disk i).type := Lib.update_field Dinode.type (by rfl) i

/-- **`sys_link`** gives back what it looked up, and it may have entered an inode that is no
directory into a directory under a new name. -/
theorem sysLink_cases {n : ℤ} (h : sysLink s p old new = .ok (n, s')) :
    (∃ c, Held s.fs.icache none c ∧ s' = s.setCache c) ∨
      ∃ c path dir inum, Held s.fs.icache none c ∧ (s.proc p).fetchstr new = some path ∧
        (s.fs.disk dir).type = .dir ∧ (s.fs.disk inum).type ≠ .free ∧
        dirlookup (s.fs.disk dir).entries (lastElement path) = none ∧
        s' = { s with fs := { s.fs with
          icache := c, disk := enteredDisk s.fs.disk dir ⟨inum, lastElement path⟩ } } := by
  unfold sysLink at h
  dsimp only at h
  split at h
  next oldPath newPath _ hnew =>
    obtain ⟨⟨r, c₁⟩, hname, h⟩ := bind_eq_ok.1 h
    obtain ⟨hheld, -, -⟩ := namei_spec hname
    cases r with
    | none =>
      cases h
      exact .inl ⟨c₁, hheld, rfl⟩
    | some ip =>
      obtain ⟨d, hlock, h⟩ := bind_eq_ok.1 h
      obtain ⟨rfl, halloc⟩ := ICache.ilock_eq_ok hlock
      split at h
      · cases h
        exact .inl ⟨_, hheld.put, rfl⟩
      · obtain ⟨⟨r, c₂⟩, hparent, h⟩ := bind_eq_ok.1 h
        obtain ⟨hheld', hdp⟩ := nameiparent_spec hparent
        cases r with
        | none =>
          cases h
          exact .inl ⟨_, (hheld.andThen hheld').put, rfl⟩
        | some dp =>
          obtain ⟨hdir, -, -⟩ := hdp dp rfl
          obtain ⟨d, hlock', h⟩ := bind_eq_ok.1 h
          obtain ⟨rfl, -⟩ := ICache.ilock_eq_ok hlock'
          split at h
          · obtain ⟨⟨j, c₃⟩, hget, h⟩ := bind_eq_ok.1 h
            cases h
            have hfound := (ICache.iget_spec hget).2.1.put
            exact .inl ⟨_, (hheld.andThen (hheld'.andThen hfound).put).put, rfl⟩
          next hlookup =>
            obtain ⟨disk, hlink, h⟩ := bind_eq_ok.1 h
            cases h
            rw [← hheld'.inum ip hheld.pos] at halloc
            refine .inr ⟨_, newPath, _, _, (hheld.andThen hheld'.put).put, hnew, hdir, halloc,
              hlookup, ?_⟩
            rw [dirlink_eq_ok hlink]
            rfl
  · cases h
    exact .inl ⟨_, .refl _, rfl⟩

/-! ### Directories -/

/-- The names in a directory differ. -/
def NamesDiffer (entries : List Dirent) : Prop :=
  entries.Pairwise fun e e' => e.inum ≠ 0 → e'.inum ≠ 0 → e.name ≠ e'.name

/-- A name that a directory can hold. -/
def FitsDirent (name : Name) : Prop := name.length ≤ DIRSIZ ∧ NUL ∉ name

/-- What holds of every directory. -/
structure Tidy (disk : Disk) : Prop where
  differ : ∀ d, (disk d).type = .dir → NamesDiffer (disk d).entries
  fits : ∀ d, (disk d).type = .dir → ∀ e ∈ (disk d).entries, e.inum ≠ 0 → FitsDirent e.name
  dot : ∀ d, (disk d).type = .dir → dirlookup (disk d).entries ['.'] = some d
  creator : ∀ d, (disk d).type = .dir → (disk d).creator = 0

theorem mem_elements {n : ℕ} {name : Name} (h : name ∈ skipelems n path) :
    name.length ≤ DIRSIZ ∧ ∀ ch ∈ name, ch ∈ path := by
  induction n generalizing path with
  | zero => cases h
  | succ n ih =>
    unfold skipelems at h
    split at h
    · cases h
    next first rest hskip =>
      unfold skipelem at hskip
      split at hskip
      · cases hskip
      next ch tail hdrop =>
        cases hskip
        have hsub : ∀ x ∈ ch :: tail, x ∈ path := fun x hx => by
          rw [← hdrop] at hx
          exact (List.dropWhile_suffix _).subset hx
        obtain rfl | h := List.mem_cons.1 h
        · refine ⟨List.length_take_le .., fun x hx => hsub x ?_⟩
          exact (List.takeWhile_prefix _).subset ((List.take_subset ..) hx)
        · obtain ⟨hlen, hmem⟩ := ih h
          refine ⟨hlen, fun x hx => hsub x ?_⟩
          have hrest := (List.dropWhile_suffix _).subset (hmem x hx)
          exact (List.dropWhile_suffix _).subset hrest

/-- A directory can hold the last element of every path without a NUL. -/
theorem fitsDirent_lastElement (h : NUL ∉ path) : FitsDirent (lastElement path) := by
  unfold lastElement
  rw [List.getLastD_eq_getLast?]
  cases hlast : (elements path).getLast? with
  | none => exact ⟨Nat.zero_le _, List.not_mem_nil⟩
  | some name =>
    obtain ⟨hlen, hmem⟩ := mem_elements (List.mem_of_getLast? hlast)
    exact ⟨hlen, fun hnul => h (hmem _ hnul)⟩

theorem dirlookup_eq_none {entries : List Dirent} {name : Name} :
    dirlookup entries name = none ↔ ∀ e ∈ entries, e.inum ≠ 0 → e.name ≠ name := by
  unfold dirlookup
  rw [Option.map_eq_none_iff, List.find?_eq_none]
  simp

/-- An entry with a new name. -/
theorem NamesDiffer.linked {entries : List Dirent} {e : Dirent} (h : NamesDiffer entries)
    (hnew : dirlookup entries e.name = none) : NamesDiffer (linked e entries) := by
  rw [dirlookup_eq_none] at hnew
  induction entries with
  | nil => exact List.pairwise_singleton ..
  | cons x entries ih =>
    obtain ⟨hx, hrest⟩ := List.pairwise_cons.1 h
    unfold Files.linked
    split
    · refine List.pairwise_cons.2 ⟨fun y hy _ hne heq => ?_, hrest⟩
      exact hnew y (List.mem_cons_of_mem x hy) hne heq.symm
    · refine List.pairwise_cons.2 ⟨fun y hy hne hne' heq => ?_,
        ih hrest fun y hy => hnew y (List.mem_cons_of_mem x hy)⟩
      obtain rfl | hy := mem_linked hy
      · exact hnew x List.mem_cons_self hne heq
      · exact hx y hy hne hne' heq

namespace Tidy

variable {disk : Disk}

/-- An entry with a new name in one directory. -/
theorem entered (h : Tidy disk) {dir : ℕ} {e : Dirent} (hdir : (disk dir).type = .dir)
    (hfits : FitsDirent e.name) (hnew : dirlookup (disk dir).entries e.name = none) :
    Tidy (enteredDisk disk dir e) := by
  have hcases : ∀ d, enteredDisk disk dir e d = disk d ∨ d = dir ∧
      enteredDisk disk dir e d = { disk dir with entries := linked e (disk dir).entries } := by
    intro d
    unfold enteredDisk
    by_cases hd : d = dir
    · rw [hd, update_self]
      exact .inr ⟨rfl, rfl⟩
    · rw [update_of_ne hd]
      exact .inl rfl
  refine ⟨fun d hd => ?_, fun d hd x hx hne => ?_, fun d hd => ?_, fun d hd => ?_⟩
  · obtain heq | ⟨rfl, heq⟩ := hcases d
    · rw [heq] at hd ⊢
      exact h.differ d hd
    · rw [heq]
      exact (h.differ d hdir).linked hnew
  · obtain heq | ⟨rfl, heq⟩ := hcases d
    · rw [heq] at hd hx
      exact h.fits d hd x hx hne
    · rw [heq] at hx
      obtain rfl | hx := mem_linked hx
      · exact hfits
      · exact h.fits d hdir x hx hne
  · obtain heq | ⟨rfl, heq⟩ := hcases d
    · rw [heq] at hd ⊢
      exact h.dot d hd
    · rw [heq]
      have hdot := h.dot d hdir
      have hne : e.name ≠ ['.'] := by
        intro heq'
        rw [heq', hdot] at hnew
        cases hnew
      exact (dirlookup_linked_of_ne hne).trans hdot
  · obtain heq | ⟨rfl, heq⟩ := hcases d
    · rw [heq] at hd ⊢
      exact h.creator d hd
    · rw [heq]
      exact h.creator d hdir

/-- A new inode that no directory leads to yet. -/
theorem allocated (h : Tidy disk) {type : FileType} {major creator inum dir : ℕ} (hne : inum ≠ 0)
    (hcreator : type = .dir → creator = 0) :
    Tidy (update disk inum (FileSys.newInode type major creator inum dir)) := by
  have hcases : ∀ d, (update disk inum (FileSys.newInode type major creator inum dir) d).type
      = .dir → (d = inum ∧ type = .dir) ∨ (d ≠ inum ∧ (disk d).type = .dir) := by
    intro d hd
    by_cases hi : d = inum
    · rw [hi, update_self] at hd
      exact .inl ⟨hi, hd⟩
    · rw [update_of_ne hi] at hd
      exact .inr ⟨hi, hd⟩
  refine ⟨fun d hd => ?_, fun d hd x hx hx0 => ?_, fun d hd => ?_, fun d hd => ?_⟩
  · obtain ⟨rfl, rfl⟩ | ⟨hi, hd⟩ := hcases d hd
    · rw [update_self]
      unfold FileSys.newInode NamesDiffer
      rw [if_pos rfl]
      refine List.pairwise_cons.2 ⟨fun y hy _ _ => ?_, List.pairwise_singleton ..⟩
      obtain rfl := List.mem_singleton.1 hy
      exact (by decide : (['.'] : Name) ≠ ['.', '.'])
    · rw [update_of_ne hi]
      exact h.differ d hd
  · obtain ⟨rfl, rfl⟩ | ⟨hi, hd⟩ := hcases d hd
    · rw [update_self] at hx
      unfold FileSys.newInode at hx
      rw [if_pos rfl] at hx
      have hboth : FitsDirent ['.'] ∧ FitsDirent ['.', '.'] := by
        unfold FitsDirent
        decide
      obtain rfl | hx := List.mem_cons.1 hx
      · exact hboth.1
      · obtain rfl := List.mem_singleton.1 hx
        exact hboth.2
    · rw [update_of_ne hi] at hx
      exact h.fits d hd x hx hx0
  · obtain ⟨rfl, rfl⟩ | ⟨hi, hd⟩ := hcases d hd
    · rw [update_self]
      simp [FileSys.newInode, dirlookup, hne]
    · rw [update_of_ne hi]
      exact h.dot d hd
  · obtain ⟨rfl, rfl⟩ | ⟨hi, hd⟩ := hcases d hd
    · rw [update_self]
      exact hcreator rfl
    · rw [update_of_ne hi]
      exact h.creator d hd

theorem created {type : FileType} {major creator : ℕ} (h : Tidy fs.disk) (hpath : NUL ∉ path)
    (hcreator : type = .dir → creator = 0)
    (hs : Created fs path type major creator (some k) fs') : Tidy fs'.disk := by
  cases hs with
  | found => exact h
  | @made _ dir c _ hdir hlookup hfree =>
    have hne := ne_of_dir hdir hfree.2
    have hnew : Tidy (update fs.disk (c.inode k).inum
        (FileSys.newInode type major creator (c.inode k).inum dir)) :=
      h.allocated (by omega) hcreator
    refine hnew.entered ?_ (fitsDirent_lastElement hpath) ?_
    · rw [update_of_ne hne]
      exact hdir
    · rw [update_of_ne hne]
      exact hlookup

theorem write (h : Tidy fs.disk) (i : ℕ) (data : List Char) : Tidy (fs.write i data).disk := by
  refine ⟨fun d hd => ?_, fun d hd e he => ?_, fun d hd => ?_, fun d hd => ?_⟩
  · rw [FileSys.write_type] at hd
    rw [FileSys.write_entries]
    exact h.differ d hd
  · rw [FileSys.write_type] at hd
    rw [FileSys.write_entries] at he
    exact h.fits d hd e he
  · rw [FileSys.write_type] at hd
    rw [FileSys.write_entries]
    exact h.dot d hd
  · rw [FileSys.write_type] at hd
    rw [FileSys.write_creator]
    exact h.creator d hd

end Tidy

end Files
end Xv6
