/-
# Opening a name for reading

`get_file_container_id` (`xv6/sysfile.c`, lines 655-671) answers whether a name
is taken for the host's.  `sys_open` for reading makes no file and no copy, so
whether it succeeds is decided by the name that it looks up (`openName`) and by
where the directories lead: from the current directory, for a name without
slashes (`inodeOf_here`).
-/

import Xv6.Files.Opening
import Xv6.Files.Resolve

namespace Xv6
namespace Files

open State

variable {s s' s₁ t t' : State} {p addr : ℕ} {path name : Name} {names : ℕ → List Name}
  {entries : List Dirent}

/-! ### A file and a descriptor -/

/-- There is an entry of the file table and a descriptor left for the process. -/
def roomFor (s : State) (p : ℕ) : Bool := s.filealloc.isSome && (s.fdalloc p).isSome

theorem fileFd_isSome (s : State) (p : ℕ) : (s.fileFd p).1.isSome = roomFor s p := by
  unfold State.fileFd roomFor
  cases s.filealloc with
  | none => rfl
  | some f => cases s.fdalloc p <;> rfl

theorem roomFor_congr {p : ℕ} (hfile : s'.file = s.file)
    (hofile : (s'.proc p).ofile = (s.proc p).ofile) : roomFor s' p = roomFor s p := by
  unfold roomFor State.filealloc State.fdalloc
  rw [hfile, hofile]

/-! ### `get_file_container_id` -/

/-- It answers whether a name is taken for the host's. -/
theorem sysGetFileContainerId_spec {n : ℤ} (hpath : (t.proc p).fetchstr addr = some path)
    (hhost : (t.proc p).Sees t.fileTable names 0)
    (h : sysGetFileContainerId t p addr = .ok (n, t')) :
    n ≠ 0 ↔ hostName (names 0) path = false := by
  unfold sysGetFileContainerId at h
  rw [hpath] at h
  obtain ⟨t₁, h₁, h⟩ := bind_eq_ok.1 h
  obtain rfl := scratch_eq_ok h₁
  unfold hostName
  obtain ⟨-, h⟩ := ite_error_eq_ok.1 h
  split at h
  next hinitial =>
    cases h
    simp [hinitial]
  next hinitial =>
    obtain ⟨found, hfound, h⟩ := bind_eq_ok.1 h
    obtain ⟨t₂, -, h⟩ := bind_eq_ok.1 h
    cases h
    have heq := Proc.fileInContainer_eq_ok hhost (nul_not_mem_of_fetchstr hpath) (by decide)
      hfound
    change found = (names 0).any path.isPrefixOf at heq
    rw [← heq]
    cases found <;> simp [hinitial]

/-! ### `open` for reading -/

/-- The name that `sys_open` looks up for reading. -/
def openName (names : ℕ → List Name) (cid : ℕ) (path : Name) : Name :=
  if (chosen names cid path O_RDONLY).append then path ++ suffix cid else path

theorem chosen_rdonly_makeCopy (names : ℕ → List Name) (cid : ℕ) (path : Name) :
    (chosen names cid path O_RDONLY).makeCopy = false := by
  unfold chosen
  dsimp only
  split
  · split
    · rfl
    · rw [if_pos rfl]
  · split <;> rfl

/-- A lookup for reading goes where the directories lead. -/
theorem openInode_rdonly_eq {r : Option ℕ} (h : s.openInode p name O_RDONLY false = .ok (r, s')) :
    ∃ c, namei s.fs.disk s.fs.icache (s.proc p).cwd name = .ok (r, c) ∧ s' = s.setCache c := by
  obtain ⟨hnew, -⟩ | ⟨-, o, c, hnamei, ⟨rfl, rfl, -⟩ | ⟨-, k, -, -, -, hmode⟩⟩ := openInode_cases h
  · cases hnew
  · exact ⟨c, hnamei, rfl⟩
  · exact absurd rfl hmode

/-- A process with a string in its memory, and the names that it finds registered. -/
structure Request (names : ℕ → List Name) (s : State) (p addr : ℕ) (path : Name) : Prop where
  string : (s.proc p).fetchstr addr = some path
  cid_lt : (s.proc p).containerId < NCONTAINER
  host : (s.proc p).Sees s.fileTable names 0
  own : (s.proc p).Sees s.fileTable names (s.proc p).containerId
  inside : LooksInside (names 0) (s.proc p).containerId path O_RDONLY

/-- Where a lookup for reading leads. -/
theorem Request.openInode {makeCopy : Bool} {s₂ : State} {r : Option ℕ}
    (h : Request names s p addr path)
    (hname : s.rename p addr path O_RDONLY = .ok (name, makeCopy, s₁))
    (hlook : s₁.openInode p name O_RDONLY makeCopy = .ok (r, s₂)) :
    makeCopy = false ∧ s₂.file = s.file ∧ (s₂.proc p).ofile = (s.proc p).ofile ∧
      s₂.fs.disk = s.fs.disk ∧
      r.map (fun k => (s₂.fs.icache.inode k).inum) = inodeOf s.fs.disk s.fs.icache (s.proc p).cwd
        (openName names (s.proc p).containerId path) := by
  obtain ⟨rfl, rfl⟩ := rename_eq_chosen h.string h.cid_lt h.host h.own h.inside hname
  rw [chosen_rdonly_makeCopy] at hlook
  obtain ⟨c, hnamei, rfl⟩ := openInode_rdonly_eq hlook
  have hren := rename_renamed hname
  obtain ⟨-, hinode, -⟩ := namei_spec hnamei
  obtain ⟨mem, hself⟩ := hren.self
  refine ⟨chosen_rdonly_makeCopy .., hren.file, ?_, ?_, ?_⟩
  · change (s₁.proc p).ofile = _
    rw [hself]
  · change s₁.fs.disk = _
    rw [hren.fs]
  · rw [hren.fs, hren.cwd p] at hinode
    exact hinode

/-- **When `open` for reading succeeds**: with room for a file and a tag that lets the caller
through, if the name it looks up leads somewhere. -/
theorem sysOpen_rdonly_iff {n : ℤ} (h : Request names s p addr path) (hroom : roomFor s p = true)
    (htag : ∀ k s₂, looked s p addr O_RDONLY = some (k, s₂) → TagPasses s₂ p k)
    (hopen : sysOpen s p addr O_RDONLY = .ok (n, s')) :
    0 ≤ n ↔ (inodeOf s.fs.disk s.fs.icache (s.proc p).cwd
      (openName names (s.proc p).containerId path)).isSome := by
  have hlook : ∀ {path' name : Name} {makeCopy : Bool} {s₁ s₂ : State} {r : Option ℕ},
      (s.proc p).fetchstr addr = some path' →
      s.rename p addr path' O_RDONLY = .ok (name, makeCopy, s₁) →
      s₁.openInode p name O_RDONLY makeCopy = .ok (r, s₂) →
      makeCopy = false ∧ s₂.file = s.file ∧ (s₂.proc p).ofile = (s.proc p).ofile ∧
      r.isSome = (inodeOf s.fs.disk s.fs.icache (s.proc p).cwd
        (openName names (s.proc p).containerId path)).isSome := by
    intro path' name makeCopy s₁ s₂ r hpath hname hlook
    obtain rfl : path = path' := Option.some.inj (h.string.symm.trans hpath)
    obtain ⟨hcopy, hfile, hofile, -, hinode⟩ := h.openInode hname hlook
    refine ⟨hcopy, hfile, hofile, ?_⟩
    rw [← hinode, Option.isSome_map]
  have hlooked : ∀ {path' name : Name} {makeCopy : Bool} {s₁ s₂ : State} {k : ℕ},
      (s.proc p).fetchstr addr = some path' →
      s.rename p addr path' O_RDONLY = .ok (name, makeCopy, s₁) →
      s₁.openInode p name O_RDONLY makeCopy = .ok (some k, s₂) →
      looked s p addr O_RDONLY = some (k, s₂) := by
    intro path' name makeCopy s₁ s₂ k hpath hname hinode
    simp only [looked, named, hpath, hname, hinode, Option.bind_eq_bind, Option.bind_some,
      Except.toOption, Option.map_some]
  cases sysOpen_opening hopen with
  | unnamed hpath =>
    rw [h.string] at hpath
    cases hpath
  | missing hpath hname hinode =>
    obtain ⟨-, -, -, hsome⟩ := hlook hpath hname hinode
    rw [← hsome]
    decide
  | @full _ _ _ _ s₂ _ _ hpath hname hinode hfd =>
    obtain ⟨-, hfile, hofile, -⟩ := hlook hpath hname hinode
    have hnone := fileFd_isSome s₂ p
    rw [hfd, roomFor_congr hfile hofile, hroom] at hnone
    cases hnone
  | @refused _ _ _ _ s₂ s₃ k _ _ hpath hname hinode hfd hrefused =>
    refine absurd ?_ hrefused
    have hpass := htag k s₂ (hlooked hpath hname hinode)
    obtain ⟨-, -, -, -, rfl⟩ := fileFd_some hfd
    unfold TagPasses State.setFd
    rw [setProc_self]
    exact hpass
  | opened hpath hname hinode hfd _ =>
    obtain ⟨-, -, -, hsome⟩ := hlook hpath hname hinode
    rw [← hsome]
    simp
  | copied hpath hname hinode =>
    cases (hlook hpath hname hinode).1

/-! ### The current directory -/

/-- The directory a process is in. -/
def State.here (s : State) (p : ℕ) : ℕ := (s.fs.icache.inode (s.proc p).cwd).inum

/-- A name without slashes is looked up in the current directory. -/
theorem inodeOf_here (hx : name ≠ []) (hslash : '/' ∉ name) (hlen : name.length ≤ DIRSIZ) :
    inodeOf s.fs.disk s.fs.icache (s.proc p).cwd name =
      if (s.fs.disk (s.here p)).type = .dir then dirlookup (s.fs.disk (s.here p)).entries name
      else none := by
  have hhead : name.head? ≠ some '/' := fun h => hslash (List.mem_of_mem_head? h)
  unfold inodeOf startInum State.here
  rw [if_neg hhead, elements_of_no_slash hx hslash, List.take_of_length_le hlen]
  unfold resolve
  split
  · cases dirlookup _ name <;> rfl
  · rfl

end Files
end Xv6
