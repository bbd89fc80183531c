/-
# File names

What the file calls do with the bytes of a name before any directory is read:
the string a process hands over (`fetchstr`, `xv6/syscall.c`, lines 83-101),
the two tests that decide which file of the caller's container it means
(`in_initial_files`, `xv6/sysfile.c`, lines 19-37, and `file_in_container`,
`xv6/container_manager.c`, lines 171-193), and the split of a path into
elements of at most `DIRSIZ` bytes (`skipelem`, `xv6/fs.c`, lines 596-619).

A container keeps its files apart from those of the host by their names: the
file `f` of container `c` is the directory entry `f$c`.  The table of a
container's files holds addresses and not strings, so `file_in_container` looks
at whatever the calling process has in its own memory at these addresses.
-/

import Xv6.Param

namespace Xv6
namespace Files

/-- The bytes of a string, without the NUL that ends it. -/
abbrev Name := List Char

/-- The byte that ends a string. -/
def NUL : Char := Char.ofNat 0

/-- Bytes of a page, of which `kalloc` hands out one at a time. -/
def PGSIZE : ℕ := 4096

/-- Longest name in a directory. -/
def DIRSIZ : ℕ := 14

/-! The flags of `open` (`xv6/fcntl.h`). -/

def O_RDONLY : ℕ := 0

def O_WRONLY : ℕ := 1

def O_RDWR : ℕ := 2

def O_CREATE : ℕ := 512

/-- `omode & O_CREATE`. -/
def creates (omode : ℕ) : Bool := omode &&& O_CREATE != 0

/-- `(omode & O_WRONLY) || (omode & O_RDWR)`. -/
def writes (omode : ℕ) : Bool := omode &&& O_WRONLY != 0 || omode &&& O_RDWR != 0

/-- What the file calls use of a process: its container, its current directory as an entry
of the inode cache, its descriptors as entries of the file table, and its memory. -/
structure Proc where
  inUse : Bool := false
  pid : ℕ := 0
  containerId : ℕ := 0
  cwd : ℕ := 0
  ofile : ℕ → Option ℕ := fun _ => none
  mem : ℕ → Char := fun _ => NUL
  sz : ℕ := 0

namespace Proc

/-- The string at an address, if it ends within the next `n` bytes. -/
def stringAt (p : Proc) : ℕ → ℕ → Option Name
  | 0, _ => none
  | n + 1, a => if p.mem a = NUL then some [] else (p.stringAt n (a + 1)).map (p.mem a :: ·)

/-- `fetchstr`. -/
def fetchstr (p : Proc) (addr : ℕ) : Option Name :=
  if p.sz ≤ addr then none else p.stringAt (p.sz - addr) addr

/-- `argptr`: the block of `size` bytes lies within the process's memory. -/
def argptr (p : Proc) (addr size : ℕ) : Bool := addr < p.sz && addr + size ≤ p.sz

/-- The end of the last page that is mapped: the kernel can go as far as here. -/
def mapped (p : Proc) : ℕ := (p.sz + (PGSIZE - 1)) / PGSIZE * PGSIZE

/-- The `n` bytes at an address. -/
def load (p : Proc) (addr n : ℕ) : List Char := (List.range n).map fun i => p.mem (addr + i)

/-- The `int` at an address. -/
def word (p : Proc) (addr : ℕ) : ℕ :=
  (p.load addr 4).foldr (fun c n => c.toNat % 256 + 256 * n) 0

/-- The process with some bytes put at an address. -/
def store (p : Proc) (addr : ℕ) (bytes : List Char) : Proc :=
  { p with mem := fun a =>
      if addr ≤ a ∧ a < addr + bytes.length then bytes.getD (a - addr) NUL else p.mem a }

theorem store_nil (p : Proc) (addr : ℕ) : p.store addr [] = p := by
  have hmem : (p.store addr []).mem = p.mem := funext fun a => by
    unfold store
    dsimp only
    rw [List.length_nil, if_neg (by omega)]
  calc
    p.store addr [] = { p with mem := (p.store addr []).mem } := rfl
    _ = p := by rw [hmem]

/-- Bytes that are not stored to stay. -/
theorem store_mem (p : Proc) {addr a : ℕ} {bytes : List Char}
    (h : ¬ (addr ≤ a ∧ a < addr + bytes.length)) : (p.store addr bytes).mem a = p.mem a :=
  if_neg h

/-- `strncmp(addr, a, strlen(a)) == 0` for an address of the process: it reads up to the first
byte that differs. -/
def strncmp (p : Proc) : ℕ → Name → Except Halt Bool
  | _, [] => .ok true
  | addr, c :: a =>
      if p.mapped ≤ addr then .error (.panic "trap")
      else if p.mem addr = c then p.strncmp (addr + 1) a
      else .ok false

end Proc

theorem nul_not_mem_of_stringAt {x : Proc} {addr n : ℕ} {name : Name}
    (h : x.stringAt n addr = some name) : NUL ∉ name := by
  induction n generalizing addr name with
  | zero => cases h
  | succ n ih =>
    unfold Proc.stringAt at h
    split at h
    · cases h
      exact List.not_mem_nil
    next hnul =>
      obtain ⟨rest, hrest, rfl⟩ := Option.map_eq_some_iff.1 h
      rw [List.mem_cons]
      exact not_or.2 ⟨fun heq => hnul heq.symm, ih hrest⟩

/-- The string of a process has no byte that ends it. -/
theorem nul_not_mem_of_fetchstr {x : Proc} {addr : ℕ} {name : Name}
    (h : x.fetchstr addr = some name) : NUL ∉ name := by
  unfold Proc.fetchstr at h
  split at h
  · cases h
  · exact nul_not_mem_of_stringAt h

/-- The files `mkfs` puts on the disk, as `initial_files` lists them. -/
def initialFiles : List Name :=
  [".", "..", "init", "console", "shutdown", "arr", "cat", "README", "assig2a.inp",
    "assig2b.inp", "echo", "forktest", "grep", "kill", "ln", "ls", "mkdir", "rm", "sh",
    "stressfs", "usertests", "wc", "zombie", "user_toggle", "user_add", "user_my",
    "print_count", "jacob", "maekawa"].map String.toList

/-- `initial_files_with_dot`. -/
def initialFilesWithDot : List Name := initialFiles.map (['.', '/'] ++ ·)

/-- `in_initial_files`: the comparison has the length of `path`, so every name that a listed
one begins with passes. -/
def inInitialFiles (path : Name) : Bool :=
  initialFiles.any path.isPrefixOf || initialFilesWithDot.any path.isPrefixOf

/-- The two bytes by which the names of a container's files end. -/
def suffix (cid : ℕ) : Name := ['$', Char.ofNat ('0'.toNat + cid)]

theorem nul_not_mem_suffix {cid : ℕ} (h : cid < NCONTAINER) : NUL ∉ suffix cid := by
  have hall : ∀ c < NCONTAINER, NUL ∉ suffix c := by decide +kernel
  exact hall cid h

/-- The loop of `file_in_container` over the addresses listed. -/
def Proc.strncmpAny (p : Proc) (a : Name) : List ℕ → Except Halt Bool
  | [] => .ok false
  | addr :: rest => do
      if ← p.strncmp addr a then .ok true else p.strncmpAny a rest

/-- `file_in_container`, but for the page it takes, with the addresses in the container's
table.  The name is copied to the page and must fit in it. -/
def Proc.fileInContainer (p : Proc) (table : List ℕ) (s : Name) (cid : ℕ) : Except Halt Bool :=
  let a := if cid = 0 then s else s ++ suffix cid
  if PGSIZE ≤ a.length then .error .wild else p.strncmpAny a table

/-- `skipelem`: the first element of a path, cut to `DIRSIZ` bytes, and what follows it. -/
def skipelem (path : Name) : Option (Name × Name) :=
  match path.dropWhile (· = '/') with
  | [] => none
  | c :: s =>
      some (((c :: s).takeWhile (· ≠ '/')).take DIRSIZ,
        ((c :: s).dropWhile (· ≠ '/')).dropWhile (· = '/'))

/-- The elements `skipelem` finds one after the other, `n` of them at most. -/
def skipelems : ℕ → Name → List Name
  | 0, _ => []
  | n + 1, path =>
      match skipelem path with
      | none => []
      | some (name, rest) => name :: skipelems n rest

/-- The elements of a path.  Each takes a byte of it at least. -/
def elements (path : Name) : List Name := skipelems path.length path

/-- The last element of a path, empty if there is none. -/
def lastElement (path : Name) : Name := (elements path).getLastD []

end Files
end Xv6
