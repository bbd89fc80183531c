/-
# What a process sees of a file

`observe` is what a process obtains by `sys_open` with `O_RDONLY` and reads of the
descriptor it gets.  `view` is what it should obtain: a function of the process
itself, of the names registered for the host and for its container, of the disk
and of the console input, in which the file table, the inode cache and the free
list do not show.
Here are the two definitions, the choice of the name, and the reads of a
descriptor that is open.
-/

import Xv6.Files.Grounded
import Xv6.Files.RefCalls

namespace Xv6
namespace Files

open Lib Function

variable {s s' : State} {proc proc' : Proc} {table table' : ℕ → List ℕ} {d d' : Dinode}
  {q f k i addr off : ℕ} {path path' : Name}

/-! ### What is observed -/

/-- Reads of a descriptor into buffers, each with its result and the bytes it left. -/
def readAll (q : ℕ) (fd : ℤ) : List (ℕ × ℕ) → State → Except Halt (List (ℤ × List Char))
  | [], _ => .ok []
  | (buf, n) :: reads, s => do
      let (r, s) ← sysRead s q fd buf n
      let rest ← readAll q fd reads s
      .ok ((r, (s.proc q).load buf r.toNat) :: rest)

/-- A descriptor, and the results and bytes of the reads of it. -/
abbrev Observation := Except Halt (ℤ × List (ℤ × List Char))

instance : DecidableEq Observation := instDecidableEqExcept_batteries

/-- The descriptor that `sys_open` with `O_RDONLY` returns, and the reads of it. -/
def observe (s : State) (q addr : ℕ) (reads : List (ℕ × ℕ)) : Observation := do
  let (fd, s) ← sysOpen s q addr O_RDONLY
  let obtained ← readAll q fd reads s
  .ok (fd, obtained)

/-! ### The view -/

/-- A read of `n` bytes of an inode, and the console input that is left. -/
def Dinode.read (d : Dinode) (off n : ℕ) (console : List Char) :
    Except Halt (Option (List Char) × List Char) :=
  if d.type = .dev then
    if d.major ≠ CONSOLE then .ok (none, console)
    else do
      let (bytes, rest) ← consoleread true n console
      .ok (some bytes, rest)
  else .ok (readi d off n, console)

/-- Reads of an inode from an offset on. -/
def readsFrom (d : Dinode) :
    ℕ → List Char → Proc → List (ℕ × ℕ) → Except Halt (List (ℤ × List Char))
  | _, _, _, [] => .ok []
  | off, console, proc, (buf, n) :: reads =>
      if proc.argptr buf n = false then do
        let rest ← readsFrom d off console proc reads
        .ok ((-1, []) :: rest)
      else do
        match ← d.read off n console with
        | (none, _) => do
            let rest ← readsFrom d off console proc reads
            .ok ((-1, []) :: rest)
        | (some bytes, left) => do
            let rest ← readsFrom d (off + bytes.length) left (proc.store buf bytes) reads
            .ok ((bytes.length, (proc.store buf bytes).load buf bytes.length) :: rest)

/-- An open that fails, and the reads after it. -/
def nothing (reads : List (ℕ × ℕ)) : ℤ × List (ℤ × List Char) := (-1, reads.map fun _ => (-1, []))

/-- The name under which a file is looked up for reading, and the process by then. -/
def Proc.readName (proc : Proc) (table : ℕ → List ℕ) (addr : ℕ) (path : Name) :
    Except Halt (Name × Proc) := do
  let r ← proc.renaming table addr path O_RDONLY
  if r.append then
    if proc.mapped < addr + path.length + 3 then .error (.panic "trap")
    else
      .ok (path ++ suffix proc.containerId,
        proc.store (addr + path.length) (suffix proc.containerId ++ [NUL]))
  else .ok (path, proc)

/-- The first free descriptor. -/
def Proc.freeFd (proc : Proc) : Option ℕ :=
  (List.range NOFILE).find? fun fd => (proc.ofile fd).isNone

/-- The inode a path leads to from the directory `dir`. -/
def inodeFrom (disk : Disk) (dir : ℕ) (path : Name) : Option ℕ :=
  resolve disk (if path.head? = some '/' then ROOTINO else dir) (elements path)

/-- What a process in the directory `dir` sees of a file. -/
def view (proc : Proc) (table : ℕ → List ℕ) (disk : Disk) (console : List Char) (dir addr : ℕ)
    (reads : List (ℕ × ℕ)) : Observation :=
  match proc.fetchstr addr with
  | none => .ok (nothing reads)
  | some path => do
      let (path, proc) ← proc.readName table addr path
      match inodeFrom disk dir path, proc.freeFd with
      | some i, some fd =>
          if (disk i).creator = proc.containerId ∨ (disk i).creator = 0 then do
            let obtained ← readsFrom (disk i) 0 console proc reads
            .ok (fd, obtained)
          else .ok (nothing reads)
      | _, _ => .ok (nothing reads)

/-- Reads depend on the inode and on the memory of the process alone. -/
theorem readsFrom_congr (hd : ∀ off n console, d'.read off n console = d.read off n console)
    (hmem : proc'.mem = proc.mem) (hsz : proc'.sz = proc.sz) (off : ℕ) (console : List Char)
    (reads : List (ℕ × ℕ)) :
    readsFrom d' off console proc' reads = readsFrom d off console proc reads := by
  induction reads generalizing off console proc proc' with
  | nil => rfl
  | cons x reads ih =>
    obtain ⟨buf, n⟩ := x
    have harg : proc'.argptr buf n = proc.argptr buf n := by
      unfold Proc.argptr
      rw [hsz]
    have hstore : ∀ bytes, (proc'.store buf bytes).mem = (proc.store buf bytes).mem := fun bytes => by
      unfold Proc.store
      rw [hmem]
    have hload : ∀ bytes, (proc'.store buf bytes).load buf bytes.length =
        (proc.store buf bytes).load buf bytes.length := fun bytes => by
      unfold Proc.load
      rw [hstore]
    unfold readsFrom
    rw [harg, hd, ih hmem hsz]
    split
    · rfl
    · refine congrArg _ (funext fun r => ?_)
      obtain ⟨o, left⟩ := r
      cases o with
      | none => rfl
      | some bytes =>
        dsimp only
        rw [hload, ih (hstore bytes) hsz]

/-! ### The name -/

/-- An open for reading registers nothing, copies nothing and takes two pages at most. -/
theorem renaming_rdonly {r : Renaming} (h : proc.renaming table addr path O_RDONLY = .ok r) :
    r.register = false ∧ r.makeCopy = false ∧ r.pages ≤ 2 := by
  obtain ⟨⟨existing, pages⟩, hexisting, h⟩ := bind_eq_ok.1 h
  have hpages : pages ≤ 1 := by
    unfold Proc.existing at hexisting
    split at hexisting
    · cases hexisting
      omega
    · obtain ⟨found, -, hexisting⟩ := bind_eq_ok.1 hexisting
      cases hexisting
      omega
  dsimp only at h
  split at h
  · split at h
    · cases h
      exact ⟨rfl, rfl, by dsimp only; omega⟩
    · rw [if_pos rfl] at h
      obtain ⟨inContainer, -, h⟩ := bind_eq_ok.1 h
      cases h
      exact ⟨rfl, rfl, by dsimp only; omega⟩
  · rw [if_neg (by decide)] at h
    split at h
    · cases h
    · cases h
      exact ⟨rfl, rfl, by dsimp only; omega⟩

/-- With two pages free, the name is chosen by the process and the tables alone. -/
theorem rename_rdonly (path : Name) (hpages : 2 ≤ s.freelist.length) :
    (∃ e, (s.proc q).readName s.fileTable addr path = .error e ∧
      s.rename q addr path O_RDONLY = .error e) ∨
    ∃ path' s₁, (s.proc q).readName s.fileTable addr path = .ok (path', s₁.proc q) ∧
      s.rename q addr path O_RDONLY = .ok (path', false, s₁) ∧ s₁.console = s.console := by
  unfold Proc.readName State.rename
  cases hr : (s.proc q).renaming s.fileTable addr path O_RDONLY with
  | error e => exact .inl ⟨e, rfl, rfl⟩
  | ok r =>
    obtain ⟨hregister, hcopy, hle⟩ := renaming_rdonly hr
    have hscratch : s.scratch r.pages = .ok { s with freelist := s.freelist.drop r.pages } := by
      unfold State.scratch
      rw [if_neg (by omega)]
    rw [ok_bind, ok_bind, hscratch, ok_bind, hregister, hcopy]
    cases happend : r.append with
    | false => exact .inr ⟨path, { s with freelist := s.freelist.drop r.pages }, rfl, rfl, rfl⟩
    | true =>
      rw [if_pos rfl, if_pos rfl]
      unfold State.appendSuffix
      dsimp only
      split
      · exact .inl ⟨_, rfl, rfl⟩
      · refine .inr ⟨_, _, ?_, rfl, rfl⟩
        rw [setProc_self]

/-! ### Reads -/

theorem readAll_nothing (q : ℕ) (reads : List (ℕ × ℕ)) (s : State) :
    readAll q (-1) reads s = .ok (nothing reads).2 := by
  induction reads generalizing s with
  | nil => rfl
  | cons x reads ih =>
    unfold readAll
    change (readAll q (-1) reads s >>= fun rest => .ok ((-1, (s.proc q).load x.1 0) :: rest)) = _
    rw [ih, ok_bind]
    rfl

/-- A descriptor of an inode with the contents `d`, which the process may read. -/
structure Readable (s : State) (q : ℕ) (fd : ℤ) (f k : ℕ) (d : Dinode) : Prop where
  argfd : s.argfd q fd = some f
  uses : (s.file f).Uses k
  readable : (s.file f).readable = true
  tag : TagPasses s q k
  ref : 0 < (s.fs.icache.inode k).ref
  disk : s.fs.disk (s.fs.icache.inode k).inum = d
  type : d.type ≠ .free

namespace Readable

variable {fd : ℤ}

/-- `fileread` of such a descriptor. -/
theorem fileread_eq (h : Readable s q fd f k d) (n : ℕ) : s.fileread f n = (do
    match ← d.read (s.file f).off n s.console with
    | (none, _) => .ok (-1, [], s)
    | (some bytes, left) =>
      .ok (bytes.length, bytes, { s with console := left }.advance f bytes.length)) := by
  have hlock : s.fs.icache.ilock s.fs.disk k = .ok d := by
    rw [ICache.ilock_returns h.ref (by rw [h.disk]; exact h.type), h.disk]
  unfold State.fileread Dinode.read
  dsimp only
  rw [if_neg (by rw [h.readable]; decide), h.uses.1, h.uses.2]
  dsimp only
  rw [hlock, ok_bind]
  split
  · split
    · rfl
    · cases consoleread true n s.console <;> rfl
  · rw [ok_bind]
    cases readi d (s.file f).off n <;> rfl

theorem sysRead_eq (h : Readable s q fd f k d) (buf n : ℕ) : sysRead s q fd buf n =
    if (s.proc q).argptr buf n = false then .ok (-1, s)
    else (do
      match ← d.read (s.file f).off n s.console with
      | (none, _) => .ok (-1, s)
      | (some bytes, left) =>
        .ok (bytes.length, ({ s with console := left }.advance f bytes.length).setProc q
          ((s.proc q).store buf bytes))) := by
  have htagOf : s.tagOf q f = .ok (s.fs.icache.inode k).containerId := by
    unfold State.tagOf
    rw [h.uses.2]
  have htag : (s.fs.icache.inode k).containerId = (s.proc q).containerId ∨
      (s.fs.icache.inode k).containerId = 0 := h.tag
  unfold sysRead
  rw [h.argfd]
  dsimp only
  split
  · rfl
  · rw [htagOf, ok_bind, if_pos htag, h.fileread_eq]
    cases d.read (s.file f).off n s.console with
    | error e => rfl
    | ok r =>
      obtain ⟨o, left⟩ := r
      cases o with
      | none =>
        rw [ok_bind, ok_bind]
        dsimp only
        rw [ok_bind]
        dsimp only
        rw [Proc.store_nil, State.setProc, update_eq_self]
      | some bytes => rfl

/-- It is so after a read. -/
theorem read (h : Readable s q fd f k d) (buf n : ℕ) (bytes left : List Char) :
    Readable (({ s with console := left }.advance f n).setProc q ((s.proc q).store buf bytes))
      q fd f k d := by
  have hfile : (({ s with console := left }.advance f n).setProc q
      ((s.proc q).store buf bytes)).file f = { s.file f with off := (s.file f).off + n } :=
    update_self ..
  have hproc : (({ s with console := left }.advance f n).setProc q
      ((s.proc q).store buf bytes)).proc q = (s.proc q).store buf bytes := update_self ..
  refine ⟨?_, by rw [hfile]; exact h.uses, by rw [hfile]; exact h.readable, ?_, h.ref, h.disk, h.type⟩
  · unfold State.argfd
    rw [hproc]
    exact h.argfd
  · unfold TagPasses
    rw [hproc]
    exact h.tag

theorem readAll_eq (h : Readable s q fd f k d) (reads : List (ℕ × ℕ)) :
    readAll q fd reads s = readsFrom d (s.file f).off s.console (s.proc q) reads := by
  induction reads generalizing s with
  | nil => rfl
  | cons x reads ih =>
    obtain ⟨buf, n⟩ := x
    unfold readAll readsFrom
    rw [h.sysRead_eq]
    split
    · rw [ok_bind]
      dsimp only
      rw [ih h]
      rfl
    · cases d.read (s.file f).off n s.console with
      | error e => rfl
      | ok r =>
        obtain ⟨o, left⟩ := r
        cases o with
        | none =>
          rw [ok_bind, ok_bind]
          dsimp only
          rw [ok_bind]
          dsimp only
          rw [ih h]
          rfl
        | some bytes =>
          have hfile : (({ s with console := left }.advance f bytes.length).setProc q
              ((s.proc q).store buf bytes)).file f =
              { s.file f with off := (s.file f).off + bytes.length } := update_self ..
          rw [ok_bind, ok_bind]
          dsimp only
          rw [ok_bind]
          dsimp only
          rw [ih (h.read buf _ bytes left), setProc_self, hfile]
          rfl

end Readable

end Files
end Xv6
