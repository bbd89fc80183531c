/-
# `sys_open`

`sys_open` with `copy_helper_COW` (`xv6/sysfile.c`, lines 346-537) and
`set_file_in_container` (`xv6/container_manager.c`, lines 161-169).

A container is kept from the files of another one in two places.  `sys_open`
appends the caller's suffix to the name, in the caller's own memory, in the
cases that `renaming` lists; and it lets through only an inode whose cache
entry has the caller's `container_id` or `0`.  The first write to a file of
the host makes a copy under the new name.
-/

import Xv6.Files.Table

namespace Xv6
namespace Files

/-- Entries of `space_mapping` and of `files_of_container`. -/
def NCENTRY : ℕ := 100

/-- What `sys_open` does with a name before it looks it up. -/
structure Renaming where
  /-- The caller's suffix is appended. -/
  append : Bool := false
  /-- The file is a new copy of the host's. -/
  makeCopy : Bool := false
  /-- The name is put into the caller's table. -/
  register : Bool := false
  /-- Calls of `file_in_container`, each of which takes a page. -/
  pages : ℕ := 0
  deriving DecidableEq, Repr

/-- Whether the name is taken for one of the host's files, and the pages used to find out. -/
def Proc.existing (p : Proc) (table : ℕ → List ℕ) (path : Name) : Except Halt (Bool × ℕ) :=
  if inInitialFiles path then .ok (true, 0)
  else do
    let found ← p.fileInContainer (table 0) path 0
    .ok (found, 1)

/-- The first half of `sys_open` up to its writes: which name is meant, by the addresses in
the containers' tables. -/
def Proc.renaming (p : Proc) (table : ℕ → List ℕ) (addr : ℕ) (path : Name) (omode : ℕ) :
    Except Halt Renaming := do
  let cid := p.containerId
  let (existing, pages) ← p.existing table path
  if existing then
    if cid = 0 then .ok { pages := pages }
    else if omode = O_RDONLY then do
      let inContainer ← p.fileInContainer (table cid) path cid
      .ok { append := inContainer, pages := pages + 1 }
    else if writes omode then do
      let inContainer ← p.fileInContainer (table cid) path cid
      .ok { append := true, makeCopy := !inContainer, register := !inContainer,
            pages := pages + 1 }
    -- `O_CREATE` alone: the name stays the host's
    else .ok { pages := pages }
  else if creates omode then .ok { append := cid != 0, register := true, pages := pages }
  -- the byte two before the end, which may lie before the name
  else if addr + path.length < 2 then .error .wild
  else .ok { append := p.mem (addr + path.length - 2) != '$' && cid != 0, pages := pages }

namespace State

/-- The addresses in the table of a container's files that `file_in_container` goes through. -/
def fileTable (s : State) (cid : ℕ) : List ℕ :=
  (List.range (min NCENTRY (s.containers.container cid).lastFileIndex)).map
    (s.filesOfContainer cid)

/-- `set_file_in_container`: the table gets the address.  Behind its last entry lies the
counter itself. -/
def setFileInContainer (s : State) (addr cid : ℕ) : Except Halt State :=
  let i := (s.containers.container cid).lastFileIndex
  if i < NCENTRY then
    .ok { s with
      filesOfContainer := Function.update s.filesOfContainer cid
        (Function.update (s.filesOfContainer cid) i addr)
      containers := s.containers.modify cid fun c => { c with lastFileIndex := i + 1 } }
  else if i = NCENTRY then
    .ok { s with containers := s.containers.modify cid fun c => { c with lastFileIndex := addr + 1 } }
  else .error .wild

/-- The three assignments that append the suffix behind the caller's string. -/
def appendSuffix (s : State) (p addr : ℕ) (path : Name) : Except Halt (Name × State) :=
  let proc := s.proc p
  let nul := addr + path.length
  if proc.mapped < nul + 3 then .error (.panic "trap")
  else
    .ok (path ++ suffix proc.containerId,
      s.setProc p (proc.store nul (suffix proc.containerId ++ [NUL])))

/-- The first half of `sys_open`: the name to look up, and whether to copy. -/
def rename (s : State) (p addr : ℕ) (path : Name) (omode : ℕ) :
    Except Halt (Name × Bool × State) := do
  let r ← (s.proc p).renaming s.fileTable addr path omode
  let s ← s.scratch r.pages
  let (path, s) ← (if r.append then s.appendSuffix p addr path else .ok (path, s))
  let s ← (if r.register then s.setFileInContainer addr (s.proc p).containerId else .ok s)
  .ok (path, r.makeCopy, s)

/-- The inode `sys_open` finds or makes.  `create` may return a file that was there before;
its cache entry gets the caller's `container_id` all the same. -/
def openInode (s : State) (p : ℕ) (path : Name) (omode : ℕ) (makeCopy : Bool) :
    Except Halt (Option ℕ × State) :=
  let proc := s.proc p
  if creates omode || makeCopy then do
    match ← s.fs.create proc.cwd path .file 0 proc.containerId with
    | (none, fs) => .ok (none, { s with fs := fs })
    | (some k, fs) =>
        let ip := { fs.icache.inode k with containerId := proc.containerId }
        .ok (some k, { s with fs := { fs with icache := fs.icache.set k ip } })
  else do
    match ← namei s.fs.disk s.fs.icache proc.cwd path with
    | (none, c) => .ok (none, s.setCache c)
    | (some k, c) => do
        let d ← c.ilock s.fs.disk k
        if d.type = .dir ∧ omode ≠ O_RDONLY then .ok (none, (s.setCache c).iput k)
        else .ok (some k, s.setCache c)

/-- The entry `f` of the file table filled in for the inode at `k`. -/
def fill (s : State) (f k : ℕ) (readable writable : Bool) (cid : ℕ) : State :=
  s.setFile f
    { s.file f with
      type := .inode, ip := some k, off := 0, readable := readable, writable := writable
      openedIn := cid }

/-- What an open that succeeds has to go on with. -/
structure Opened where
  fd : ℕ
  file : ℕ
  path : Name
  makeCopy : Bool

/-- The end of `sys_open` before the copy, for the inode at `k`.  A file of another container
is refused only after the descriptor has been taken. -/
def openFd (s : State) (p k : ℕ) (path : Name) (omode : ℕ) (makeCopy : Bool) :
    Option Opened × State :=
  match s.fileFd p with
  | (none, s) => (none, s.iput k)
  | (some (fd, f), s) =>
      let cid := (s.proc p).containerId
      let tag := (s.fs.icache.inode k).containerId
      if tag = cid ∨ tag = 0 then
        (some ⟨fd, f, path, makeCopy⟩, s.fill f k (omode &&& O_WRONLY == 0) (writes omode) cid)
      else (none, s)

/-- `sys_open` up to the copy. -/
def openFile (s : State) (p addr omode : ℕ) : Except Halt (Option Opened × State) :=
  match (s.proc p).fetchstr addr with
  | none => .ok (none, s)
  | some path => do
      let (path, makeCopy, s) ← s.rename p addr path omode
      match ← s.openInode p path omode makeCopy with
      | (none, s) => .ok (none, s)
      | (some k, s) => .ok (s.openFd p k path omode makeCopy)

/-- The loop of `copy_helper_COW` from the file `g` to the file `f`, which reads as many bytes
at a time as a pointer has. -/
def copyLoop : ℕ → State → ℕ → ℕ → Except Halt State
  | 0, s, _, _ => .ok s
  | turns + 1, s, g, f => do
      let (n, bytes, s) ← s.fileread g 4
      if n ≤ 0 then .ok s
      else do
        let (m, s) ← s.filewrite f bytes
        if m ≠ n then .ok s else copyLoop turns s g f

/-- The name of the file of which the file of that name is a copy. -/
def original (path : Name) : Name := path.take (path.length - 2)

/-- `copy_helper_COW`.  Each turn of its loop takes a byte of the original at least; the file
opened for the original is not closed. -/
def copyHelperCOW (s : State) (p : ℕ) (path : Name) (f : ℕ) : Except Halt State := do
  let s ← s.scratch 1
  if PGSIZE ≤ path.length then .error .wild
  else
    match ← namei s.fs.disk s.fs.icache (s.proc p).cwd (original path) with
    | (none, c) => .ok (s.setCache c)
    | (some k, c) => do
        let d ← c.ilock s.fs.disk k
        match (s.setCache c).fileFd p with
        | (none, s) => .ok (s.iput k)
        | (some (_, g), s) =>
            copyLoop (d.bytes.length + 1) (s.fill g k true false (s.proc p).containerId) g f

end State

/-- `sys_open`. -/
def sysOpen (s : State) (p addr omode : ℕ) : Except Halt (ℤ × State) := do
  match ← s.openFile p addr omode with
  | (none, s) => .ok (-1, s)
  | (some o, s) => do
      let s ← (if o.makeCopy then s.copyHelperCOW p o.path o.file else .ok s)
      .ok (o.fd, s)

end Files
end Xv6
