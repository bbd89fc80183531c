/-
# The file calls and the container calls

The rest of `xv6/sysfile.c` that opens, uses and closes files (lines 40-145,
541-598 and 624-671), what `fork` and `exit` do with files (`xv6/proc.c`, lines
259-347), and the container calls (`xv6/sysproc.c`, lines 266-335) with the
pages and the names they record.  Membership and scheduling of containers are
those of the kernel model.

One call is one step.  A process in `exit` leaves its slot at once; `wait`,
`link` and `unlink` are left out.
-/

import Xv6.Files.Open

namespace Xv6
namespace Files

open State Function

/-- `argfd`: the file of a descriptor. -/
def State.argfd (s : State) (p : ℕ) (fd : ℤ) : Option ℕ :=
  if fd < 0 ∨ (NOFILE : ℤ) ≤ fd then none else (s.proc p).ofile fd.toNat

/-- Where `container_id` lies in `struct inode`. -/
def TAGOFFSET : ℕ := 144

/-- `f->ip->container_id`.  A file that never had an inode has a null pointer there, and the
kernel reads the caller's memory at the field's offset. -/
def State.tagOf (s : State) (p f : ℕ) : Except Halt ℕ :=
  match (s.file f).ip with
  | some k => .ok (s.fs.icache.inode k).containerId
  | none =>
      if (s.proc p).mapped < TAGOFFSET + 4 then .error (.panic "trap")
      else .ok ((s.proc p).word TAGOFFSET)

/-- `sys_read`. -/
def sysRead (s : State) (p : ℕ) (fd : ℤ) (buf n : ℕ) : Except Halt (ℤ × State) :=
  match s.argfd p fd with
  | none => .ok (-1, s)
  | some f =>
      if (s.proc p).argptr buf n = false then .ok (-1, s)
      else do
        let tag ← s.tagOf p f
        if tag = (s.proc p).containerId ∨ tag = 0 then do
          let (r, bytes, s) ← s.fileread f n
          .ok (r, s.setProc p ((s.proc p).store buf bytes))
        else .ok (-1, s)

/-- `sys_write`. -/
def sysWrite (s : State) (p : ℕ) (fd : ℤ) (buf n : ℕ) : Except Halt (ℤ × State) :=
  match s.argfd p fd with
  | none => .ok (-1, s)
  | some f =>
      if (s.proc p).argptr buf n = false then .ok (-1, s)
      else do
        let tag ← s.tagOf p f
        if tag = 0 ∨ tag = (s.proc p).containerId then s.filewrite f ((s.proc p).load buf n)
        else .ok (-1, s)

/-- `sys_close`: the descriptor is free before the container is looked at. -/
def sysClose (s : State) (p : ℕ) (fd : ℤ) : Except Halt (ℤ × State) :=
  match s.argfd p fd with
  | none => .ok (-1, s)
  | some f => do
      let s := s.setFd p fd.toNat none
      let tag ← s.tagOf p f
      if tag = (s.proc p).containerId then do
        let s ← s.fileclose f
        .ok (0, s)
      else .ok (-1, s)

/-- `sys_dup`. -/
def sysDup (s : State) (p : ℕ) (fd : ℤ) : Except Halt (ℤ × State) :=
  match s.argfd p fd, s.fdalloc p with
  | some f, some fd => do
      let s ← (s.setFd p fd (some f)).filedup f
      .ok (fd, s)
  | _, _ => .ok (-1, s)

/-- `pipealloc`: the two entries of the file table, the reading end first. -/
def State.pipealloc (s : State) : Option (ℕ × ℕ) × State :=
  match s.filealloc with
  | none => (none, s)
  | some f =>
      let s₁ := s.setFile f { s.file f with ref := 1 }
      match s₁.filealloc with
      | none => (none, s₁.setFile f { s.file f with ref := 0, type := .none })
      | some g =>
          match s₁.kalloc with
          | (none, _) =>
              (none, (s₁.setFile f { s.file f with ref := 0, type := .none }).setFile g
                { s₁.file g with ref := 0, type := .none })
          | (some page, s₂) =>
              (some (f, g),
                ((s₂.setPipe page { readopen := true, writeopen := true }).setFile f
                  { s.file f with
                    type := .pipe, ref := 1, readable := true, writable := false
                    pipe := page }).setFile g
                  { s₁.file g with
                    type := .pipe, ref := 1, readable := false, writable := true
                    pipe := page })

/-- The four bytes of a small `int`. -/
def intBytes (n : ℕ) : List Char := [Char.ofNat (n % 256), Char.ofNat (n / 256), NUL, NUL]

/-- `sys_pipe`. -/
def sysPipe (s : State) (p addr : ℕ) : Except Halt (ℤ × State) :=
  if (s.proc p).argptr addr 8 = false then .ok (-1, s)
  else
    match s.pipealloc with
    | (none, s) => .ok (-1, s)
    | (some (f, g), s) =>
        match s.fdalloc p with
        | none => do
            let s ← s.fileclose f
            let s ← s.fileclose g
            .ok (-1, s)
        | some fd₀ =>
            let s₁ := s.setFd p fd₀ (some f)
            match s₁.fdalloc p with
            | none => do
                let s ← (s₁.setFd p fd₀ none).fileclose f
                let s ← s.fileclose g
                .ok (-1, s)
            | some fd₁ =>
                let s := s₁.setFd p fd₁ (some g)
                .ok (0, s.setProc p ((s.proc p).store addr (intBytes fd₀ ++ intBytes fd₁)))

/-- `sys_chdir`. -/
def sysChdir (s : State) (p addr : ℕ) : Except Halt (ℤ × State) :=
  let proc := s.proc p
  match proc.fetchstr addr with
  | none => .ok (-1, s)
  | some path => do
      match ← namei s.fs.disk s.fs.icache proc.cwd path with
      | (none, c) => .ok (-1, s.setCache c)
      | (some k, c) => do
          let d ← c.ilock s.fs.disk k
          if d.type ≠ .dir then .ok (-1, (s.setCache c).iput k)
          else .ok (0, ((s.setCache c).iput proc.cwd).setProc p { proc with cwd := k })

/-- The common body of `sys_mkdir` and `sys_mknod`. -/
def State.make (s : State) (p addr : ℕ) (type : FileType) (major : ℕ) :
    Except Halt (ℤ × State) :=
  match (s.proc p).fetchstr addr with
  | none => .ok (-1, s)
  | some path => do
      match ← s.fs.create (s.proc p).cwd path type major 0 with
      | (none, fs) => .ok (-1, { s with fs := fs })
      | (some k, fs) => .ok (0, { s with fs := fs }.iput k)

/-- `sys_mkdir`. -/
def sysMkdir (s : State) (p addr : ℕ) : Except Halt (ℤ × State) := s.make p addr .dir 0

/-- `sys_mknod`. -/
def sysMknod (s : State) (p addr major : ℕ) : Except Halt (ℤ × State) := s.make p addr .dev major

/-- One turn of the loop of `fork` over the descriptors, for the child in slot `q`. -/
def State.dupFd (p q : ℕ) (s : State) (fd : ℕ) : Except Halt State :=
  match (s.proc p).ofile fd with
  | none => .ok s
  | some f => (s.setFd q fd (some f)).filedup f

/-- `fork`, if there is a slot: the child is of the host, whatever container its parent is in. -/
def fork (s : State) (p : ℕ) : Except Halt State :=
  match (List.range NPROC).find? fun q => (s.proc q).inUse = false with
  | none => .ok s
  | some q => do
      let s ← (List.range NOFILE).foldlM (dupFd p q) s
      let s := s.setCache (s.fs.icache.idup (s.proc p).cwd)
      .ok ({ s with nextpid := s.nextpid + 1 }.setProc q
        { s.proc p with
          pid := s.nextpid, containerId := 0, ofile := (s.proc q).ofile, inUse := true })

/-- One turn of the loop of `exit` over the descriptors. -/
def State.closeFd (p : ℕ) (s : State) (fd : ℕ) : Except Halt State :=
  match (s.proc p).ofile fd with
  | none => .ok s
  | some f => (s.setFd p fd none).fileclose f

/-- `exit`.  The slot keeps its container id. -/
def exit (s : State) (p : ℕ) : Except Halt State :=
  if p = 0 then .error (.panic "init exiting")
  else do
    let s ← (List.range NOFILE).foldlM (closeFd p) s
    .ok ((s.iput (s.proc p).cwd).setProc p { s.proc p with inUse := false, pid := 0 })

/-! ### Containers -/

/-- `sys_create_container`. -/
def sysCreateContainer (s : State) : ℤ × State :=
  (s.containers.getContainer.1, { s with containers := s.containers.getContainer.2 })

/-- `sys_destroy_container`.  Another slot with that id, in use or not, makes `kill` take a
lock that is held; a caller with that id is killed and exits when the call returns. -/
def sysDestroyContainer (s : State) (p a : ℕ) : Except Halt State := do
  let containers ← s.containers.destroyContainerKernel a
  let s := { s with containers := containers }
  if (List.range NPROC).any fun q =>
      (s.proc q).containerId = a ∧ (s.proc q).pid ≠ (s.proc p).pid then .error (.panic "acquire")
  else if (s.proc p).containerId = a then exit s p
  else .ok s

/-- `sys_join_container`. -/
def sysJoinContainer (s : State) (p cid : ℕ) : Except Halt (ℤ × State) := do
  let (stat, containers) ← s.containers.setProcessToContainer (s.proc p).pid cid
  .ok (stat, { s with containers := containers }.setProc p { s.proc p with containerId := cid })

/-- `sys_leave_container`. -/
def sysLeaveContainer (s : State) (p : ℕ) : Except Halt (ℤ × State) :=
  if (s.proc p).containerId = 0 then .ok (-1, s)
  else do
    let (stat, containers) ←
      s.containers.removeProcessFromContainer (s.proc p).pid (s.proc p).containerId
    .ok (stat, { s with containers := containers }.setProc p { s.proc p with containerId := 0 })

/-- `get_space_in_container`, with the page or `0`.  Behind the last entry of the array lies
the counter itself. -/
def State.getSpaceInContainer (s : State) (cid : ℕ) : Except Halt (ℕ × State) :=
  let i := (s.containers.container cid).lastSpace
  let (page, s) := s.kalloc
  let page := page.getD 0
  if i < NCENTRY then
    .ok (page, { s with
      spaceMapping := update s.spaceMapping cid
        (update (s.spaceMapping cid) i page)
      containers := s.containers.modify cid fun c => { c with lastSpace := i + 1 } })
  else if i = NCENTRY then
    .ok (page,
      { s with containers := s.containers.modify cid fun c => { c with lastSpace := page + 1 } })
  else .error .wild

/-- `sys_container_malloc`. -/
def sysContainerMalloc (s : State) (p : ℕ) (units : ℤ) : Except Halt (ℤ × State) :=
  if units < PGSIZE then do
    let (page, s) ← s.getSpaceInContainer (s.proc p).containerId
    .ok (page, s)
  else .ok (-1, s)

/-- `sys_get_file_container_id`.  The name is copied to a page and cut there, but it is the
whole name that is looked for. -/
def sysGetFileContainerId (s : State) (p addr : ℕ) : Except Halt (ℤ × State) :=
  match (s.proc p).fetchstr addr with
  | none => .ok (-1, s)
  | some path => do
      let s ← s.scratch 1
      if path.length < 2 ∨ PGSIZE ≤ path.length then .error .wild
      else if inInitialFiles path then .ok (0, s)
      else do
        let found ← (s.proc p).fileInContainer (s.fileTable 0) path 0
        let s ← s.scratch 1
        .ok (if found then 0 else -1, s)

/-! ### Steps -/

/-- What a process can do. -/
inductive Call where
  | open (addr omode : ℕ)
  | read (fd : ℤ) (buf n : ℕ)
  | write (fd : ℤ) (buf n : ℕ)
  | close (fd : ℤ)
  | dup (fd : ℤ)
  | pipe (addr : ℕ)
  | chdir (addr : ℕ)
  | mkdir (addr : ℕ)
  | mknod (addr major : ℕ)
  | fork
  | exit
  | createContainer
  | destroyContainer (cid : ℕ)
  | joinContainer (cid : ℕ)
  | leaveContainer
  | containerMalloc (units : ℤ)
  | getFileContainerId (addr : ℕ)
  /-- Any change of the process's own memory, by its own code, `sbrk` or `exec`. -/
  | compute (mem : ℕ → Char) (sz : ℕ)

/-- The state after a call by the process in slot `p`. -/
def exec (s : State) (p : ℕ) : Call → Except Halt State
  | .open addr omode => (sysOpen s p addr omode).map Prod.snd
  | .read fd buf n => (sysRead s p fd buf n).map Prod.snd
  | .write fd buf n => (sysWrite s p fd buf n).map Prod.snd
  | .close fd => (sysClose s p fd).map Prod.snd
  | .dup fd => (sysDup s p fd).map Prod.snd
  | .pipe addr => (sysPipe s p addr).map Prod.snd
  | .chdir addr => (sysChdir s p addr).map Prod.snd
  | .mkdir addr => (sysMkdir s p addr).map Prod.snd
  | .mknod addr major => (sysMknod s p addr major).map Prod.snd
  | .fork => fork s p
  | .exit => exit s p
  | .createContainer => .ok (sysCreateContainer s).2
  | .destroyContainer cid => sysDestroyContainer s p cid
  | .joinContainer cid => (sysJoinContainer s p cid).map Prod.snd
  | .leaveContainer => (sysLeaveContainer s p).map Prod.snd
  | .containerMalloc units => (sysContainerMalloc s p units).map Prod.snd
  | .getFileContainerId addr => (sysGetFileContainerId s p addr).map Prod.snd
  | .compute mem sz => .ok (s.setProc p { s.proc p with mem := mem, sz := sz })

/-- The state in which the first process starts, in the root directory of a disk. -/
def boot (disk : Disk) (ninodes : ℕ) (freelist : List ℕ) (console : List Char) : State where
  fs := ⟨ninodes, disk, ⟨update (fun _ => {}) 0 { inum := ROOTINO, ref := 1 }⟩⟩
  file _ := {}
  pipe _ := {}
  proc := update (fun _ => {}) 0 { inUse := true, pid := 1 }
  nextpid := 2
  containers := Kernel.ContainerTable.containerInit
  spaceMapping _ _ := 0
  filesOfContainer _ _ := 0
  freelist := freelist
  console := console

/-- A disk with one file of two bytes in its root directory. -/
def smallDisk : Disk
  | 1 => { type := .dir, entries := [⟨1, ['.']⟩, ⟨1, ['.', '.']⟩, ⟨2, "README".toList⟩] }
  | 2 => { type := .file, data := ['h', 'i'] }
  | _ => {}

/-- The start on that disk. -/
def smallBoot : State := boot smallDisk 200 (List.range 64) []

/-- A call that puts a string at address `2` of the caller's memory. -/
def Call.name (name : Name) : Call := .compute (fun a => (NUL :: NUL :: name).getD a NUL) PGSIZE

/-- A call by a process. -/
structure Event where
  p : ℕ
  call : Call

/-- One step of the system: a call by a process that exists. -/
def step (s : State) (e : Event) : Option State :=
  if e.p < NPROC ∧ (s.proc e.p).inUse then (exec s e.p e.call).toOption else none

end Files
end Xv6
