/-
# Open files

The file table (`xv6/file.c`, lines 25-155) with the pipes behind it
(`xv6/pipe.c`), and the state on which the file calls and the container calls
work.  A page is its address; `kalloc` takes the first one of the free list.

`struct file` keeps the fields of its last use: `filealloc` sets the reference
count alone, and `fileclose` clears the count and the type.

A read of a pipe or of the console that finds nothing sleeps, and so does a
write to a full pipe; with one call a step such a call has no successor.
-/

import Xv6.Files.Inode
import Xv6.Kernel.ContainerTable

namespace Xv6
namespace Files

open Function

/-- `type` of an open file. -/
inductive FdType where
  | none
  | pipe
  | inode
  deriving DecidableEq, Repr

/-- `struct file`, free when `ref` is `0`.  `openedIn` is not in the source: it is the
container of the process that opened the file. -/
structure File where
  type : FdType := .none
  ref : ℕ := 0
  readable : Bool := false
  writable : Bool := false
  pipe : ℕ := 0
  ip : Option ℕ := none
  off : ℕ := 0
  openedIn : ℕ := 0
  deriving DecidableEq, Repr

/-- `struct pipe`, with the bytes written and not yet read. -/
structure Pipe where
  data : List Char := []
  readopen : Bool := false
  writeopen : Bool := false
  deriving DecidableEq, Repr

/-- Most bytes in a pipe. -/
def PIPESIZE : ℕ := 512

/-- What the calls read and change.  The two arrays of `struct container` are by container
and index; pipes are by the page they are in. -/
structure State where
  fs : FileSys
  file : ℕ → File
  pipe : ℕ → Pipe
  proc : ℕ → Proc
  nextpid : ℕ
  containers : Kernel.ContainerTable
  spaceMapping : ℕ → ℕ → ℕ
  filesOfContainer : ℕ → ℕ → ℕ
  freelist : List ℕ
  console : List Char

namespace State

/-- The state with another inode cache. -/
def setCache (s : State) (c : ICache) : State := { s with fs := { s.fs with icache := c } }

/-- The state with an entry of the file table replaced. -/
def setFile (s : State) (f : ℕ) (file : File) : State :=
  { s with file := update s.file f file }

/-- The state with a process replaced. -/
def setProc (s : State) (p : ℕ) (proc : Proc) : State :=
  { s with proc := update s.proc p proc }

/-- The state with a pipe replaced. -/
def setPipe (s : State) (page : ℕ) (pipe : Pipe) : State :=
  { s with pipe := update s.pipe page pipe }

/-- The state with a descriptor of a process replaced. -/
def setFd (s : State) (p fd : ℕ) (f : Option ℕ) : State :=
  s.setProc p { s.proc p with ofile := update (s.proc p).ofile fd f }

/-- `iput`. -/
def iput (s : State) (k : ℕ) : State := s.setCache (s.fs.icache.iput k)

/-- `kalloc`. -/
def kalloc (s : State) : Option ℕ × State :=
  match s.freelist with
  | [] => (none, s)
  | page :: rest => (some page, { s with freelist := rest })

/-- `kfree`. -/
def kfree (s : State) (page : ℕ) : State := { s with freelist := page :: s.freelist }

/-- `kalloc`, `n` times, for buffers that are written to at once and never given back. -/
def scratch (s : State) (n : ℕ) : Except Halt State :=
  if s.freelist.length < n then .error .wild else .ok { s with freelist := s.freelist.drop n }

/-- `filealloc`: the first free entry of the file table. -/
def filealloc (s : State) : Option ℕ := (List.range NFILE).find? fun f => (s.file f).ref = 0

/-- `fdalloc`: the first free descriptor of a process. -/
def fdalloc (s : State) (p : ℕ) : Option ℕ :=
  (List.range NOFILE).find? fun fd => ((s.proc p).ofile fd).isNone

/-- `filealloc` and then `fdalloc`, with the entry closed again if there is no descriptor. -/
def fileFd (s : State) (p : ℕ) : Option (ℕ × ℕ) × State :=
  match s.filealloc with
  | none => (none, s)
  | some f =>
      match s.fdalloc p with
      | none => (none, s.setFile f { s.file f with type := .none })
      | some fd => (some (fd, f), (s.setFile f { s.file f with ref := 1 }).setFd p fd (some f))

/-- `pipeclose`: the page goes back with the second end. -/
def pipeclose (s : State) (page : ℕ) (writable : Bool) : State :=
  let pipe :=
    if writable then { s.pipe page with writeopen := false }
    else { s.pipe page with readopen := false }
  let s := s.setPipe page pipe
  if pipe.readopen = false ∧ pipe.writeopen = false then s.kfree page else s

/-- `fileclose`. -/
def fileclose (s : State) (f : ℕ) : Except Halt State :=
  let ff := s.file f
  if ff.ref < 1 then .error (.panic "fileclose")
  else if 1 < ff.ref then .ok (s.setFile f { ff with ref := ff.ref - 1 })
  else
    let s := s.setFile f { ff with ref := 0, type := .none }
    match ff.type, ff.ip with
    | .pipe, _ => .ok (s.pipeclose ff.pipe ff.writable)
    | .inode, some k => .ok (s.iput k)
    | _, _ => .ok s

/-- `filedup`. -/
def filedup (s : State) (f : ℕ) : Except Halt State :=
  if (s.file f).ref < 1 then .error (.panic "filedup")
  else .ok (s.setFile f { s.file f with ref := (s.file f).ref + 1 })

/-- The file's offset after `n` more bytes. -/
def advance (s : State) (f n : ℕ) : State :=
  s.setFile f { s.file f with off := (s.file f).off + n }

/-- `piperead`. -/
def piperead (s : State) (page n : ℕ) : Except Halt (ℤ × List Char × State) :=
  let pipe := s.pipe page
  if pipe.data = [] ∧ pipe.writeopen then .error .asleep
  else
    let bytes := pipe.data.take n
    .ok (bytes.length, bytes, s.setPipe page { pipe with data := pipe.data.drop n })

/-- `pipewrite`.  What fits before the reader is found gone stays written. -/
def pipewrite (s : State) (page : ℕ) (src : List Char) : Except Halt (ℤ × State) :=
  let pipe := s.pipe page
  let room := PIPESIZE - pipe.data.length
  if src.length ≤ room then
    .ok (src.length, s.setPipe page { pipe with data := pipe.data ++ src })
  else if pipe.readopen then .error .asleep
  else .ok (-1, s.setPipe page { pipe with data := pipe.data ++ src.take room })

end State

/-- `consoleread` of `n` bytes from the input typed so far: up to a newline, or to the
end-of-file character, which is left for the next read unless it comes first. -/
def consoleread (first : Bool) : ℕ → List Char → Except Halt (List Char × List Char)
  | 0, input => .ok ([], input)
  | _ + 1, [] => .error .asleep
  | n + 1, c :: input =>
      if c = Char.ofNat 4 then .ok ([], if first then input else c :: input)
      else if c = '\n' then .ok ([c], input)
      else do
        let (bytes, rest) ← consoleread false n input
        .ok (c :: bytes, rest)

/-- The only device that `devsw` has functions for. -/
def CONSOLE : ℕ := 1

namespace State

/-- `fileread`, with the bytes read. -/
def fileread (s : State) (f n : ℕ) : Except Halt (ℤ × List Char × State) :=
  let ff := s.file f
  if ff.readable = false then .ok (-1, [], s)
  else
    match ff.type, ff.ip with
    | .pipe, _ => s.piperead ff.pipe n
    | .inode, some k => do
        let d ← s.fs.icache.ilock s.fs.disk k
        if d.type = .dev then
          if d.major ≠ CONSOLE then .ok (-1, [], s)
          else
            let (bytes, rest) ← consoleread true n s.console
            .ok (bytes.length, bytes, { s with console := rest }.advance f bytes.length)
        else
          match readi d ff.off n with
          | none => .ok (-1, [], s)
          | some bytes => .ok (bytes.length, bytes, s.advance f bytes.length)
    | _, _ => .error (.panic "fileread")

/-- A call of `writei` by `filewrite`, and the new offset. -/
def writeChunk (s : State) (f k : ℕ) (src : List Char) : Option State :=
  let inum := (s.fs.icache.inode k).inum
  let d := s.fs.disk inum
  if d.type = .dev then
    if d.major ≠ CONSOLE then none else some (s.advance f src.length)
  else
    (writei d (s.file f).off src).map fun d =>
      { s with fs := { s.fs with disk := update s.fs.disk inum d } }.advance f src.length

/-- Most bytes `filewrite` hands to `writei` at a time. -/
def CHUNK : ℕ := (MAXOPBLOCKS - 1 - 1 - 2) / 2 * 512

/-- The loop of `filewrite`, with as many turns as there are bytes at most, and whether all
of them were written. -/
def filewriteLoop : ℕ → State → ℕ → ℕ → List Char → Except Halt (Bool × State)
  | 0, s, _, _, src => .ok (src.isEmpty, s)
  | turns + 1, s, f, k, src =>
      if src = [] then .ok (true, s)
      else do
        let _ ← s.fs.icache.ilock s.fs.disk k
        match s.writeChunk f k (src.take CHUNK) with
        | none => .ok (false, s)
        | some s => filewriteLoop turns s f k (src.drop CHUNK)

/-- `filewrite`. -/
def filewrite (s : State) (f : ℕ) (src : List Char) : Except Halt (ℤ × State) :=
  let ff := s.file f
  if ff.writable = false then .ok (-1, s)
  else
    match ff.type, ff.ip with
    | .pipe, _ => s.pipewrite ff.pipe src
    | .inode, some k => do
        let (done, s) ← filewriteLoop src.length s f k src
        .ok (if done then src.length else -1, s)
    | _, _ => .error (.panic "filewrite")

end State

end Files
end Xv6
