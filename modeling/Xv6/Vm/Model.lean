/-
# Page tables

`xv6/vm.c`, lines 35-136, 221-298 and 315-345, with `kalloc` and `kfree`
(`xv6/kalloc.c`, lines 59-95): page directories, the page tables they lead to and
the pages that these map.  Pages are named by their physical addresses (`P2V` and
`V2P` shift them), and an entry without `PTE_P` is `none`.

Of the contents of a page only its reading as a table matters.  The free list is a
list; the link to the next free page that `kfree` writes into the first word of a
page is there as an entry without `PTE_P`.
-/

import Xv6.Param

namespace Xv6
namespace Vm

open Function

def PGSIZE : ℕ := 4096

/-- Irreducible, so that no proof unfolds a list of that length. -/
@[irreducible] def NPDENTRIES : ℕ := 1024

def NPTENTRIES : ℕ := 1024
def EXTMEM : ℕ := 0x100000
def PHYSTOP : ℕ := 0xE000000
def DEVSPACE : ℕ := 0xFE000000
def KERNBASE : ℕ := 0x80000000
def KERNLINK : ℕ := KERNBASE + EXTMEM

/-- Page directory index. -/
def PDX (va : ℕ) : ℕ := va / 2 ^ 22 % NPDENTRIES

/-- Page table index. -/
def PTX (va : ℕ) : ℕ := va / 2 ^ 12 % NPTENTRIES

/-- `PGROUNDUP`, in which the sum of an `uint` may wrap. -/
def PGROUNDUP (sz : ℕ) : ℕ := (sz + (PGSIZE - 1)) % 2 ^ 32 / PGSIZE * PGSIZE

/-- `PGROUNDDOWN`. -/
def PGROUNDDOWN (a : ℕ) : ℕ := a / PGSIZE * PGSIZE

/-- `PTE_W` and `PTE_U`. -/
structure Flags where
  w : Bool
  u : Bool
deriving DecidableEq

/-- An entry with `PTE_P`. -/
structure Pte where
  addr : ℕ
  flags : Flags
deriving DecidableEq

/-- Where the linker puts the kernel: `V2P(data)`, at the start of a page after the text, and
`V2P(end)`. -/
structure Machine where
  data : ℕ
  kend : ℕ
  data_aligned : PGSIZE ∣ data
  text_lt : EXTMEM < data
  data_lt : data < kend
  kend_lt : kend < PHYSTOP

/-- Physical memory.  `fails` says which of the next calls of `kalloc` find no page, for the
rest of the kernel took it.  No function reads `twice`: a page on the free list was freed. -/
structure Memory where
  free : List ℕ
  tab : ℕ → ℕ → Option Pte
  fails : List Bool
  twice : Bool

namespace Memory

/-- `kalloc`, which the head of `fails` may make fail. -/
def kalloc (s : Memory) : Option ℕ × Memory :=
  if s.fails.head? = some true then (none, { s with fails := s.fails.tail })
  else
    match s.free with
    | [] => (none, { s with fails := s.fails.tail })
    | p :: free => (some p, { s with free := free, fails := s.fails.tail })

/-- A page filled with ones, and the link to the next free page. -/
def junk (i : ℕ) : Option Pte := if i = 0 then none else some ⟨0x01010000, ⟨false, false⟩⟩

/-- `kfree`, with its panic for what is no page of the machine. -/
def kfree (s : Memory) (m : Machine) (pa : ℕ) : Except Halt Memory :=
  if pa % PGSIZE ≠ 0 ∨ pa < m.kend ∨ PHYSTOP ≤ pa then .error (.panic "kfree")
  else .ok { s with
    free := pa :: s.free
    tab := update s.tab pa junk
    twice := s.twice || decide (pa ∈ s.free) }

/-- `memset(page, 0, PGSIZE)`. -/
def zero (s : Memory) (page : ℕ) : Memory :=
  { s with tab := update s.tab page fun _ => none }

/-- `memmove(page, from, PGSIZE)`. -/
def move (s : Memory) (page src : ℕ) : Memory :=
  { s with tab := update s.tab page (s.tab src) }

/-- Entry `i` of a table is written. -/
def put (s : Memory) (page i : ℕ) (e : Option Pte) : Memory :=
  { s with tab := update s.tab page (update (s.tab page) i e) }

/-- `walkpgdir`: the page table with the entry for `va`, which is entry `PTX va` of it. -/
def walkpgdir (s : Memory) (pgdir va : ℕ) (alloc : Bool) : Option ℕ × Memory :=
  match s.tab pgdir (PDX va) with
  | some pde => (some pde.addr, s)
  | none =>
    if alloc then
      match s.kalloc with
      | (none, s) => (none, s)
      | (some pgtab, s) =>
        (some pgtab, (s.zero pgtab).put pgdir (PDX va) (some ⟨pgtab, ⟨true, true⟩⟩))
    else (none, s)

/-- The body of the loop of `mappages`; `false` if there is no page for a table. -/
def mapPage (s : Memory) (pgdir a pa : ℕ) (perm : Flags) : Except Halt (Bool × Memory) :=
  match s.walkpgdir pgdir a true with
  | (none, s) => .ok (false, s)
  | (some pgtab, s) =>
    if (s.tab pgtab (PTX a)).isSome then .error (.panic "remap")
    else .ok (true, s.put pgtab (PTX a) (some ⟨pa, perm⟩))

/-- The loop of `mappages`, which ends when `a` is `last`, `n` pages further on. -/
def mapLoop (pgdir : ℕ) (perm : Flags) : ℕ → ℕ → ℕ → Memory → Except Halt (Bool × Memory)
  | 0, a, pa, s => s.mapPage pgdir a pa perm
  | n + 1, a, pa, s => do
    let (ok, s) ← s.mapPage pgdir a pa perm
    if ok then mapLoop pgdir perm n ((a + PGSIZE) % 2 ^ 32) ((pa + PGSIZE) % 2 ^ 32) s
    else .ok (false, s)

/-- `mappages`. -/
def mappages (s : Memory) (pgdir va size pa : ℕ) (perm : Flags) : Except Halt (Bool × Memory) :=
  let a := PGROUNDDOWN va
  let last := PGROUNDDOWN ((va + size - 1) % 2 ^ 32)
  mapLoop pgdir perm ((last + 2 ^ 32 - a) % 2 ^ 32 / PGSIZE) a pa s

/-! ### Freeing -/

/-- The loop of `deallocuvm`, which goes on at least a page each time. -/
def deallocLoop (m : Machine) (pgdir oldsz : ℕ) : ℕ → ℕ → Memory → Except Halt Memory
  | 0, _, s => .ok s
  | n + 1, a, s =>
    if a < oldsz then
      match s.walkpgdir pgdir a false with
      | (none, s) => deallocLoop m pgdir oldsz n ((PDX a + 1) * 2 ^ 22 % 2 ^ 32) s
      | (some pgtab, s) =>
        match s.tab pgtab (PTX a) with
        | none => deallocLoop m pgdir oldsz n (a + PGSIZE) s
        | some pte =>
          if pte.addr = 0 then .error (.panic "kfree")
          else do
            let s ← s.kfree m pte.addr
            deallocLoop m pgdir oldsz n (a + PGSIZE) (s.put pgtab (PTX a) none)
    else .ok s

/-- `deallocuvm`. -/
def deallocuvm (s : Memory) (m : Machine) (pgdir oldsz newsz : ℕ) : Except Halt (ℕ × Memory) :=
  if oldsz ≤ newsz then .ok (oldsz, s)
  else do
    let s ← deallocLoop m pgdir oldsz (oldsz / PGSIZE + 1) (PGROUNDUP newsz) s
    .ok (newsz, s)

/-- The body of the loop of `freevm`. -/
def freeTable (m : Machine) (pgdir : ℕ) (s : Memory) (i : ℕ) : Except Halt Memory :=
  match s.tab pgdir i with
  | some pde => s.kfree m pde.addr
  | none => .ok s

/-- `freevm`: the user pages, the tables and the directory. -/
def freevm (s : Memory) (m : Machine) (pgdir : ℕ) : Except Halt Memory :=
  if pgdir = 0 then .error (.panic "freevm: no pgdir")
  else do
    let (_, s) ← s.deallocuvm m pgdir KERNBASE 0
    let s ← (List.range NPDENTRIES).foldlM (freeTable m pgdir) s
    s.kfree m pgdir

/-! ### The kernel's part -/

/-- A line of `kmap`. -/
structure Kmap where
  virt : ℕ
  phys_start : ℕ
  phys_end : ℕ
  perm : Flags

/-- `kmap`. -/
def kmap (m : Machine) : List Kmap :=
  [⟨KERNBASE, 0, EXTMEM, ⟨true, false⟩⟩,
   ⟨KERNLINK, KERNLINK - KERNBASE, m.data, ⟨false, false⟩⟩,
   ⟨KERNBASE + m.data, m.data, PHYSTOP, ⟨true, false⟩⟩,
   ⟨DEVSPACE, DEVSPACE, 0, ⟨true, false⟩⟩]

/-- The loop of `setupkvm`. -/
def mapKernel (pgdir : ℕ) : List Kmap → Memory → Except Halt (Bool × Memory)
  | [], s => .ok (true, s)
  | k :: ks, s => do
    let (ok, s) ← s.mappages pgdir k.virt ((k.phys_end + 2 ^ 32 - k.phys_start) % 2 ^ 32)
      k.phys_start k.perm
    if ok then mapKernel pgdir ks s else .ok (false, s)

/-- `setupkvm`: a directory with the kernel's part, or none. -/
def setupkvm (s : Memory) (m : Machine) : Except Halt (Option ℕ × Memory) :=
  match s.kalloc with
  | (none, s) => .ok (none, s)
  | (some pgdir, s) =>
    if DEVSPACE < KERNBASE + PHYSTOP then .error (.panic "PHYSTOP too high")
    else do
      let (ok, s) ← mapKernel pgdir (kmap m) (s.zero pgdir)
      if ok then .ok (some pgdir, s)
      else do
        let s ← s.freevm m pgdir
        .ok (none, s)

/-! ### The user's part -/

/-- The loop of `allocuvm`; `false` if there is no page. -/
def allocLoop (m : Machine) (pgdir oldsz newsz : ℕ) :
    ℕ → ℕ → Memory → Except Halt (Bool × Memory)
  | 0, _, s => .ok (true, s)
  | n + 1, a, s =>
    if a < newsz then
      match s.kalloc with
      | (none, s) => do
        let (_, s) ← s.deallocuvm m pgdir newsz oldsz
        .ok (false, s)
      | (some mem, s) => do
        let (ok, s) ← (s.zero mem).mappages pgdir a PGSIZE mem ⟨true, true⟩
        if ok then allocLoop m pgdir oldsz newsz n (a + PGSIZE) s
        else do
          let (_, s) ← s.deallocuvm m pgdir newsz oldsz
          let s ← s.kfree m mem
          .ok (false, s)
    else .ok (true, s)

/-- `allocuvm`, which gives back what it took when a page is missing. -/
def allocuvm (s : Memory) (m : Machine) (pgdir oldsz newsz : ℕ) : Except Halt (ℕ × Memory) :=
  if KERNBASE ≤ newsz then .ok (0, s)
  else if newsz < oldsz then .ok (oldsz, s)
  else do
    let (ok, s) ← allocLoop m pgdir oldsz newsz (newsz / PGSIZE + 1) (PGROUNDUP oldsz) s
    .ok (if ok then newsz else 0, s)

/-- The loop of `copyuvm`; `false` if there is no page. -/
def copyLoop (m : Machine) (pgdir d sz : ℕ) : ℕ → ℕ → Memory → Except Halt (Bool × Memory)
  | 0, _, s => .ok (true, s)
  | n + 1, i, s =>
    if i < sz then
      match s.walkpgdir pgdir i false with
      | (none, _) => .error (.panic "copyuvm: pte should exist")
      | (some pgtab, s) =>
        match s.tab pgtab (PTX i) with
        | none => .error (.panic "copyuvm: page not present")
        | some pte =>
          match s.kalloc with
          | (none, s) => .ok (false, s)
          | (some mem, s) => do
            let (ok, s) ← (s.move mem pte.addr).mappages d i PGSIZE mem pte.flags
            if ok then copyLoop m pgdir d sz n (i + PGSIZE) s
            else do
              let s ← s.kfree m mem
              .ok (false, s)
    else .ok (true, s)

/-- `copyuvm`. -/
def copyuvm (s : Memory) (m : Machine) (pgdir sz : ℕ) : Except Halt (Option ℕ × Memory) := do
  let (d, s) ← s.setupkvm m
  match d with
  | none => .ok (none, s)
  | some d => do
    let (ok, s) ← copyLoop m pgdir d sz (sz / PGSIZE + 1) 0 s
    if ok then .ok (some d, s)
    else do
      let s ← s.freevm m d
      .ok (none, s)

end Memory

/-! ### Runs -/

/-- The pages that `freerange` frees. -/
def Machine.pages (m : Machine) : List ℕ :=
  (List.range ((PHYSTOP - PGROUNDUP m.kend) / PGSIZE)).map fun i => PGROUNDUP m.kend + i * PGSIZE

/-- Memory, the page directories in use, and the size of the user part of each. -/
structure State where
  mem : Memory
  dirs : List ℕ
  sz : ℕ → ℕ

/-- After `kinit1` and `kinit2` every page is free. -/
def boot (m : Machine) (tab : ℕ → ℕ → Option Pte) : State where
  mem := ⟨m.pages.reverse, tab, [], false⟩
  dirs := []
  sz _ := 0

/-- A call of the layer; `fails` is the calls of `kalloc` that fail during it. -/
inductive Call where
  | setupkvm (fails : List Bool)
  | allocuvm (pgdir oldsz newsz : ℕ) (fails : List Bool)
  | deallocuvm (pgdir oldsz newsz : ℕ)
  | copyuvm (pgdir sz : ℕ) (fails : List Bool)
  | freevm (pgdir : ℕ)

/-- A call on one of the directories of the state. -/
def exec (m : Machine) (s : State) : Call → Except Halt State
  | .setupkvm fails => do
    let (d, mem) ← { s.mem with fails := fails }.setupkvm m
    match d with
    | none => .ok { s with mem := mem }
    | some d => .ok { mem := mem, dirs := d :: s.dirs, sz := update s.sz d 0 }
  | .allocuvm pgdir oldsz newsz fails => do
    let (sz, mem) ← { s.mem with fails := fails }.allocuvm m pgdir oldsz newsz
    -- a caller that gets 0 keeps the old size
    .ok { s with mem := mem, sz := if sz = 0 then s.sz else update s.sz pgdir sz }
  | .deallocuvm pgdir oldsz newsz => do
    let (sz, mem) ← s.mem.deallocuvm m pgdir oldsz newsz
    .ok { s with mem := mem, sz := update s.sz pgdir sz }
  | .copyuvm pgdir sz fails => do
    let (d, mem) ← { s.mem with fails := fails }.copyuvm m pgdir sz
    match d with
    | none => .ok { s with mem := mem }
    | some d => .ok { mem := mem, dirs := d :: s.dirs, sz := update s.sz d sz }
  | .freevm pgdir => do
    let mem ← s.mem.freevm m pgdir
    .ok { s with mem := mem, dirs := s.dirs.erase pgdir }

/-- A size that rounds to the one whose pages are mapped. -/
def State.Sized (s : State) (pgdir sz : ℕ) : Prop :=
  pgdir ∈ s.dirs ∧ sz ≤ KERNBASE ∧ PGROUNDUP sz = PGROUNDUP (s.sz pgdir)

/-- The directory is in use and its size is the one that is mapped. -/
def Allowed (s : State) : Call → Prop
  | .setupkvm _ => True
  | .allocuvm pgdir oldsz newsz _ => s.Sized pgdir oldsz ∧ newsz < 2 ^ 32
  | .deallocuvm pgdir oldsz newsz => s.Sized pgdir oldsz ∧ newsz < 2 ^ 32
  | .copyuvm pgdir sz _ => s.Sized pgdir sz
  | .freevm pgdir => pgdir ∈ s.dirs

/-- A call that returns. -/
def step (m : Machine) (s : State) (c : Call) : Option State := (exec m s c).toOption

end Vm
end Xv6
