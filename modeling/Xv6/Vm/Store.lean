/-
# Pages and their bytes

The functions of `Xv6.Vm.Model` once more, for memory of which the bytes of each page
are known: `kalloc` and `kfree` (`xv6/kalloc.c`, lines 59-95), `walkpgdir`, `mappages`,
`deallocuvm` and `allocuvm` (`xv6/vm.c`, lines 35-83 and 219-279), and `growproc`
(`xv6/proc.c`, lines 235-254) over them.  A `Store` is a `Memory` with the bytes, and
its tables are what the words of the pages say (`reads`), so there is no store of
which the two disagree.

Without its bytes a store does what a `Memory` does: each function comes with that
equation.
-/

import Xv6.Vm.Ram

namespace Xv6
namespace Vm

open Lib Function

/-- Memory with the bytes of its pages. -/
structure Store extends Memory where
  data : ℕ → ℕ → Byte
  free_page : ∀ p ∈ free, PGSIZE ∣ p ∧ p < PHYSTOP
  reads : ∀ page, ∀ i < 1024, tab page i = Pte.ofWord (getLE (data page) (4 * i) 4)

/-- `pa | perm | PTE_P`, for the start of a page. -/
def Pte.toWord (pa : ℕ) (perm : Flags) : ℕ :=
  pa + (if perm.u then 4 else 0) + (if perm.w then 2 else 0) + 1

theorem Pte.ofWord_toWord {pa : ℕ} (hpage : PGSIZE ∣ pa) (hlt : pa < 2 ^ 32) (perm : Flags) :
    Pte.ofWord (Pte.toWord pa perm % 256 ^ 4) = some ⟨pa, perm⟩ := by
  obtain ⟨b, rfl⟩ := hpage
  obtain ⟨w, u⟩ := perm
  have hfit : Pte.toWord (PGSIZE * b) ⟨w, u⟩ < 256 ^ 4 := by
    unfold Pte.toWord
    unfold PGSIZE at *
    dsimp only
    split <;> split <;> omega
  rw [Nat.mod_eq_of_lt hfit]
  unfold Pte.ofWord Pte.toWord
  unfold PGSIZE at *
  cases w <;> cases u <;> simp only [Bool.false_eq_true, if_true, if_false] <;>
    rw [if_pos (by omega)] <;> simp <;> omega

namespace Store

/-! ### Pages -/

/-- `kalloc`. -/
def kalloc (st : Store) : Option ℕ × Store :=
  if st.fails.head? = some true then (none, { st with fails := st.fails.tail })
  else
    match st.free.head? with
    | none => (none, { st with fails := st.fails.tail })
    | some p =>
      (some p, { st with
        free := st.free.tail
        fails := st.fails.tail
        free_page := fun q hq => st.free_page q (List.mem_of_mem_tail hq) })

/-- The pointer to the first free page. -/
def freelist (st : Store) : ℕ := (st.free.head?.map P2V).getD 0

/-- A page filled with ones, and the link to the next free page. -/
def junkBytes (link : ℕ) : ℕ → Byte := putLE (fun _ => 1) 0 4 link

end Store

theorem ofWord_junk {link i : ℕ} (hlink : link % 2 = 0) (hi : i < 1024) :
    Memory.junk i = Pte.ofWord (getLE (Store.junkBytes link) (4 * i) 4) := by
  unfold Memory.junk Store.junkBytes
  split
  next h0 =>
    subst h0
    rw [Nat.mul_zero, getLE_putLE]
    unfold Pte.ofWord
    rw [if_neg (by omega)]
  next h0 =>
    have hones : getLE (fun _ => 1) (4 * i) 4 = getLE (fun _ => 1) 0 4 :=
      getLE_congr fun _ _ => rfl
    rw [getLE_putLE_apart (by omega), hones]
    rfl

namespace Store

theorem freelist_even (st : Store) : st.freelist % 2 = 0 := by
  unfold freelist
  cases hfree : st.free.head? with
  | none => rfl
  | some p =>
    obtain ⟨⟨b, rfl⟩, -⟩ := st.free_page p (List.mem_of_mem_head? hfree)
    rw [Option.map_some, Option.getD_some]
    unfold P2V KERNBASE PGSIZE
    omega

/-- `kfree`. -/
def kfree (st : Store) (m : Machine) (pa : ℕ) : Except Halt Store :=
  if h : pa % PGSIZE ≠ 0 ∨ pa < m.kend ∨ PHYSTOP ≤ pa then .error (.panic "kfree")
  else .ok { st with
    free := pa :: st.free
    tab := update st.tab pa Memory.junk
    twice := st.twice || decide (pa ∈ st.free)
    data := update st.data pa (junkBytes st.freelist)
    free_page := by
      intro p hp
      rcases List.mem_cons.1 hp with rfl | hp
      · exact ⟨Nat.dvd_of_mod_eq_zero (by omega), by omega⟩
      · exact st.free_page p hp
    reads := by
      intro page i hi
      rcases eq_or_ne page pa with rfl | hne
      · rw [update_self, update_self]
        exact ofWord_junk st.freelist_even hi
      · rw [update_of_ne hne, update_of_ne hne]
        exact st.reads page i hi }

/-- `memset(page, 0, PGSIZE)`. -/
def zero (st : Store) (page : ℕ) : Store :=
  { st with
    tab := update st.tab page fun _ => none
    data := update st.data page fun _ => 0
    reads := by
      intro q i hi
      rcases eq_or_ne q page with rfl | hne
      · rw [update_self, update_self, getLE_zero fun _ _ => rfl]
        rfl
      · rw [update_of_ne hne, update_of_ne hne]
        exact st.reads q i hi }

/-- Word `i` of a page is written. -/
def put (st : Store) (page i w : ℕ) : Store :=
  { st with
    tab := update st.tab page
      (update (st.tab page) i (Pte.ofWord (w % 256 ^ 4)))
    data := update st.data page (putLE (st.data page) (4 * i) 4 w)
    reads := by
      intro q j hj
      rcases eq_or_ne q page with rfl | hne
      · rw [update_self, update_self]
        rcases eq_or_ne j i with rfl | hji
        · rw [update_self, getLE_putLE]
        · rw [update_of_ne hji, getLE_putLE_apart (by omega)]
          exact st.reads q j hj
      · rw [update_of_ne hne, update_of_ne hne]
        exact st.reads q j hj }

/-! ### Tables -/

/-- `walkpgdir`: the page table with the entry for `va`. -/
def walkpgdir (st : Store) (pgdir va : ℕ) (alloc : Bool) : Option ℕ × Store :=
  match st.tab pgdir (PDX va) with
  | some pde => (some pde.addr, st)
  | none =>
    if alloc then
      match st.kalloc with
      | (none, st) => (none, st)
      | (some pgtab, st) =>
        (some pgtab, (st.zero pgtab).put pgdir (PDX va) (Pte.toWord pgtab ⟨true, true⟩))
    else (none, st)

/-- The body of the loop of `mappages`; `false` if there is no page for a table. -/
def mapPage (st : Store) (pgdir a pa : ℕ) (perm : Flags) : Except Halt (Bool × Store) :=
  match st.walkpgdir pgdir a true with
  | (none, st) => .ok (false, st)
  | (some pgtab, st) =>
    if (st.tab pgtab (PTX a)).isSome then .error (.panic "remap")
    else .ok (true, st.put pgtab (PTX a) (Pte.toWord pa perm))

/-- The loop of `mappages`, which ends when `a` is `last`, `n` pages further on. -/
def mapLoop (pgdir : ℕ) (perm : Flags) : ℕ → ℕ → ℕ → Store → Except Halt (Bool × Store)
  | 0, a, pa, st => st.mapPage pgdir a pa perm
  | n + 1, a, pa, st => do
    let (ok, st) ← st.mapPage pgdir a pa perm
    if ok then mapLoop pgdir perm n ((a + PGSIZE) % 2 ^ 32) ((pa + PGSIZE) % 2 ^ 32) st
    else .ok (false, st)

/-- `mappages`. -/
def mappages (st : Store) (pgdir va size pa : ℕ) (perm : Flags) : Except Halt (Bool × Store) :=
  let a := PGROUNDDOWN va
  let last := PGROUNDDOWN ((va + size - 1) % 2 ^ 32)
  mapLoop pgdir perm ((last + 2 ^ 32 - a) % 2 ^ 32 / PGSIZE) a pa st

/-! ### The pages of a process -/

/-- The loop of `deallocuvm`, which goes on at least a page each time. -/
def deallocLoop (m : Machine) (pgdir oldsz : ℕ) : ℕ → ℕ → Store → Except Halt Store
  | 0, _, st => .ok st
  | n + 1, a, st =>
    if a < oldsz then
      match st.walkpgdir pgdir a false with
      | (none, st) => deallocLoop m pgdir oldsz n ((PDX a + 1) * 2 ^ 22 % 2 ^ 32) st
      | (some pgtab, st) =>
        match st.tab pgtab (PTX a) with
        | none => deallocLoop m pgdir oldsz n (a + PGSIZE) st
        | some pte =>
          if pte.addr = 0 then .error (.panic "kfree")
          else do
            let st ← st.kfree m pte.addr
            deallocLoop m pgdir oldsz n (a + PGSIZE) (st.put pgtab (PTX a) 0)
    else .ok st

/-- `deallocuvm`. -/
def deallocuvm (st : Store) (m : Machine) (pgdir oldsz newsz : ℕ) : Except Halt (ℕ × Store) :=
  if oldsz ≤ newsz then .ok (oldsz, st)
  else do
    let st ← deallocLoop m pgdir oldsz (oldsz / PGSIZE + 1) (PGROUNDUP newsz) st
    .ok (newsz, st)

/-- The loop of `allocuvm`; `false` if there is no page. -/
def allocLoop (m : Machine) (pgdir oldsz newsz : ℕ) :
    ℕ → ℕ → Store → Except Halt (Bool × Store)
  | 0, _, st => .ok (true, st)
  | n + 1, a, st =>
    if a < newsz then
      match st.kalloc with
      | (none, st) => do
        let (_, st) ← st.deallocuvm m pgdir newsz oldsz
        .ok (false, st)
      | (some mem, st) => do
        let (ok, st) ← (st.zero mem).mappages pgdir a PGSIZE mem ⟨true, true⟩
        if ok then allocLoop m pgdir oldsz newsz n (a + PGSIZE) st
        else do
          let (_, st) ← st.deallocuvm m pgdir newsz oldsz
          let st ← st.kfree m mem
          .ok (false, st)
    else .ok (true, st)

/-- `allocuvm`. -/
def allocuvm (st : Store) (m : Machine) (pgdir oldsz newsz : ℕ) : Except Halt (ℕ × Store) :=
  if KERNBASE ≤ newsz then .ok (0, st)
  else if newsz < oldsz then .ok (oldsz, st)
  else do
    let (ok, st) ← allocLoop m pgdir oldsz newsz (newsz / PGSIZE + 1) (PGROUNDUP oldsz) st
    .ok (if ok then newsz else 0, st)

/-- `growproc` of a process with this directory and size: what it returns, and the size and the
store. -/
def growproc (st : Store) (m : Machine) (pgdir sz : ℕ) (n : ℤ) :
    Except Halt (ℤ × ℕ × Store) :=
  let newsz := (((sz : ℤ) + n) % 2 ^ 32).toNat
  if 0 < n then do
    let (r, st) ← st.allocuvm m pgdir sz newsz
    if r = 0 then .ok (-1, sz, st) else .ok (0, r, st)
  else if n < 0 then do
    let (r, st) ← st.deallocuvm m pgdir sz newsz
    if r = 0 then .ok (-1, sz, st) else .ok (0, r, st)
  else .ok (0, sz, st)

end Store

/-! ### Without the bytes -/

section

variable {st : Store} {m : Machine} {pgdir a pa fuel oldsz newsz : ℕ} {perm : Flags}

/-- What a function leaves, without the bytes. -/
def drop {α : Type} (x : Except Halt (α × Store)) : Except Halt (α × Memory) :=
  x.map fun r => (r.1, r.2.toMemory)

theorem toMemory_kalloc (st : Store) :
    (st.kalloc.1, st.kalloc.2.toMemory) = st.toMemory.kalloc := by
  unfold Store.kalloc Memory.kalloc
  split
  · rfl
  · obtain ⟨⟨free, tab, fails, twice⟩, data, hfree, hreads⟩ := st
    cases free <;> rfl

theorem toMemory_kfree (st : Store) (m : Machine) (pa : ℕ) :
    (st.kfree m pa).map Store.toMemory = st.toMemory.kfree m pa := by
  unfold Store.kfree Memory.kfree
  split <;> rfl

theorem Store.toMemory_put_eq (st : Store) (page i w : ℕ) :
    (st.put page i w).toMemory = st.toMemory.put page i (Pte.ofWord (w % 256 ^ 4)) := rfl

theorem toMemory_put (st : Store) (page i : ℕ) (hpage : PGSIZE ∣ pa) (hlt : pa < 2 ^ 32) :
    (st.put page i (Pte.toWord pa perm)).toMemory = st.toMemory.put page i (some ⟨pa, perm⟩) := by
  rw [Store.toMemory_put_eq, Pte.ofWord_toWord hpage hlt]

theorem kalloc_aligned (st : Store) {p : ℕ} (h : st.kalloc.1 = some p) : PGSIZE ∣ p ∧ p < 2 ^ 32 := by
  unfold Store.kalloc at h
  split at h
  · cases h
  · split at h
    · cases h
    · rename_i q hq
      obtain rfl := Option.some.inj h
      obtain ⟨hpage, hlt⟩ := st.free_page q (List.mem_of_mem_head? hq)
      exact ⟨hpage, Nat.lt_trans hlt (by decide)⟩

theorem toMemory_walkpgdir (st : Store) (pgdir a : ℕ) (alloc : Bool) :
    ((st.walkpgdir pgdir a alloc).1, (st.walkpgdir pgdir a alloc).2.toMemory) =
      st.toMemory.walkpgdir pgdir a alloc := by
  unfold Store.walkpgdir Memory.walkpgdir
  cases st.tab pgdir (PDX a) with
  | some pde => rfl
  | none =>
    dsimp only
    split
    · have hk := toMemory_kalloc st
      have hpage := @kalloc_aligned st
      rcases hst : st.kalloc with ⟨o, st₁⟩
      rw [hst] at hk hpage
      rw [← hk]
      cases o with
      | none => rfl
      | some p =>
        obtain ⟨hdvd, hlt⟩ := hpage rfl
        exact congrArg (some p, ·) (toMemory_put _ _ _ hdvd hlt)
    · rfl

theorem drop_mapPage (st : Store) (hpage : PGSIZE ∣ pa) (hlt : pa < 2 ^ 32) :
    drop (st.mapPage pgdir a pa perm) = st.toMemory.mapPage pgdir a pa perm := by
  unfold Store.mapPage Memory.mapPage
  rw [← toMemory_walkpgdir]
  rcases st.walkpgdir pgdir a true with ⟨_ | pgtab, st₁⟩
  · rfl
  · dsimp only
    split
    · rfl
    · exact congrArg (fun s => Except.ok (true, s)) (toMemory_put _ _ _ hpage hlt)

theorem drop_mapLoop (st : Store) (hpage : PGSIZE ∣ pa) (hlt : pa < 2 ^ 32) :
    drop (Store.mapLoop pgdir perm fuel a pa st) =
      Memory.mapLoop pgdir perm fuel a pa st.toMemory := by
  induction fuel generalizing a pa st with
  | zero => exact drop_mapPage st hpage hlt
  | succ fuel ih =>
    unfold Store.mapLoop Memory.mapLoop
    rw [← drop_mapPage st hpage hlt]
    rcases st.mapPage pgdir a pa perm with _ | ⟨_ | _, st₁⟩
    · rfl
    · rfl
    · refine ih st₁ ?_ (Nat.mod_lt _ (by decide))
      unfold PGSIZE at *
      omega

theorem drop_mappages (st : Store) {va size : ℕ} (hpage : PGSIZE ∣ pa) (hlt : pa < 2 ^ 32) :
    drop (st.mappages pgdir va size pa perm) = st.toMemory.mappages pgdir va size pa perm :=
  drop_mapLoop st hpage hlt

theorem toMemory_deallocLoop (st : Store) :
    (Store.deallocLoop m pgdir oldsz fuel a st).map Store.toMemory =
      Memory.deallocLoop m pgdir oldsz fuel a st.toMemory := by
  induction fuel generalizing a st with
  | zero => rfl
  | succ fuel ih =>
    unfold Store.deallocLoop Memory.deallocLoop
    rw [← toMemory_walkpgdir]
    split
    · rcases st.walkpgdir pgdir a false with ⟨_ | pgtab, st₁⟩
      · exact ih st₁
      · dsimp only
        cases st₁.tab pgtab (PTX a) with
        | none => exact ih st₁
        | some pte =>
          dsimp only
          rw [← toMemory_kfree st₁]
          split
          · rfl
          · rcases st₁.kfree m pte.addr with _ | st₂
            · rfl
            · exact ih _
    · rfl

theorem drop_deallocuvm (st : Store) (m : Machine) (pgdir oldsz newsz : ℕ) :
    drop (st.deallocuvm m pgdir oldsz newsz) = st.toMemory.deallocuvm m pgdir oldsz newsz := by
  unfold Store.deallocuvm Memory.deallocuvm
  rw [← toMemory_deallocLoop]
  split
  · rfl
  · rcases Store.deallocLoop m pgdir oldsz (oldsz / PGSIZE + 1) (PGROUNDUP newsz) st with _ | st₁
    · rfl
    · rfl

theorem drop_allocLoop (st : Store) :
    drop (Store.allocLoop m pgdir oldsz newsz fuel a st) =
      Memory.allocLoop m pgdir oldsz newsz fuel a st.toMemory := by
  induction fuel generalizing a st with
  | zero => rfl
  | succ fuel ih =>
    unfold Store.allocLoop Memory.allocLoop
    have hpage := @kalloc_aligned st
    rw [← toMemory_kalloc]
    generalize st.kalloc = x at hpage ⊢
    split
    · rcases x with ⟨_ | p, st₁⟩
      · dsimp only
        rw [← drop_deallocuvm st₁]
        rcases st₁.deallocuvm m pgdir newsz oldsz with _ | ⟨r, st₂⟩
        · rfl
        · rfl
      · obtain ⟨hdvd, hlt⟩ := hpage rfl
        change drop ((st₁.zero p).mappages pgdir a PGSIZE p ⟨true, true⟩ >>= _) =
          (st₁.zero p).toMemory.mappages pgdir a PGSIZE p ⟨true, true⟩ >>= _
        rw [← drop_mappages (st₁.zero p) hdvd hlt]
        rcases (st₁.zero p).mappages pgdir a PGSIZE p ⟨true, true⟩ with _ | ⟨_ | _, st₂⟩
        · rfl
        · change drop (st₂.deallocuvm m pgdir newsz oldsz >>= _) =
            st₂.toMemory.deallocuvm m pgdir newsz oldsz >>= _
          rw [← drop_deallocuvm st₂]
          rcases st₂.deallocuvm m pgdir newsz oldsz with _ | ⟨r, st₃⟩
          · rfl
          · change drop (st₃.kfree m p >>= _) = st₃.toMemory.kfree m p >>= _
            rw [← toMemory_kfree st₃]
            rcases st₃.kfree m p with _ | st₄
            · rfl
            · rfl
        · exact ih st₂
    · rfl

theorem drop_allocuvm (st : Store) (m : Machine) (pgdir oldsz newsz : ℕ) :
    drop (st.allocuvm m pgdir oldsz newsz) = st.toMemory.allocuvm m pgdir oldsz newsz := by
  unfold Store.allocuvm Memory.allocuvm
  rw [← drop_allocLoop]
  split
  · rfl
  · split
    · rfl
    · rcases Store.allocLoop m pgdir oldsz newsz (newsz / PGSIZE + 1) (PGROUNDUP oldsz) st with
        _ | ⟨ok, st₁⟩
      · rfl
      · rfl

end

end Vm
end Xv6
