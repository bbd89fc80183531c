/-
# Physical memory as bytes

`walkpgdir` without `alloc` and `uva2ka` (`xv6/vm.c`, lines 35-55 and 347-360) over
the bytes of physical memory, with the words of `xv6/mmu.h`, lines 85-104.  The
kernel sees physical memory from `KERNBASE` on, `PHYSTOP` bytes of it
(`xv6/memlayout.h`); what it reads or writes elsewhere, and in particular through a
null pointer, is `Halt.wild`.

`userPage` is what the directory says of an address, and `phys` is the byte that a
user finds there.
-/

import Xv6.Vm.Model
import Xv6.Lib.Bytes

namespace Xv6
namespace Vm

open Lib

/-- The bytes of physical memory. -/
abbrev Ram := ℕ → Byte

/-- `P2V`. -/
def P2V (pa : ℕ) : ℕ := (pa + KERNBASE) % 2 ^ 32

/-- The physical address behind an address of the kernel. -/
def kernelAddr (ka : ℕ) : Except Halt ℕ :=
  if KERNBASE ≤ ka ∧ ka < KERNBASE + PHYSTOP then .ok (ka - KERNBASE) else .error .wild

theorem kernelAddr_P2V {pa k : ℕ} (h : pa + k < PHYSTOP) :
    kernelAddr (P2V pa + k) = .ok (pa + k) := by
  have hP2V : P2V pa + k = KERNBASE + (pa + k) := by
    unfold P2V KERNBASE
    unfold PHYSTOP at h
    omega
  unfold kernelAddr
  rw [hP2V, if_pos ⟨Nat.le_add_right _ _, Nat.add_lt_add_left h _⟩, Nat.add_sub_cancel_left]

theorem P2V_ne_zero {pa : ℕ} (h : pa < PHYSTOP) : P2V pa ≠ 0 := by
  unfold P2V KERNBASE
  unfold PHYSTOP at h
  omega

/-- A word with `PTE_P`: `PTE_ADDR`, `PTE_W` and `PTE_U`. -/
def Pte.ofWord (w : ℕ) : Option Pte :=
  if w % 2 = 1 then some ⟨w / PGSIZE * PGSIZE, ⟨w / 2 % 2 = 1, w / 4 % 2 = 1⟩⟩ else none

namespace Ram

/-- The word at `a`, as an entry of a directory or a table. -/
def pteAt (r : Ram) (a : ℕ) : Option Pte := Pte.ofWord (getLE r a 4)

/-- Entry `i` of the directory or table on a page. -/
def entry (r : Ram) (page i : ℕ) : Option Pte := r.pteAt (page + 4 * i)

/-- `walkpgdir(pgdir, va, 0)`: a pointer into the page table, null if there is no table. -/
def walkpgdir (r : Ram) (pgdir va : ℕ) : Option ℕ :=
  match r.entry pgdir (PDX va) with
  | some pde => some (P2V pde.addr + 4 * PTX va)
  | none => none

/-- `uva2ka`, which reads `*pte` before it knows that there is one. -/
def uva2ka (r : Ram) (pgdir uva : ℕ) : Except Halt ℕ :=
  match r.walkpgdir pgdir uva with
  | none => .error .wild
  | some pte => do
    let a ← kernelAddr pte
    match r.pteAt a with
    | none => .ok 0
    | some e => if e.flags.u then .ok (P2V e.addr) else .ok 0

/-- The physical page of a user address, if there is one with `PTE_P` and `PTE_U`. -/
def userPage (r : Ram) (pgdir va : ℕ) : Option ℕ :=
  match r.entry pgdir (PDX va) with
  | none => none
  | some pde =>
    match r.entry pde.addr (PTX va) with
    | none => none
    | some e => if e.flags.u then some e.addr else none

/-- The physical address of a user byte. -/
def phys (r : Ram) (pgdir va : ℕ) : ℕ := (r.userPage pgdir va).getD 0 + va % PGSIZE

end Ram

/-! ### Pages -/

section

variable {r r' : Ram} {pgdir page page' va i f : ℕ}

theorem PDX_lt (va : ℕ) : PDX va < 1024 := by
  unfold PDX NPDENTRIES
  omega

theorem PTX_lt (va : ℕ) : PTX va < 1024 := by
  unfold PTX NPTENTRIES
  omega

theorem PDX_congr {u v : ℕ} (h : u / PGSIZE = v / PGSIZE) : PDX u = PDX v := by
  unfold PGSIZE at h
  unfold PDX
  rw [show u / 2 ^ 22 = v / 2 ^ 22 by omega]

theorem PTX_congr {u v : ℕ} (h : u / PGSIZE = v / PGSIZE) : PTX u = PTX v :=
  congrArg (· % NPTENTRIES) h

theorem PGROUNDDOWN_div (va : ℕ) : PGROUNDDOWN va / PGSIZE = va / PGSIZE := by
  unfold PGROUNDDOWN PGSIZE
  omega

/-- Two pages have no byte in common. -/
theorem page_apart (hpage : PGSIZE ∣ page) (hpage' : PGSIZE ∣ page') (hne : page ≠ page')
    {k l : ℕ} (hk : k < PGSIZE) (hl : l < PGSIZE) : page + k ≠ page' + l := by
  obtain ⟨a, rfl⟩ := hpage
  obtain ⟨b, rfl⟩ := hpage'
  unfold PGSIZE at *
  omega

namespace Ram

theorem pteAt_aligned {a : ℕ} {e : Pte} (h : r.pteAt a = some e) : PGSIZE ∣ e.addr := by
  unfold pteAt Pte.ofWord at h
  split at h
  · cases h
    exact Nat.dvd_mul_left _ _
  · cases h

theorem pteAt_congr {a : ℕ} (h : ∀ k < 4, r' (a + k) = r (a + k)) : r'.pteAt a = r.pteAt a := by
  unfold pteAt
  rw [getLE_congr h]

/-- A table is read from its own page. -/
theorem entry_congr (hi : i < 1024) (h : ∀ k < PGSIZE, r' (page + k) = r (page + k)) :
    r'.entry page i = r.entry page i := by
  refine pteAt_congr fun k hk => ?_
  rw [Nat.add_assoc]
  exact h (4 * i + k) (by unfold PGSIZE; omega)

theorem userPage_eq_some (h : r.userPage pgdir va = some f) :
    ∃ pde e, r.entry pgdir (PDX va) = some pde ∧ r.entry pde.addr (PTX va) = some e ∧
      e.flags.u = true ∧ e.addr = f := by
  unfold userPage at h
  split at h
  · cases h
  · rename_i pde hpde
    split at h
    · cases h
    · rename_i e he
      split at h
      · rename_i hu
        exact ⟨pde, e, hpde, he, hu, Option.some.inj h⟩
      · cases h

theorem userPage_aligned (h : r.userPage pgdir va = some f) : PGSIZE ∣ f := by
  obtain ⟨pde, e, -, he, -, rfl⟩ := userPage_eq_some h
  exact pteAt_aligned he

/-- Addresses of one page have one physical page. -/
theorem userPage_congr {u v : ℕ} (h : u / PGSIZE = v / PGSIZE) :
    r.userPage pgdir u = r.userPage pgdir v := by
  unfold userPage
  rw [PDX_congr h, PTX_congr h]

/-- **Where there is a page table, `uva2ka` reads the entry for the address.** -/
theorem uva2ka_eq {pde : Pte} (hpde : r.entry pgdir (PDX va) = some pde)
    (hlt : pde.addr < PHYSTOP) :
    r.uva2ka pgdir va = .ok ((r.userPage pgdir va).elim 0 P2V) := by
  have hin : pde.addr + 4 * PTX va < PHYSTOP := by
    obtain ⟨b, hb⟩ := pteAt_aligned hpde
    have := PTX_lt va
    unfold PGSIZE at hb
    unfold PHYSTOP at *
    omega
  have hwalk : r.walkpgdir pgdir va = some (P2V pde.addr + 4 * PTX va) := by
    unfold walkpgdir
    rw [hpde]
  have hat : r.pteAt (pde.addr + 4 * PTX va) = r.entry pde.addr (PTX va) := rfl
  unfold uva2ka userPage
  simp only [hwalk, hpde, kernelAddr_P2V hin, ok_bind, hat]
  cases r.entry pde.addr (PTX va) with
  | none => rw [Option.elim_none]
  | some e =>
    dsimp only
    split
    · rw [Option.elim_some]
    · rw [Option.elim_none]

/-- Without a page table it reads through a null pointer. -/
theorem uva2ka_no_table (h : r.entry pgdir (PDX va) = none) :
    r.uva2ka pgdir va = .error .wild := by
  unfold uva2ka walkpgdir
  rw [h]

/-! ### Sound tables -/

/-- The tables of some addresses and the user pages that they lead to are pages of the machine; no
user page is a table or the directory, and none is there twice. -/
structure Framed (r : Ram) (pgdir : ℕ) (S : ℕ → Prop) : Prop where
  aligned : PGSIZE ∣ pgdir
  table_lt : ∀ v, S v → ∀ pde, r.entry pgdir (PDX v) = some pde → pde.addr < PHYSTOP
  page_lt : ∀ v, S v → ∀ f, r.userPage pgdir v = some f → f < PHYSTOP
  ne_dir : ∀ v, S v → r.userPage pgdir v ≠ some pgdir
  ne_table : ∀ u v, S u → S v → ∀ pde, r.entry pgdir (PDX v) = some pde →
    r.userPage pgdir u ≠ some pde.addr
  once : ∀ u v, S u → S v → ∀ f, r.userPage pgdir u = some f → r.userPage pgdir v = some f →
    u / PGSIZE = v / PGSIZE

/-- The tables lead from the addresses from `lo` to below `hi` to pages of the machine; no user
page is a table or the directory, and no user page is there twice.  Up to the first address
without a user page there is a page table. -/
structure Leads (r : Ram) (pgdir lo hi : ℕ) : Prop where
  aligned : PGSIZE ∣ pgdir
  table : ∀ v, lo ≤ v → v < hi → (∀ u, lo ≤ u → u < v → r.userPage pgdir u ≠ none) →
    r.entry pgdir (PDX v) ≠ none
  table_lt : ∀ v, lo ≤ v → v < hi → ∀ pde, r.entry pgdir (PDX v) = some pde → pde.addr < PHYSTOP
  page_lt : ∀ v, lo ≤ v → v < hi → ∀ f, r.userPage pgdir v = some f → f < PHYSTOP
  ne_dir : ∀ v, lo ≤ v → v < hi → r.userPage pgdir v ≠ some pgdir
  ne_table : ∀ u v, lo ≤ u → u < hi → lo ≤ v → v < hi → ∀ pde,
    r.entry pgdir (PDX v) = some pde → r.userPage pgdir u ≠ some pde.addr
  once : ∀ u v, lo ≤ u → u < hi → lo ≤ v → v < hi → ∀ f,
    r.userPage pgdir u = some f → r.userPage pgdir v = some f → u / PGSIZE = v / PGSIZE

/-- No byte changes outside the page `f`. -/
def SameOff (f : ℕ) (r r' : Ram) : Prop :=
  ∀ page k, PGSIZE ∣ page → page ≠ f → k < PGSIZE → r' (page + k) = r (page + k)

section

variable {lo hi : ℕ}

/-- A part of the range that comes after pages that are there. -/
theorem Leads.mono (h : r.Leads pgdir lo hi) {lo' hi' : ℕ}
    (hsub : ∀ v, lo' ≤ v → v < hi' →
      lo ≤ v ∧ v < hi ∧ ∀ u, lo ≤ u → u < lo' → r.userPage pgdir u ≠ none) :
    r.Leads pgdir lo' hi' := by
  have hin : ∀ v, lo' ≤ v → v < hi' → lo ≤ v ∧ v < hi := fun v hv hv' =>
    ⟨(hsub v hv hv').1, (hsub v hv hv').2.1⟩
  constructor
  case aligned => exact h.aligned
  case table =>
    intro v hv hv' hbefore
    refine h.table v (hin v hv hv').1 (hin v hv hv').2 fun u hu huv => ?_
    rcases Nat.lt_or_ge u lo' with hlo | hlo
    · exact (hsub v hv hv').2.2 u hu hlo
    · exact hbefore u hlo huv
  case table_lt => exact fun v hv hv' => h.table_lt v (hin v hv hv').1 (hin v hv hv').2
  case page_lt => exact fun v hv hv' => h.page_lt v (hin v hv hv').1 (hin v hv hv').2
  case ne_dir => exact fun v hv hv' => h.ne_dir v (hin v hv hv').1 (hin v hv hv').2
  case ne_table =>
    exact fun u v hu hu' hv hv' =>
      h.ne_table u v (hin u hu hu').1 (hin u hu hu').2 (hin v hv hv').1 (hin v hv hv').2
  case once =>
    exact fun u v hu hu' hv hv' =>
      h.once u v (hin u hu hu').1 (hin u hu hu').2 (hin v hv hv').1 (hin v hv hv').2

theorem Framed.mono {S S' : ℕ → Prop} (h : r.Framed pgdir S) (hsub : ∀ v, S' v → S v) :
    r.Framed pgdir S' where
  aligned := h.aligned
  table_lt v hv := h.table_lt v (hsub v hv)
  page_lt v hv := h.page_lt v (hsub v hv)
  ne_dir v hv := h.ne_dir v (hsub v hv)
  ne_table u v hu hv := h.ne_table u v (hsub u hu) (hsub v hv)
  once u v hu hv := h.once u v (hsub u hu) (hsub v hv)

theorem Leads.framed (h : r.Leads pgdir lo hi) : r.Framed pgdir fun v => lo ≤ v ∧ v < hi where
  aligned := h.aligned
  table_lt v hv := h.table_lt v hv.1 hv.2
  page_lt v hv := h.page_lt v hv.1 hv.2
  ne_dir v hv := h.ne_dir v hv.1 hv.2
  ne_table u v hu hv := h.ne_table u v hu.1 hu.2 hv.1 hv.2
  once u v hu hv := h.once u v hu.1 hu.2 hv.1 hv.2

/-- Where all the pages are there, the tables are. -/
theorem Framed.leads (h : r.Framed pgdir fun v => lo ≤ v ∧ v < hi)
    (hmaps : ∀ v, lo ≤ v → v < hi → r.userPage pgdir v ≠ none) : r.Leads pgdir lo hi where
  aligned := h.aligned
  table v hv hv' _ := by
    obtain ⟨f, hf⟩ := Option.ne_none_iff_exists'.1 (hmaps v hv hv')
    obtain ⟨pde, -, hpde, -⟩ := userPage_eq_some hf
    rw [hpde]
    exact Option.some_ne_none pde
  table_lt v hv hv' := h.table_lt v ⟨hv, hv'⟩
  page_lt v hv hv' := h.page_lt v ⟨hv, hv'⟩
  ne_dir v hv hv' := h.ne_dir v ⟨hv, hv'⟩
  ne_table u v hu hu' hv hv' := h.ne_table u v ⟨hu, hu'⟩ ⟨hv, hv'⟩
  once u v hu hu' hv hv' := h.once u v ⟨hu, hu'⟩ ⟨hv, hv'⟩

section

variable {S : ℕ → Prop} (h : r.Framed pgdir S) (hva : S va)
  (hpage : r.userPage pgdir va = some f) (hsame : SameOff f r r')

include h hva hpage hsame

theorem Framed.entry_sameOff (v : ℕ) : r'.entry pgdir (PDX v) = r.entry pgdir (PDX v) := by
  have hne : pgdir ≠ f := by
    rintro rfl
    exact h.ne_dir va hva hpage
  exact entry_congr (PDX_lt v) fun k hk => hsame pgdir k h.aligned hne hk

/-- **What is written to a user page of the set leaves the tables as they are.** -/
theorem Framed.userPage_sameOff {v : ℕ} (hv : S v) :
    r'.userPage pgdir v = r.userPage pgdir v := by
  unfold userPage
  rw [h.entry_sameOff hva hpage hsame]
  cases hpde : r.entry pgdir (PDX v) with
  | none => rfl
  | some pde =>
    have hne : pde.addr ≠ f := by
      rintro rfl
      exact h.ne_table va v hva hv pde hpde hpage
    have hentry : r'.entry pde.addr (PTX v) = r.entry pde.addr (PTX v) :=
      entry_congr (PTX_lt v) fun k hk => hsame pde.addr k (pteAt_aligned hpde) hne hk
    simp only [hentry]

theorem Framed.sameOff : r'.Framed pgdir S := by
  have huser : ∀ v, S v → r'.userPage pgdir v = r.userPage pgdir v := fun v hv =>
    h.userPage_sameOff hva hpage hsame hv
  have hentry := h.entry_sameOff hva hpage hsame
  constructor
  case aligned => exact h.aligned
  case table_lt =>
    intro v hv pde hpde
    rw [hentry] at hpde
    exact h.table_lt v hv pde hpde
  case page_lt =>
    intro v hv g hg
    rw [huser v hv] at hg
    exact h.page_lt v hv g hg
  case ne_dir =>
    intro v hv
    rw [huser v hv]
    exact h.ne_dir v hv
  case ne_table =>
    intro u v hu hv pde hpde
    rw [hentry] at hpde
    rw [huser u hu]
    exact h.ne_table u v hu hv pde hpde
  case once =>
    intro u v hu hv g hg hg'
    rw [huser u hu] at hg
    rw [huser v hv] at hg'
    exact h.once u v hu hv g hg hg'

end

section

variable (h : r.Leads pgdir lo hi) (hlo : lo ≤ va) (hva : va < hi)
  (hpage : r.userPage pgdir va = some f) (hsame : SameOff f r r')

include h hlo hva hpage hsame

theorem Leads.userPage_sameOff {v : ℕ} (hv : lo ≤ v) (hv' : v < hi) :
    r'.userPage pgdir v = r.userPage pgdir v :=
  h.framed.userPage_sameOff ⟨hlo, hva⟩ hpage hsame ⟨hv, hv'⟩

theorem Leads.sameOff : r'.Leads pgdir lo hi := by
  have hframed := h.framed.sameOff ⟨hlo, hva⟩ hpage hsame
  constructor
  case aligned => exact h.aligned
  case table =>
    intro v hv hv' hbefore
    rw [h.framed.entry_sameOff ⟨hlo, hva⟩ hpage hsame]
    refine h.table v hv hv' fun u hu huv => ?_
    rw [← h.userPage_sameOff hlo hva hpage hsame hu (Nat.lt_trans huv hv')]
    exact hbefore u hu huv
  case table_lt => exact fun v hv hv' => hframed.table_lt v ⟨hv, hv'⟩
  case page_lt => exact fun v hv hv' => hframed.page_lt v ⟨hv, hv'⟩
  case ne_dir => exact fun v hv hv' => hframed.ne_dir v ⟨hv, hv'⟩
  case ne_table => exact fun u v hu hu' hv hv' => hframed.ne_table u v ⟨hu, hu'⟩ ⟨hv, hv'⟩
  case once => exact fun u v hu hu' hv hv' => hframed.once u v ⟨hu, hu'⟩ ⟨hv, hv'⟩

end

end

/-! ### A small memory -/

/-- The directory on page `0x1000` has one table, for the first and for the last 4 MB, with two
pages at the start and one at the end. -/
def threePages : Ram :=
  let dir := putLE (putLE (fun _ => 0) 0x1000 4 0x2007) 0x1FFC 4 0x2007
  putLE (putLE (putLE dir 0x2000 4 0x3007) 0x2004 4 0x4007) 0x2FFC 4 0x5007

theorem threePages_entry {v : ℕ} (hv : v < 8192) :
    threePages.entry 0x1000 (PDX v) = some ⟨0x2000, ⟨true, true⟩⟩ := by
  have hPDX : PDX v = 0 := by
    unfold PDX
    rw [Nat.div_eq_of_lt (by omega), Nat.zero_mod]
  rw [hPDX]
  decide +kernel

theorem threePages_userPage {v : ℕ} (hv : v < 8192) :
    threePages.userPage 0x1000 v = some (if v < 4096 then 0x3000 else 0x4000) := by
  split
  · rw [userPage_congr (v := 0) (by unfold PGSIZE; omega)]
    decide +kernel
  · rw [userPage_congr (v := 4096) (by unfold PGSIZE; omega)]
    decide +kernel

theorem threePages_leads (lo : ℕ) {hi : ℕ} (hhi : hi ≤ 8192) : threePages.Leads 0x1000 lo hi := by
  constructor
  case aligned => decide
  case table =>
    intro v _ hv' _
    rw [threePages_entry (by omega)]
    exact Option.some_ne_none _
  case table_lt =>
    intro v _ hv' pde hpde
    rw [threePages_entry (by omega)] at hpde
    cases hpde
    decide
  case page_lt =>
    intro v _ hv' f hf
    rw [threePages_userPage (by omega)] at hf
    cases hf
    split <;> decide
  case ne_dir =>
    intro v _ hv'
    rw [threePages_userPage (by omega)]
    split <;> decide
  case ne_table =>
    intro u v _ hu' _ hv' pde hpde
    rw [threePages_entry (by omega)] at hpde
    cases hpde
    rw [threePages_userPage (by omega)]
    split <;> decide
  case once =>
    intro u v _ hu' _ hv' f hf hf'
    rw [threePages_userPage (by omega), ← hf', threePages_userPage (by omega)] at hf
    unfold PGSIZE
    split at hf <;> split at hf <;> first | omega | cases hf

end Ram
end

end Vm
end Xv6
