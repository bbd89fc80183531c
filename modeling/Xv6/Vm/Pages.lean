/-
# The pages of a directory

A directory holds itself, its page tables and the pages that its entries below
`KERNBASE` map.  `Owns m s Q` says that the free list and the pages `Q` together are
the allocatable pages, each once.  With `Q` the pages of one directory and the rest,
every step of the code is a transfer between the free list, the pages in hand and
the directory, and what it writes is outside the rest (`Keeps`).
-/

import Xv6.Lib.Slots
import Xv6.Vm.Model

namespace Xv6
namespace Vm

open Lib Function

/-- Page numbers below `2 ^ 32`. -/
def NPAGES : ℕ := NPDENTRIES * NPTENTRIES

/-- Page numbers below `KERNBASE`. -/
@[irreducible] def USERPAGES : ℕ := KERNBASE / PGSIZE

variable {m : Machine} {s s' : Memory} {d n k p : ℕ} {Q R : Multiset ℕ}

namespace Memory

/-- The entry for page `n`. -/
def pte (s : Memory) (d n : ℕ) : Option Pte :=
  (s.tab d (n / NPTENTRIES)).bind fun pde => s.tab pde.addr (n % NPTENTRIES)

/-- The page tables of a directory. -/
def tables (s : Memory) (d : ℕ) : Multiset ℕ :=
  held (Finset.range NPDENTRIES) fun i => (s.tab d i).map Pte.addr

/-- The user pages of a directory. -/
def user (s : Memory) (d : ℕ) : Multiset ℕ :=
  held (Finset.range USERPAGES) fun n => (s.pte d n).map Pte.addr

/-- All pages of a directory. -/
def pages (s : Memory) (d : ℕ) : Multiset ℕ := d ::ₘ s.tables d + s.user d

end Memory

/-- The free pages and those in `Q` are the allocatable ones. -/
structure Owns (m : Machine) (s : Memory) (Q : Multiset ℕ) : Prop where
  split : (s.free : Multiset ℕ) + Q = (m.pages : Multiset ℕ)
  once : s.twice = false

/-- The pages `Q` are not written. -/
def Keeps (Q : Multiset ℕ) (s s' : Memory) : Prop := ∀ q ∈ Q, s'.tab q = s.tab q

theorem Keeps.trans {s'' : Memory} (h : Keeps Q s s') (h' : Keeps Q s' s'') : Keeps Q s s'' :=
  fun q hq => (h' q hq).trans (h q hq)

theorem Keeps.mono (h : Keeps Q s s') (hle : R ≤ Q) : Keeps R s s' :=
  fun q hq => h q (Multiset.mem_of_le hle hq)

/-- A page outside `Q` is written. -/
theorem keeps_update {t : ℕ → Option Pte} (hp : p ∉ Q)
    (htab : s'.tab = update s.tab p t) : Keeps Q s s' := by
  intro q hq
  rw [htab, update_of_ne]
  rintro rfl
  exact hp hq

/-! ### Allocatable pages -/

theorem mem_pages (m : Machine) :
    p ∈ m.pages ↔ p % PGSIZE = 0 ∧ m.kend ≤ p ∧ p < PHYSTOP := by
  have hkend := m.kend_lt
  unfold Machine.pages PGROUNDUP
  simp only [List.mem_map, List.mem_range]
  unfold PHYSTOP PGSIZE at *
  constructor
  · rintro ⟨i, hi, rfl⟩
    omega
  · rintro ⟨hmod, hlo, hhi⟩
    refine ⟨(p - (m.kend + 4095) % 2 ^ 32 / 4096 * 4096) / 4096, ?_, ?_⟩
    · omega
    · omega

theorem nodup_pages (m : Machine) : m.pages.Nodup := by
  refine List.Nodup.map (fun i j heq => ?_) List.nodup_range
  unfold PGSIZE at heq
  omega

theorem Owns.nodup (h : Owns m s Q) : ((s.free : Multiset ℕ) + Q).Nodup := by
  rw [h.split]
  exact Multiset.coe_nodup.2 (nodup_pages m)

theorem Owns.mem_pages (h : Owns m s Q) (hp : p ∈ Q) : p ∈ m.pages := by
  rw [← Multiset.mem_coe, ← h.split]
  exact Multiset.mem_add.2 (.inr hp)

theorem Owns.pos (h : Owns m s Q) (hp : p ∈ Q) : p ≠ 0 := by
  have hmem := (Vm.mem_pages m).1 (h.mem_pages hp)
  have := m.data_lt
  omega

/-- The pages held are rearranged. -/
theorem Owns.congr (h : Owns m s Q) (heq : Q = R) : Owns m s R := heq ▸ h

/-! ### `kalloc` and `kfree` -/

/-- What fails where no call of `kalloc` is made to fail has run out of pages. -/
def Starved (ok : Bool) (s s' : Memory) : Prop :=
  s.fails = [] → s'.fails = [] ∧ (ok = false → s'.free = [])

/-- **`kalloc`**: the page is taken from the free list. -/
theorem Owns.kalloc (h : Owns m s Q) :
    (∃ s', s.kalloc = (none, s') ∧ Owns m s' Q ∧ s'.tab = s.tab ∧ Starved false s s') ∨
    ∃ p s', s.kalloc = (some p, s') ∧ Owns m s' (p ::ₘ Q) ∧ s'.tab = s.tab ∧
      Starved true s s' := by
  unfold Memory.kalloc
  split
  next hfail =>
    refine .inl ⟨_, rfl, ⟨h.split, h.once⟩, rfl, fun hnil => ?_⟩
    rw [hnil] at hfail
    cases hfail
  · split
    next hfree =>
      refine .inl ⟨_, rfl, ⟨h.split, h.once⟩, rfl, fun hnil => ⟨?_, fun _ => hfree⟩⟩
      exact congrArg List.tail hnil
    next q free hfree =>
      refine .inr ⟨q, _, rfl, ⟨?_, h.once⟩, rfl,
        fun hnil => ⟨congrArg List.tail hnil, fun hok => (nomatch hok)⟩⟩
      have hsplit := h.split
      rw [hfree] at hsplit
      rw [← hsplit, Multiset.add_cons, ← Multiset.cons_coe, Multiset.cons_add]

/-- **`kfree`**: a page that is held goes to the free list, which did not have it. -/
theorem Owns.kfree (h : Owns m s (p ::ₘ Q)) :
    ∃ s', s.kfree m p = .ok s' ∧ Owns m s' Q ∧ s'.tab = update s.tab p Memory.junk := by
  obtain ⟨hmod, hlo, hhi⟩ := (Vm.mem_pages m).1 (h.mem_pages (Multiset.mem_cons_self p Q))
  have hnew : p ∉ s.free := by
    have hnodup := h.nodup
    rw [Multiset.add_cons] at hnodup
    exact fun hmem => (Multiset.nodup_cons.1 hnodup).1 (Multiset.mem_add.2 (.inl hmem))
  unfold Memory.kfree
  rw [if_neg (by omega)]
  refine ⟨_, rfl, ⟨?_, ?_⟩, rfl⟩
  · rw [← Multiset.cons_coe, Multiset.cons_add, ← h.split, Multiset.add_cons]
  · dsimp only
    rw [h.once, decide_eq_false hnew, Bool.or_self]

/-! ### Reading a directory -/

/-- A page table and a directory are where the entry for `n` is. -/
theorem pte_eq {pde : Pte} (hpde : s.tab d (n / NPTENTRIES) = some pde) :
    s.pte d n = s.tab pde.addr (n % NPTENTRIES) := by
  rw [Memory.pte, hpde, Option.bind_some]

theorem mem_tables {i : ℕ} {pde : Pte} (hi : i < NPDENTRIES) (hpde : s.tab d i = some pde) :
    pde.addr ∈ s.tables d :=
  mem_held (Finset.mem_range.2 hi) (by rw [hpde, Option.map_some])

theorem mem_user {e : Pte} (hn : n < USERPAGES) (he : s.pte d n = some e) : e.addr ∈ s.user d :=
  mem_held (Finset.mem_range.2 hn) (by rw [he, Option.map_some])

/-- Nothing of a directory changes if neither it nor its tables are written. -/
theorem Keeps.pte_eq (h : Keeps (d ::ₘ s.tables d) s s') (hn : n < NPAGES) :
    s'.pte d n = s.pte d n := by
  unfold Memory.pte
  rw [h d (Multiset.mem_cons_self ..)]
  cases hpde : s.tab d (n / NPTENTRIES) with
  | none => rfl
  | some pde =>
    have hi : n / NPTENTRIES < NPDENTRIES := by
      unfold NPAGES NPTENTRIES NPDENTRIES at *
      omega
    rw [Option.bind_some, Option.bind_some, h _ (Multiset.mem_cons_of_mem (mem_tables hi hpde))]

theorem tables_congr (h : s'.tab d = s.tab d) : s'.tables d = s.tables d := by
  unfold Memory.tables
  rw [h]

theorem user_congr (h : ∀ n < USERPAGES, s'.pte d n = s.pte d n) : s'.user d = s.user d :=
  held_congr fun n hn => by rw [h n (Finset.mem_range.1 hn)]

theorem userPages_le : USERPAGES ≤ NPAGES := by
  unfold USERPAGES NPAGES NPDENTRIES
  decide

theorem Keeps.pages_eq (h : Keeps (d ::ₘ s.tables d) s s') : s'.pages d = s.pages d := by
  unfold Memory.pages
  rw [tables_congr (h d (Multiset.mem_cons_self ..)),
    user_congr fun n hn => h.pte_eq (lt_of_lt_of_le hn userPages_le)]

section directory

variable (h : Owns m s (s.pages d + R))

include h

theorem Owns.nodup_dir : (d ::ₘ s.tables d + s.user d + R).Nodup :=
  (Multiset.nodup_add.1 h.nodup).2.1

/-- A page table is not the directory. -/
theorem Owns.table_ne {i : ℕ} {pde : Pte} (hi : i < NPDENTRIES) (hpde : s.tab d i = some pde) :
    pde.addr ≠ d := by
  intro heq
  have hnodup := (Multiset.nodup_add.1 (Multiset.nodup_add.1 h.nodup_dir).1).1
  have hmem := mem_tables hi hpde
  rw [heq] at hmem
  exact (Multiset.nodup_cons.1 hnodup).1 hmem

/-- No page table is used twice. -/
theorem Owns.table_inj {i j : ℕ} {pde pde' : Pte} (hi : i < NPDENTRIES) (hj : j < NPDENTRIES)
    (hpde : s.tab d i = some pde) (hpde' : s.tab d j = some pde')
    (heq : pde.addr = pde'.addr) : i = j := by
  have hnodup := (Multiset.nodup_add.1 (Multiset.nodup_add.1 h.nodup_dir).1).1
  refine slot_eq (Multiset.nodup_cons.1 hnodup).2 (Finset.mem_range.2 hi) (Finset.mem_range.2 hj)
    (b := pde.addr) ?_ ?_
  · rw [hpde, Option.map_some]
  · rw [hpde', Option.map_some, heq]

/-- What is in hand or held elsewhere is not part of the directory. -/
theorem Owns.not_dir (hp : p ∈ R) : p ∉ d ::ₘ s.tables d := by
  have hdisj := (Multiset.nodup_add.1 h.nodup_dir).2.2
  exact fun hmem => Multiset.disjoint_left.1 hdisj (Multiset.mem_add.2 (.inl hmem)) hp

/-- A user page is not part of the directory. -/
theorem Owns.user_not_dir (hp : p ∈ s.user d) : p ∉ d ::ₘ s.tables d := by
  have hdisj := (Multiset.nodup_add.1 (Multiset.nodup_add.1 h.nodup_dir).1).2.2
  exact fun hmem => Multiset.disjoint_left.1 hdisj hmem hp

/-- What is held elsewhere is none of the pages. -/
theorem Owns.not_rest (hp : p ∈ s.pages d) : p ∉ R :=
  fun hmem => Multiset.disjoint_left.1 (Multiset.nodup_add.1 h.nodup_dir).2.2 hp hmem

/-- **An entry is written**: the entry for page `n` and no other. -/
theorem Owns.pte_put {pde : Pte} (hn : n < NPAGES) (hpde : s.tab d (n / NPTENTRIES) = some pde)
    (e : Option Pte) (hk : k < NPAGES) :
    (s.put pde.addr (n % NPTENTRIES) e).pte d k = if k = n then e else s.pte d k := by
  have hlt : ∀ {k}, k < NPAGES → k / NPTENTRIES < NPDENTRIES := by
    intro k hk
    unfold NPAGES NPTENTRIES NPDENTRIES at *
    omega
  have hne := h.table_ne (hlt hn) hpde
  unfold Memory.pte Memory.put
  dsimp only
  rw [update_of_ne hne.symm]
  cases hpde' : s.tab d (k / NPTENTRIES) with
  | none =>
    rw [Option.bind_none, if_neg]
    · rfl
    · rintro rfl
      rw [hpde'] at hpde
      cases hpde
  | some pde' =>
    rw [Option.bind_some, Option.bind_some]
    rcases eq_or_ne pde'.addr pde.addr with heq | hneq
    · have hidx := h.table_inj (hlt hk) (hlt hn) hpde' hpde heq
      rw [heq, update_self]
      split
      next hkn => rw [hkn, update_self]
      next hkn =>
        refine update_of_ne (fun hmod => hkn ?_) ..
        rw [← Nat.div_add_mod k NPTENTRIES, ← Nat.div_add_mod n NPTENTRIES, hidx, hmod]
    · rw [update_of_ne hneq, if_neg]
      rintro rfl
      rw [hpde] at hpde'
      cases hpde'
      exact hneq rfl

/-- The directory itself is not written then. -/
theorem Owns.tab_put {pde : Pte} (hn : n < NPAGES)
    (hpde : s.tab d (n / NPTENTRIES) = some pde) (e : Option Pte) :
    (s.put pde.addr (n % NPTENTRIES) e).tab d = s.tab d := by
  have hi : n / NPTENTRIES < NPDENTRIES := by
    unfold NPAGES NPTENTRIES NPDENTRIES at *
    omega
  exact update_of_ne (h.table_ne hi hpde).symm ..

end directory

end Vm
end Xv6
