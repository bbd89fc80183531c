/-
# Freeing pages

`deallocuvm` and `freevm` (`xv6/vm.c`, lines 251-298).  `deallocuvm` skips the rest
of a directory entry that is absent, where nothing is mapped, and frees every page
that is mapped in its range once; `freevm` then frees the tables, which hold no user
pages any more, and the directory.
-/

import Xv6.Lib.Run
import Xv6.Vm.Map

namespace Xv6
namespace Vm

open Lib Function

variable {m : Machine} {s s' : Memory} {d n k p : ℕ} {Q R : Multiset ℕ}

/-- **A page is freed and its entry cleared.** -/
theorem Owns.unmap {pde e : Pte} (h : Owns m s (s.pages d + R)) (hn : n < USERPAGES)
    (hpde : s.tab d (n / NPTENTRIES) = some pde) (he : s.pte d n = some e) :
    ∃ s₁ s₂, s.kfree m e.addr = .ok s₁ ∧ s₁.put pde.addr (n % NPTENTRIES) none = s₂ ∧
      Owns m s₂ (s₂.pages d + R) ∧ Keeps R s s₂ ∧ s₂.tab d = s.tab d ∧
      ∀ k < NPAGES, s₂.pte d k = if k = n then none else s.pte d k := by
  have hn' := lt_of_lt_of_le hn userPages_le
  have hput := fun k hk => h.pte_put (k := k) hn' hpde none hk
  have htables := h.tab_put hn' hpde none
  have hpages : s.pages d =
      e.addr ::ₘ (s.put pde.addr (n % NPTENTRIES) none).pages d := by
    have huser : s.user d = e.addr ::ₘ (s.put pde.addr (n % NPTENTRIES) none).user d := by
      refine held_fill (Finset.mem_range.2 hn) (by rw [hput n hn', if_pos rfl, Option.map_none])
        (by rw [he, Option.map_some]) fun k hk hne => ?_
      rw [hput k (lt_of_lt_of_le (Finset.mem_range.1 hk) userPages_le), if_neg hne]
    rw [Memory.pages, Memory.pages, huser, tables_congr htables, Multiset.add_cons]
  have hnot := h.user_not_dir (mem_user hn he)
  have hpde' : pde.addr ∈ d ::ₘ s.tables d :=
    Multiset.mem_cons_of_mem (mem_tables (div_lt hn') hpde)
  obtain ⟨s₁, hfree, hown, htab⟩ := (h.congr (by rw [hpages, Multiset.cons_add])).kfree
  -- the freed page is neither the directory nor one of its tables
  have hkeep : Keeps (d ::ₘ s.tables d) (s.put pde.addr (n % NPTENTRIES) none)
      (s₁.put pde.addr (n % NPTENTRIES) none) := by
    intro q hq
    have hne : ∀ {q}, q ∈ d ::ₘ s.tables d → q ≠ e.addr := fun hq heq => hnot (heq ▸ hq)
    unfold Memory.put
    dsimp only
    rw [htab, update_of_ne (hne hpde')]
    rcases eq_or_ne q pde.addr with rfl | hqp
    · rw [update_self, update_self]
    · rw [update_of_ne hqp, update_of_ne hqp, update_of_ne (hne hq)]
  rw [← tables_congr htables] at hkeep
  refine ⟨s₁, _, hfree, rfl, ⟨?_, hown.once⟩, fun q hq => ?_, ?_, fun k hk => ?_⟩
  · rw [hkeep.pages_eq]
    exact hown.split
  · have hmem : e.addr ∈ s.pages d := Multiset.mem_add.2 (.inr (mem_user hn he))
    have hq₁ : q ≠ e.addr := fun heq => h.not_rest hmem (heq ▸ hq)
    have hq₂ : q ≠ pde.addr := fun heq =>
      h.not_rest (Multiset.mem_add.2 (.inl hpde')) (heq ▸ hq)
    unfold Memory.put
    dsimp only
    rw [update_of_ne hq₂, htab, update_of_ne hq₁]
  · rw [hkeep d (Multiset.mem_cons_self ..), htables]
  · rw [hkeep.pte_eq hk, hput k hk]

/-! ### `deallocuvm` -/

/-- The entries for the pages from `n` to `sz` were cleared. -/
structure Cleared (m : Machine) (d : ℕ) (R : Multiset ℕ) (n sz : ℕ) (s s' : Memory) : Prop where
  owns : Owns m s' (s'.pages d + R)
  keeps : Keeps R s s'
  tab : s'.tab d = s.tab d
  ptes : ∀ k < NPAGES, s'.pte d k = if n ≤ k ∧ k * PGSIZE < sz then none else s.pte d k

/-- The loop has come to page `n'`, and there is nothing mapped between. -/
theorem Cleared.skip {n' sz : ℕ} (h : Cleared m d R n' sz s s') (hle : n ≤ n')
    (hnone : ∀ k < NPAGES, n ≤ k → k < n' → s.pte d k = none) : Cleared m d R n sz s s' := by
  refine ⟨h.owns, h.keeps, h.tab, fun k hk => ?_⟩
  rw [h.ptes k hk]
  by_cases hlt : k < n'
  · rw [if_neg fun hc => Nat.not_le.2 hlt hc.1]
    split
    next hc => exact hnone k hk hc.1 hlt
    · rfl
  · simp only [Nat.not_lt.1 hlt, le_trans hle (Nat.not_lt.1 hlt), true_and]

/-- There is nothing to clear. -/
theorem Owns.cleared {sz : ℕ} (h : Owns m s (s.pages d + R)) (hle : sz ≤ n * PGSIZE) :
    Cleared m d R n sz s s := by
  refine ⟨h, fun _ _ => rfl, rfl, fun k _ => ?_⟩
  rw [if_neg]
  rintro ⟨hnk, hk⟩
  exact absurd (Nat.mul_le_mul_right PGSIZE hnk) (by omega)

/-- Where the loop goes on if an entry of the directory is absent. -/
theorem next_table (hn : n < USERPAGES) : (n / NPTENTRIES + 1) * 2 ^ 22 % 2 ^ 32 =
    (n / NPTENTRIES + 1) * NPTENTRIES * PGSIZE := by
  unfold USERPAGES KERNBASE at hn
  unfold NPTENTRIES PGSIZE at *
  omega

theorem lt_next_table (n : ℕ) : n + 1 ≤ (n / NPTENTRIES + 1) * NPTENTRIES := by
  unfold NPTENTRIES
  omega

theorem page_lt_userPages {sz : ℕ} (hlt : n * PGSIZE < sz) (hsz : sz ≤ KERNBASE) :
    n < USERPAGES := by
  unfold USERPAGES KERNBASE PGSIZE at *
  omega

/-- **The loop of `deallocuvm`.** -/
theorem Owns.deallocLoop {oldsz fuel : ℕ} (h : Owns m s (s.pages d + R)) (hsz : oldsz ≤ KERNBASE)
    (hfuel : oldsz ≤ (n + fuel) * PGSIZE) :
    ∃ s', Memory.deallocLoop m d oldsz fuel (n * PGSIZE) s = .ok s' ∧
      Cleared m d R n oldsz s s' := by
  induction fuel generalizing n s with
  | zero => exact ⟨s, rfl, h.cleared hfuel⟩
  | succ fuel ih =>
    unfold Memory.deallocLoop
    split
    next hlt =>
      have hn := page_lt_userPages hlt hsz
      have hn' := lt_of_lt_of_le hn userPages_le
      have hstep : n * PGSIZE + PGSIZE = (n + 1) * PGSIZE := (Nat.succ_mul ..).symm
      have hfuel' : ∀ n', n + 1 ≤ n' → oldsz ≤ (n' + fuel) * PGSIZE := fun n' hn' =>
        le_trans hfuel (Nat.mul_le_mul_right _ (by omega))
      unfold Memory.walkpgdir
      rw [PDX_mul hn', PTX_mul]
      cases hpde : s.tab d (n / NPTENTRIES) with
      | none =>
        -- nothing is mapped up to the next entry of the directory
        have hle := lt_next_table n
        obtain ⟨s', hok, hcleared⟩ := ih h (hfuel' _ hle)
        simp only [Bool.false_eq_true, if_false]
        rw [next_table hn]
        refine ⟨s', hok, hcleared.skip (Nat.le_of_succ_le hle) fun k _ hnk hk => ?_⟩
        have hidx : k / NPTENTRIES = n / NPTENTRIES := by
          unfold NPTENTRIES at *
          omega
        rw [Memory.pte, hidx, hpde, Option.bind_none]
      | some pde =>
        dsimp only
        rw [← pte_eq hpde]
        cases he : s.pte d n with
        | none =>
          obtain ⟨s', hok, hcleared⟩ := ih h (hfuel' _ (Nat.le_refl _))
          dsimp only
          rw [hstep]
          refine ⟨s', hok, hcleared.skip (Nat.le_succ n) fun k _ hnk hk => ?_⟩
          obtain rfl : k = n := by omega
          exact he
        | some e =>
          have hpos : e.addr ≠ 0 :=
            h.pos (Multiset.mem_add.2 (.inl (Multiset.mem_add.2 (.inr (mem_user hn he)))))
          obtain ⟨s₁, s₂, hfree, hput, hown, hkeep, htab, hptes⟩ := h.unmap hn hpde he
          obtain ⟨s', hok, hcleared⟩ := ih hown (hfuel' _ (Nat.le_refl _))
          dsimp only
          rw [if_neg hpos, hfree, ok_bind, hput, hstep]
          refine ⟨s', hok, hcleared.owns, hkeep.trans hcleared.keeps, hcleared.tab.trans htab,
            fun k hk => ?_⟩
          rw [hcleared.ptes k hk, hptes k hk]
          rcases eq_or_ne k n with rfl | hne
          · rw [if_pos rfl, ite_self, if_pos ⟨Nat.le_refl k, hlt⟩]
          · rw [if_neg hne]
            refine if_congr ⟨fun hc => ⟨by omega, hc.2⟩, fun hc => ⟨by omega, hc.2⟩⟩ rfl rfl
    next hge => exact ⟨s, rfl, h.cleared (Nat.not_lt.1 hge)⟩

theorem PGROUNDUP_eq {sz : ℕ} (hsz : sz ≤ KERNBASE) :
    PGROUNDUP sz = (sz + (PGSIZE - 1)) / PGSIZE * PGSIZE := by
  have hlt : sz + (PGSIZE - 1) < 2 ^ 32 := by
    unfold KERNBASE PGSIZE at *
    omega
  rw [PGROUNDUP, Nat.mod_eq_of_lt hlt]

/-- A page lies below a size if its number is below the number of pages. -/
theorem page_lt_iff (sz : ℕ) : n * PGSIZE < sz ↔ n < (sz + (PGSIZE - 1)) / PGSIZE := by
  unfold PGSIZE
  omega

/-- **`deallocuvm`** clears the entries for the pages above the new size. -/
theorem Owns.deallocuvm {oldsz : ℕ} (h : Owns m s (s.pages d + R)) (hsz : oldsz ≤ KERNBASE)
    (newsz : ℕ) :
    ∃ s', s.deallocuvm m d oldsz newsz = .ok (min oldsz newsz, s') ∧
      Cleared m d R ((newsz + (PGSIZE - 1)) / PGSIZE) oldsz s s' := by
  unfold Memory.deallocuvm
  split
  next hle =>
    rw [Nat.min_eq_left hle]
    refine ⟨s, rfl, h.cleared ?_⟩
    unfold PGSIZE
    omega
  next hgt =>
    have hnew : newsz ≤ KERNBASE := by omega
    rw [PGROUNDUP_eq hnew, Nat.min_eq_right (by omega)]
    have hfuel : oldsz ≤
        ((newsz + (PGSIZE - 1)) / PGSIZE + (oldsz / PGSIZE + 1)) * PGSIZE := by
      unfold PGSIZE
      omega
    obtain ⟨s', hok, hcleared⟩ := h.deallocLoop hsz hfuel
    rw [hok, ok_bind]
    exact ⟨s', rfl, hcleared⟩

/-! ### `freevm` -/

/-- The page tables from entry `i` of the directory on. -/
def Memory.tablesFrom (s : Memory) (d i : ℕ) : Multiset ℕ :=
  held (Finset.Ico i NPDENTRIES) fun j => (s.tab d j).map Pte.addr

theorem tablesFrom_zero : s.tablesFrom d 0 = s.tables d := by
  rw [Memory.tablesFrom, ← Finset.range_eq_Ico, Memory.tables]

theorem tablesFrom_end : s.tablesFrom d NPDENTRIES = 0 := by
  rw [Memory.tablesFrom, held, Finset.Ico_self, Finset.sum_empty]

theorem tablesFrom_succ {i : ℕ} (hi : i < NPDENTRIES) :
    s.tablesFrom d i = content ((s.tab d i).map Pte.addr) + s.tablesFrom d (i + 1) :=
  Finset.sum_eq_sum_Ico_succ_bot hi _

/-- **A turn of the loop of `freevm`.** -/
theorem Owns.freeTable {i : ℕ} (h : Owns m s (d ::ₘ s.tablesFrom d i + R)) (hi : i < NPDENTRIES) :
    ∃ s', Memory.freeTable m d s i = .ok s' ∧ Owns m s' (d ::ₘ s'.tablesFrom d (i + 1) + R) ∧
      Keeps (d ::ₘ R) s s' := by
  unfold Memory.freeTable
  rw [tablesFrom_succ hi] at h
  cases hpde : s.tab d i with
  | none =>
    rw [hpde, Option.map_none, content_none, zero_add] at h
    exact ⟨s, rfl, h, fun _ _ => rfl⟩
  | some pde =>
    rw [hpde, Option.map_some, content_some, Multiset.singleton_add, Multiset.cons_swap,
      Multiset.cons_add] at h
    obtain ⟨s', hfree, hown, htab⟩ := h.kfree
    have hnot := (Multiset.nodup_cons.1 (Multiset.nodup_add.1 h.nodup).2.1).1
    rw [Multiset.mem_add, not_or, Multiset.mem_cons, not_or] at hnot
    have hkeep : Keeps (d ::ₘ R) s s' := by
      refine keeps_update ?_ htab
      rw [Multiset.mem_cons, not_or]
      exact ⟨hnot.1.1, hnot.2⟩
    have hrest : s'.tablesFrom d (i + 1) = s.tablesFrom d (i + 1) := by
      unfold Memory.tablesFrom
      rw [hkeep d (Multiset.mem_cons_self ..)]
    exact ⟨s', hfree, hrest ▸ hown, hkeep⟩

/-- **`freevm`** frees all pages of the directory. -/
theorem Owns.freevm (h : Owns m s (s.pages d + R)) :
    ∃ s', s.freevm m d = .ok s' ∧ Owns m s' R ∧ Keeps R s s' := by
  have hd : d ∈ s.pages d := Multiset.mem_add.2 (.inl (Multiset.mem_cons_self ..))
  unfold Memory.freevm
  rw [if_neg (h.pos (Multiset.mem_add.2 (.inl hd)))]
  obtain ⟨s₁, hok₁, hcleared⟩ := h.deallocuvm (Nat.le_refl KERNBASE) 0
  -- no user page is left
  have huser : s₁.user d = 0 := by
    refine held_eq_zero fun k hk => ?_
    have hk' := Finset.mem_range.1 hk
    rw [hcleared.ptes k (lt_of_lt_of_le hk' userPages_le), if_pos, Option.map_none]
    unfold USERPAGES KERNBASE PGSIZE at *
    omega
  have hown₁ : Owns m s₁ (d ::ₘ s₁.tablesFrom d 0 + R) := by
    rw [tablesFrom_zero]
    exact hcleared.owns.congr (by rw [Memory.pages, huser, add_zero])
  obtain ⟨s₂, hok₂, hown₂, hkeep₂⟩ := exists_foldlM_range NPDENTRIES
    (I := fun i t => Owns m t (d ::ₘ t.tablesFrom d i + R) ∧ Keeps (d ::ₘ R) s₁ t)
    ⟨hown₁, fun _ _ => rfl⟩ fun i hi t ht => by
      obtain ⟨t', hfree, hown, hkeep⟩ := ht.1.freeTable hi
      exact ⟨t', hfree, hown, ht.2.trans hkeep⟩
  rw [tablesFrom_end, Multiset.cons_add, zero_add] at hown₂
  obtain ⟨s₃, hok₃, hown₃, htab⟩ := hown₂.kfree
  refine ⟨s₃, ?_, hown₃, (hcleared.keeps.trans (hkeep₂.mono (Multiset.le_cons_self R d))).trans
    (keeps_update (h.not_rest hd) htab)⟩
  rw [hok₁, ok_bind]
  dsimp only
  rw [hok₂, ok_bind, hok₃]

end Vm
end Xv6
