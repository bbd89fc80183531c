/-
# Page contents under `allocuvm` and `deallocuvm`

The loops of `allocuvm` and `deallocuvm` (`xv6/vm.c`, lines 219-279) write the
directory, its tables, the pages they take from the free list and the pages they
give back.  A page that one of the first entries maps is none of these, for every
page is held once (`Owns`), and so its bytes are what they were.
-/

import Xv6.Vm.Calls
import Xv6.Vm.Store

namespace Xv6
namespace Vm

open Lib

variable {m : Machine} {s s' : Memory} {st st' : Store} {d b n p q oldsz newsz fuel : ℕ}
  {R : Multiset ℕ}

/-- One of the first `b` entries of a directory maps `p`. -/
def Kept (s : Memory) (d b p : ℕ) : Prop :=
  ∃ k e, k < b ∧ k < USERPAGES ∧ s.pte d k = some e ∧ e.addr = p

theorem Kept.congr (h : Kept s d b p) (hsame : ∀ k < NPAGES, k < b → s'.pte d k = s.pte d k) :
    Kept s' d b p := by
  obtain ⟨k, e, hkb, hk, he, hp⟩ := h
  exact ⟨k, e, hkb, hk, by rw [hsame k (lt_of_lt_of_le hk userPages_le) hkb, he], hp⟩

theorem Kept.mem_user (h : Kept s d b p) : p ∈ s.user d := by
  obtain ⟨k, e, -, hk, he, rfl⟩ := h
  exact Vm.mem_user hk he

section kept

variable (h : Owns m s (s.pages d + R)) (hp : Kept s d b p)

include h hp

theorem Owns.kept_ne_free (hq : q ∈ s.free) : p ≠ q := by
  rintro rfl
  refine Multiset.disjoint_left.1 (Multiset.nodup_add.1 h.nodup).2.2 (Multiset.mem_coe.2 hq) ?_
  exact Multiset.mem_add.2 (.inl (Multiset.mem_add.2 (.inr hp.mem_user)))

theorem Owns.kept_ne_dir : p ≠ d := by
  rintro rfl
  exact h.user_not_dir hp.mem_user (Multiset.mem_cons_self ..)

theorem Owns.kept_ne_table {i : ℕ} {pde : Pte} (hi : i < NPDENTRIES)
    (hpde : s.tab d i = some pde) : p ≠ pde.addr := by
  rintro rfl
  exact h.user_not_dir hp.mem_user (Multiset.mem_cons_of_mem (mem_tables hi hpde))

/-- A later entry maps another page. -/
theorem Owns.kept_ne_page {e : Pte} (hbn : b ≤ n) (hn : n < USERPAGES)
    (he : s.pte d n = some e) : p ≠ e.addr := by
  obtain ⟨k, e', hkb, hk, he', rfl⟩ := hp
  intro heq
  have hnodup := (Multiset.nodup_add.1 (Multiset.nodup_add.1 h.nodup_dir).1).2.1
  have hkn : k = n := by
    refine slot_eq hnodup (Finset.mem_range.2 hk) (Finset.mem_range.2 hn) (b := e.addr) ?_ ?_
    · rw [he', Option.map_some, heq]
    · rw [he, Option.map_some]
  omega

end kept

/-! ### What is written -/

theorem kalloc_data (st : Store) : st.kalloc.2.data = st.data := by
  unfold Store.kalloc
  split
  · rfl
  · split <;> rfl

theorem kalloc_mem_free (h : st.kalloc.1 = some q) : q ∈ st.free := by
  unfold Store.kalloc at h
  split at h
  · cases h
  · split at h
    · cases h
    next hq =>
      cases h
      exact List.mem_of_mem_head? hq

theorem zero_data (st : Store) (hne : p ≠ q) : (st.zero q).data p = st.data p :=
  Function.update_of_ne hne ..

theorem put_data (st : Store) (i w : ℕ) (hne : p ≠ q) : (st.put q i w).data p = st.data p :=
  Function.update_of_ne hne ..

theorem kfree_data (hrun : st.kfree m q = .ok st') (hne : p ≠ q) : st'.data p = st.data p := by
  unfold Store.kfree at hrun
  split at hrun
  · cases hrun
  · cases hrun
    exact Function.update_of_ne hne ..

/-- **`kalloc`** beside a directory, and the page is cleared. -/
theorem Owns.kalloc_zero (h : Owns m st.toMemory (st.pages d + R)) :
    (∃ st₁, st.kalloc = (none, st₁) ∧ Owns m st₁.toMemory (st₁.pages d + R) ∧
      SamePtes d st.toMemory st₁.toMemory ∧ st₁.data = st.data) ∨
    ∃ q st₁, st.kalloc = (some q, st₁) ∧ q ∈ st.free ∧ PGSIZE ∣ q ∧ q < 2 ^ 32 ∧
      Owns m (st₁.zero q).toMemory ((st₁.zero q).pages d + (q ::ₘ R)) ∧
      SamePtes d st.toMemory (st₁.zero q).toMemory ∧
      ∀ p ≠ q, (st₁.zero q).data p = st.data p := by
  have hproj := toMemory_kalloc st
  have hpage := @kalloc_aligned st
  have hmem := @kalloc_mem_free st
  have hdata := kalloc_data st
  rcases hst : st.kalloc with ⟨o, st₁⟩
  rw [hst] at hproj hpage hmem hdata
  rcases h.kalloc_page with ⟨s₁, hk, hown, hsame, -⟩ | ⟨q, s₁, hk, -, hscribble⟩
  · rw [hk] at hproj
    cases hproj
    exact .inl ⟨st₁, rfl, hown, hsame, hdata⟩
  · rw [hk] at hproj
    cases hproj
    obtain ⟨hown, hsame, -⟩ := hscribble (fun _ => none) (st₁.zero q).toMemory rfl
    refine .inr ⟨q, st₁, rfl, hmem rfl, (hpage rfl).1, (hpage rfl).2, hown, hsame,
      fun p hne => ?_⟩
    rw [zero_data st₁ hne]
    exact congrFun hdata p

theorem Owns.walkpgdir_data (h : Owns m st.toMemory (st.pages d + R))
    (hp : Kept st.toMemory d b p) (a : ℕ) (alloc : Bool) :
    (st.walkpgdir d a alloc).2.data p = st.data p := by
  have hmem := @kalloc_mem_free st
  have hdata := kalloc_data st
  unfold Store.walkpgdir
  cases st.tab d (PDX a) with
  | some pde => rfl
  | none =>
    cases alloc with
    | false => rfl
    | true =>
      dsimp only
      rw [if_pos rfl]
      generalize st.kalloc = x at hmem hdata ⊢
      rcases x with ⟨_ | q, st₁⟩
      · exact congrFun hdata p
      · dsimp only
        rw [put_data _ _ _ (h.kept_ne_dir hp), zero_data _ (h.kept_ne_free hp (hmem rfl))]
        exact congrFun hdata p

/-- **A single page is mapped**, and no page that is kept is written. -/
theorem Owns.mappages_data (h : Owns m st.toMemory (st.pages d + (grip n q + R)))
    (hn : n < NPAGES) (hnone : st.pte d n = none) (hpage : PGSIZE ∣ q) (hlt : q < 2 ^ 32)
    (perm : Flags) :
    ∃ ok st', st.mappages d (n * PGSIZE) PGSIZE q perm = .ok (ok, st') ∧
      Mapped m d R n q perm st.toMemory ok st'.toMemory ∧
      ∀ b p, Kept st.toMemory d b p → st'.data p = st.data p := by
  obtain ⟨ok, s', hok, hmapped⟩ := h.mappages hn hnone perm
  rw [← drop_mappages st hpage hlt] at hok
  obtain ⟨⟨ok', st'⟩, hrun, heq⟩ := map_eq_ok hok
  cases heq
  refine ⟨ok', st', hrun, hmapped, fun b p hp => ?_⟩
  have hone : st.mappages d (n * PGSIZE) PGSIZE q perm = st.mapPage d (n * PGSIZE) q perm := by
    have hturns := mapTurns (c := 0) hn
    rw [Nat.zero_add, Nat.one_mul] at hturns
    unfold Store.mappages
    dsimp only
    rw [PGROUNDDOWN_mul, hturns, Store.mapLoop]
  rw [hone] at hrun
  unfold Store.mapPage at hrun
  have hwalk := h.walkpgdir_data hp (n * PGSIZE) true
  have hproj := toMemory_walkpgdir st d (n * PGSIZE) true
  rcases hst : st.walkpgdir d (n * PGSIZE) true with ⟨o, st₁⟩
  rw [hst] at hwalk hproj hrun
  rcases h.walkpgdir hn with ⟨s₁, hw, -⟩ | ⟨pde, s₁, hw, hpde, hown, hsame, -⟩
  · rw [hw] at hproj
    cases hproj
    cases hrun
    exact hwalk
  · rw [hw] at hproj
    cases hproj
    dsimp only at hrun
    split at hrun
    · cases hrun
    · cases hrun
      have hp₁ : Kept st₁.toMemory d b p := hp.congr fun k hk _ => hsame k hk
      rw [put_data _ _ _ (hown.kept_ne_table hp₁ (div_lt hn) hpde)]
      exact hwalk

/-! ### The loops -/

/-- **The loop of `deallocuvm`** does not write what the entries before it map. -/
theorem Owns.deallocLoop_data (h : Owns m st.toMemory (st.pages d + R)) (hsz : oldsz ≤ KERNBASE)
    (hp : Kept st.toMemory d b p) (hbn : b ≤ n)
    (hrun : Store.deallocLoop m d oldsz fuel (n * PGSIZE) st = .ok st') :
    st'.data p = st.data p := by
  induction fuel generalizing n st with
  | zero =>
    cases hrun
    rfl
  | succ fuel ih =>
    have hstep : n * PGSIZE + PGSIZE = (n + 1) * PGSIZE := (Nat.succ_mul ..).symm
    unfold Store.deallocLoop at hrun
    split at hrun
    next hlt =>
      have hn := page_lt_userPages hlt hsz
      have hn' := lt_of_lt_of_le hn userPages_le
      unfold Store.walkpgdir at hrun
      rw [PDX_mul hn', PTX_mul, hstep] at hrun
      cases hpde : st.tab d (n / NPTENTRIES) with
      | none =>
        rw [hpde] at hrun
        simp only [Bool.false_eq_true, if_false] at hrun
        rw [next_table hn] at hrun
        exact ih h hp (le_trans hbn (Nat.le_of_succ_le (lt_next_table n))) hrun
      | some pde =>
        rw [hpde] at hrun
        dsimp only at hrun
        rw [← pte_eq hpde] at hrun
        cases he : st.pte d n with
        | none =>
          rw [he] at hrun
          exact ih h hp (Nat.le_succ_of_le hbn) hrun
        | some e =>
          rw [he] at hrun
          dsimp only at hrun
          split at hrun
          · cases hrun
          obtain ⟨st₁, hfree, hrest⟩ := bind_eq_ok.1 hrun
          obtain ⟨s₁, s₂, hfree', rfl, hown, -, -, hptes⟩ := h.unmap hn hpde he
          have hs₁ : st₁.toMemory = s₁ := by
            rw [← toMemory_kfree, hfree] at hfree'
            exact Except.ok.inj hfree'
          subst hs₁
          have hp₁ : Kept (st₁.put pde.addr (n % NPTENTRIES) 0).toMemory d b p := by
            refine hp.congr fun k hk hkb => (hptes k hk).trans (if_neg ?_)
            omega
          rw [ih hown hp₁ (Nat.le_succ_of_le hbn) hrest,
            put_data _ _ _ (h.kept_ne_table hp (div_lt hn') hpde),
            kfree_data hfree (h.kept_ne_page hp hbn hn he)]
    · cases hrun
      rfl

theorem Owns.deallocuvm_data {r : ℕ} (h : Owns m st.toMemory (st.pages d + R))
    (hsz : oldsz ≤ KERNBASE) (hp : Kept st.toMemory d b p)
    (hb : b ≤ (newsz + (PGSIZE - 1)) / PGSIZE)
    (hrun : st.deallocuvm m d oldsz newsz = .ok (r, st')) : st'.data p = st.data p := by
  unfold Store.deallocuvm at hrun
  split at hrun
  · cases hrun
    rfl
  · obtain ⟨st₁, hloop, hret⟩ := bind_eq_ok.1 hrun
    cases hret
    rw [PGROUNDUP_eq (by omega)] at hloop
    exact h.deallocLoop_data hsz hp hb hloop

/-- **The loop of `allocuvm`** does not write what the entries before it map. -/
theorem Owns.allocLoop_data {ok : Bool} (h : Owns m st.toMemory (st.pages d + R))
    (hnew : newsz < KERNBASE) (hp : Kept st.toMemory d b p)
    (hb : b ≤ (oldsz + (PGSIZE - 1)) / PGSIZE) (hbn : b ≤ n)
    (hnone : ∀ k < USERPAGES, n ≤ k → st.pte d k = none)
    (hrun : Store.allocLoop m d oldsz newsz fuel (n * PGSIZE) st = .ok (ok, st')) :
    st'.data p = st.data p := by
  induction fuel generalizing n st with
  | zero =>
    cases hrun
    rfl
  | succ fuel ih =>
    unfold Store.allocLoop at hrun
    split at hrun
    next hlt =>
      have hle := Nat.le_of_lt hnew
      have hn := page_lt_userPages hlt hle
      have hn' := lt_of_lt_of_le hn userPages_le
      have hgrip : ∀ q, grip n q = {q} := fun q => if_pos hn
      rcases h.kalloc_zero with ⟨st₁, hk, hown, hsame, hdata⟩ |
        ⟨q, st₁, hk, hq, hpage, hq32, hown, hsame, hdata⟩
      · rw [hk] at hrun
        obtain ⟨⟨r, st₂⟩, hdealloc, hret⟩ := bind_eq_ok.1 hrun
        cases hret
        rw [hown.deallocuvm_data hle (hp.congr fun k hk _ => hsame k hk) hb hdealloc, hdata]
      · have hpq := h.kept_ne_free hp hq
        have hp₁ : Kept (st₁.zero q).toMemory d b p := hp.congr fun k hk _ => hsame k hk
        have hown' : Owns m (st₁.zero q).toMemory
            ((st₁.zero q).pages d + (grip n q + R)) := by
          rwa [hgrip, Multiset.singleton_add]
        have hnone₁ : (st₁.zero q).pte d n = none :=
          (hsame n hn').trans (hnone n hn (Nat.le_refl n))
        obtain ⟨ok₁, st₂, hmap, hmapped, hdata₂⟩ :=
          hown'.mappages_data hn' hnone₁ hpage hq32 ⟨true, true⟩
        have hdata' : st₂.data p = st.data p := (hdata₂ b p hp₁).trans (hdata p hpq)
        rw [hk] at hrun
        dsimp only at hrun
        rw [hmap, ok_bind] at hrun
        cases ok₁ with
        | true =>
          obtain ⟨hown₂, hptes⟩ := hmapped.done rfl
          dsimp only at hrun
          rw [if_pos rfl, ← Nat.succ_mul] at hrun
          rw [← hdata']
          refine ih hown₂ (hp₁.congr fun k hk hkb => ?_) (Nat.le_succ_of_le hbn)
            (fun k hk hkn => ?_) hrun
          · rw [hptes k hk, if_neg (by omega)]
          · rw [hptes k (lt_of_lt_of_le hk userPages_le), if_neg (by omega),
              hsame k (lt_of_lt_of_le hk userPages_le), hnone k hk (by omega)]
        | false =>
          obtain ⟨hown₂, hsame₂⟩ := hmapped.failed rfl
          have hp₂ : Kept st₂.toMemory d b p := hp₁.congr fun k hk _ => hsame₂ k hk
          dsimp only at hrun
          rw [if_neg (by simp)] at hrun
          obtain ⟨⟨r, st₃⟩, hdealloc, hrest⟩ := bind_eq_ok.1 hrun
          obtain ⟨st₄, hfree, hret⟩ := bind_eq_ok.1 hrest
          cases hret
          rw [kfree_data hfree hpq, hown₂.deallocuvm_data hle hp₂ hb hdealloc, hdata']
    · cases hrun
      rfl

theorem Owns.allocuvm_data {r : ℕ} (h : Owns m st.toMemory (st.pages d + R))
    (hspans : st.Spans d oldsz) (hold : oldsz ≤ KERNBASE)
    (hp : Kept st.toMemory d ((oldsz + (PGSIZE - 1)) / PGSIZE) p)
    (hrun : st.allocuvm m d oldsz newsz = .ok (r, st')) : st'.data p = st.data p := by
  unfold Store.allocuvm at hrun
  split at hrun
  · cases hrun
    rfl
  · split at hrun
    · cases hrun
      rfl
    · obtain ⟨⟨ok, st₁⟩, hloop, hret⟩ := bind_eq_ok.1 hrun
      cases hret
      rw [PGROUNDUP_eq hold] at hloop
      exact h.allocLoop_data (by omega) hp (Nat.le_refl _) (Nat.le_refl _)
        (fun k hk => hspans.pte_none hk) hloop

end Vm
end Xv6
