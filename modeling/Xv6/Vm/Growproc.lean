/-
# `growproc`

`growproc` (`xv6/proc.c`, lines 235-254) changes the size of a process by `n`
bytes.  A call is all or nothing where `sz + n` is positive, or `n` is not negative,
or there is nothing to give back: then it reaches the size `sz + n` and keeps the
bytes below, or returns -1 and changes nothing.

In the other cases it is not.  `deallocuvm` returns the new size, and 0 is also what
stands for a failure: giving back all of the memory returns -1, with the pages gone
and the size as it was.  Giving back more than all of it wraps `sz + n` round to a
size above the old one; `deallocuvm` then does nothing and `growproc` returns 0.
-/

import Xv6.Vm.Contents

namespace Xv6
namespace Vm

open Lib

variable {m : Machine} {s : Memory} {st st' : Store} {d sz v : ℕ} {n : ℤ} {R : Multiset ℕ}

/-- The byte that a user finds at an address. -/
def Store.userByte (st : Store) (d v : ℕ) : Option Byte :=
  (st.pte d (v / PGSIZE)).map fun e => st.data e.addr (v % PGSIZE)

/-- All or nothing: what `growproc(n)` returns, and the size and the store it leaves. -/
structure AllOrNothing (d sz : ℕ) (n : ℤ) (st : Store) (code : ℤ) (sz' : ℕ) (st' : Store) :
    Prop where
  outcome :
    (code = 0 ∧ (sz' : ℤ) = sz + n ∧ st'.Spans d sz' ∧
      ∀ v < min sz sz', st'.userByte d v = st.userByte d v) ∨
    (code = -1 ∧ sz' = sz ∧ (∀ k < USERPAGES, st'.pte d k = st.pte d k) ∧
      ∀ v < KERNBASE, st'.userByte d v = st.userByte d v)
  refused : (sz : ℤ) + n < 0 ∨ (KERNBASE : ℤ) ≤ sz + n → code = -1

/-- A process cannot have every page below `KERNBASE`, for there is less memory. -/
theorem Owns.size_lt (h : Owns m s (s.pages d + R)) (hspans : s.Spans d sz) : sz < KERNBASE := by
  by_contra hge
  have hall : ∀ k ∈ Finset.range USERPAGES, ((s.pte d k).map Pte.addr).isSome := by
    intro k hk
    have hk := Finset.mem_range.1 hk
    rw [Option.isSome_map, hspans k hk]
    unfold USERPAGES KERNBASE PGSIZE at *
    omega
  have huser : (s.user d).card = USERPAGES := (card_held_eq hall).trans (Finset.card_range _)
  have hcard := congrArg Multiset.card h.split
  rw [Multiset.card_add, Multiset.coe_card, Multiset.coe_card, Memory.pages, Multiset.card_add,
    Multiset.card_add, huser, Machine.pages, List.length_map, List.length_range] at hcard
  unfold USERPAGES KERNBASE PHYSTOP PGSIZE at hcard
  omega

/-- The page of an address is kept, with its bytes. -/
theorem userByte_eq (hpte : st'.pte d (v / PGSIZE) = st.pte d (v / PGSIZE))
    (hdata : ∀ e, st.pte d (v / PGSIZE) = some e → st'.data e.addr = st.data e.addr) :
    st'.userByte d v = st.userByte d v := by
  unfold Store.userByte
  rw [hpte]
  cases he : st.pte d (v / PGSIZE) with
  | none => rfl
  | some e => rw [Option.map_some, Option.map_some, hdata e he]

theorem div_lt_userPages (hv : v < KERNBASE) : v / PGSIZE < USERPAGES := by
  unfold USERPAGES KERNBASE PGSIZE at *
  omega

theorem page_below (hv : v < sz) : v / PGSIZE * PGSIZE < sz :=
  Nat.lt_of_le_of_lt (Nat.div_mul_le_self v PGSIZE) hv

/-- **`allocuvm`** with the bytes: nothing below the old size changes. -/
theorem Owns.grow (h : Owns m st.toMemory (st.pages d + R)) (hspans : st.Spans d sz)
    (newsz : ℕ) :
    ∃ r st', st.allocuvm m d sz newsz = .ok (r, st') ∧ Owns m st'.toMemory (st'.pages d + R) ∧
      (r = 0 → SamePtes d st.toMemory st'.toMemory) ∧ (r ≠ 0 → st'.Spans d r) ∧
      (∀ v, v / PGSIZE * PGSIZE < sz → st'.userByte d v = st.userByte d v) ∧
      (sz < newsz → r = 0 ∨ r = newsz ∧ newsz < KERNBASE) := by
  have hsz := h.size_lt hspans
  obtain ⟨r, s', hok, hown, -, hfail, hdone, hbelow⟩ :=
    h.allocuvm hspans (Nat.le_of_lt hsz) newsz
  rw [← drop_allocuvm] at hok
  obtain ⟨⟨r', st'⟩, hrun, heq⟩ := map_eq_ok hok
  cases heq
  refine ⟨r', st', hrun, hown, hfail, fun hr => (hdone hr).1, fun v hv => ?_, fun hlt => ?_⟩
  · have hk := page_lt_userPages hv (Nat.le_of_lt hsz)
    refine userByte_eq (hbelow _ (lt_of_lt_of_le hk userPages_le) hv) fun e he => ?_
    exact h.allocuvm_data hspans (Nat.le_of_lt hsz)
      ⟨_, e, (page_lt_iff sz).1 hv, hk, he, rfl⟩ hrun
  · unfold Store.allocuvm at hrun
    split at hrun
    · exact .inl (Prod.mk.inj (Except.ok.inj hrun)).1.symm
    next hnew =>
      rw [if_neg (by omega)] at hrun
      obtain ⟨⟨ok, st₁⟩, -, hret⟩ := bind_eq_ok.1 hrun
      cases hret
      cases ok with
      | true => exact .inr ⟨rfl, Nat.not_le.1 hnew⟩
      | false => exact .inl rfl

/-- **`deallocuvm`** with the bytes: nothing below the new size changes. -/
theorem Owns.shrink (newsz : ℕ) (h : Owns m st.toMemory (st.pages d + R))
    (hspans : st.Spans d sz) (hle : newsz ≤ sz) :
    ∃ st', st.deallocuvm m d sz newsz = .ok (newsz, st') ∧
      Owns m st'.toMemory (st'.pages d + R) ∧ st'.Spans d newsz ∧
      ∀ v < newsz, st'.userByte d v = st.userByte d v := by
  have hsz := h.size_lt hspans
  obtain ⟨s', hok, hcleared⟩ := h.deallocuvm (Nat.le_of_lt hsz) newsz
  rw [Nat.min_eq_right hle, ← drop_deallocuvm] at hok
  obtain ⟨⟨r, st'⟩, hrun, heq⟩ := map_eq_ok hok
  obtain ⟨hr, rfl⟩ := Prod.mk.inj heq
  obtain rfl : r = newsz := hr
  refine ⟨st', hrun, hcleared.owns, fun k hk => ?_, fun v hv => ?_⟩
  · rw [hcleared.ptes k (lt_of_lt_of_le hk userPages_le)]
    split
    next hc =>
      refine iff_of_false (by simp) ?_
      rw [page_lt_iff]
      exact Nat.not_lt.2 hc.1
    next hc =>
      rw [hspans k hk]
      refine ⟨fun hlt => ?_, fun hlt => Nat.lt_of_lt_of_le hlt hle⟩
      rw [page_lt_iff]
      exact Nat.not_le.1 fun hge => hc ⟨hge, hlt⟩
  · have hk := div_lt_userPages (Nat.lt_trans (Nat.lt_of_lt_of_le hv hle) hsz)
    have hb := (page_lt_iff r).1 (page_below hv)
    refine userByte_eq ?_ fun e he => ?_
    · rw [hcleared.ptes _ (lt_of_lt_of_le hk userPages_le), if_neg]
      omega
    · exact h.deallocuvm_data (Nat.le_of_lt hsz) ⟨_, e, hb, hk, he, rfl⟩ (Nat.le_refl _) hrun

/-- **A process grows.** -/
theorem Owns.growproc_pos (h : Owns m st.toMemory (st.pages d + R)) (hspans : st.Spans d sz)
    (hpos : 0 < n) (hn : n < 2 ^ 31) :
    ∃ code sz' st', st.growproc m d sz n = .ok (code, sz', st') ∧
      Owns m st'.toMemory (st'.pages d + R) ∧ st'.Spans d sz' ∧
      AllOrNothing d sz n st code sz' st' := by
  have hsz := h.size_lt hspans
  obtain ⟨a, rfl⟩ := Int.eq_ofNat_of_zero_le (Int.le_of_lt hpos)
  have hnew : (((sz : ℤ) + (a : ℤ)) % 2 ^ 32).toNat = sz + a := by
    unfold KERNBASE at hsz
    omega
  obtain ⟨r, st', hrun, hown, hfail, hdone, hbytes, hr⟩ := h.grow hspans (sz + a)
  unfold Store.growproc
  rw [if_pos hpos, hnew, hrun, ok_bind]
  dsimp only
  rcases hr (by omega) with rfl | ⟨rfl, hlt⟩
  · have hsame : ∀ k < USERPAGES, st'.pte d k = st.pte d k := fun k hk =>
      hfail rfl k (lt_of_lt_of_le hk userPages_le)
    rw [if_pos rfl]
    refine ⟨-1, sz, st', rfl, hown, fun k hk => ?_, .inr ⟨rfl, rfl, hsame, fun v hv => ?_⟩,
      fun _ => rfl⟩
    · rw [hsame k hk, hspans k hk]
    · by_cases hlt : v / PGSIZE * PGSIZE < sz
      · exact hbytes v hlt
      · -- nothing is mapped there
        have hk := div_lt_userPages hv
        refine userByte_eq (hsame _ hk) fun e he => absurd ((hspans _ hk).1 ?_) hlt
        rw [he]
        rfl
  · have hne : sz + a ≠ 0 := by omega
    rw [if_neg hne]
    refine ⟨0, sz + a, st', rfl, hown, hdone hne, .inl ⟨rfl, ?_, hdone hne, fun v hv => ?_⟩, ?_⟩
    · omega
    · exact hbytes v (page_below (by omega))
    · omega

/-- **A process shrinks**, but not to nothing. -/
theorem Owns.growproc_neg (h : Owns m st.toMemory (st.pages d + R)) (hspans : st.Spans d sz)
    (hneg : n < 0) (hpos : 0 < (sz : ℤ) + n) :
    ∃ st', st.growproc m d sz n = .ok (0, ((sz : ℤ) + n).toNat, st') ∧
      AllOrNothing d sz n st 0 ((sz : ℤ) + n).toNat st' := by
  have hsz := h.size_lt hspans
  have hnew : (((sz : ℤ) + n) % 2 ^ 32).toNat = ((sz : ℤ) + n).toNat := by
    unfold KERNBASE at hsz
    rw [Int.emod_eq_of_lt (by omega) (by omega)]
  obtain ⟨st', hrun, -, hspans', hbytes⟩ :=
    h.shrink ((sz : ℤ) + n).toNat hspans (by omega)
  unfold Store.growproc
  rw [if_neg (by omega), if_pos hneg, hnew, hrun, ok_bind]
  dsimp only
  rw [if_neg (by omega)]
  refine ⟨st', rfl, .inl ⟨rfl, by omega, hspans', fun v hv => hbytes v ?_⟩, ?_⟩
  · omega
  · omega

/-- More is to be given back than there is: the new size wraps round and nothing happens. -/
theorem growproc_wraps (hsz : sz < KERNBASE) (hlo : -2 ^ 31 ≤ n) (hlt : (sz : ℤ) + n < 0) :
    st.growproc m d sz n = .ok (if sz = 0 then -1 else 0, sz, st) := by
  have hle : sz ≤ (((sz : ℤ) + n) % 2 ^ 32).toNat := by
    unfold KERNBASE at hsz
    omega
  unfold Store.growproc Store.deallocuvm
  rw [if_neg (by omega), if_pos (by omega), if_pos hle, ok_bind]
  dsimp only
  split <;> rfl

/-- All is to be given back: the pages go, and the size stays. -/
theorem Owns.growproc_to_zero (h : Owns m st.toMemory (st.pages d + R)) (hspans : st.Spans d sz)
    (hpos : 0 < sz) :
    ∃ st', st.growproc m d sz (-sz) = .ok (-1, sz, st') ∧ st'.Spans d 0 := by
  obtain ⟨st', hrun, -, hspans', -⟩ := h.shrink 0 hspans (Nat.zero_le sz)
  have hnew : (((sz : ℤ) + -sz) % 2 ^ 32).toNat = 0 := by omega
  unfold Store.growproc
  rw [if_neg (by omega), if_pos (by omega), hnew, hrun, ok_bind]
  exact ⟨st', rfl, hspans'⟩

/-- **`growproc` is all or nothing** for a process whose pages are those of its size, unless
it is to give back all of its memory or more. -/
theorem growproc_all_or_nothing (h : Owns m st.toMemory (st.pages d + R))
    (hspans : st.Spans d sz) (hlo : -2 ^ 31 ≤ n) (hhi : n < 2 ^ 31)
    (hleaves : 0 ≤ n ∨ 0 < (sz : ℤ) + n ∨ sz = 0) :
    ∃ code sz' st', st.growproc m d sz n = .ok (code, sz', st') ∧
      AllOrNothing d sz n st code sz' st' := by
  have hsz := h.size_lt hspans
  rcases Int.lt_trichotomy n 0 with hneg | rfl | hpos
  · by_cases hleft : 0 < (sz : ℤ) + n
    · obtain ⟨st', hrun, hall⟩ := h.growproc_neg hspans hneg hleft
      exact ⟨_, _, st', hrun, hall⟩
    · -- there is nothing to give back
      obtain rfl : sz = 0 := by omega
      refine ⟨-1, 0, st, growproc_wraps hsz hlo (by omega), ?_, fun _ => rfl⟩
      exact .inr ⟨rfl, rfl, fun _ _ => rfl, fun _ _ => rfl⟩
  · refine ⟨0, sz, st, rfl, .inl ⟨rfl, by omega, hspans, fun _ _ => rfl⟩, ?_⟩
    omega
  · obtain ⟨code, sz', st', hrun, -, -, hall⟩ := h.growproc_pos hspans hpos hhi
    exact ⟨code, sz', st', hrun, hall⟩

/-! ### A machine with three pages -/

/-- The kernel leaves three pages. -/
def tiny : Machine where
  data := EXTMEM + PGSIZE
  kend := PHYSTOP - 3 * PGSIZE
  data_aligned := by decide
  text_lt := by decide
  data_lt := by decide
  kend_lt := by decide

/-- The first of them is an empty directory. -/
def tinyDir : ℕ := PHYSTOP - 3 * PGSIZE

/-- The others are free. -/
def tinyStore : Store where
  free := [PHYSTOP - 2 * PGSIZE, PHYSTOP - PGSIZE]
  tab _ _ := none
  fails := []
  twice := false
  data _ _ := 0
  free_page := by decide
  reads page i _ := by
    rw [getLE_zero fun _ _ => rfl]
    rfl

theorem tinyStore_pte (d k : ℕ) : tinyStore.pte d k = none := rfl

theorem tinyStore_owns : Owns tiny tinyStore.toMemory (tinyStore.pages tinyDir + 0) := by
  have hpages : tinyStore.pages tinyDir = {tinyDir} := by
    have htables : tinyStore.tables tinyDir = 0 := held_eq_zero fun _ _ => rfl
    have huser : tinyStore.user tinyDir = 0 := held_eq_zero fun _ _ => rfl
    rw [Memory.pages, htables, huser, add_zero]
    rfl
  refine ⟨?_, rfl⟩
  rw [hpages]
  decide +kernel

theorem tinyStore_spans : tinyStore.Spans tinyDir 0 := fun _ _ =>
  iff_of_false (by rw [tinyStore_pte]; simp) (Nat.not_lt_zero _)

/-- A page and a page table are left for a process of one byte. -/
theorem growproc_all_or_nothing_tiny :
    ∃ code sz' st', tinyStore.growproc tiny tinyDir 0 1 = .ok (code, sz', st') ∧
      AllOrNothing tinyDir 0 1 tinyStore code sz' st' :=
  growproc_all_or_nothing tinyStore_owns tinyStore_spans (by decide) (by decide)
    (.inl (by decide))

/-- **`growproc` is not all or nothing.**  A process of one byte that gives it back is told
that this failed, and has no page any more; if it gives back two bytes, it is told that it
did. -/
theorem growproc_keeps_size :
    ∃ (st : Store) (d sz : ℕ), Owns tiny st.toMemory (st.pages d + 0) ∧ st.Spans d sz ∧ sz = 1 ∧
      (∃ st', st.growproc tiny d sz (-1) = .ok (-1, sz, st') ∧
        ¬AllOrNothing d sz (-1) st (-1) sz st') ∧
      st.growproc tiny d sz (-2) = .ok (0, sz, st) ∧ ¬AllOrNothing d sz (-2) st 0 sz st := by
  have hone : (tinyStore.growproc tiny tinyDir 0 1).toOption.map (fun r => r.2.1) = some 1 := by
    decide +kernel
  obtain ⟨code, sz, st, hrun, hown, hspans, -⟩ :=
    tinyStore_owns.growproc_pos tinyStore_spans (n := 1) (by decide) (by decide)
  rw [hrun] at hone
  obtain rfl : sz = 1 := Option.some.inj hone
  obtain ⟨st', hrun', hspans'⟩ := hown.growproc_to_zero hspans Nat.one_pos
  refine ⟨st, tinyDir, 1, hown, hspans, rfl, ⟨st', hrun', fun hall => ?_⟩,
    growproc_wraps (by decide) (by decide) (by decide), fun hall => ?_⟩
  · rcases hall.outcome with ⟨hcode, -⟩ | ⟨-, -, hsame, -⟩
    · cases hcode
    · have hpos : 0 < USERPAGES := by
        unfold USERPAGES
        decide
      have hpage := (hspans 0 hpos).2 (by decide)
      rw [← hsame 0 hpos, hspans' 0 hpos] at hpage
      exact absurd hpage (Nat.not_lt_zero _)
  · cases hall.refused (.inl (by decide))

end Vm
end Xv6
