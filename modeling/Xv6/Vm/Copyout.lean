/-
# Copying into user pages

`copyout` (`xv6/vm.c`, lines 362-386).  The bytes at `p` are given as a list: they are
read before a user page is written.

`copyout` has two ways to go wrong.  `uva2ka` reads through a null pointer at an
address for which there is no page table, and `va0 + PGSIZE` is `0` after the last
page, so that a copy that goes over the end of the address space goes on at its start.
In page tables that lead to pages of the machine, each user page once and no table
among them, up to the first page that is missing, these are the only two
(`copyout_exact`).
-/

import Xv6.Vm.Ram

namespace Xv6
namespace Vm

open Lib

namespace Ram

/-- The loop of `copyout`, which takes a byte of the buffer at least each time. -/
def copyLoop (pgdir : ℕ) : ℕ → ℕ → List Byte → Ram → Except Halt (ℤ × Ram)
  | 0, _, _, r => .ok (0, r)
  | fuel + 1, va, buf, r =>
    if buf.length = 0 then .ok (0, r)
    else do
      let va0 := PGROUNDDOWN va
      let pa0 ← r.uva2ka pgdir va0
      if pa0 = 0 then .ok (-1, r)
      else do
        let n := min (PGSIZE - (va - va0)) buf.length
        let a ← kernelAddr (pa0 + (va - va0))
        copyLoop pgdir fuel ((va0 + PGSIZE) % 2 ^ 32) (buf.drop n) (blit r a (buf.take n))

/-- `copyout`. -/
def copyout (r : Ram) (pgdir va : ℕ) (buf : List Byte) : Except Halt (ℤ × Ram) :=
  copyLoop pgdir buf.length va buf r

/-- Every page with an address from `va` to below `va + len` is a user page. -/
def Maps (r : Ram) (pgdir va len : ℕ) : Prop :=
  va + len ≤ 2 ^ 32 ∧ ∀ v, va ≤ v → v < va + len → r.userPage pgdir v ≠ none

/-- The bytes from `va` on become those of the buffer, and no other byte changes. -/
structure Wrote (r : Ram) (pgdir va : ℕ) (buf : List Byte) (r' : Ram) : Prop where
  bytes : ∀ v, va ≤ v → v < va + buf.length → r' (r.phys pgdir v) = buf.getD (v - va) 0
  rest : ∀ a, (∀ v, va ≤ v → v < va + buf.length → a ≠ r.phys pgdir v) → r' a = r a

/-- The address of byte `i` of a copy, which goes on at the start of the address space. -/
def place (va i : ℕ) : ℕ := (va + i) % 2 ^ 32

/-- The copy gets to an address: the pages before it are there. -/
def Reaches (r : Ram) (pgdir va len v : ℕ) : Prop :=
  ∃ i < len, v = place va i ∧ ∀ j < i, r.userPage pgdir (place va j) ≠ none

/-- There is a page table wherever the copy gets to, and it stays in the address space or misses
a page. -/
structure Copyable (r : Ram) (pgdir va len : ℕ) : Prop where
  table : ∀ v, r.Reaches pgdir va len v → r.entry pgdir (PDX v) ≠ none
  ends : va + len ≤ 2 ^ 32 ∨ ∃ i < len, r.userPage pgdir (place va i) = none

end Ram

section

variable {r r' : Ram} {pgdir lo hi va f fuel : ℕ} {buf : List Byte}

/-! ### One page -/

namespace Ram

theorem copyLoop_nil (pgdir fuel va : ℕ) (r : Ram) : copyLoop pgdir fuel va [] r = .ok (0, r) := by
  cases fuel with
  | zero => rfl
  | succ fuel => exact if_pos rfl

/-- A page is missing. -/
theorem copyLoop_missing {pde : Pte} (hbuf : buf ≠ []) (hpde : r.entry pgdir (PDX va) = some pde)
    (hlt : pde.addr < PHYSTOP) (hmiss : r.userPage pgdir va = none) :
    copyLoop pgdir (fuel + 1) va buf r = .ok (-1, r) := by
  have hpage := PGROUNDDOWN_div va
  have hka : r.uva2ka pgdir (PGROUNDDOWN va) = .ok 0 := by
    rw [uva2ka_eq (by rwa [PDX_congr hpage]) hlt, userPage_congr hpage, hmiss, Option.elim_none]
  rw [copyLoop, if_neg fun h => hbuf (List.length_eq_zero_iff.1 h)]
  dsimp only
  rw [hka, ok_bind, if_pos rfl]

/-- A page table is missing. -/
theorem copyLoop_no_table (hbuf : buf ≠ []) (hpde : r.entry pgdir (PDX va) = none) :
    copyLoop pgdir (fuel + 1) va buf r = .error .wild := by
  have hka : r.uva2ka pgdir (PGROUNDDOWN va) = .error .wild :=
    uva2ka_no_table (by rwa [PDX_congr (PGROUNDDOWN_div va)])
  rw [copyLoop, if_neg fun h => hbuf (List.length_eq_zero_iff.1 h)]
  dsimp only
  rw [hka]
  rfl

/-- How much of the buffer goes to the page of `va`. -/
def share (va len : ℕ) : ℕ := min (PGSIZE - va % PGSIZE) len

/-- The start of the next page. -/
def next (va : ℕ) : ℕ := (PGROUNDDOWN va + PGSIZE) % 2 ^ 32

/-- Memory with the page `f` of `va` written. -/
def written (r : Ram) (f va : ℕ) (buf : List Byte) : Ram :=
  blit r (f + va % PGSIZE) (buf.take (share va buf.length))

/-- **A page is written**, from the place of `va` in it on. -/
theorem copyLoop_page {pde : Pte} (hbuf : buf ≠ []) (hpde : r.entry pgdir (PDX va) = some pde)
    (hlt : pde.addr < PHYSTOP) (hpage : r.userPage pgdir va = some f) (hf : f < PHYSTOP) :
    copyLoop pgdir (fuel + 1) va buf r =
      copyLoop pgdir fuel (next va) (buf.drop (share va buf.length))
        (r.written f va buf) := by
  have hround := PGROUNDDOWN_div va
  have hoff : va - PGROUNDDOWN va = va % PGSIZE := by
    unfold PGROUNDDOWN PGSIZE
    omega
  have hka : r.uva2ka pgdir (PGROUNDDOWN va) = .ok (P2V f) := by
    rw [uva2ka_eq (by rwa [PDX_congr hround]) hlt, userPage_congr hround, hpage,
      Option.elim_some]
  have hin : f + va % PGSIZE < PHYSTOP := by
    obtain ⟨b, rfl⟩ := userPage_aligned hpage
    unfold PGSIZE PHYSTOP at *
    omega
  rw [copyLoop, if_neg fun h => hbuf (List.length_eq_zero_iff.1 h)]
  dsimp only
  rw [hka, ok_bind, if_neg (P2V_ne_zero hf), hoff, kernelAddr_P2V hin, ok_bind]
  rfl

/-! ### What a page leaves -/

theorem length_take_share : (buf.take (share va buf.length)).length = share va buf.length := by
  rw [List.length_take]
  exact Nat.min_eq_left (Nat.min_le_right _ _)

/-- The bytes of another page are not written. -/
theorem written_apart (hf : PGSIZE ∣ f) {page k : ℕ} (hpage : PGSIZE ∣ page) (hne : page ≠ f)
    (hk : k < PGSIZE) : r.written f va buf (page + k) = r (page + k) := by
  refine blit_apart ?_
  rw [length_take_share]
  have hle : share va buf.length ≤ PGSIZE - va % PGSIZE := Nat.min_le_left _ _
  have hmod : va % PGSIZE < PGSIZE := Nat.mod_lt _ (by decide)
  by_contra hin
  exact page_apart hpage hf hne hk (l := page + k - f) (by omega) (by omega)

theorem written_sameOff (hf : PGSIZE ∣ f) : SameOff f r (r.written f va buf) :=
  fun _ _ hpage hne hk => written_apart hf hpage hne hk

theorem Leads.userPage_written (h : r.Leads pgdir va hi) (hpage : r.userPage pgdir va = some f)
    (hva : va < hi) {v : ℕ} (hv : va ≤ v) (hv' : v < hi) :
    (r.written f va buf).userPage pgdir v = r.userPage pgdir v :=
  h.userPage_sameOff (Nat.le_refl va) hva hpage (written_sameOff (userPage_aligned hpage)) hv hv'

variable (buf) in
/-- The rest of the range, after a page. -/
theorem Leads.page (h : r.Leads pgdir va hi) (hpage : r.userPage pgdir va = some f) (hva : va < hi)
    {lo' hi' : ℕ}
    (hsub : ∀ v, lo' ≤ v → v < hi' → lo' = PGROUNDDOWN va + PGSIZE ∧ v < hi) :
    (r.written f va buf).Leads pgdir lo' hi' := by
  have hsame : SameOff f r (r.written f va buf) := written_sameOff (userPage_aligned hpage)
  refine (h.sameOff (Nat.le_refl va) hva hpage hsame).mono fun v hv hv' => ?_
  obtain ⟨hlo, hlt⟩ := hsub v hv hv'
  have hin : ∀ u, u < lo' → va ≤ u → u / PGSIZE = va / PGSIZE := by
    intro u hu hu'
    unfold PGROUNDDOWN PGSIZE at *
    omega
  have hle : va ≤ v := by
    unfold PGROUNDDOWN PGSIZE at hlo
    omega
  refine ⟨hle, hlt, fun u hu hu' => ?_⟩
  -- `u` is in the page that was written
  rw [h.userPage_written hpage hva hu (Nat.lt_trans (Nat.lt_of_lt_of_le hu' hv) hlt),
    userPage_congr (hin u hu' hu), hpage]
  exact Option.some_ne_none f

/-- **A page and the rest of the range.** -/
theorem Leads.wrote (h : r.Leads pgdir va hi) (hpage : r.userPage pgdir va = some f)
    (hva : va < hi) (hhi : hi = va + buf.length) (hfit : va + buf.length ≤ 2 ^ 32)
    (hmaps : ∀ v, va ≤ v → v < hi → r.userPage pgdir v ≠ none)
    (hrest : (r.written f va buf).Wrote pgdir (next va) (buf.drop (share va buf.length)) r') :
    r.Wrote pgdir va buf r' := by
  subst hhi
  have hround : next va = PGROUNDDOWN va + PGSIZE ∨ buf.length = share va buf.length := by
    unfold next share PGROUNDDOWN PGSIZE
    omega
  have hshare : share va buf.length = min (PGROUNDDOWN va + PGSIZE - va) buf.length := by
    unfold share PGROUNDDOWN PGSIZE
    omega
  have hafter : va < PGROUNDDOWN va + PGSIZE := by
    unfold PGROUNDDOWN PGSIZE
    omega
  have hdrop : (buf.drop (share va buf.length)).length = buf.length - share va buf.length :=
    List.length_drop
  have hphys : ∀ v, va ≤ v → v < va + buf.length →
      (r.written f va buf).phys pgdir v = r.phys pgdir v := by
    intro v hv hv'
    unfold phys
    rw [h.userPage_written hpage hva hv hv']
  -- the bytes of the page itself
  have hself : ∀ v, va ≤ v → v < PGROUNDDOWN va + PGSIZE → r.phys pgdir v = f + v % PGSIZE := by
    intro v hv hv'
    have hsame : v / PGSIZE = va / PGSIZE := by
      unfold PGROUNDDOWN PGSIZE at *
      omega
    unfold phys
    rw [userPage_congr hsame, hpage, Option.getD_some]
  -- and those of the others
  have hother : ∀ u, PGROUNDDOWN va + PGSIZE ≤ u → u < va + buf.length → ∀ k < PGSIZE,
      f + k ≠ r.phys pgdir u := by
    intro u hu hu' k hk
    have hle : va ≤ u := Nat.le_trans (Nat.le_of_lt hafter) hu
    obtain ⟨g, hg⟩ := Option.ne_none_iff_exists'.1 (hmaps u hle hu')
    have hne : f ≠ g := by
      rintro rfl
      have hsame := h.once va u (Nat.le_refl va) hva hle hu' f hpage hg
      unfold PGROUNDDOWN PGSIZE at *
      omega
    unfold phys
    rw [hg, Option.getD_some]
    exact page_apart (userPage_aligned hpage) (userPage_aligned hg) hne hk
      (Nat.mod_lt _ (by decide))
  have hrange : ∀ u, next va ≤ u → u < next va + (buf.drop (share va buf.length)).length →
      PGROUNDDOWN va + PGSIZE ≤ u ∧ u < va + buf.length := by
    intro u hu hu'
    rw [hdrop] at hu'
    omega
  constructor
  case bytes =>
    intro v hv hv'
    rcases Nat.lt_or_ge v (PGROUNDDOWN va + PGSIZE) with hlt | hge
    · have hmod : v % PGSIZE = va % PGSIZE + (v - va) := by
        unfold PGROUNDDOWN PGSIZE at *
        omega
      rw [hself v hv hlt, hrest.rest]
      · rw [hmod, ← Nat.add_assoc]
        unfold written
        rw [blit_mid (Nat.le_add_right _ _) (by rw [length_take_share]; omega),
          Nat.add_sub_cancel_left, List.getD_eq_getElem?_getD, List.getElem?_take_of_lt (by omega),
          List.getD_eq_getElem?_getD]
      · intro u hu hu'
        obtain ⟨hpast, hin⟩ := hrange u hu hu'
        rw [hphys u (Nat.le_trans (Nat.le_of_lt hafter) hpast) hin]
        exact hother u hpast hin _ (Nat.mod_lt _ (by decide))
    · have hv'' : next va ≤ v ∧ v < next va + (buf.drop (share va buf.length)).length := by
        rw [hdrop]
        omega
      have hbyte := hrest.bytes v hv''.1 hv''.2
      rw [hphys v hv hv'] at hbyte
      rw [hbyte, List.getD_eq_getElem?_getD, List.getElem?_drop, List.getD_eq_getElem?_getD,
        show share va buf.length + (v - next va) = v - va by omega]
  case rest =>
    intro a ha
    rw [hrest.rest]
    · refine blit_apart ?_
      rw [length_take_share]
      by_contra hin
      have hv : va + (a - (f + va % PGSIZE)) < PGROUNDDOWN va + PGSIZE := by omega
      refine ha (va + (a - (f + va % PGSIZE))) (Nat.le_add_right _ _) (by omega) ?_
      rw [hself _ (Nat.le_add_right _ _) hv]
      unfold PGROUNDDOWN PGSIZE at *
      omega
    · intro u hu hu'
      obtain ⟨hpast, hin⟩ := hrange u hu hu'
      have hle : va ≤ u := Nat.le_trans (Nat.le_of_lt hafter) hpast
      rw [hphys u hle hin]
      exact ha u hle hin

/-! ### The loop -/

/-- **With all its pages there, the range becomes the buffer.** -/
theorem copyLoop_maps (hfuel : buf.length ≤ fuel) (h : r.Leads pgdir va (va + buf.length))
    (hmaps : r.Maps pgdir va buf.length) :
    ∃ r', copyLoop pgdir fuel va buf r = .ok (0, r') ∧ r.Wrote pgdir va buf r' := by
  induction fuel generalizing va buf r with
  | zero =>
    obtain rfl := List.length_eq_zero_iff.1 (Nat.le_zero.1 hfuel)
    exact ⟨r, rfl, ⟨fun v hv hv' => absurd hv' (by simpa using hv), fun a _ => rfl⟩⟩
  | succ fuel ih =>
    rcases eq_or_ne buf [] with rfl | hbuf
    · exact ⟨r, copyLoop_nil _ _ _ _,
        ⟨fun v hv hv' => absurd hv' (by simpa using hv), fun a _ => rfl⟩⟩
    have hlen : 0 < buf.length := List.length_pos_iff.2 hbuf
    have hva : va < va + buf.length := Nat.lt_add_of_pos_right hlen
    obtain ⟨f, hpage⟩ := Option.ne_none_iff_exists'.1 (hmaps.2 va (Nat.le_refl va) hva)
    obtain ⟨pde, e, hpde, -⟩ := userPage_eq_some hpage
    have htable := h.table_lt va (Nat.le_refl va) hva pde hpde
    have hf := h.page_lt va (Nat.le_refl va) hva f hpage
    rw [copyLoop_page hbuf hpde htable hpage hf]
    have hdrop : (buf.drop (share va buf.length)).length = buf.length - share va buf.length :=
      List.length_drop
    have hsub : ∀ v, next va ≤ v → v < next va + (buf.drop (share va buf.length)).length →
        next va = PGROUNDDOWN va + PGSIZE ∧ v < va + buf.length := by
      intro v hv hv'
      have := hmaps.1
      rw [hdrop] at hv'
      unfold next share PGROUNDDOWN PGSIZE at *
      omega
    have hmaps' : (r.written f va buf).Maps pgdir (next va)
        (buf.drop (share va buf.length)).length := by
      refine ⟨?_, fun v hv hv' => ?_⟩
      · have := hmaps.1
        rw [hdrop]
        unfold next share PGROUNDDOWN PGSIZE
        omega
      · obtain ⟨hnext, hin⟩ := hsub v hv hv'
        have hle : va ≤ v := by
          unfold PGROUNDDOWN PGSIZE at hnext
          omega
        rw [h.userPage_written hpage hva hle hin]
        exact hmaps.2 v hle hin
    obtain ⟨r', hrun, hrest⟩ := ih (by rw [hdrop]; unfold share PGSIZE; omega)
      (h.page buf hpage hva hsub) hmaps'
    exact ⟨r', hrun, h.wrote hpage hva rfl hmaps.1 hmaps.2 hrest⟩

/-- Where a copy goes on after a page. -/
theorem place_next {i : ℕ} (hi : i < buf.length - share va buf.length) :
    place (next va) i = place va (share va buf.length + i) := by
  unfold place next share PGROUNDDOWN PGSIZE at *
  omega

/-- The bytes of a page are on it. -/
theorem place_page (hva : va < 2 ^ 32) {i : ℕ} (hi : i < share va buf.length) :
    place va i / PGSIZE = va / PGSIZE := by
  unfold place share PGSIZE at *
  omega

/-- What a copy returns if byte `n` is the first that is on no user page, or the end. -/
inductive Outcome (r : Ram) (pgdir va len n : ℕ) : Except Halt (ℤ × Ram) → Prop
  | done (hn : n = len) (r' : Ram) : Outcome r pgdir va len n (.ok (0, r'))
  | refused (hn : n < len) (htable : r.entry pgdir (PDX (place va n)) ≠ none) (r' : Ram) :
      Outcome r pgdir va len n (.ok (-1, r'))
  | wild (hn : n < len) (htable : r.entry pgdir (PDX (place va n)) = none) :
      Outcome r pgdir va len n (.error .wild)

/-- The first byte is on no user page. -/
theorem copyLoop_first (hbuf : buf ≠ []) (hva : va < 2 ^ 32)
    (hlt : ∀ pde, r.entry pgdir (PDX va) = some pde → pde.addr < PHYSTOP)
    (hmiss : r.userPage pgdir va = none) :
    Outcome r pgdir va buf.length 0 (copyLoop pgdir (fuel + 1) va buf r) := by
  have hlen : 0 < buf.length := List.length_pos_iff.2 hbuf
  have hzero : place va 0 = va := Nat.mod_eq_of_lt hva
  cases hpde : r.entry pgdir (PDX va) with
  | none =>
    rw [copyLoop_no_table hbuf hpde]
    exact .wild hlen (by rw [hzero, hpde])
  | some pde =>
    rw [copyLoop_missing hbuf hpde (hlt pde hpde) hmiss]
    exact .refused hlen (by rw [hzero, hpde]; exact Option.some_ne_none pde) r

/-- What the rest of a copy returns after a page is what the whole returns. -/
theorem Outcome.page {x : Except Halt (ℤ × Ram)} {n : ℕ}
    (hentry : ∀ v, r'.entry pgdir (PDX v) = r.entry pgdir (PDX v))
    (hshare : share va buf.length ≤ n)
    (h : Outcome r' pgdir (next va) (buf.length - share va buf.length) (n - share va buf.length) x) :
    Outcome r pgdir va buf.length n x := by
  have hplace : n - share va buf.length < buf.length - share va buf.length →
      place (next va) (n - share va buf.length) = place va n := fun hlt => by
    rw [place_next hlt, Nat.add_sub_cancel' hshare]
  have hle : share va buf.length ≤ buf.length := Nat.min_le_right _ _
  cases h with
  | done hn => exact .done (by omega) _
  | refused hn htable =>
    rw [hentry, hplace hn] at htable
    exact .refused (by omega) htable _
  | wild hn htable =>
    rw [hentry, hplace hn] at htable
    exact .wild (by omega) htable

/-- **What a copy returns** is decided by the first byte, the `n`-th, that is on no user page. -/
theorem copyLoop_outcome {S : ℕ → Prop} {n : ℕ} (hfuel : buf.length ≤ fuel) (hva : va < 2 ^ 32)
    (h : r.Framed pgdir S) (hS : ∀ i ≤ n, i < buf.length → S (place va i)) (hn : n ≤ buf.length)
    (hthere : ∀ i < n, r.userPage pgdir (place va i) ≠ none)
    (hmiss : n < buf.length → r.userPage pgdir (place va n) = none) :
    Outcome r pgdir va buf.length n (copyLoop pgdir fuel va buf r) := by
  induction fuel generalizing va buf r n with
  | zero => exact .done (by omega) r
  | succ fuel ih =>
    rcases eq_or_ne buf [] with rfl | hbuf
    · rw [copyLoop_nil]
      exact .done (Nat.le_zero.1 hn) r
    have hlen : 0 < buf.length := List.length_pos_iff.2 hbuf
    have hzero : place va 0 = va := Nat.mod_eq_of_lt hva
    have hSva : S va := hzero ▸ hS 0 (Nat.zero_le n) hlen
    cases hpage : r.userPage pgdir va with
    | none =>
      have hn0 : n = 0 := by
        by_contra hpos
        exact hthere 0 (Nat.pos_of_ne_zero hpos) (by rw [hzero, hpage])
      rw [hn0]
      exact copyLoop_first hbuf hva (h.table_lt va hSva) hpage
    | some f =>
      obtain ⟨pde, -, hpde, -⟩ := userPage_eq_some hpage
      -- the bytes of the page of `va` are all there
      have hshare : share va buf.length ≤ n := by
        by_contra hlt
        have hin : n < share va buf.length := Nat.not_le.1 hlt
        have hle : share va buf.length ≤ buf.length := Nat.min_le_right _ _
        have hnone := hmiss (Nat.lt_of_lt_of_le hin hle)
        rw [userPage_congr (place_page hva hin), hpage] at hnone
        cases hnone
      have hpos : 0 < share va buf.length := by
        unfold share PGSIZE
        omega
      have hdrop : (buf.drop (share va buf.length)).length = buf.length - share va buf.length :=
        List.length_drop
      have hsame : SameOff f r (r.written f va buf) := written_sameOff (userPage_aligned hpage)
      have hSnext : ∀ i ≤ n - share va buf.length, i < buf.length - share va buf.length →
          S (place (next va) i) := fun i hi hi' => by
        rw [place_next hi']
        exact hS _ (by omega) (by omega)
      have huser : ∀ i ≤ n - share va buf.length, i < buf.length - share va buf.length →
          (r.written f va buf).userPage pgdir (place (next va) i) =
            r.userPage pgdir (place va (share va buf.length + i)) := fun i hi hi' => by
        rw [h.userPage_sameOff hSva hpage hsame (hSnext i hi hi'), place_next hi']
      have hfuel' : (buf.drop (share va buf.length)).length ≤ fuel := by omega
      have hva' : next va < 2 ^ 32 := Nat.mod_lt _ (by decide)
      have hn' : n - share va buf.length ≤ (buf.drop (share va buf.length)).length := by omega
      have hrest := ih hfuel' hva' (h.sameOff hSva hpage hsame)
        (fun i hi hi' => hSnext i hi (hdrop ▸ hi')) hn'
        (fun i hi => by
          rw [huser i (Nat.le_of_lt hi) (by omega)]
          exact hthere _ (by omega))
        (fun hlt => by
          rw [huser _ (Nat.le_refl _) (by omega), Nat.add_sub_cancel' hshare]
          exact hmiss (by omega))
      rw [hdrop] at hrest
      rw [copyLoop_page hbuf hpde (h.table_lt va hSva pde hpde) hpage (h.page_lt va hSva f hpage)]
      exact hrest.page (h.entry_sameOff hSva hpage hsame) hshare

/-- The first byte of a copy that is on no user page, or the end. -/
theorem exists_first_missing (r : Ram) (pgdir va len : ℕ) :
    ∃ n ≤ len, (∀ i < n, r.userPage pgdir (place va i) ≠ none) ∧
      (n < len → r.userPage pgdir (place va n) = none) := by
  by_cases hmiss : ∃ i, r.userPage pgdir (place va i) = none
  · refine ⟨min (Nat.find hmiss) len, Nat.min_le_right _ _, fun i hi => ?_, fun hlt => ?_⟩
    · exact Nat.find_min hmiss (Nat.lt_of_lt_of_le hi (Nat.min_le_left _ _))
    · rw [Nat.min_eq_left (by omega)]
      exact Nat.find_spec hmiss
  · exact ⟨len, Nat.le_refl len, fun i _ hi => hmiss ⟨i, hi⟩, fun hlt => absurd hlt (Nat.lt_irrefl _)⟩

/-- A copy with all its bytes on user pages, in the address space. -/
theorem maps_iff {len : ℕ} : r.Maps pgdir va len ↔
    va + len ≤ 2 ^ 32 ∧ ∀ i < len, r.userPage pgdir (place va i) ≠ none := by
  refine and_congr_right fun hfit => ⟨fun h i hi => ?_, fun h v hv hv' => ?_⟩
  · rw [show place va i = va + i from Nat.mod_eq_of_lt (by omega)]
    exact h _ (Nat.le_add_right _ _) (by omega)
  · have := h (v - va) (by omega)
    rwa [show place va (v - va) = v by unfold place; omega] at this

/-- **`copyout` is exact**, where the pages and tables that it gets to are pages of the machine
and the copy does not change the tables, if and only if there is a table wherever it gets to and
it does not go over the end of the address space with all its pages there. -/
theorem copyout_exact (r : Ram) (pgdir va : ℕ) (buf : List Byte) (hva : va < 2 ^ 32)
    (h : r.Framed pgdir (r.Reaches pgdir va buf.length)) :
    ((r.Maps pgdir va buf.length →
        ∃ r', r.copyout pgdir va buf = .ok (0, r') ∧ r.Wrote pgdir va buf r') ∧
      (¬ r.Maps pgdir va buf.length → ∃ r', r.copyout pgdir va buf = .ok (-1, r'))) ↔
    r.Copyable pgdir va buf.length := by
  obtain ⟨n, hn, hthere, hmiss⟩ := exists_first_missing r pgdir va buf.length
  have hS : ∀ i ≤ n, i < buf.length → r.Reaches pgdir va buf.length (place va i) :=
    fun i hi hi' => ⟨i, hi', rfl, fun j hj => hthere j (Nat.lt_of_lt_of_le hj hi)⟩
  -- a byte that the copy gets to is not after the first that is missing
  have hle : ∀ i < buf.length, (∀ j < i, r.userPage pgdir (place va j) ≠ none) → i ≤ n := by
    intro i hi hbefore
    by_contra hlt
    exact hbefore n (Nat.not_le.1 hlt) (hmiss (Nat.lt_trans (Nat.not_le.1 hlt) hi))
  have htable : ∀ i < n, r.entry pgdir (PDX (place va i)) ≠ none := by
    intro i hi
    obtain ⟨f, hf⟩ := Option.ne_none_iff_exists'.1 (hthere i hi)
    obtain ⟨pde, -, hpde, -⟩ := userPage_eq_some hf
    rw [hpde]
    exact Option.some_ne_none pde
  have hlacks : n < buf.length → ¬ r.Maps pgdir va buf.length := fun hlt hmaps =>
    (maps_iff.1 hmaps).2 n hlt (hmiss hlt)
  have hout := copyLoop_outcome (Nat.le_refl _) hva h hS hn hthere hmiss
  generalize hrun : copyLoop pgdir buf.length va buf r = x at hout
  constructor
  · intro hexact
    rcases hout with ⟨rfl, r'⟩ | ⟨hlt, hpde, r'⟩ | ⟨hlt, -⟩
    · have hmaps : r.Maps pgdir va buf.length := by
        by_contra hnot
        obtain ⟨r'', hfail⟩ := hexact.2 hnot
        cases hrun.symm.trans hfail
      refine ⟨?_, .inl hmaps.1⟩
      rintro v ⟨i, hi, rfl, -⟩
      exact htable i hi
    · refine ⟨?_, .inr ⟨n, hlt, hmiss hlt⟩⟩
      rintro v ⟨i, hi, rfl, hbefore⟩
      rcases Nat.lt_or_eq_of_le (hle i hi hbefore) with hi' | rfl
      · exact htable i hi'
      · exact hpde
    · obtain ⟨r', hfail⟩ := hexact.2 (hlacks hlt)
      cases hrun.symm.trans hfail
  · intro hcopy
    rcases hout with ⟨rfl, r'⟩ | ⟨hlt, -, r'⟩ | ⟨hlt, hpde⟩
    · have hfit : va + buf.length ≤ 2 ^ 32 := by
        rcases hcopy.ends with hfit | ⟨i, hi, hnone⟩
        · exact hfit
        · exact absurd hnone (hthere i hi)
      have hmaps : r.Maps pgdir va buf.length := maps_iff.2 ⟨hfit, hthere⟩
      refine ⟨fun _ => copyLoop_maps (Nat.le_refl _) ?_ hmaps, fun hnot => absurd hmaps hnot⟩
      refine (h.mono fun v hv => ?_).leads hmaps.2
      rw [show v = place va (v - va) by unfold place; omega]
      exact hS _ (by omega) (by omega)
    · exact ⟨fun hmaps => absurd hmaps (hlacks hlt), fun _ => ⟨r', hrun⟩⟩
    · exact absurd hpde (hcopy.table _ (hS n (Nat.le_refl n) hlt))

/-- A copy over the border of the two pages at the start. -/
theorem copyout_exact_border :
    ∃ r', threePages.copyout 0x1000 4094 [1, 2, 3, 4] = .ok (0, r') ∧
      threePages.Wrote 0x1000 4094 [1, 2, 3, 4] r' := by
  have hmaps : threePages.Maps 0x1000 4094 4 := by
    refine ⟨by decide, fun v hv hv' => ?_⟩
    rw [threePages_userPage (by omega)]
    exact Option.some_ne_none _
  have hplace : ∀ v, threePages.Reaches 0x1000 4094 4 v → v < 8192 := by
    rintro v ⟨i, hi, rfl, -⟩
    unfold place
    omega
  have hframed : threePages.Framed 0x1000 (threePages.Reaches 0x1000 4094 4) :=
    (threePages_leads 0 (Nat.le_refl 8192)).framed.mono fun v hv => ⟨Nat.zero_le v, hplace v hv⟩
  have hcopy : threePages.Copyable 0x1000 4094 4 := by
    refine ⟨fun v hv => ?_, .inl (by decide)⟩
    rw [threePages_entry (hplace v hv)]
    exact Option.some_ne_none _
  exact ((copyout_exact threePages 0x1000 4094 [1, 2, 3, 4] (by decide) hframed).2 hcopy).1 hmaps

/-- At an address with no page table `copyout` reads through a null pointer; and a copy over the
end of the address space goes on at its start and returns `0`. -/
theorem copyout_not_exact :
    threePages.copyout 0x1000 0x400000 [1] = .error .wild ∧
      ∃ r', threePages.copyout 0x1000 (2 ^ 32 - 1) [1, 2] = .ok (0, r') ∧ r' 0x3000 = 2 := by
  constructor
  · exact copyLoop_no_table (List.cons_ne_nil _ _) (by decide +kernel)
  · obtain ⟨⟨n, r'⟩, hrun, rfl, hbyte⟩ : ∃ x,
        threePages.copyout 0x1000 (2 ^ 32 - 1) [1, 2] = .ok x ∧ x.1 = 0 ∧ x.2 0x3000 = 2 :=
      exists_ok_of_any (by decide +kernel)
    exact ⟨r', hrun, hbyte⟩

end Ram
end

end Vm
end Xv6
