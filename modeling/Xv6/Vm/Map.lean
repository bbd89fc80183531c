/-
# Mapping pages

`walkpgdir` and `mappages` (`xv6/vm.c`, lines 35-79).  Mapping a page below
`KERNBASE` moves it from hand to the directory; the entries above it, which map all
of the memory, hold nothing.  A page table that `walkpgdir` adds changes no entry.
-/

import Xv6.Vm.Pages

namespace Xv6
namespace Vm

open Lib Function

variable {m : Machine} {s s' : Memory} {d n k p : ℕ} {Q R : Multiset ℕ} {perm : Flags}

theorem PDX_mul (hn : n < NPAGES) : PDX (n * PGSIZE) = n / NPTENTRIES := by
  unfold PDX NPAGES PGSIZE NPTENTRIES NPDENTRIES at *
  omega

theorem PTX_mul (n : ℕ) : PTX (n * PGSIZE) = n % NPTENTRIES := by
  unfold PTX PGSIZE NPTENTRIES
  omega

theorem div_lt (hn : n < NPAGES) : n / NPTENTRIES < NPDENTRIES := by
  unfold NPAGES NPTENTRIES NPDENTRIES at *
  omega

/-- What an entry for page `n` holds if it maps `p`. -/
def grip (n p : ℕ) : Multiset ℕ := if n < USERPAGES then {p} else 0

/-- A page is mapped where none was. -/
theorem user_map (hother : ∀ k < NPAGES, k ≠ n → s'.pte d k = s.pte d k)
    (hn : s.pte d n = none) (hn' : s'.pte d n = some ⟨p, perm⟩) :
    s'.user d = grip n p + s.user d := by
  unfold grip
  split
  next hlt =>
    rw [Multiset.singleton_add]
    refine held_fill (Finset.mem_range.2 hlt) (by rw [hn, Option.map_none])
      (by rw [hn', Option.map_some]) fun k hk hne => ?_
    rw [hother k (lt_of_lt_of_le (Finset.mem_range.1 hk) userPages_le) hne]
  next hge =>
    rw [zero_add]
    refine user_congr fun k hk => hother k (lt_of_lt_of_le hk userPages_le) ?_
    rintro rfl
    exact hge hk

/-! ### `walkpgdir` -/

/-- The entries of a directory are as they were. -/
def SamePtes (d : ℕ) (s s' : Memory) : Prop := ∀ k < NPAGES, s'.pte d k = s.pte d k

/-- A page table without entries is added to a directory. -/
theorem Owns.add_table (h : Owns m s (s.pages d + (p ::ₘ R))) {i : ℕ} (hi : i < NPDENTRIES)
    (hnone : s.tab d i = none) (fl : Flags) :
    Owns m ((s.zero p).put d i (some ⟨p, fl⟩)) (((s.zero p).put d i (some ⟨p, fl⟩)).pages d + R) ∧
      SamePtes d s ((s.zero p).put d i (some ⟨p, fl⟩)) ∧
      Keeps R s ((s.zero p).put d i (some ⟨p, fl⟩)) := by
  have hp := h.not_dir (Multiset.mem_cons_self p R)
  obtain ⟨hpd, hpt⟩ := not_or.1 fun hmem => hp (Multiset.mem_cons.2 hmem)
  have hpR : p ∉ R :=
    (Multiset.nodup_cons.1 (Multiset.nodup_add.1 h.nodup_dir).2.1).1
  have hdR : d ∉ R := fun hmem =>
    h.not_rest (Multiset.mem_add.2 (.inl (Multiset.mem_cons_self ..)))
      (Multiset.mem_cons_of_mem hmem)
  have htab : ((s.zero p).put d i (some ⟨p, fl⟩)).tab d =
      update (s.tab d) i (some ⟨p, fl⟩) := by
    simp only [Memory.put, Memory.zero, update_self, update_of_ne (Ne.symm hpd)]
  have hother : ∀ q, q ≠ d → q ≠ p → ((s.zero p).put d i (some ⟨p, fl⟩)).tab q = s.tab q := by
    intro q hqd hqp
    simp only [Memory.put, Memory.zero, update_of_ne hqd, update_of_ne hqp]
  have hzero : ((s.zero p).put d i (some ⟨p, fl⟩)).tab p = fun _ => none := by
    simp only [Memory.put, Memory.zero, update_of_ne hpd, update_self]
  have hsame : SamePtes d s ((s.zero p).put d i (some ⟨p, fl⟩)) := by
    intro k hk
    unfold Memory.pte
    rw [htab]
    rcases eq_or_ne (k / NPTENTRIES) i with rfl | hne
    · rw [update_self, Option.bind_some, hzero, hnone, Option.bind_none]
    · rw [update_of_ne hne]
      cases hpde : s.tab d (k / NPTENTRIES) with
      | none => rfl
      | some pde =>
        have hmem := mem_tables (div_lt hk) hpde
        rw [Option.bind_some, Option.bind_some, hother]
        · exact h.table_ne (div_lt hk) hpde
        · rintro heq
          exact hpt (heq ▸ hmem)
  have htables : ((s.zero p).put d i (some ⟨p, fl⟩)).tables d = p ::ₘ s.tables d := by
    unfold Memory.tables
    rw [htab]
    refine held_fill (Finset.mem_range.2 hi) (by rw [hnone, Option.map_none])
      (by rw [update_self, Option.map_some]) fun j _ hj => ?_
    rw [update_of_ne hj]
  refine ⟨⟨?_, h.once⟩, hsame, fun q hq => hother q ?_ ?_⟩
  · change (s.free : Multiset ℕ) + _ = _
    rw [← h.split, Memory.pages, Memory.pages, htables,
      user_congr fun k hk => hsame k (lt_of_lt_of_le hk userPages_le)]
    simp only [Multiset.add_cons, Multiset.cons_add, Multiset.cons_swap p d]
  · rintro rfl
    exact hdR hq
  · rintro rfl
    exact hpR hq

/-- **`walkpgdir` with `alloc`** fails if there is no page for the table. -/
theorem Owns.walkpgdir (h : Owns m s (s.pages d + R)) (hn : n < NPAGES) :
    (∃ s', s.walkpgdir d (n * PGSIZE) true = (none, s') ∧ Owns m s' (s'.pages d + R) ∧
      SamePtes d s s' ∧ Keeps R s s' ∧ Starved false s s') ∨
    ∃ pde s', s.walkpgdir d (n * PGSIZE) true = (some pde.addr, s') ∧
      s'.tab d (n / NPTENTRIES) = some pde ∧ Owns m s' (s'.pages d + R) ∧
      SamePtes d s s' ∧ Keeps R s s' ∧ Starved true s s' := by
  unfold Memory.walkpgdir
  rw [PDX_mul hn]
  cases hpde : s.tab d (n / NPTENTRIES) with
  | some pde =>
    exact .inr ⟨pde, s, rfl, hpde, h, fun _ _ => rfl, fun _ _ => rfl,
      fun hnil => ⟨hnil, fun hok => (nomatch hok)⟩⟩
  | none =>
    rw [if_pos rfl]
    rcases h.kalloc with ⟨s₁, hk, hown, htab, hstarved⟩ | ⟨p, s₁, hk, hown, htab, hstarved⟩
    · have hkeeps : ∀ Q, Keeps Q s s₁ := fun Q q _ => by rw [htab]
      refine .inl ⟨s₁, by rw [hk], ?_, fun k hk => (hkeeps _).pte_eq hk, hkeeps R, hstarved⟩
      rwa [(hkeeps _).pages_eq]
    · have hkeeps : ∀ Q, Keeps Q s s₁ := fun Q q _ => by rw [htab]
      have hown₁ : Owns m s₁ (s₁.pages d + (p ::ₘ R)) := by
        rw [(hkeeps _).pages_eq]
        exact hown.congr (by rw [Multiset.add_cons])
      obtain ⟨hown₂, hsame, hkeep⟩ := hown₁.add_table (div_lt hn) (by rw [htab, hpde]) ⟨true, true⟩
      refine .inr ⟨⟨p, ⟨true, true⟩⟩, _, by rw [hk], ?_, hown₂, fun k hk => ?_,
        (hkeeps R).trans hkeep, hstarved⟩
      · simp [Memory.put]
      · rw [hsame k hk, (hkeeps _).pte_eq hk]

/-! ### `mappages` -/

/-- What mapping a page at `n` does, if it succeeds, and leaves alone, if it fails. -/
structure Mapped (m : Machine) (d : ℕ) (R : Multiset ℕ) (n p : ℕ) (perm : Flags)
    (s : Memory) (ok : Bool) (s' : Memory) : Prop where
  keeps : Keeps R s s'
  done : ok = true → Owns m s' (s'.pages d + R) ∧
    ∀ k < NPAGES, s'.pte d k = if k = n then some ⟨p, perm⟩ else s.pte d k
  failed : ok = false → Owns m s' (s'.pages d + (grip n p + R)) ∧ SamePtes d s s'
  starved : Starved ok s s'

/-- **The body of `mappages`**: an absent entry is filled. -/
theorem Owns.mapPage (h : Owns m s (s.pages d + (grip n p + R))) (hn : n < NPAGES)
    (hnone : s.pte d n = none) (perm : Flags) :
    ∃ ok s', s.mapPage d (n * PGSIZE) p perm = .ok (ok, s') ∧ Mapped m d R n p perm s ok s' := by
  unfold Memory.mapPage
  have hle : R ≤ grip n p + R := Multiset.le_add_left R (grip n p)
  rcases h.walkpgdir hn with ⟨s₁, hw, hown, hsame, hkeep, hstarved⟩ |
    ⟨pde, s₁, hw, hpde, hown, hsame, hkeep, hstarved⟩
  · rw [hw]
    exact ⟨false, s₁, rfl, hkeep.mono hle, fun hok => (nomatch hok), fun _ => ⟨hown, hsame⟩,
      hstarved⟩
  · have hnone₁ : s₁.tab pde.addr (n % NPTENTRIES) = none := by
      rw [← pte_eq hpde, hsame n hn, hnone]
    rw [hw, PTX_mul]
    dsimp only
    rw [hnone₁, if_neg (by simp)]
    have hput := fun k hk => hown.pte_put (k := k) hn hpde (some ⟨p, perm⟩) hk
    refine ⟨true, _, rfl, (hkeep.mono hle).trans (keeps_update ?_ rfl), fun _ => ⟨⟨?_, hown.once⟩,
      fun k hk => ?_⟩, fun hok => (nomatch hok), hstarved⟩
    · intro hmem
      exact hown.not_rest (Multiset.mem_add.2 (.inl (Multiset.mem_cons_of_mem
        (mem_tables (div_lt hn) hpde)))) (Multiset.mem_of_le hle hmem)
    · change (s₁.free : Multiset ℕ) + _ = _
      have huser : (s₁.put pde.addr (n % NPTENTRIES) (some ⟨p, perm⟩)).user d =
          grip n p + s₁.user d :=
        user_map (fun k hk hne => by rw [hput k hk, if_neg hne]) (by rw [hsame n hn, hnone])
          (by rw [hput n hn, if_pos rfl])
      rw [← hown.split, Memory.pages, Memory.pages, tables_congr (hown.tab_put hn hpde _), huser]
      ac_rfl
    · rw [hput k hk, hsame k hk]

theorem PGROUNDDOWN_mul (n : ℕ) : PGROUNDDOWN (n * PGSIZE) = n * PGSIZE := by
  unfold PGROUNDDOWN PGSIZE
  omega

/-- The number of turns of `mappages`. -/
theorem mapTurns {c : ℕ} (hn : n + c < NPAGES) :
    (PGROUNDDOWN ((n * PGSIZE + (c + 1) * PGSIZE - 1) % 2 ^ 32) + 2 ^ 32 - n * PGSIZE) % 2 ^ 32 /
      PGSIZE = c := by
  unfold PGROUNDDOWN PGSIZE
  unfold NPAGES NPDENTRIES NPTENTRIES at hn
  omega

theorem mappages_eq {c : ℕ} (hn : n + c < NPAGES) (s : Memory) (d pa : ℕ) (perm : Flags) :
    s.mappages d (n * PGSIZE) ((c + 1) * PGSIZE) pa perm =
      Memory.mapLoop d perm c (n * PGSIZE) pa s := by
  unfold Memory.mappages
  dsimp only
  rw [PGROUNDDOWN_mul, mapTurns hn]

/-- **A single page is mapped.** -/
theorem Owns.mappages (h : Owns m s (s.pages d + (grip n p + R))) (hn : n < NPAGES)
    (hnone : s.pte d n = none) (perm : Flags) :
    ∃ ok s', s.mappages d (n * PGSIZE) PGSIZE p perm = .ok (ok, s') ∧
      Mapped m d R n p perm s ok s' := by
  have heq := mappages_eq (c := 0) hn s d p perm
  rw [Nat.zero_add, Nat.one_mul] at heq
  rw [heq]
  exact h.mapPage hn hnone perm

/-! ### The kernel's part -/

/-- Entries from `b` on were filled above `KERNBASE`, and only up to `t`. -/
structure Filled (m : Machine) (d : ℕ) (R : Multiset ℕ) (b t : ℕ) (s s' : Memory) : Prop where
  owns : Owns m s' (s'.pages d + R)
  keeps : Keeps R s s'
  below : ∀ k < NPAGES, k < b → s'.pte d k = s.pte d k
  above : ∀ k < NPAGES, t ≤ k → s'.pte d k = s.pte d k

theorem Filled.trans {b b' t t' : ℕ} {s'' : Memory} (h : Filled m d R b t s s')
    (h' : Filled m d R b' t' s' s'') (hb : b ≤ b') (ht : t ≤ t') : Filled m d R b t' s s'' where
  owns := h'.owns
  keeps := h.keeps.trans h'.keeps
  below k hk hlt := (h'.below k hk (lt_of_lt_of_le hlt hb)).trans (h.below k hk hlt)
  above k hk hle := (h'.above k hk hle).trans (h.above k hk (le_trans ht hle))

/-- A turn of the loop. -/
theorem Owns.mapPage_kernel (h : Owns m s (s.pages d + R)) (hn : n < NPAGES)
    (huser : USERPAGES ≤ n) (hnone : s.pte d n = none) :
    ∃ ok s', s.mapPage d (n * PGSIZE) p perm = .ok (ok, s') ∧ Filled m d R n (n + 1) s s' ∧
      Starved ok s s' := by
  have hgrip : grip n p = 0 := if_neg (Nat.not_lt.2 huser)
  have h' : Owns m s (s.pages d + (grip n p + R)) := by rwa [hgrip, zero_add]
  obtain ⟨ok, s', hok, hmapped⟩ := h'.mapPage hn hnone perm
  refine ⟨ok, s', hok, ?_, hmapped.starved⟩
  cases ok with
  | true =>
    obtain ⟨hown, hpte⟩ := hmapped.done rfl
    refine ⟨hown, hmapped.keeps, fun k hk hlt => ?_, fun k hk hle => ?_⟩
    · rw [hpte k hk, if_neg (Nat.ne_of_lt hlt)]
    · rw [hpte k hk, if_neg (Nat.ne_of_gt hle)]
  | false =>
    obtain ⟨hown, hsame⟩ := hmapped.failed rfl
    rw [hgrip, zero_add] at hown
    exact ⟨hown, hmapped.keeps, fun k hk _ => hsame k hk, fun k hk _ => hsame k hk⟩

/-- **The loop of `mappages`** above `KERNBASE`. -/
theorem Owns.mapLoop {c : ℕ} (h : Owns m s (s.pages d + R)) (hn : n + c < NPAGES)
    (huser : USERPAGES ≤ n) (hnone : ∀ k < NPAGES, n ≤ k → s.pte d k = none) (pa : ℕ) :
    ∃ ok s', Memory.mapLoop d perm c (n * PGSIZE) pa s = .ok (ok, s') ∧
      Filled m d R n (n + c + 1) s s' ∧ Starved ok s s' := by
  induction c generalizing n pa s with
  | zero => exact h.mapPage_kernel hn huser (hnone n hn (Nat.le_refl n))
  | succ c ih =>
    obtain ⟨ok, s₁, hok, hfill, hstarved⟩ :=
      h.mapPage_kernel (p := pa) (n := n) (by omega) huser (hnone n (by omega) (Nat.le_refl n))
    unfold Memory.mapLoop
    rw [hok, ok_bind]
    dsimp only
    cases ok with
    | false =>
      refine ⟨false, s₁, rfl, ⟨hfill.owns, hfill.keeps, hfill.below, fun k hk hle => ?_⟩, hstarved⟩
      exact hfill.above k hk (by omega)
    | true =>
      have hnext : (n * PGSIZE + PGSIZE) % 2 ^ 32 = (n + 1) * PGSIZE := by
        unfold NPAGES NPDENTRIES NPTENTRIES at hn
        unfold PGSIZE
        omega
      have hnone₁ : ∀ k < NPAGES, n + 1 ≤ k → s₁.pte d k = none := by
        intro k hk hle
        rw [hfill.above k hk hle, hnone k hk (Nat.le_of_succ_le hle)]
      obtain ⟨ok, s₂, hok₂, hfill₂, hstarved₂⟩ := ih hfill.owns (by omega) (by omega) hnone₁
        ((pa + PGSIZE) % 2 ^ 32)
      rw [if_pos rfl, hnext, hok₂]
      refine ⟨ok, s₂, rfl, ?_, fun hnil => hstarved₂ (hstarved hnil).1⟩
      have hend : n + (c + 1) + 1 = n + 1 + c + 1 := by omega
      rw [hend]
      exact hfill.trans hfill₂ (Nat.le_succ n) (by omega)

/-- The lines of a table of mappings are one after the other, from page `b` on. -/
def Ascending : ℕ → List Memory.Kmap → Prop
  | _, [] => True
  | b, k :: ks => ∃ n c, b ≤ n ∧ n + c < NPAGES ∧ k.virt = n * PGSIZE ∧
      (k.phys_end + 2 ^ 32 - k.phys_start) % 2 ^ 32 = (c + 1) * PGSIZE ∧ Ascending (n + c + 1) ks

/-- **The loop of `setupkvm`.** -/
theorem Owns.mapKernel {b : ℕ} {ks : List Memory.Kmap} (h : Owns m s (s.pages d + R))
    (huser : USERPAGES ≤ b) (hks : Ascending b ks)
    (hnone : ∀ k < NPAGES, b ≤ k → s.pte d k = none) :
    ∃ ok s', Memory.mapKernel d ks s = .ok (ok, s') ∧ Filled m d R b NPAGES s s' ∧
      Starved ok s s' := by
  induction ks generalizing b s with
  | nil =>
    exact ⟨true, s, rfl, ⟨h, fun _ _ => rfl, fun _ _ _ => rfl, fun _ _ _ => rfl⟩,
      fun hnil => ⟨hnil, fun hok => (nomatch hok)⟩⟩
  | cons k ks ih =>
    obtain ⟨n, c, hbn, hn, hvirt, hsize, hks⟩ := hks
    obtain ⟨ok, s₁, hok, hfill, hstarved⟩ := h.mapLoop hn (le_trans huser hbn)
      (fun j hj hle => hnone j hj (le_trans hbn hle)) k.phys_start
    have hwide : Filled m d R b NPAGES s s₁ :=
      ⟨hfill.owns, hfill.keeps, fun j hj hlt => hfill.below j hj (lt_of_lt_of_le hlt hbn),
        fun j hj hle => absurd hj (Nat.not_lt.2 hle)⟩
    unfold Memory.mapKernel
    rw [hvirt, hsize, mappages_eq hn, hok, ok_bind]
    dsimp only
    cases ok with
    | false => exact ⟨false, s₁, rfl, hwide, hstarved⟩
    | true =>
      obtain ⟨ok, s₂, hok₂, hfill₂, hstarved₂⟩ := ih hfill.owns (by omega) hks fun j hj hle => by
        rw [hfill.above j hj hle, hnone j hj (by omega)]
      rw [if_pos rfl, hok₂]
      exact ⟨ok, s₂, rfl, hwide.trans hfill₂ (by omega) (Nat.le_refl _),
        fun hnil => hstarved₂ (hstarved hnil).1⟩

/-- `kmap` is one range after the other. -/
theorem ascending_kmap (m : Machine) : Ascending USERPAGES (Memory.kmap m) := by
  obtain ⟨q, hq⟩ := m.data_aligned
  have htext := m.text_lt
  have hdata := m.data_lt
  have hkend := m.kend_lt
  unfold PGSIZE at hq
  unfold EXTMEM PHYSTOP at *
  simp only [Memory.kmap, Ascending, NPAGES, NPDENTRIES, NPTENTRIES, USERPAGES, PGSIZE, KERNBASE,
    KERNLINK, DEVSPACE, EXTMEM, PHYSTOP]
  refine ⟨524288, 255, by omega, by omega, by omega, by omega, 524544, q - 257, by omega, by omega,
    by omega, by omega, 524288 + q, 57344 - q - 1, by omega, by omega, by omega, by omega, 1040384,
    8191, by omega, by omega, by omega, by omega, trivial⟩

end Vm
end Xv6
