/-
# `setupkvm`, `allocuvm` and `copyuvm`

`xv6/vm.c`, lines 117-136, 219-249 and 313-345.  Each call returns, whichever calls
of `kalloc` fail, and on failure gives back what it took: `setupkvm` and `copyuvm`
free the new directory, and `allocuvm` removes the pages it has added, though not
the page tables.
-/

import Xv6.Vm.Free

namespace Xv6
namespace Vm

open Lib Function

variable {m : Machine} {s s' : Memory} {d n k p sz : ℕ} {Q R : Multiset ℕ}

/-- The pages that are mapped are those of `[0, sz)`. -/
def Memory.Spans (s : Memory) (d sz : ℕ) : Prop :=
  ∀ n < USERPAGES, (s.pte d n).isSome ↔ n * PGSIZE < sz

/-- Nothing is mapped from the last page on. -/
theorem Memory.Spans.pte_none (h : s.Spans d sz) (hn : n < USERPAGES)
    (hle : (sz + (PGSIZE - 1)) / PGSIZE ≤ n) : s.pte d n = none := by
  rw [← Option.not_isSome_iff_eq_none, h n hn, page_lt_iff]
  omega

/-! ### `setupkvm` -/

/-- A zeroed page is a directory without tables. -/
theorem pages_zero (s : Memory) (d : ℕ) :
    (s.zero d).pages d = {d} ∧ ∀ n, (s.zero d).pte d n = none := by
  have htab : (s.zero d).tab d = fun _ => none := Function.update_self ..
  have hpte : ∀ n, (s.zero d).pte d n = none := by
    intro n
    rw [Memory.pte, htab, Option.bind_none]
  refine ⟨?_, hpte⟩
  rw [Memory.pages, Memory.tables, Memory.user, held_eq_zero, held_eq_zero]
  · rfl
  · intro n _
    rw [hpte, Option.map_none]
  · intro i _
    rw [htab, Option.map_none]

/-- Without a free page the allocatable ones are those held. -/
theorem Owns.card_le (h : Owns m s Q) (hfree : s.free = []) : m.pages.length ≤ Q.card := by
  have hcard := congrArg Multiset.card h.split
  rw [hfree, Multiset.card_add, Multiset.coe_card, Multiset.coe_card, List.length_nil,
    Nat.zero_add] at hcard
  omega

/-- **`setupkvm`** makes a directory without user pages, or returns every page it took.  It
fails of itself only if the pages left are too few for the directory and its tables. -/
theorem Owns.setupkvm (h : Owns m s R) :
    (∃ s', s.setupkvm m = .ok (none, s') ∧ Owns m s' R ∧ Keeps R s s' ∧
      (s.fails = [] → m.pages.length ≤ 1 + NPDENTRIES + R.card)) ∨
    ∃ d s', s.setupkvm m = .ok (some d, s') ∧ Owns m s' (s'.pages d + R) ∧ Keeps R s s' ∧
      ∀ n < USERPAGES, s'.pte d n = none := by
  unfold Memory.setupkvm
  rcases h.kalloc with ⟨s₁, hk, hown, htab, hstarved⟩ | ⟨d, s₁, hk, hown, htab, hstarved⟩
  · rw [hk]
    refine .inl ⟨s₁, rfl, hown, fun q _ => by rw [htab], fun hnil => ?_⟩
    exact le_trans (hown.card_le ((hstarved hnil).2 rfl)) (Nat.le_add_left ..)
  · obtain ⟨hpages, hpte⟩ := pages_zero s₁ d
    have hdR : d ∉ R := (Multiset.nodup_cons.1 (Multiset.nodup_add.1 hown.nodup).2.1).1
    have hown₂ : Owns m (s₁.zero d) ((s₁.zero d).pages d + R) := by
      rw [hpages, Multiset.singleton_add]
      exact ⟨hown.split, hown.once⟩
    have hkeep : Keeps R s (s₁.zero d) := by
      refine keeps_update hdR (t := fun _ => none) ?_
      rw [Memory.zero, htab]
    obtain ⟨ok, s₂, hok, hfill, hstarved₂⟩ := hown₂.mapKernel (Nat.le_refl _) (ascending_kmap m)
      fun n _ _ => hpte n
    have hnone : ∀ n < USERPAGES, s₂.pte d n = none := by
      intro n hn
      rw [hfill.below n (lt_of_lt_of_le hn userPages_le) hn, hpte]
    rw [hk]
    dsimp only
    rw [if_neg (by decide), hok, ok_bind]
    dsimp only
    cases ok with
    | true => exact .inr ⟨d, s₂, rfl, hfill.owns, hkeep.trans hfill.keeps, hnone⟩
    | false =>
      obtain ⟨s₃, hfree, hown₃, hkeep₃⟩ := hfill.owns.freevm
      rw [if_neg (by simp), hfree, ok_bind]
      refine .inl ⟨s₃, rfl, hown₃, (hkeep.trans hfill.keeps).trans hkeep₃, fun hnil => ?_⟩
      have hcard := hfill.owns.card_le ((hstarved₂ (hstarved hnil).1).2 rfl)
      have huser : s₂.user d = 0 := held_eq_zero fun n hn => by
        rw [hnone n (Finset.mem_range.1 hn), Option.map_none]
      have htables : (s₂.tables d).card ≤ NPDENTRIES := by
        rw [← Finset.card_range NPDENTRIES]
        exact card_held_le
      rw [Memory.pages, huser, add_zero, Multiset.card_add, Multiset.card_cons] at hcard
      omega

/-! ### A page for the user -/

/-- A page in hand is written. -/
theorem Owns.scribble (h : Owns m s (s.pages d + (p ::ₘ R))) (t : ℕ → Option Pte)
    (hs' : s' = { s with tab := update s.tab p t }) :
    Owns m s' (s'.pages d + (p ::ₘ R)) ∧ SamePtes d s s' ∧ Keeps R s s' := by
  subst hs'
  have hdir : Keeps (d ::ₘ s.tables d) s { s with tab := update s.tab p t } :=
    keeps_update (h.not_dir (Multiset.mem_cons_self p R)) rfl
  have hpR : p ∉ R := (Multiset.nodup_cons.1 (Multiset.nodup_add.1 h.nodup_dir).2.1).1
  refine ⟨?_, fun k hk => hdir.pte_eq hk, keeps_update hpR rfl⟩
  rw [hdir.pages_eq]
  exact ⟨h.split, h.once⟩

/-- **`kalloc`** beside a directory; the page may be written. -/
theorem Owns.kalloc_page (h : Owns m s (s.pages d + R)) :
    (∃ s', s.kalloc = (none, s') ∧ Owns m s' (s'.pages d + R) ∧ SamePtes d s s' ∧
      Keeps R s s') ∨
    ∃ p s₁, s.kalloc = (some p, s₁) ∧ s₁.tab = s.tab ∧ ∀ t s', s' = { s₁ with tab := update s₁.tab p t } →
      Owns m s' (s'.pages d + (p ::ₘ R)) ∧ SamePtes d s s' ∧ Keeps R s s' := by
  rcases h.kalloc with ⟨s₁, hk, hown, htab, -⟩ | ⟨p, s₁, hk, hown, htab, -⟩
  · have hkeeps : ∀ Q, Keeps Q s s₁ := fun Q q _ => by rw [htab]
    refine .inl ⟨s₁, hk, ?_, fun k hk => (hkeeps _).pte_eq hk, hkeeps R⟩
    rwa [(hkeeps _).pages_eq]
  · have hkeeps : ∀ Q, Keeps Q s s₁ := fun Q q _ => by rw [htab]
    have hown₁ : Owns m s₁ (s₁.pages d + (p ::ₘ R)) := by
      rw [(hkeeps _).pages_eq]
      exact hown.congr (by rw [Multiset.add_cons])
    refine .inr ⟨p, s₁, hk, htab, fun t s' hs' => ?_⟩
    obtain ⟨hown₂, hsame, hkeep⟩ := hown₁.scribble t hs'
    refine ⟨hown₂, fun k hk => ?_, (hkeeps R).trans hkeep⟩
    rw [hsame k hk, (hkeeps _).pte_eq hk]

/-- **`kfree`** beside a directory. -/
theorem Owns.kfree_page (h : Owns m s (s.pages d + (p ::ₘ R))) :
    ∃ s', s.kfree m p = .ok s' ∧ Owns m s' (s'.pages d + R) ∧ SamePtes d s s' ∧ Keeps R s s' := by
  have hpR : p ∉ R := (Multiset.nodup_cons.1 (Multiset.nodup_add.1 h.nodup_dir).2.1).1
  obtain ⟨s', hfree, hown, htab⟩ := (h.congr (Multiset.add_cons ..)).kfree
  have hdir : Keeps (d ::ₘ s.tables d) s s' :=
    keeps_update (h.not_dir (Multiset.mem_cons_self p R)) htab
  refine ⟨s', hfree, ?_, fun k hk => hdir.pte_eq hk, keeps_update hpR htab⟩
  rwa [hdir.pages_eq]

/-! ### `allocuvm` -/

/-- The pages from `b` to `n` were added to the directory. -/
structure Grown (m : Machine) (d : ℕ) (R : Multiset ℕ) (b n : ℕ) (s s' : Memory) : Prop where
  owns : Owns m s' (s'.pages d + R)
  keeps : Keeps R s s'
  same : ∀ k < NPAGES, k < b ∨ n ≤ k → s'.pte d k = s.pte d k
  added : ∀ k, b ≤ k → k < n → (s'.pte d k).isSome

/-- **What `allocuvm` has added is removed again.** -/
theorem Owns.undo {b newsz oldsz : ℕ} {s₀ : Memory} (h : Owns m s (s.pages d + Q))
    (hsame : ∀ k < NPAGES, k < b ∨ n ≤ k → s.pte d k = s₀.pte d k)
    (hb : b = (oldsz + (PGSIZE - 1)) / PGSIZE) (hnew : newsz ≤ KERNBASE)
    (hn : n ≤ (newsz + (PGSIZE - 1)) / PGSIZE)
    (hnone : ∀ k < USERPAGES, b ≤ k → s₀.pte d k = none) :
    ∃ r s', s.deallocuvm m d newsz oldsz = .ok (r, s') ∧ Owns m s' (s'.pages d + Q) ∧
      Keeps Q s s' ∧ SamePtes d s₀ s' := by
  obtain ⟨s', hok, hcleared⟩ := h.deallocuvm hnew oldsz
  refine ⟨_, s', hok, hcleared.owns, hcleared.keeps, fun k hk => ?_⟩
  rw [hcleared.ptes k hk, ← hb]
  split
  next hc =>
    refine (hnone k ?_ hc.1).symm
    unfold USERPAGES KERNBASE PGSIZE at *
    omega
  next hc =>
    refine hsame k hk ?_
    by_cases hkb : k < b
    · exact .inl hkb
    · have hge : ¬k * PGSIZE < newsz := fun hlt => hc ⟨Nat.not_lt.1 hkb, hlt⟩
      rw [page_lt_iff] at hge
      exact .inr (by omega)

/-- The loop has come to the last page. -/
theorem pages_eq_of_le (hle : sz ≤ n * PGSIZE) (hn : n ≤ (sz + (PGSIZE - 1)) / PGSIZE) :
    (sz + (PGSIZE - 1)) / PGSIZE = n := by
  have hge := (page_lt_iff (n := n) sz).not.1 (Nat.not_lt.2 hle)
  omega

/-- **The loop of `allocuvm`.** -/
theorem Grown.allocLoop {b newsz oldsz fuel : ℕ} {s₀ : Memory} (h : Grown m d R b n s₀ s)
    (hb : b = (oldsz + (PGSIZE - 1)) / PGSIZE) (hnew : newsz < KERNBASE)
    (hbn : b ≤ n) (hn : n ≤ (newsz + (PGSIZE - 1)) / PGSIZE)
    (hnone : ∀ k < USERPAGES, b ≤ k → s₀.pte d k = none)
    (hfuel : newsz ≤ (n + fuel) * PGSIZE) :
    ∃ ok s', Memory.allocLoop m d oldsz newsz fuel (n * PGSIZE) s = .ok (ok, s') ∧
      (ok = true → Grown m d R b ((newsz + (PGSIZE - 1)) / PGSIZE) s₀ s') ∧
      (ok = false → Owns m s' (s'.pages d + R) ∧ Keeps R s₀ s' ∧ SamePtes d s₀ s') := by
  induction fuel generalizing n s with
  | zero =>
    refine ⟨true, s, rfl, fun _ => ?_, fun hok => (nomatch hok)⟩
    rwa [pages_eq_of_le hfuel hn]
  | succ fuel ih =>
    unfold Memory.allocLoop
    split
    next hlt =>
      have hn₁ := (page_lt_iff newsz).1 hlt
      have hnu := page_lt_userPages hlt (Nat.le_of_lt hnew)
      have hnp := lt_of_lt_of_le hnu userPages_le
      have hgrip : ∀ p, grip n p = {p} := fun p => if_pos hnu
      rcases h.owns.kalloc_page with ⟨s₁, hk, hown, hsame, hkeep⟩ | ⟨p, s₁, hk, -, hscribble⟩
      · obtain ⟨r, s₂, hok, hown₂, hkeep₂, hsame₂⟩ := hown.undo
          (fun k hk hc => (hsame k hk).trans (h.same k hk hc)) hb (Nat.le_of_lt hnew) hn hnone
        rw [hk]
        dsimp only
        rw [hok, ok_bind]
        exact ⟨false, s₂, rfl, fun hf => (nomatch hf),
          fun _ => ⟨hown₂, (h.keeps.trans hkeep).trans hkeep₂, hsame₂⟩⟩
      · obtain ⟨hown, hsame, hkeep⟩ := hscribble (fun _ => none) (s₁.zero p) rfl
        have hown' : Owns m (s₁.zero p) ((s₁.zero p).pages d + (grip n p + R)) := by
          rwa [hgrip, Multiset.singleton_add]
        have hfree : (s₁.zero p).pte d n = none := by
          rw [hsame n hnp, h.same n hnp (.inr (Nat.le_refl n)), hnone n hnu hbn]
        obtain ⟨ok, s₂, hok, hmapped⟩ := hown'.mappages hnp hfree ⟨true, true⟩
        have hkeep₂ := (h.keeps.trans hkeep).trans hmapped.keeps
        rw [hk]
        dsimp only
        rw [hok, ok_bind]
        dsimp only
        cases ok with
        | true =>
          obtain ⟨hown₂, hptes⟩ := hmapped.done rfl
          have hgrown : Grown m d R b (n + 1) s₀ s₂ := by
            refine ⟨hown₂, hkeep₂, fun k hk hc => ?_, fun k hbk hkn => ?_⟩
            · rw [hptes k hk, if_neg (by omega), hsame k hk, h.same k hk (by omega)]
            · rw [hptes k (by omega)]
              split
              · rfl
              · rw [hsame k (by omega)]
                exact h.added k hbk (by omega)
          rw [if_pos rfl, ← Nat.succ_mul]
          exact ih hgrown (by omega) hn₁ (le_trans hfuel (Nat.mul_le_mul_right _ (by omega)))
        | false =>
          obtain ⟨hown₂, hsame₂⟩ := hmapped.failed rfl
          obtain ⟨r, s₃, hok₃, hown₃, hkeep₃, hsame₃⟩ := hown₂.undo
            (fun k hk hc => (hsame₂ k hk).trans ((hsame k hk).trans (h.same k hk hc)))
            hb (Nat.le_of_lt hnew) hn hnone
          have hown₃' : Owns m s₃ (s₃.pages d + (p ::ₘ R)) := by
            rwa [hgrip, Multiset.singleton_add] at hown₃
          obtain ⟨s₄, hfree, hown₄, hsame₄, hkeep₄⟩ := hown₃'.kfree_page
          rw [if_neg (by simp), hok₃, ok_bind]
          dsimp only
          rw [hfree, ok_bind]
          refine ⟨false, s₄, rfl, fun hf => (nomatch hf), fun _ => ⟨hown₄, ?_, fun k hk => ?_⟩⟩
          · exact (hkeep₂.trans (hkeep₃.mono (Multiset.le_add_left R _))).trans hkeep₄
          · rw [hsame₄ k hk, hsame₃ k hk]
    next hge =>
      refine ⟨true, s, rfl, fun _ => ?_, fun hok => (nomatch hok)⟩
      rwa [pages_eq_of_le (Nat.not_lt.1 hge) hn]

/-- **`allocuvm`** maps the pages up to the new size, or leaves the entries as they are. -/
theorem Owns.allocuvm {oldsz : ℕ} (h : Owns m s (s.pages d + R))
    (hspans : s.Spans d oldsz) (hold : oldsz ≤ KERNBASE) (newsz : ℕ) :
    ∃ r s', s.allocuvm m d oldsz newsz = .ok (r, s') ∧ Owns m s' (s'.pages d + R) ∧
      Keeps R s s' ∧ (r = 0 → SamePtes d s s') ∧ (r ≠ 0 → s'.Spans d r ∧ r ≤ KERNBASE) ∧
      ∀ k < NPAGES, k * PGSIZE < oldsz → s'.pte d k = s.pte d k := by
  unfold Memory.allocuvm
  split
  · exact ⟨0, s, rfl, h, fun _ _ => rfl, fun _ _ _ => rfl, fun hr => absurd rfl hr,
      fun _ _ _ => rfl⟩
  next hnew =>
    split
    · exact ⟨oldsz, s, rfl, h, fun _ _ => rfl, fun _ _ _ => rfl, fun _ => ⟨hspans, hold⟩,
        fun _ _ _ => rfl⟩
    next hle =>
      have hstart : Grown m d R ((oldsz + (PGSIZE - 1)) / PGSIZE)
          ((oldsz + (PGSIZE - 1)) / PGSIZE) s s :=
        ⟨h, fun _ _ => rfl, fun _ _ _ => rfl, fun k hk hk' => absurd hk (Nat.not_le.2 hk')⟩
      have hfuel : newsz ≤
          ((oldsz + (PGSIZE - 1)) / PGSIZE + (newsz / PGSIZE + 1)) * PGSIZE := by
        unfold PGSIZE
        omega
      obtain ⟨ok, s', hok, hdone, hfailed⟩ := hstart.allocLoop rfl (Nat.not_le.1 hnew)
        (Nat.le_refl _) (by unfold PGSIZE; omega) (fun k hk => hspans.pte_none hk) hfuel
      rw [PGROUNDUP_eq hold, hok, ok_bind]
      refine ⟨_, s', rfl, ?_⟩
      cases ok with
      | false =>
        obtain ⟨hown, hkeep, hsame⟩ := hfailed rfl
        exact ⟨hown, hkeep, fun _ => hsame, fun hr => absurd rfl hr, fun k hk _ => hsame k hk⟩
      | true =>
        obtain ⟨hown, hkeep, hsame, hadded⟩ := hdone rfl
        refine ⟨hown, hkeep, fun hr k hk => hsame k hk ?_, fun hr => ⟨fun k hk => ?_, ?_⟩,
          fun k hk hlt => hsame k hk (.inl ((page_lt_iff oldsz).1 hlt))⟩
        · have hzero : newsz = 0 := hr
          rw [hzero]
          exact .inr (by unfold PGSIZE; omega)
        · change _ ↔ k * PGSIZE < newsz
          have hkp := lt_of_lt_of_le hk userPages_le
          have hpages : (oldsz + (PGSIZE - 1)) / PGSIZE ≤ (newsz + (PGSIZE - 1)) / PGSIZE := by
            unfold PGSIZE
            omega
          rw [page_lt_iff]
          by_cases hkb : k < (oldsz + (PGSIZE - 1)) / PGSIZE
          · rw [hsame k hkp (.inl hkb), hspans k hk, page_lt_iff]
            omega
          · by_cases hkn : k < (newsz + (PGSIZE - 1)) / PGSIZE
            · exact iff_of_true (hadded k (Nat.not_lt.1 hkb) hkn) hkn
            · rw [hsame k hkp (.inr (Nat.not_lt.1 hkn)), hspans k hk, page_lt_iff]
              omega
        · exact Nat.le_of_not_le hnew

/-! ### `copyuvm` -/

/-- The first `n` pages of `src` were copied to the new directory `d`. -/
structure Copied (m : Machine) (d : ℕ) (R : Multiset ℕ) (n : ℕ) (s s' : Memory) : Prop where
  owns : Owns m s' (s'.pages d + R)
  keeps : Keeps R s s'
  spans : ∀ k < USERPAGES, (s'.pte d k).isSome ↔ k < n

/-- **The loop of `copyuvm`.** -/
theorem Copied.copyLoop {src fuel : ℕ} {s₀ : Memory} (h : Copied m d R n s₀ s)
    (hsrc : ∀ q ∈ src ::ₘ s₀.tables src, q ∈ R) (hspans : s₀.Spans src sz) (hsz : sz ≤ KERNBASE)
    (hn : n ≤ (sz + (PGSIZE - 1)) / PGSIZE) (hfuel : sz ≤ (n + fuel) * PGSIZE) :
    ∃ ok s', Memory.copyLoop m src d sz fuel (n * PGSIZE) s = .ok (ok, s') ∧
      Owns m s' (s'.pages d + R) ∧ Keeps R s₀ s' ∧ (ok = true → s'.Spans d sz) := by
  have hend : ∀ {s : Memory} {n : ℕ}, Copied m d R n s₀ s → sz ≤ n * PGSIZE →
      n ≤ (sz + (PGSIZE - 1)) / PGSIZE → s.Spans d sz := by
    intro s n h hle hn k hk
    rw [h.spans k hk, page_lt_iff, pages_eq_of_le hle hn]
  induction fuel generalizing n s with
  | zero => exact ⟨true, s, rfl, h.owns, h.keeps, fun _ => hend h hfuel hn⟩
  | succ fuel ih =>
    unfold Memory.copyLoop
    split
    next hlt =>
      have hn₁ := (page_lt_iff sz).1 hlt
      have hnu := page_lt_userPages hlt hsz
      have hnp := lt_of_lt_of_le hnu userPages_le
      have hgrip : ∀ p, grip n p = {p} := fun p => if_pos hnu
      -- the source is as it was, so the page is there
      have hpte : s.pte src n = s₀.pte src n :=
        Keeps.pte_eq (fun q hq => h.keeps q (hsrc q hq)) hnp
      obtain ⟨e, he⟩ := Option.isSome_iff_exists.1 ((hspans n hnu).2 hlt)
      rw [← hpte] at he
      obtain ⟨pde, hpde, he⟩ := Option.bind_eq_some_iff.1 he
      unfold Memory.walkpgdir
      rw [PDX_mul hnp, PTX_mul, hpde]
      dsimp only
      rw [he]
      dsimp only
      rcases h.owns.kalloc_page with ⟨s₁, hk, hown, hsame, hkeep⟩ | ⟨p, s₁, hk, -, hscribble⟩
      · rw [hk]
        exact ⟨false, s₁, rfl, hown, h.keeps.trans hkeep, fun hf => (nomatch hf)⟩
      · obtain ⟨hown, hsame, hkeep⟩ := hscribble (s₁.tab e.addr) (s₁.move p e.addr) rfl
        have hown' : Owns m (s₁.move p e.addr)
            ((s₁.move p e.addr).pages d + (grip n p + R)) := by
          rwa [hgrip, Multiset.singleton_add]
        have hnone : (s₁.move p e.addr).pte d n = none := by
          rw [hsame n hnp, ← Option.not_isSome_iff_eq_none, h.spans n hnu]
          exact Nat.lt_irrefl n
        obtain ⟨ok, s₂, hok, hmapped⟩ := hown'.mappages hnp hnone e.flags
        have hkeep₂ := (h.keeps.trans hkeep).trans hmapped.keeps
        rw [hk]
        dsimp only
        rw [hok, ok_bind]
        dsimp only
        cases ok with
        | true =>
          obtain ⟨hown₂, hptes⟩ := hmapped.done rfl
          have hcopied : Copied m d R (n + 1) s₀ s₂ := by
            refine ⟨hown₂, hkeep₂, fun k hk => ?_⟩
            rw [hptes k (lt_of_lt_of_le hk userPages_le)]
            split
            next hkn => exact iff_of_true rfl (by omega)
            next hkn =>
              rw [hsame k (lt_of_lt_of_le hk userPages_le), h.spans k hk]
              omega
          rw [if_pos rfl, ← Nat.succ_mul]
          exact ih hcopied hn₁ (le_trans hfuel (Nat.mul_le_mul_right _ (by omega)))
        | false =>
          obtain ⟨hown₂, -⟩ := hmapped.failed rfl
          rw [hgrip, Multiset.singleton_add] at hown₂
          obtain ⟨s₃, hfree, hown₃, -, hkeep₃⟩ := hown₂.kfree_page
          rw [if_neg (by simp), hfree, ok_bind]
          exact ⟨false, s₃, rfl, hown₃, hkeep₂.trans hkeep₃, fun hf => (nomatch hf)⟩
    next hge => exact ⟨true, s, rfl, h.owns, h.keeps, fun _ => hend h (Nat.not_lt.1 hge) hn⟩

/-- **`copyuvm`** makes a directory with as many user pages, or returns every page it took. -/
theorem Owns.copyuvm {src : ℕ} (h : Owns m s R) (hsrc : ∀ q ∈ src ::ₘ s.tables src, q ∈ R)
    (hspans : s.Spans src sz) (hsz : sz ≤ KERNBASE) :
    (∃ s', s.copyuvm m src sz = .ok (none, s') ∧ Owns m s' R ∧ Keeps R s s') ∨
    ∃ d s', s.copyuvm m src sz = .ok (some d, s') ∧ Owns m s' (s'.pages d + R) ∧
      Keeps R s s' ∧ s'.Spans d sz := by
  unfold Memory.copyuvm
  rcases h.setupkvm with ⟨s₁, hok, hown, hkeep, -⟩ | ⟨d, s₁, hok, hown, hkeep, hnone⟩
  · rw [hok, ok_bind]
    exact .inl ⟨s₁, rfl, hown, hkeep⟩
  · have hstart : Copied m d R 0 s s₁ := by
      refine ⟨hown, hkeep, fun k hk => ?_⟩
      rw [hnone k hk]
      exact iff_of_false (by simp) (Nat.not_lt_zero k)
    have hfuel : sz ≤ (0 + (sz / PGSIZE + 1)) * PGSIZE := by
      unfold PGSIZE
      omega
    obtain ⟨ok, s₂, hok₂, hown₂, hkeep₂, hspans₂⟩ :=
      hstart.copyLoop hsrc hspans hsz (Nat.zero_le _) hfuel
    rw [Nat.zero_mul] at hok₂
    rw [hok, ok_bind]
    dsimp only
    rw [hok₂, ok_bind]
    dsimp only
    cases ok with
    | true => exact .inr ⟨d, s₂, rfl, hown₂, hkeep₂, hspans₂ rfl⟩
    | false =>
      obtain ⟨s₃, hfree, hown₃, hkeep₃⟩ := hown₂.freevm
      rw [if_neg (by simp), hfree, ok_bind]
      exact .inl ⟨s₃, rfl, hown₃, hkeep₂.trans hkeep₃⟩

end Vm
end Xv6
