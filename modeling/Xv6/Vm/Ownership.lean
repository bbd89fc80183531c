/-
# Who holds each page

Over every sequence of calls, with any calls of `kalloc` failing, each allocatable
page is on the free list or held by one directory, once, and every call returns.
-/

import Xv6.Vm.Calls

namespace Xv6
namespace Vm

open Lib Function

variable {m : Machine} {s : State} {mem mem' : Memory} {d sz : ℕ} {fails : List Bool}

/-- The pages that the directories hold. -/
def Memory.heldBy (mem : Memory) (dirs : List ℕ) : Multiset ℕ := (dirs.map mem.pages).sum

/-- **The invariant**: every page is held once, and the directories map what their sizes say. -/
structure Inv (m : Machine) (s : State) : Prop where
  owns : Owns m s.mem (s.mem.heldBy s.dirs)
  spans : ∀ d ∈ s.dirs, s.mem.Spans d (s.sz d) ∧ s.sz d ≤ KERNBASE

theorem heldBy_cons (mem : Memory) (d : ℕ) (dirs : List ℕ) :
    mem.heldBy (d :: dirs) = mem.pages d + mem.heldBy dirs := by
  rw [Memory.heldBy, Memory.heldBy, List.map_cons, List.sum_cons]

/-- One of the directories, and the others. -/
theorem heldBy_erase {dirs : List ℕ} (hd : d ∈ dirs) :
    mem.heldBy dirs = mem.pages d + mem.heldBy (dirs.erase d) :=
  (List.sum_map_erase mem.pages hd).symm

theorem mem_heldBy {dirs : List ℕ} {q : ℕ} (hd : d ∈ dirs) (hq : q ∈ mem.pages d) :
    q ∈ mem.heldBy dirs := by
  rw [heldBy_erase hd]
  exact Multiset.mem_add.2 (.inl hq)

/-- A directory whose pages are kept. -/
theorem Keeps.dir {dirs : List ℕ} (h : Keeps (mem.heldBy dirs) mem mem') (hd : d ∈ dirs) :
    Keeps (d ::ₘ mem.tables d) mem mem' :=
  fun q hq => h q (mem_heldBy hd (Multiset.mem_add.2 (.inl hq)))

theorem Keeps.heldBy_eq {dirs : List ℕ} (h : Keeps (mem.heldBy dirs) mem mem') :
    mem'.heldBy dirs = mem.heldBy dirs := by
  unfold Memory.heldBy
  refine congrArg List.sum (List.map_congr_left fun d hd => ?_)
  exact (h.dir hd).pages_eq

theorem Keeps.spans {dirs : List ℕ} (h : Keeps (mem.heldBy dirs) mem mem') (hd : d ∈ dirs)
    (hspans : mem.Spans d sz) : mem'.Spans d sz := by
  intro n hn
  rw [(h.dir hd).pte_eq (lt_of_lt_of_le hn userPages_le)]
  exact hspans n hn

/-- The size that a caller passes is as good as the one on record. -/
theorem Inv.sized (h : Inv m s) (hsz : s.Sized d sz) : s.mem.Spans d sz := by
  obtain ⟨hd, hle, hround⟩ := hsz
  obtain ⟨hspans, hle'⟩ := h.spans d hd
  rw [PGROUNDUP_eq hle, PGROUNDUP_eq hle'] at hround
  have heq := Nat.eq_of_mul_eq_mul_right (by decide : 0 < PGSIZE) hround
  intro n hn
  rw [hspans n hn, page_lt_iff, page_lt_iff, heq]

/-- The directory that a call is about, and the rest. -/
theorem Inv.focus (h : Inv m s) (hd : d ∈ s.dirs) :
    Owns m s.mem (s.mem.pages d + s.mem.heldBy (s.dirs.erase d)) :=
  h.owns.congr (heldBy_erase hd)

/-! ### The calls -/

/-- A call that changes directory `d` and its size. -/
theorem Inv.resize (h : Inv m s) (hd : d ∈ s.dirs)
    (hown : Owns m mem (mem.pages d + s.mem.heldBy (s.dirs.erase d)))
    (hkeep : Keeps (s.mem.heldBy (s.dirs.erase d)) s.mem mem)
    (hspans : mem.Spans d sz) (hsz : sz ≤ KERNBASE) :
    Inv m { s with mem := mem, sz := update s.sz d sz } := by
  refine ⟨hown.congr ?_, fun d' hd' => ?_⟩
  · rw [heldBy_erase hd, hkeep.heldBy_eq]
  · dsimp only
    rcases eq_or_ne d' d with rfl | hne
    · rw [update_self]
      exact ⟨hspans, hsz⟩
    · rw [update_of_ne hne]
      obtain ⟨hspans', hle⟩ := h.spans d' hd'
      exact ⟨hkeep.spans ((List.mem_erase_of_ne hne).2 hd') hspans', hle⟩

/-- A call that changes no directory. -/
theorem Inv.unchanged (h : Inv m s) (hown : Owns m mem (s.mem.heldBy s.dirs))
    (hkeep : Keeps (s.mem.heldBy s.dirs) s.mem mem) : Inv m { s with mem := mem } :=
  ⟨hown.congr hkeep.heldBy_eq.symm, fun d hd => ⟨hkeep.spans hd (h.spans d hd).1,
    (h.spans d hd).2⟩⟩

/-- A call that adds a directory. -/
theorem Inv.add (h : Inv m s) (hown : Owns m mem (mem.pages d + s.mem.heldBy s.dirs))
    (hkeep : Keeps (s.mem.heldBy s.dirs) s.mem mem) (hspans : mem.Spans d sz)
    (hsz : sz ≤ KERNBASE) :
    Inv m { mem := mem, dirs := d :: s.dirs, sz := update s.sz d sz } := by
  refine ⟨hown.congr ?_, fun d' hd' => ?_⟩
  · rw [heldBy_cons, hkeep.heldBy_eq]
  · dsimp only
    rcases List.mem_cons.1 hd' with rfl | hold
    · rw [update_self]
      exact ⟨hspans, hsz⟩
    · have hne : d' ≠ d := by
        rintro rfl
        exact hown.not_rest (Multiset.mem_add.2 (.inl (Multiset.mem_cons_self ..)))
          (mem_heldBy hold (Multiset.mem_add.2 (.inl (Multiset.mem_cons_self ..))))
      rw [update_of_ne hne]
      exact ⟨hkeep.spans hold (h.spans d' hold).1, (h.spans d' hold).2⟩

section calls

variable (h : Inv m s)

include h

/-- Which calls of `kalloc` will fail does not matter. -/
theorem Inv.owns_fails (fails : List Bool) :
    Owns m { s.mem with fails := fails } (s.mem.heldBy s.dirs) := ⟨h.owns.split, h.owns.once⟩

theorem Inv.setupkvm (fails : List Bool) :
    (∃ mem, { s.mem with fails := fails }.setupkvm m = .ok (none, mem) ∧
      Owns m mem (s.mem.heldBy s.dirs) ∧ Inv m { s with mem := mem } ∧
      (fails = [] → m.pages.length ≤ 1 + NPDENTRIES + (s.mem.heldBy s.dirs).card)) ∨
    ∃ d mem, { s.mem with fails := fails }.setupkvm m = .ok (some d, mem) ∧
      Inv m { mem := mem, dirs := d :: s.dirs, sz := update s.sz d 0 } := by
  rcases (h.owns_fails fails).setupkvm with
    ⟨mem, hok, hown, hkeep, hfew⟩ | ⟨d, mem, hok, hown, hkeep, hnone⟩
  · exact .inl ⟨mem, hok, hown, h.unchanged hown hkeep, hfew⟩
  · refine .inr ⟨d, mem, hok, h.add hown hkeep (fun n hn => ?_) (Nat.zero_le _)⟩
    rw [hnone n hn]
    exact iff_of_false (by simp) (Nat.not_lt_zero _)

theorem Inv.allocuvm {oldsz : ℕ} (hsz : s.Sized d oldsz) (newsz : ℕ) (fails : List Bool) :
    ∃ r mem, { s.mem with fails := fails }.allocuvm m d oldsz newsz = .ok (r, mem) ∧
      (r = 0 → SamePtes d s.mem mem) ∧
      Inv m { s with mem := mem, sz := if r = 0 then s.sz else update s.sz d r } := by
  have hfocus : Owns m { s.mem with fails := fails } (({ s.mem with fails := fails } :
      Memory).pages d + s.mem.heldBy (s.dirs.erase d)) :=
    ⟨(h.focus hsz.1).split, h.owns.once⟩
  obtain ⟨r, mem, hok, hown, hkeep, hfail, hdone, -⟩ :=
    hfocus.allocuvm (h.sized hsz) hsz.2.1 newsz
  refine ⟨r, mem, hok, hfail, ?_⟩
  split
  next hr =>
    have hspans : mem.Spans d (s.sz d) := by
      intro n hn
      rw [hfail hr n (lt_of_lt_of_le hn userPages_le)]
      exact (h.spans d hsz.1).1 n hn
    have hresize := h.resize hsz.1 hown hkeep hspans (h.spans d hsz.1).2
    rwa [update_eq_self] at hresize
  next hr => exact h.resize hsz.1 hown hkeep (hdone hr).1 (hdone hr).2

theorem Inv.deallocuvm {oldsz : ℕ} (hsz : s.Sized d oldsz) (newsz : ℕ) :
    ∃ r mem, s.mem.deallocuvm m d oldsz newsz = .ok (r, mem) ∧
      Inv m { s with mem := mem, sz := update s.sz d r } := by
  obtain ⟨mem, hok, hcleared⟩ := (h.focus hsz.1).deallocuvm hsz.2.1 newsz
  refine ⟨_, mem, hok, h.resize hsz.1 hcleared.owns hcleared.keeps (fun n hn => ?_)
    (le_trans (Nat.min_le_left ..) hsz.2.1)⟩
  rw [hcleared.ptes n (lt_of_lt_of_le hn userPages_le), Nat.lt_min]
  split
  next hc =>
    refine iff_of_false (by simp) fun hlt => ?_
    have := (page_lt_iff newsz).1 hlt.2
    omega
  next hc =>
    rw [h.sized hsz n hn]
    refine ⟨fun hlt => ⟨hlt, (page_lt_iff newsz).2 ?_⟩, fun hlt => hlt.1⟩
    exact Nat.not_le.1 fun hle => hc ⟨hle, hlt⟩

theorem Inv.copyuvm (hsz : s.Sized d sz) (fails : List Bool) :
    (∃ mem, { s.mem with fails := fails }.copyuvm m d sz = .ok (none, mem) ∧
      Owns m mem (s.mem.heldBy s.dirs) ∧ Inv m { s with mem := mem }) ∨
    ∃ d' mem, { s.mem with fails := fails }.copyuvm m d sz = .ok (some d', mem) ∧
      Inv m { mem := mem, dirs := d' :: s.dirs, sz := update s.sz d' sz } := by
  have hsrc : ∀ q ∈ d ::ₘ s.mem.tables d, q ∈ s.mem.heldBy s.dirs := fun q hq =>
    mem_heldBy hsz.1 (Multiset.mem_add.2 (.inl hq))
  rcases (h.owns_fails fails).copyuvm hsrc (h.sized hsz) hsz.2.1 with
    ⟨mem, hok, hown, hkeep⟩ | ⟨d', mem, hok, hown, hkeep, hspans⟩
  · exact .inl ⟨mem, hok, hown, h.unchanged hown hkeep⟩
  · exact .inr ⟨d', mem, hok, h.add hown hkeep hspans hsz.2.1⟩

theorem Inv.freevm (hd : d ∈ s.dirs) :
    ∃ mem, s.mem.freevm m d = .ok mem ∧ Owns m mem (s.mem.heldBy (s.dirs.erase d)) ∧
      Inv m { s with mem := mem, dirs := s.dirs.erase d } := by
  obtain ⟨mem, hok, hown, hkeep⟩ := (h.focus hd).freevm
  refine ⟨mem, hok, hown, hown.congr hkeep.heldBy_eq.symm, fun d' hd' => ?_⟩
  obtain ⟨hspans, hle⟩ := h.spans d' (List.mem_of_mem_erase hd')
  exact ⟨hkeep.spans hd' hspans, hle⟩

/-- **Every call returns and keeps the invariant.** -/
theorem Inv.exec {c : Call} (hc : Allowed s c) : ∃ s', exec m s c = .ok s' ∧ Inv m s' := by
  cases c with
  | setupkvm fails =>
    rcases h.setupkvm fails with ⟨mem, hok, -, hinv, -⟩ | ⟨d, mem, hok, hinv⟩
    · exact ⟨_, by rw [Vm.exec, hok, ok_bind], hinv⟩
    · exact ⟨_, by rw [Vm.exec, hok, ok_bind], hinv⟩
  | allocuvm pgdir oldsz newsz fails =>
    obtain ⟨r, mem, hok, -, hinv⟩ := h.allocuvm hc.1 newsz fails
    exact ⟨_, by rw [Vm.exec, hok, ok_bind], hinv⟩
  | deallocuvm pgdir oldsz newsz =>
    obtain ⟨r, mem, hok, hinv⟩ := h.deallocuvm hc.1 newsz
    exact ⟨_, by rw [Vm.exec, hok, ok_bind], hinv⟩
  | copyuvm pgdir sz fails =>
    rcases h.copyuvm hc fails with ⟨mem, hok, -, hinv⟩ | ⟨d, mem, hok, hinv⟩
    · exact ⟨_, by rw [Vm.exec, hok, ok_bind], hinv⟩
    · exact ⟨_, by rw [Vm.exec, hok, ok_bind], hinv⟩
  | freevm pgdir =>
    obtain ⟨mem, hok, -, hinv⟩ := h.freevm hc
    exact ⟨_, by rw [Vm.exec, hok, ok_bind], hinv⟩

end calls

/-! ### Runs -/

theorem inv_boot (m : Machine) (tab : ℕ → ℕ → Option Pte) : Inv m (boot m tab) := by
  refine ⟨⟨?_, rfl⟩, fun d hd => absurd hd List.not_mem_nil⟩
  change (m.pages.reverse : Multiset ℕ) + 0 = _
  rw [add_zero, Multiset.coe_eq_coe]
  exact List.reverse_perm _

theorem inv_of_reach {tab : ℕ → ℕ → Option Pte} (h : Reach (step m) Allowed (boot m tab) s) :
    Inv m s := by
  refine h.invariant (I := Inv m) (inv_boot m tab) fun t c u ht hc hstep => ?_
  obtain ⟨u', hok, hinv⟩ := ht.exec hc
  rw [step, hok] at hstep
  cases hstep
  exact hinv

/-- **Ownership of physical pages.**  Whatever calls of `kalloc` fail: each allocatable page
is once on the free list or held by a directory, as the directory, one of its page tables or a
page that it maps below `KERNBASE`; no page was freed twice; and every call returns, so none
maps a page over another.  A call of `allocuvm` that fails changes no user entry, one of
`setupkvm` or `copyuvm` that fails returns what it took, and `freevm` returns all pages of its
directory. -/
theorem pages_owned {tab : ℕ → ℕ → Option Pte} (h : Reach (step m) Allowed (boot m tab) s) :
    (∀ p, s.mem.free.count p + (s.dirs.map fun d => (s.mem.pages d).count p).sum =
      if p ∈ m.pages then 1 else 0) ∧
    s.mem.twice = false ∧
    (∀ d ∈ s.dirs, s.mem.Spans d (s.sz d)) ∧
    (∀ c, Allowed s c → ∃ s', exec m s c = .ok s') ∧
    (∀ d oldsz newsz fails mem, s.Sized d oldsz →
      { s.mem with fails := fails }.allocuvm m d oldsz newsz = .ok (0, mem) →
      ∀ n < USERPAGES, mem.pte d n = s.mem.pte d n) ∧
    (∀ fails mem, { s.mem with fails := fails }.setupkvm m = .ok (none, mem) →
      mem.free.Perm s.mem.free) ∧
    (∀ d sz fails mem, s.Sized d sz →
      { s.mem with fails := fails }.copyuvm m d sz = .ok (none, mem) →
      mem.free.Perm s.mem.free) ∧
    ∀ d ∈ s.dirs, ∀ mem, s.mem.freevm m d = .ok mem →
      (mem.free : Multiset ℕ) = s.mem.free + s.mem.pages d := by
  have hinv := inv_of_reach h
  -- pages that were held before a call and are held by the same after it
  have hperm : ∀ {mem : Memory}, Owns m mem (s.mem.heldBy s.dirs) → mem.free.Perm s.mem.free := by
    intro mem hown
    have heq := hown.split.trans hinv.owns.split.symm
    exact Multiset.coe_eq_coe.1 (add_right_cancel heq)
  refine ⟨fun p => ?_, hinv.owns.once, fun d hd => (hinv.spans d hd).1, fun c hc => ?_,
    fun d oldsz newsz fails mem hsz hok n hn => ?_, fun fails mem hok => ?_,
    fun d sz fails mem hsz hok => ?_, fun d hd mem hok => ?_⟩
  · have hcount := congrArg (Multiset.count p) hinv.owns.split
    rw [Multiset.count_add, Multiset.coe_count, Multiset.coe_count,
      (nodup_pages m).count] at hcount
    rw [← hcount, Memory.heldBy, ← Multiset.coe_countAddMonoidHom, map_list_sum, List.map_map]
    rfl
  · obtain ⟨s', hok, -⟩ := hinv.exec hc
    exact ⟨s', hok⟩
  · obtain ⟨r, mem', hok', hfail, -⟩ := hinv.allocuvm hsz newsz fails
    rw [hok] at hok'
    cases hok'
    exact hfail rfl n (lt_of_lt_of_le hn userPages_le)
  · rcases hinv.setupkvm fails with ⟨mem', hok', hown, -⟩ | ⟨d, mem', hok', -⟩
    · rw [hok] at hok'
      cases hok'
      exact hperm hown
    · rw [hok] at hok'
      cases hok'
  · rcases hinv.copyuvm hsz fails with ⟨mem', hok', hown, -⟩ | ⟨d, mem', hok', -⟩
    · rw [hok] at hok'
      cases hok'
      exact hperm hown
    · rw [hok] at hok'
      cases hok'
  · obtain ⟨mem', hok', hown, -⟩ := hinv.freevm hd
    rw [hok] at hok'
    cases hok'
    have heq := hown.split.trans (hinv.focus hd).split.symm
    rw [← add_assoc] at heq
    exact add_right_cancel heq

/-- A kernel of eight pages of text and data. -/
def small : Machine where
  data := EXTMEM + 4 * PGSIZE
  kend := EXTMEM + 8 * PGSIZE
  data_aligned := by decide
  text_lt := by decide
  data_lt := by decide
  kend_lt := by decide

/-- The first directory is made, and is not on the free list then. -/
theorem pages_owned_small :
    ∃ s d, Reach (step small) Allowed (boot small fun _ _ => none) s ∧ s.dirs = [d] ∧
      s.mem.free.count d = 0 := by
  have hlen : 1 + NPDENTRIES < small.pages.length := by
    rw [Machine.pages, List.length_map, List.length_range]
    unfold NPDENTRIES
    decide
  rcases (inv_boot small fun _ _ => none).setupkvm [] with
    ⟨mem, -, -, -, hfew⟩ | ⟨d, mem, hok, -⟩
  · exact absurd (hfew rfl) (Nat.not_le.2 hlen)
  · have hstep : step small (boot small fun _ _ => none) (.setupkvm []) =
        some ⟨mem, [d], update (fun _ => 0) d 0⟩ := by
      rw [step, exec, hok]
      rfl
    have hs : Reach (step small) Allowed (boot small fun _ _ => none)
        ⟨mem, [d], update (fun _ => 0) d 0⟩ :=
      Reach.refl.tail (Call.setupkvm []) True.intro hstep
    refine ⟨_, d, hs, rfl, ?_⟩
    have hcount := (pages_owned hs).1 d
    have hmem : 0 < (mem.pages d).count d :=
      Multiset.count_pos.2 (Multiset.mem_add.2 (.inl (Multiset.mem_cons_self ..)))
    rw [List.map_singleton, List.sum_singleton] at hcount
    dsimp only at hcount ⊢
    split at hcount <;> omega

end Vm
end Xv6
