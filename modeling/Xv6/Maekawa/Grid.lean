/-
# The voting sets

`main` of `xv6/maekawa.c` (lines 477-490) puts the children on an `N × N` grid and
gives each the first `K = 2N - 1` of those in its row or its column.  There are
exactly `2N - 1` of them (`Config.length_S`), so the bound cuts nothing off, and the
set of `x` is its row and its column (`Config.mem_S`).  Two such sets always meet,
where the row of one crosses the column of the other (`Config.exists_common`).

The two loops of `main` themselves are `fillRow` and `fillSets`; the array they leave
holds these sets, whatever was in it before (`voting_sets`).
-/

import Xv6.Lib.Cursor
import Xv6.Maekawa.System

namespace Xv6
namespace Maekawa

open Lib

variable {c : Config} {x y : ℕ}

namespace Config

/-- The row and the column of `x`, as sets of children. -/
def row (c : Config) (x : ℕ) : Finset ℕ := {y ∈ Finset.range c.P | y / c.N = x / c.N}

def column (c : Config) (x : ℕ) : Finset ℕ := {y ∈ Finset.range c.P | y % c.N = x % c.N}

theorem N_pos (hx : x < c.P) : 0 < c.N := by
  unfold P at hx
  exact Nat.pos_of_mul_pos_left (Nat.lt_of_le_of_lt (Nat.zero_le _) hx)

/-- A cell of the grid, from its row and its column. -/
theorem cell_lt {a b : ℕ} (ha : a < c.N) (hb : b < c.N) : a * c.N + b < c.P := by
  unfold P
  have h : (a + 1) * c.N ≤ c.N * c.N := Nat.mul_le_mul_right _ ha
  rw [Nat.add_mul, Nat.one_mul] at h
  omega

theorem cell_div {a b : ℕ} (hb : b < c.N) : (a * c.N + b) / c.N = a := by
  rw [Nat.mul_comm, Nat.mul_add_div (by omega), Nat.div_eq_of_lt hb, Nat.add_zero]

theorem cell_mod {a b : ℕ} (hb : b < c.N) : (a * c.N + b) % c.N = b := by
  rw [Nat.mul_comm, Nat.mul_add_mod, Nat.mod_eq_of_lt hb]

theorem div_lt (hx : x < c.P) : x / c.N < c.N := Nat.div_lt_of_lt_mul hx

theorem card_row (hx : x < c.P) : (c.row x).card = c.N := by
  have hN := N_pos hx
  have himage : c.row x = (Finset.range c.N).image fun b => x / c.N * c.N + b := by
    ext y
    simp only [row, Finset.mem_filter, Finset.mem_range, Finset.mem_image]
    constructor
    · rintro ⟨-, hy⟩
      exact ⟨y % c.N, Nat.mod_lt _ hN, by rw [← hy, Nat.mul_comm, Nat.div_add_mod]⟩
    · rintro ⟨b, hb, rfl⟩
      exact ⟨cell_lt (div_lt hx) hb, cell_div hb⟩
  rw [himage, Finset.card_image_of_injective _ fun _ _ h => Nat.add_left_cancel h,
    Finset.card_range]

theorem card_column (hx : x < c.P) : (c.column x).card = c.N := by
  have hN := N_pos hx
  have himage : c.column x = (Finset.range c.N).image fun a => a * c.N + x % c.N := by
    ext y
    simp only [column, Finset.mem_filter, Finset.mem_range, Finset.mem_image]
    constructor
    · rintro ⟨hy, hmod⟩
      exact ⟨y / c.N, div_lt hy, by rw [← hmod, Nat.mul_comm, Nat.div_add_mod]⟩
    · rintro ⟨a, ha, rfl⟩
      exact ⟨cell_lt ha (Nat.mod_lt _ hN), cell_mod (Nat.mod_lt _ hN)⟩
  have hinj : Function.Injective fun a => a * c.N + x % c.N := fun a b h =>
    Nat.eq_of_mul_eq_mul_right hN (Nat.add_right_cancel h)
  rw [himage, Finset.card_image_of_injective _ hinj, Finset.card_range]

theorem row_inter_column (hx : x < c.P) : c.row x ∩ c.column x = {x} := by
  ext y
  simp only [row, column, Finset.mem_inter, Finset.mem_filter, Finset.mem_range,
    Finset.mem_singleton]
  constructor
  · rintro ⟨⟨-, hdiv⟩, -, hmod⟩
    rw [← Nat.div_add_mod y c.N, hdiv, hmod, Nat.div_add_mod]
  · rintro rfl
    exact ⟨⟨hx, rfl⟩, hx, rfl⟩

/-- The children that pass the test of the loop, before it stops at `K`. -/
def candidates (c : Config) (x : ℕ) : List ℕ :=
  (List.range c.P).filter fun y => y / c.N = x / c.N ∨ y % c.N = x % c.N

theorem length_candidates (hx : x < c.P) : (c.candidates x).length = c.K := by
  have hnodup : (c.candidates x).Nodup := List.nodup_range.filter _
  have hset : (c.candidates x).toFinset = c.row x ∪ c.column x := by
    ext y
    simp only [candidates, row, column, List.mem_toFinset, List.mem_filter, List.mem_range,
      decide_eq_true_eq, Finset.mem_union, Finset.mem_filter, Finset.mem_range]
    tauto
  have hcard := Finset.card_union_add_card_inter (c.row x) (c.column x)
  rw [row_inter_column hx, card_row hx, card_column hx, Finset.card_singleton, ← hset,
    List.toFinset_card_of_nodup hnodup] at hcard
  unfold K
  omega

theorem S_eq_candidates (hx : x < c.P) : c.S x = c.candidates x :=
  List.take_of_length_le (length_candidates hx).le

/-- **The voting set of `x` is its row and its column.** -/
theorem mem_S (hx : x < c.P) :
    y ∈ c.S x ↔ y < c.P ∧ (y / c.N = x / c.N ∨ y % c.N = x % c.N) := by
  rw [S_eq_candidates hx]
  simp [candidates]

theorem length_S (hx : x < c.P) : (c.S x).length = c.K := by
  rw [S_eq_candidates hx, length_candidates hx]

theorem nodup_S (c : Config) (x : ℕ) : (c.S x).Nodup :=
  (List.nodup_range.filter _).sublist (List.take_sublist _ _)

theorem card_S (hx : x < c.P) : (c.S x).toFinset.card = c.K := by
  rw [List.toFinset_card_of_nodup (c.nodup_S x), length_S hx]

theorem self_mem_S (hx : x < c.P) : x ∈ c.S x :=
  (mem_S hx).2 ⟨hx, .inl rfl⟩

theorem lt_of_mem_S (h : y ∈ c.S x) : y < c.P :=
  List.mem_range.1 (List.mem_filter.1 (List.mem_of_mem_take h)).1

/-- **Any two voting sets meet.** -/
theorem exists_common (hx : x < c.P) (hy : y < c.P) : ∃ z, z ∈ c.S x ∧ z ∈ c.S y := by
  have hmod : y % c.N < c.N := Nat.mod_lt _ (N_pos hy)
  refine ⟨x / c.N * c.N + y % c.N, ?_, ?_⟩
  · exact (mem_S hx).2 ⟨cell_lt (div_lt hx) hmod, .inl (cell_div hmod)⟩
  · exact (mem_S hy).2 ⟨cell_lt (div_lt hx) hmod, .inr (cell_mod hmod)⟩

/-! ### The loops -/

/-- The inner loop from `y` on, with `it` entries of `S[x]` filled. -/
def fillRow (c : Config) (x : ℕ) : ℕ → ℕ → ℕ → (ℕ → ℕ) → ℕ × (ℕ → ℕ)
  | 0, _, it, row => (it, row)
  | turns + 1, y, it, row =>
      if it = c.K then (it, row)
      else if y / c.N = x / c.N ∨ y % c.N = x % c.N then
        fillRow c x turns (y + 1) (it + 1) (Function.update row it y)
      else fillRow c x turns (y + 1) it row

/-- The outer loop: the array `S` after the rows of the list have been filled. -/
def fillSets (c : Config) (S : ℕ → ℕ → ℕ) (rows : List ℕ) : ℕ → ℕ → ℕ :=
  rows.foldl (fun S x => Function.update S x (c.fillRow x c.P 0 0 (S x)).2) S

/-- The inner loop puts the children that pass the test behind those that are there, up to `K`. -/
theorem fillRow_filled {turns it : ℕ} {row : ℕ → ℕ} {ys : List ℕ} (h : Filled c.K row it ys) :
    Filled c.K (c.fillRow x turns y it row).2 (c.fillRow x turns y it row).1
      ((ys ++ (List.range' y turns).filter fun y => y / c.N = x / c.N ∨ y % c.N = x % c.N).take
        c.K) := by
  induction turns generalizing y it row ys with
  | zero =>
    rw [List.range'_zero, List.filter_nil, List.append_nil, List.take_of_length_le]
    · exact h
    · rw [← h.entries, List.length_map, List.length_range]
      exact h.le
  | succ turns ih =>
    have hlen : ys.length = it := by rw [← h.entries, List.length_map, List.length_range]
    unfold fillRow
    split
    next hfull =>
      rw [List.take_append_of_le_length (by omega), List.take_of_length_le (by omega)]
      exact h
    next hroom =>
      rw [List.range'_succ]
      split
      next htest =>
        rw [List.filter_cons_of_pos (by simpa using htest)]
        have hpush := ih (y := y + 1) (h.push (by have := h.le; omega) y)
        rw [List.append_assoc] at hpush
        exact hpush
      next htest =>
        rw [List.filter_cons_of_neg (by simpa using htest)]
        exact ih h

/-- The inner loop as a whole leaves the voting set in the row. -/
theorem fillRow_eq (hx : x < c.P) (row : ℕ → ℕ) :
    (c.fillRow x c.P 0 0 row).1 = c.K ∧
      (List.range c.K).map (c.fillRow x c.P 0 0 row).2 = c.S x := by
  have hfilled : Filled c.K (c.fillRow x c.P 0 0 row).2 (c.fillRow x c.P 0 0 row).1 _ :=
    fillRow_filled (.empty c.K row)
  rw [List.nil_append, ← List.range_eq_range'] at hfilled
  have hit : (c.fillRow x c.P 0 0 row).1 = c.K := by
    have hlen := congrArg List.length hfilled.entries
    rw [List.length_map, List.length_range] at hlen
    exact hlen.trans (length_S hx)
  refine ⟨hit, ?_⟩
  have hentries := hfilled.entries
  rwa [hit] at hentries

/-- So does the outer loop, in every row: a later turn is about another row, or does the same
again. -/
theorem fillSets_eq (S : ℕ → ℕ → ℕ) {rows : List ℕ} (hrows : ∀ x ∈ rows, x < c.P)
    (hx : x ∈ rows ∨ (List.range c.K).map (S x) = c.S x) :
    (List.range c.K).map (c.fillSets S rows x) = c.S x := by
  induction rows generalizing S with
  | nil => exact hx.resolve_left List.not_mem_nil
  | cons z rows ih =>
    refine ih _ (fun x hx => hrows x (List.mem_cons_of_mem z hx)) ?_
    by_cases hxz : x = z
    · subst hxz
      dsimp only
      rw [Function.update_self]
      exact .inr (fillRow_eq (hrows x List.mem_cons_self) (S x)).2
    · dsimp only
      rw [Function.update_of_ne hxz]
      exact hx.imp_left fun h => (List.mem_cons.1 h).resolve_left hxz

end Config

/-- The entries of `S[x]` after the loops of `main`, from any contents of the array. -/
def Config.votingSet (c : Config) (junk : ℕ → ℕ → ℕ) (x : ℕ) : List ℕ :=
  (List.range c.K).map (c.fillSets junk (List.range c.P) x)

/-- **The voting sets**, for every `N`: the inner loop fills exactly `K` entries, which are
distinct; a child is in its own set; membership is symmetric; and any two sets meet. -/
theorem voting_sets (c : Config) (junk : ℕ → ℕ → ℕ) :
    (∀ x < c.P, (∀ row, (c.fillRow x c.P 0 0 row).1 = c.K) ∧
        (c.votingSet junk x).Nodup ∧ (∀ y ∈ c.votingSet junk x, y < c.P) ∧
        x ∈ c.votingSet junk x) ∧
      (∀ x < c.P, ∀ y < c.P, y ∈ c.votingSet junk x ↔ x ∈ c.votingSet junk y) ∧
      ∀ x < c.P, ∀ y < c.P, ∃ z, z ∈ c.votingSet junk x ∧ z ∈ c.votingSet junk y := by
  have hset : ∀ x < c.P, c.votingSet junk x = c.S x := fun x hx =>
    Config.fillSets_eq junk (fun x hx => List.mem_range.1 hx) (.inl (List.mem_range.2 hx))
  refine ⟨fun x hx => ?_, fun x hx y hy => ?_, fun x hx y hy => ?_⟩
  · rw [hset x hx]
    exact ⟨fun row => (Config.fillRow_eq hx row).1, c.nodup_S x, fun y hy => Config.lt_of_mem_S hy,
      Config.self_mem_S hx⟩
  · rw [hset x hx, hset y hy, Config.mem_S hx, Config.mem_S hy, eq_comm (a := y / c.N),
      eq_comm (a := y % c.N)]
    simp only [hx, hy]
  · rw [hset x hx, hset y hy]
    exact Config.exists_common hx hy

end Maekawa
end Xv6
