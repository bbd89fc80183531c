/-
# Cyclic scans of a table, one hit at a time

A table of `n` entries is searched from the entry behind a cursor, wrapping
around at the end, until an entry satisfies `p` or all `n` have been seen; the
hit becomes the cursor of the next search (`nextAfter`).  Seen on the unrolled
line `t + 1, t + 2, …`, where entry `i` stands at every position congruent to
`i`, the search takes the first position that satisfies `p`, so the searches
that follow each other take the positions that satisfy `p` one after the other
(`rounds_eq`).  One turn of `n` positions meets every entry once: as many
searches as there are entries satisfying `p` hit each of these exactly once,
wherever the cursor stood (`rounds_perm`).
-/

import Xv6.Lib.RingBuffer

namespace Xv6
namespace Lib

/-- Look at `fuel` entries from `i` on, cyclically, for one that satisfies `p`. -/
def cyclicScan (n : ℕ) (p : ℕ → Bool) : ℕ → ℕ → Option ℕ
  | 0, _ => none
  | fuel + 1, i => if p i then some i else cyclicScan n p fuel ((i + 1) % n)

/-- The first entry behind the cursor that satisfies `p`, the cursor's own last. -/
def nextAfter (n : ℕ) (p : ℕ → Bool) (cursor : ℕ) : Option ℕ :=
  cyclicScan n p n ((cursor + 1) % n)

/-- The hits of `k` searches, each starting behind the hit before it. -/
def rounds (n : ℕ) (p : ℕ → Bool) : ℕ → ℕ → List ℕ
  | 0, _ => []
  | k + 1, cursor =>
      match nextAfter n p cursor with
      | none => []
      | some i => i :: rounds n p k i

variable {n : ℕ} {p : ℕ → Bool}

/-- A scan is a search along the unrolled line. -/
theorem cyclicScan_eq (fuel t : ℕ) :
    cyclicScan n p fuel (t % n) =
      ((List.range' t fuel).find? fun i => p (i % n)).map fun i => i % n := by
  induction fuel generalizing t with
  | zero => rfl
  | succ fuel ih =>
    rw [cyclicScan, List.range'_succ, List.find?_cons]
    cases hp : p (t % n) with
    | true => simp
    | false =>
      have := ih (t + 1)
      simpa [Nat.mod_add_mod] using this

theorem nextAfter_eq (t : ℕ) :
    nextAfter n p t = ((List.range' (t + 1) n).find? fun i => p (i % n)).map fun i => i % n :=
  cyclicScan_eq n (t + 1)

/-- Only the cursor's residue matters. -/
theorem nextAfter_mod (t : ℕ) : nextAfter n p (t % n) = nextAfter n p t := by
  rw [nextAfter, nextAfter, Nat.mod_add_mod]

theorem rounds_mod (k t : ℕ) : rounds n p k (t % n) = rounds n p k t := by
  cases k with
  | zero => rfl
  | succ k => rw [rounds, rounds, nextAfter_mod]

theorem nextAfter_of_pos (hn : 0 < n) {t : ℕ} (h : p ((t + 1) % n) = true) :
    nextAfter n p t = some ((t + 1) % n) := by
  obtain ⟨m, rfl⟩ : ∃ m, n = m + 1 := ⟨n - 1, by omega⟩
  rw [nextAfter_eq, List.range'_succ, List.find?_cons, h]
  rfl

/-- An entry that does not satisfy `p` is passed over: it is the last one a
search from behind it looks at. -/
theorem nextAfter_of_neg {t : ℕ} (h : p ((t + 1) % n) = false) :
    nextAfter n p t = nextAfter n p (t + 1) := by
  cases n with
  | zero => rfl
  | succ m =>
    have hlast : p ((t + 1 + 1 + m) % (m + 1)) = false := by
      rw [show t + 1 + 1 + m = t + 1 + (m + 1) by omega, Nat.add_mod_right]
      exact h
    rw [nextAfter_eq, nextAfter_eq, List.range'_succ, List.find?_cons, h,
      List.range'_concat, List.find?_append, List.find?_cons, Nat.one_mul, hlast]
    simp

theorem rounds_of_neg {t : ℕ} (h : p ((t + 1) % n) = false) (k : ℕ) :
    rounds n p k t = rounds n p k (t + 1) := by
  cases k with
  | zero => rfl
  | succ k => rw [rounds, rounds, nextAfter_of_neg h]

/-- **The searches follow the unrolled line.** -/
theorem rounds_eq (hn : 0 < n) (m t : ℕ) :
    rounds n p ((List.range' (t + 1) m).filter fun i => p (i % n)).length t =
      ((List.range' (t + 1) m).filter fun i => p (i % n)).map fun i => i % n := by
  induction m generalizing t with
  | zero => rfl
  | succ m ih =>
    rw [List.range'_succ]
    cases h : p ((t + 1) % n) with
    | true =>
      rw [List.filter_cons_of_pos (p := fun i => p (i % n)) h, List.length_cons, List.map_cons, rounds,
        nextAfter_of_pos hn h]
      change (t + 1) % n :: rounds n p _ ((t + 1) % n) = _
      rw [rounds_mod, ih (t + 1)]
    | false =>
      rw [List.filter_cons_of_neg (p := fun i => p (i % n)) (by simp [h]), rounds_of_neg h,
        ih (t + 1)]

/-- One turn meets every entry once. -/
theorem range'_map_mod_perm (t : ℕ) : ((List.range' t n).map fun i => i % n).Perm (List.range n) := by
  have hnd : ((List.range' t n).map fun i => i % n).Nodup := by
    refine List.Nodup.map_on (fun a ha b hb h => ?_) (List.nodup_range' ..)
    obtain ⟨i, hi, rfl⟩ := List.mem_range'.1 ha
    obtain ⟨j, hj, rfl⟩ := List.mem_range'.1 hb
    rw [Nat.one_mul, Nat.one_mul] at h
    rw [RingBuffer.add_mod_injOn hi hj h]
  refine (List.subperm_of_subset hnd fun x hx => ?_).perm_of_length_le (by simp)
  obtain ⟨i, hi, rfl⟩ := List.mem_map.1 hx
  obtain ⟨j, hj, _⟩ := List.mem_range'.1 hi
  exact List.mem_range.2 (Nat.mod_lt _ (by omega))

/-- **Every entry once a turn.**  From any cursor, as many searches as there are
entries satisfying `p` hit each of them exactly once. -/
theorem rounds_perm (hn : 0 < n) (t : ℕ) :
    (rounds n p ((List.range n).filter p).length t).Perm ((List.range n).filter p) := by
  have hfilter : ((List.range' (t + 1) n).filter fun i => p (i % n)).map (fun i => i % n) =
      ((List.range' (t + 1) n).map fun i => i % n).filter p := by
    rw [List.filter_map]
    rfl
  have hperm := (range'_map_mod_perm (n := n) (t + 1)).filter p
  rw [← hfilter] at hperm
  have hlen := hperm.length_eq
  rw [List.length_map] at hlen
  rw [← hlen, rounds_eq hn]
  exact hperm

/-- The hits of a cursor that moves along by one search at a time. -/
theorem rounds_of_cursor {x : ℕ → ℕ} (hx : ∀ i, nextAfter n p (x i) = some (x (i + 1)))
    (k i : ℕ) : rounds n p k (x i) = (List.range' i k).map fun j => x (j + 1) := by
  induction k generalizing i with
  | zero => rfl
  | succ k ih => rw [rounds, hx, List.range'_succ, List.map_cons, ← ih (i + 1)]

/-- A hit is an entry of the table that satisfies `p`. -/
theorem nextAfter_eq_some (hn : 0 < n) {t j : ℕ} (h : nextAfter n p t = some j) :
    j < n ∧ p j = true := by
  rw [nextAfter_eq, Option.map_eq_some_iff] at h
  obtain ⟨y, hy, rfl⟩ := h
  exact ⟨Nat.mod_lt _ hn, List.find?_some (p := fun i => p (i % n)) hy⟩

/-- As long as some entry satisfies `p`, every search has a hit. -/
theorem nextAfter_isSome {i : ℕ} (hi : i < n) (hp : p i = true) (t : ℕ) :
    ∃ j, nextAfter n p t = some j := by
  have hmem : i ∈ (List.range' (t + 1) n).map fun i => i % n :=
    (range'_map_mod_perm (t + 1)).mem_iff.2 (List.mem_range.2 hi)
  obtain ⟨x, hx, rfl⟩ := List.mem_map.1 hmem
  have hsome : ((List.range' (t + 1) n).find? fun i => p (i % n)).isSome :=
    List.find?_isSome.2 ⟨x, hx, hp⟩
  obtain ⟨y, hy⟩ := Option.isSome_iff_exists.1 hsome
  exact ⟨y % n, by rw [nextAfter_eq, hy]; rfl⟩

end Lib
end Xv6
