/-
# An array filled up to a cursor

An array of `N` entries with a cursor holds a list if the cursor is the length of
the list and the entries below it are the list's, in order (`Filled`).  Putting a
value at the cursor and moving it by one appends to the list (`Filled.push`), as long
as there is an entry left; what lies above the cursor does not matter.
-/

import Mathlib

namespace Xv6
namespace Lib

variable {α : Type*} {N n : ℕ} {f : ℕ → α} {xs : List α}

/-- The entries of `f` below the cursor `n` are the list `xs`. -/
structure Filled (N : ℕ) (f : ℕ → α) (n : ℕ) (xs : List α) : Prop where
  le : n ≤ N
  entries : (List.range n).map f = xs

namespace Filled

theorem empty (N : ℕ) (f : ℕ → α) : Filled N f 0 [] := ⟨Nat.zero_le N, rfl⟩

/-- **One more entry.** -/
theorem push (h : Filled N f n xs) (hn : n < N) (x : α) :
    Filled N (Function.update f n x) (n + 1) (xs ++ [x]) := by
  refine ⟨hn, ?_⟩
  have hbelow : (List.range n).map (Function.update f n x) = (List.range n).map f :=
    List.map_congr_left fun i hi => Function.update_of_ne (Nat.ne_of_lt (List.mem_range.1 hi)) ..
  rw [List.range_succ, List.map_append, hbelow, h.entries]
  exact congrArg (xs ++ [·]) (Function.update_self ..)

end Filled

end Lib
end Xv6
