/-
# What the wait queue does

Specifications of the queue functions of `xv6/maekawa.c` and of the loops of
`recvHandler` over the queue, in terms of the requests that wait
(`waiting`).  `precedes` is the lexicographic order of timestamp and pid
(`precedes_iff`), so both loops find an earliest request (`earliestFrom_spec`,
`earliestWaiting_spec`).  Removing that request from a queue that does not wrap
around erases it (`removeElementRequestQueue_spec`); in every other case the
queue keeps what it had, and a handler that stops does so because it would write
before the first cell.
-/

import Xv6.Maekawa.Node

namespace Xv6
namespace Maekawa

open Lib

/-! ### The order of requests -/

/-- What requests are ordered by. -/
def Request.key (r : Request) : ℤ ×ₗ ℤ := toLex (r.timeStamp, r.pid)

theorem precedes_iff (a b : Request) : precedes a b = true ↔ a.key < b.key := by
  unfold precedes Request.key
  rw [decide_eq_true_eq, Prod.Lex.toLex_lt_toLex]

theorem Request.key_injective : Function.Injective Request.key := by
  rintro ⟨p, t⟩ ⟨p', t'⟩ h
  obtain ⟨rfl, rfl⟩ := Prod.mk.inj (toLex.injective h)
  rfl

/-! ### Waiting requests -/

/-- The requests in the queue, first in first. -/
abbrev waiting (q : QueueRequest) : List Request := q.contents MAXQSize

theorem waiting_eq_map_cells (q : QueueRequest) : waiting q = (cells q).map q.data := by
  unfold cells
  rw [List.map_map]
  rfl

theorem enqueueRequestQueue_wf {q : QueueRequest} (h : q.Wf MAXQSize) (a : Request) :
    (enqueueRequestQueue q a).Wf MAXQSize := by
  unfold enqueueRequestQueue
  split_ifs with hfull
  · exact h
  · exact h.push (Nat.lt_of_le_of_ne h.size_le hfull) a

theorem waiting_enqueueRequestQueue {q : QueueRequest} (h : q.Wf MAXQSize)
    (hfull : q.size < MAXQSize) (a : Request) :
    waiting (enqueueRequestQueue q a) = waiting q ++ [a] := by
  unfold enqueueRequestQueue
  rw [if_neg (Nat.ne_of_lt hfull)]
  exact h.contents_push hfull a

/-- Full or not, nothing else gets in. -/
theorem mem_waiting_enqueueRequestQueue {q : QueueRequest} (h : q.Wf MAXQSize) {a r : Request}
    (hr : r ∈ waiting (enqueueRequestQueue q a)) : r ∈ waiting q ∨ r = a := by
  rcases Nat.lt_or_ge q.size MAXQSize with hlt | hge
  · rw [waiting_enqueueRequestQueue h hlt] at hr
    simpa using hr
  · rw [enqueueRequestQueue, if_pos (Nat.le_antisymm h.size_le hge)] at hr
    exact .inl hr

/-! ### The earliest request -/

/-- Where a loop from `best` over some cells ends: at `best`, or at one of the cells
whose request comes before it; and none of the cells comes before the result. -/
structure Earliest (q : QueueRequest) (ptrs : List ℕ) (best out : Request × ℤ) : Prop where
  found : out = best ∨ ∃ ptr ∈ ptrs, out = (q.data ptr, (ptr : ℤ)) ∧ out.1.key < best.1.key
  least : ∀ ptr ∈ ptrs, out.1.key ≤ (q.data ptr).key

theorem Earliest.le {q : QueueRequest} {ptrs : List ℕ} {best out : Request × ℤ}
    (h : Earliest q ptrs best out) : out.1.key ≤ best.1.key := by
  rcases h.found with rfl | ⟨_, -, -, hlt⟩
  · exact le_rfl
  · exact hlt.le

theorem foldl_pickEarlier (q : QueueRequest) (ptrs : List ℕ) (best : Request × ℤ) :
    Earliest q ptrs best (ptrs.foldl (pickEarlier q) best) := by
  induction ptrs generalizing best with
  | nil => exact ⟨.inl rfl, fun _ h => absurd h List.not_mem_nil⟩
  | cons ptr ptrs ih =>
    rw [List.foldl_cons]
    have hrest := ih (pickEarlier q best ptr)
    have hle := hrest.le
    simp only [pickEarlier, precedes_iff] at hrest hle ⊢
    split_ifs at hrest hle ⊢ with hlt
    · refine ⟨?_, List.forall_mem_cons.2 ⟨hle, hrest.least⟩⟩
      rcases hrest.found with heq | ⟨p, hp, heq, hlt'⟩
      · exact .inr ⟨ptr, List.mem_cons_self, heq, by rw [heq]; exact hlt⟩
      · exact .inr ⟨p, List.mem_cons_of_mem _ hp, heq, hlt'.trans hlt⟩
    · refine ⟨?_, List.forall_mem_cons.2 ⟨hle.trans (not_lt.1 hlt), hrest.least⟩⟩
      rcases hrest.found with heq | ⟨p, hp, heq, hlt'⟩
      · exact .inl heq
      · exact .inr ⟨p, List.mem_cons_of_mem _ hp, heq, hlt'⟩

/-- A request of the queue with its place: the `k`-th that waits, in its cell. -/
def AtPlace (q : QueueRequest) (out : Request × ℤ) (k : ℕ) : Prop :=
  k < q.size ∧ out = (q.data ((q.head + k) % MAXQSize), (((q.head + k) % MAXQSize : ℕ) : ℤ))

theorem AtPlace.getElem? {q : QueueRequest} {out : Request × ℤ} {k : ℕ} (h : AtPlace q out k) :
    (waiting q)[k]? = some out.1 := by
  obtain ⟨hk, rfl⟩ := h
  simp [waiting, RingBuffer.contents, hk]

theorem AtPlace.mem {q : QueueRequest} {out : Request × ℤ} {k : ℕ} (h : AtPlace q out k) :
    out.1 ∈ waiting q :=
  List.mem_of_getElem? h.getElem?

theorem exists_atPlace {q : QueueRequest} {ptr : ℕ} (h : ptr ∈ cells q) :
    ∃ k, AtPlace q (q.data ptr, (ptr : ℤ)) k := by
  obtain ⟨k, hk, rfl⟩ := List.mem_map.1 h
  exact ⟨k, List.mem_range.1 hk, rfl⟩

/-- **The loop of `RELINQUISH`** ends at the current request, with cell `-1`, or at an
earlier one that waits; none that waits is earlier than its result. -/
theorem earliestFrom_spec (q : QueueRequest) (current : Request) :
    (earliestFrom q current = (current, -1) ∨
      ∃ k, AtPlace q (earliestFrom q current) k ∧
        (earliestFrom q current).1.key < current.key) ∧
      ∀ r ∈ waiting q, (earliestFrom q current).1.key ≤ r.key := by
  have h := foldl_pickEarlier q (cells q) (current, -1)
  change Earliest q (cells q) (current, -1) (earliestFrom q current) at h
  constructor
  · rcases h.found with heq | ⟨ptr, hptr, heq, hlt⟩
    · exact .inl heq
    · obtain ⟨k, hk⟩ := exists_atPlace hptr
      exact .inr ⟨k, by rw [heq]; exact hk, hlt⟩
  · intro r hr
    rw [waiting_eq_map_cells] at hr
    obtain ⟨ptr, hptr, rfl⟩ := List.mem_map.1 hr
    exact h.least ptr hptr

/-- **The loop of `RELEASE`** ends at an earliest request that waits. -/
theorem earliestWaiting_spec {q : QueueRequest} (hwf : q.Wf MAXQSize) (hne : q.size ≠ 0) :
    (∃ k, AtPlace q (earliestWaiting q) k) ∧
      ∀ r ∈ waiting q, (earliestWaiting q).1.key ≤ r.key := by
  have hcells : cells q = q.head :: (cells q).tail := by
    obtain ⟨n, hn⟩ := Nat.exists_eq_succ_of_ne_zero hne
    unfold cells
    rw [hn, List.range_succ_eq_map, List.map_cons, Nat.add_zero, Nat.mod_eq_of_lt hwf.head_lt,
      List.tail_cons]
  have h := foldl_pickEarlier q (cells q).tail (q.data q.head, (q.head : ℤ))
  change Earliest q (cells q).tail _ (earliestWaiting q) at h
  constructor
  · rcases h.found with heq | ⟨ptr, hptr, heq, -⟩
    · rw [heq]
      exact exists_atPlace (hcells ▸ List.mem_cons_self)
    · rw [heq]
      exact exists_atPlace (hcells ▸ List.mem_cons_of_mem _ hptr)
  · intro r hr
    rw [waiting_eq_map_cells, hcells] at hr
    obtain ⟨ptr, hptr, rfl⟩ := List.mem_map.1 hr
    rcases List.mem_cons.1 hptr with rfl | hptr
    · exact h.le
    · exact h.least ptr hptr

/-! ### Removal -/

/-- The queues `removeElementRequestQueue` can take from: those of at most one element,
and those that do not wrap around. -/
def Removable (q : QueueRequest) : Prop := q.size ≤ 1 ∨ q.head < q.tail

instance (q : QueueRequest) : Decidable (Removable q) := inferInstanceAs (Decidable (_ ∨ _))

/-- **Removal erases**, where the code implements it. -/
theorem removeElementRequestQueue_erases {q : QueueRequest} (hwf : q.Wf MAXQSize)
    (hrem : Removable q) {out : Request × ℤ} {k : ℕ} (hat : AtPlace q out k) :
    ∃ q', removeElementRequestQueue q out.2 = some q' ∧ q'.Wf MAXQSize ∧
      q'.size < MAXQSize ∧ waiting q' = (waiting q).eraseIdx k := by
  obtain ⟨hk, rfl⟩ := hat
  have hsize := hwf.size_le
  have hne : q.size ≠ 0 := by omega
  unfold removeElementRequestQueue
  rw [if_neg hne]
  split_ifs with hone hhead hlt hneg
  · refine ⟨_, rfl, hwf.pop (by omega), ?_, ?_⟩
    · change q.size - 1 < MAXQSize
      omega
    · obtain rfl : k = 0 := by omega
      rw [waiting, waiting, hwf.contents_pop (by omega), List.eraseIdx_cons_zero]
  · obtain rfl : k = 0 := by omega
    rw [Nat.add_zero, Nat.mod_eq_of_lt hwf.head_lt] at hhead
    exact absurd rfl hhead
  · exact absurd hneg (Int.not_lt.2 (Int.natCast_nonneg _))
  · obtain ⟨htail, hin⟩ := hwf.tail_eq_of_head_lt hlt
    refine ⟨_, rfl, hwf.shiftOut hlt _, ?_, ?_⟩
    · change q.size - 1 < MAXQSize
      omega
    · dsimp only
      rw [Int.toNat_natCast, Nat.mod_eq_of_lt (by omega)]
      exact hwf.contents_shiftOut hlt hk
  · exact absurd (hrem.resolve_left (by omega)) hlt

/-- The same for the requests, in whatever order. -/
theorem removeElementRequestQueue_spec {q : QueueRequest} (hwf : q.Wf MAXQSize)
    (hrem : Removable q) {out : Request × ℤ} {k : ℕ} (hat : AtPlace q out k) :
    ∃ q', removeElementRequestQueue q out.2 = some q' ∧ q'.Wf MAXQSize ∧
      q'.size < MAXQSize ∧ (waiting q).Perm (out.1 :: waiting q') := by
  obtain ⟨q', hq', hwf', hsize, herase⟩ := removeElementRequestQueue_erases hwf hrem hat
  refine ⟨q', hq', hwf', hsize, ?_⟩
  obtain ⟨hlen, heq⟩ := List.getElem?_eq_some_iff.1 hat.getElem?
  rw [herase, ← heq]
  exact (List.getElem_cons_eraseIdx_perm hlen).symm

/-- Whatever is removed, the rest was there before. -/
theorem removeElementRequestQueue_subset {q q' : QueueRequest} (hwf : q.Wf MAXQSize)
    {out : Request × ℤ} (hout : out.2 = -1 ∨ ∃ k, AtPlace q out k)
    (h : removeElementRequestQueue q out.2 = some q') :
    q'.Wf MAXQSize ∧ waiting q' ⊆ waiting q := by
  have hsame : q' = q → q'.Wf MAXQSize ∧ waiting q' ⊆ waiting q := by
    rintro rfl
    exact ⟨hwf, List.Subset.refl _⟩
  rcases hout with hout | ⟨k, hat⟩
  · rw [hout] at h
    unfold removeElementRequestQueue at h
    split_ifs at h with _ _ hhead _ hneg
    · exact hsame (Option.some.inj h).symm
    · exact hhead.elim
    · exact hsame (Option.some.inj h).symm
    · exact absurd (by decide) hneg
    · exact hsame (Option.some.inj h).symm
  · by_cases hrem : Removable q
    · obtain ⟨r, hr, hrwf, -, hperm⟩ := removeElementRequestQueue_spec hwf hrem hat
      obtain rfl := Option.some.inj (hr.symm.trans h)
      exact ⟨hrwf, fun x hx => hperm.symm.subset (List.mem_cons_of_mem _ hx)⟩
    · obtain ⟨hone, hlt⟩ := not_or.1 hrem
      unfold removeElementRequestQueue at h
      rw [if_neg (by omega), if_neg (by omega), if_neg hlt] at h
      exact hsame (Option.some.inj h).symm

end Maekawa
end Xv6
