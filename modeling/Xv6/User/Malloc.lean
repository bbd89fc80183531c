/-
# Requests that are too large for `malloc`

`malloc`, `morecore` and `free` (`xv6/umalloc.c`, lines 24-90) over `sys_sbrk`
(`xv6/sysproc.c`, lines 47-59) and `growproc` (`xv6/proc.c`, lines 235-254).  The
circular list of free blocks is a list that starts at `freep`; of the kernel's side
only the sizes are modelled, and whether there are pages to grow.

The number of header units is computed modulo `2^32`, and so is their size, which
`sbrk` then reads as a signed number.  A request of `2^32 - 7` bytes or more comes out as
one unit; any other one that is too large gives a number that is not positive, and `sbrk`
shrinks the process, or does nothing, and returns the old break as if there were memory
behind it (`malloc_moves_break`).  In every other case a block is found at last, and its address
is not `0`; so `malloc` returns `0` just where one unit was computed, no block has it, and `sbrk`
refuses (`malloc_refused`).
-/

import Xv6.Vm.Model

namespace Xv6
namespace Malloc

open Vm (PGROUNDUP KERNBASE)

/-- A block of the free list: the address of its header and its size in units. -/
structure Cell where
  addr : ℕ
  size : ℕ
deriving DecidableEq, Repr

/-- The free list from `freep` on (empty before the first call), the address of `base`, the
break, and whether there are pages for a new size. -/
structure Heap where
  ring : List Cell
  base : ℕ
  sz : ℕ
  room : ℕ → Bool

/-! ### The break -/

/-- The size that `allocuvm` returns. -/
def allocuvm (h : Heap) (newsz : ℕ) : ℕ :=
  if KERNBASE ≤ newsz then 0 else if newsz < h.sz then h.sz else if h.room newsz then newsz else 0

/-- The size that `deallocuvm` returns. -/
def deallocuvm (h : Heap) (newsz : ℕ) : ℕ := if h.sz ≤ newsz then h.sz else newsz

/-- The word `n` as an `int` is negative. -/
def Negative (n : ℕ) : Prop := 2 ^ 31 ≤ n

instance (n : ℕ) : Decidable (Negative n) := inferInstanceAs (Decidable (_ ≤ _))

/-- What `growproc` makes of the break, for a word `n`. -/
def growproc (h : Heap) (n : ℕ) : ℕ :=
  if n = 0 then h.sz
  else if Negative n then deallocuvm h ((h.sz + n) % 2 ^ 32)
  else allocuvm h ((h.sz + n) % 2 ^ 32)

/-- `sbrk` as the process sees it: refused (`none`), or the old break.  A process that has given
up all its pages does not return from it. -/
def sbrk (h : Heap) (n : ℕ) : Option (Option ℕ × Heap) :=
  if growproc h n = 0 ∧ n ≠ 0 then if Negative n then none else some (none, h)
  else some (some h.sz, { h with sz := growproc h n })

/-! ### The free list -/

/-- `sizeof(Header)`. -/
def UNIT : ℕ := 8

/-- `p + n`. -/
def Cell.at (c : Cell) (n : ℕ) : ℕ := (c.addr + n * UNIT) % 2 ^ 32

/-- The loop of `free` ends at `p`. -/
def between (bp p next : ℕ) : Bool :=
  (p < bp && bp < next) || (next ≤ p && (p < bp || bp < next))

/-- The block that follows `p`, joined to `bp` if they touch; alone in the list, `p` stays. -/
def joinNext (bp p : Cell) : List Cell → Cell × List Cell
  | [] => (if bp.at bp.size = p.addr then ⟨bp.addr, (bp.size + p.size) % 2 ^ 32⟩ else bp, [])
  | next :: rest =>
      if bp.at bp.size = next.addr then (⟨bp.addr, (bp.size + next.size) % 2 ^ 32⟩, rest)
      else (bp, next :: rest)

/-- `free`; it does not end if no place is found in one turn. -/
def free (ring : List Cell) (bp : Cell) : Option (List Cell) := do
  let addrs := ring.map Cell.addr
  let i ← (List.range ring.length).find? fun i =>
    between bp.addr (addrs.rotate i).headI (addrs.rotate (i + 1)).headI
  match ring.rotate i with
  | [] => none
  | p :: rest =>
      let (bp, rest) := joinNext bp p rest
      if p.at p.size = bp.addr then some (⟨p.addr, (p.size + bp.size) % 2 ^ 32⟩ :: rest)
      else some (p :: bp :: rest)

/-- `morecore`: `none` within, if it returns `0`.  The header of the new block is written, which
faults behind the last page. -/
def morecore (h : Heap) (nu : ℕ) : Option (Option Heap) := do
  let nu := max nu 4096
  let (p, h) ← sbrk h (nu * UNIT % 2 ^ 32)
  match p with
  | none => some none
  | some p =>
      if PGROUNDUP h.sz < p + UNIT then none
      else do
        let ring ← free h.ring ⟨p, nu⟩
        some (some { h with ring := ring })

/-- `nunits`. -/
def nunits (nbytes : ℕ) : ℕ := (nbytes + UNIT - 1) % 2 ^ 32 / UNIT + 1

/-- The block behind the first one is taken, or its tail. -/
def take (n : ℕ) : List Cell → ℕ × List Cell
  | [] => (0, [])
  | [p] => if p.size = n then (p.at 1, [p]) else (p.at (p.size - n + 1), [⟨p.addr, p.size - n⟩])
  | prev :: p :: rest =>
      if p.size = n then (p.at 1, prev :: rest)
      else (p.at (p.size - n + 1), prev :: ⟨p.addr, p.size - n⟩ :: rest)

/-- The loop of `malloc`, one turn around the list after the other. -/
def search (n : ℕ) : ℕ → Heap → Option (ℕ × Heap)
  | 0, _ => none
  | turns + 1, h =>
      match (List.range h.ring.length).find? fun i =>
        (h.ring.rotate (i + 1)).head?.any (n ≤ ·.size) with
      | some i =>
          let (p, ring) := take n (h.ring.rotate i)
          some (p, { h with ring := ring })
      | none => do
          match ← morecore h n with
          | none => some (0, h)
          | some h => search n turns h

/-- The list after the first lines of `malloc`. -/
def Heap.started (h : Heap) : Heap :=
  { h with ring := if h.ring = [] then [⟨h.base, 0⟩] else h.ring }

/-- `malloc`, with the address or `0`. -/
def malloc (turns : ℕ) (h : Heap) (nbytes : ℕ) : Option (ℕ × Heap) :=
  search (nunits nbytes) turns h.started

/-! ### Requests that are too large -/

/-- The units for that many bytes, or their size, are no positive `int`. -/
def Oversized (nbytes : ℕ) : Prop := 2 ^ 31 ≤ ((nbytes + UNIT - 1) / UNIT + 1) * UNIT

instance (nbytes : ℕ) : Decidable (Oversized nbytes) := inferInstanceAs (Decidable (_ ≤ _))

/-- The blocks, `base` and the break are in user memory, and nothing is at address `0`. -/
structure Heap.Lies (h : Heap) : Prop where
  blocks : ∀ c ∈ h.ring, UNIT ≤ c.addr ∧ c.addr + c.size * UNIT ≤ KERNBASE
  base : UNIT ≤ h.base ∧ h.base ≤ KERNBASE
  sz : h.sz < KERNBASE

variable {h h' : Heap} {n turns : ℕ}

theorem Heap.Lies.started (hh : h.Lies) : h.started.Lies := by
  refine ⟨?_, hh.base, hh.sz⟩
  unfold Heap.started
  dsimp only
  split
  · intro c hc
    rw [List.mem_singleton.1 hc]
    exact ⟨hh.base.1, by simpa using hh.base.2⟩
  · exact hh.blocks

theorem Heap.started_size (hn : 0 < n) :
    (∀ c ∈ h.started.ring, c.size < n) ↔ ∀ c ∈ h.ring, c.size < n := by
  unfold Heap.started
  dsimp only
  split
  next hnil => simp [hnil, hn]
  next => rfl

/-- The search finds no block just if none is large enough. -/
theorem find_none (ring : List Cell) (n : ℕ) :
    ((List.range ring.length).find? fun i => (ring.rotate (i + 1)).head?.any (n ≤ ·.size)) =
      none ↔ ∀ c ∈ ring, c.size < n := by
  rw [List.find?_eq_none]
  constructor
  · intro hnone c hc
    obtain ⟨j, hj, rfl⟩ := List.getElem_of_mem hc
    by_contra hle
    -- the turn that looks at the block at `j`
    have hturn : ∃ i < ring.length, (ring.rotate (i + 1)).head? = some ring[j] := by
      cases j with
      | zero =>
        refine ⟨ring.length - 1, by omega, ?_⟩
        rw [Nat.sub_add_cancel (by omega), List.rotate_length, List.head?_eq_getElem?,
          List.getElem?_eq_getElem hj]
      | succ i =>
        refine ⟨i, by omega, ?_⟩
        rw [List.head?_rotate hj, List.getElem?_eq_getElem hj]
    obtain ⟨i, hi, hhead⟩ := hturn
    refine hnone i (List.mem_range.2 hi) ?_
    rw [hhead]
    exact decide_eq_true (Nat.not_lt.1 hle)
  · intro hsmall i _ hany
    obtain ⟨c, hc, hle⟩ := (Option.any_eq_true _ _).1 hany
    exact absurd (of_decide_eq_true hle)
      (Nat.not_le.2 (hsmall c (List.mem_rotate.1 (List.mem_of_mem_head? hc))))

theorem take_fst {ring : List Cell} {c : Cell} (hc : (ring.rotate 1).head? = some c) :
    (take n ring).1 = c.at (c.size - n + 1) := by
  match ring with
  | [] => cases hc
  | [p] =>
    obtain rfl : p = c := by simpa using hc
    rw [take]
    split
    next he => rw [he, Nat.sub_self]
    next => rfl
  | prev :: p :: rest =>
    obtain rfl : p = c := by simpa using hc
    rw [take]
    split
    next he => rw [he, Nat.sub_self]
    next => rfl

/-- **The block that the search takes**: one that is large enough, and the tail of it. -/
theorem find_some {ring : List Cell} {i : ℕ} (hfind : ((List.range ring.length).find? fun i =>
      (ring.rotate (i + 1)).head?.any (n ≤ ·.size)) = some i) :
    ∃ c ∈ ring, n ≤ c.size ∧ (take n (ring.rotate i)).1 = c.at (c.size - n + 1) := by
  have hany := List.find?_some hfind
  obtain ⟨c, hc, hle⟩ := (Option.any_eq_true _ _).1 hany
  refine ⟨c, List.mem_rotate.1 (List.mem_of_mem_head? hc), of_decide_eq_true hle, take_fst ?_⟩
  rw [List.rotate_rotate]
  exact hc

/-- **`free` enters the block**, alone or joined to the one before it and the one behind it. -/
theorem free_spec {ring ring' : List Cell} {bp : Cell} (hfree : free ring bp = some ring')
    (hring : ∀ c ∈ ring, c.size ≤ 2 ^ 28) (hbp : bp.size ≤ 2 ^ 29) :
    ∃ m ∈ ring', (∀ c ∈ ring', c = m ∨ c ∈ ring) ∧ ∃ pre post, m.size = pre + bp.size + post ∧
      m.at pre = bp.addr % 2 ^ 32 ∧
      (post = 0 ∨ ∃ next ∈ ring, post = next.size ∧ bp.at bp.size = next.addr) := by
  unfold free at hfree
  obtain ⟨i, -, hfree⟩ := Option.bind_eq_some_iff.1 hfree
  have hmem : ∀ c, c ∈ ring.rotate i ↔ c ∈ ring := fun c => List.mem_rotate
  split at hfree
  next => cases hfree
  next p rest hrot =>
    have hp : p ∈ ring := (hmem p).1 (hrot ▸ List.mem_cons_self)
    have hrest : ∀ c ∈ rest, c ∈ ring := fun c hc =>
      (hmem c).1 (hrot ▸ List.mem_cons_of_mem _ hc)
    -- the block joined to the one behind it
    obtain ⟨bp', rest', post, hjoin, haddr, hsize, hrest', hpost⟩ : ∃ bp' rest' post,
        joinNext bp p rest = (bp', rest') ∧ bp'.addr = bp.addr ∧ bp'.size = bp.size + post ∧
        (∀ c ∈ rest', c ∈ ring) ∧
        (post = 0 ∨ ∃ next ∈ ring, post = next.size ∧ bp.at bp.size = next.addr) := by
      cases rest with
      | nil =>
        rw [joinNext]
        split
        next hat =>
          refine ⟨_, _, p.size, rfl, rfl, Nat.mod_eq_of_lt ?_, nofun, .inr ⟨p, hp, rfl, hat⟩⟩
          have := hring p hp
          omega
        next => exact ⟨_, _, 0, rfl, rfl, rfl, nofun, .inl rfl⟩
      | cons next rest =>
        rw [joinNext]
        have hnext := hrest next List.mem_cons_self
        split
        next hat =>
          refine ⟨_, _, next.size, rfl, rfl, Nat.mod_eq_of_lt ?_,
            fun c hc => hrest c (List.mem_cons_of_mem _ hc), .inr ⟨next, hnext, rfl, hat⟩⟩
          have := hring next hnext
          omega
        next => exact ⟨_, _, 0, rfl, rfl, rfl, hrest, .inl rfl⟩
    have hpost' : post ≤ 2 ^ 28 := by
      rcases hpost with rfl | ⟨next, hnext, rfl, -⟩
      · exact Nat.zero_le _
      · exact hring next hnext
    rw [hjoin] at hfree
    dsimp only at hfree
    split at hfree
    next hat =>
      cases hfree
      have hpsize := hring p hp
      refine ⟨_, List.mem_cons_self, fun c hc => ?_, p.size, post, ?_, ?_, hpost⟩
      · exact (List.mem_cons.1 hc).imp id (hrest' c)
      · change (p.size + bp'.size) % 2 ^ 32 = _
        rw [hsize]
        omega
      · change (p.addr + p.size * UNIT) % 2 ^ 32 = _
        rw [← haddr, ← hat]
        exact (Nat.mod_mod _ _).symm
    next =>
      cases hfree
      refine ⟨bp', List.mem_cons_of_mem _ List.mem_cons_self, fun c hc => ?_, 0, post, by omega,
        ?_, hpost⟩
      · rcases List.mem_cons.1 hc with rfl | hc
        · exact .inr hp
        · exact (List.mem_cons.1 hc).imp id (hrest' c)
      · rw [Cell.at, haddr, Nat.zero_mul, Nat.add_zero]

/-- What a call of `morecore` that gets memory leaves. -/
theorem morecore_some (hmore : morecore h n = some (some h')) :
    free h.ring ⟨h.sz, max n 4096⟩ = some h'.ring := by
  unfold morecore at hmore
  obtain ⟨⟨p, h₁⟩, hsbrk, hmore⟩ := Option.bind_eq_some_iff.1 hmore
  unfold sbrk at hsbrk
  split at hsbrk
  next =>
    split at hsbrk
    · cases hsbrk
    · cases hsbrk
      cases hmore
  next =>
    cases hsbrk
    dsimp only at hmore
    split at hmore
    next => cases hmore
    next =>
      obtain ⟨ring, hfree, hmore⟩ := Option.bind_eq_some_iff.1 hmore
      cases hmore
      exact hfree

theorem morecore_none :
    morecore h n = some none ↔ ∃ h₁, sbrk h (max n 4096 * UNIT % 2 ^ 32) = some (none, h₁) := by
  unfold morecore
  dsimp only
  cases hsbrk : sbrk h (max n 4096 * UNIT % 2 ^ 32) with
  | none => simp
  | some r =>
    obtain ⟨p, h₁⟩ := r
    cases p with
    | none => simp
    | some p =>
      simp only [Option.bind_eq_bind, Option.bind_some, Option.some.injEq, Prod.mk.injEq,
        reduceCtorEq, false_and, exists_false, iff_false]
      split
      · exact nofun
      · intro hnone
        obtain ⟨ring, -, hring⟩ := Option.bind_eq_some_iff.1 hnone
        cases hring

/-- **The address returned is not `0`** where a block is taken. -/
theorem search_zero (hh : h.Lies) (hn : n = 1 ∨ 2 ^ 28 ≤ n ∧ n ≤ 2 ^ 29)
    (hsearch : search n turns h = some (0, h')) :
    (∀ c ∈ h.ring, c.size < n) ∧ morecore h n = some none := by
  have hunit : UNIT = 8 := rfl
  have hkern : KERNBASE = 2 ^ 31 := rfl
  cases turns with
  | zero => cases hsearch
  | succ turns =>
    rw [search] at hsearch
    split at hsearch
    next i hfind =>
      -- a block of the list
      obtain ⟨c, hc, hle, htake⟩ := find_some hfind
      have hzero : (take n (h.ring.rotate i)).1 = 0 := congrArg Prod.fst (Option.some.inj hsearch)
      rw [htake, Cell.at] at hzero
      obtain ⟨hlow, hhigh⟩ := hh.blocks c hc
      rw [hunit] at *
      omega
    next hfind =>
      have hsmall := (find_none _ _).1 hfind
      obtain ⟨o, hmore, hsearch⟩ := Option.bind_eq_some_iff.1 hsearch
      cases o with
      | none => exact ⟨hsmall, hmore⟩
      | some h₁ =>
        -- the new block, in the next turn
        exfalso
        have hsizes : ∀ c ∈ h.ring, c.size ≤ 2 ^ 28 := fun c hc => by
          have := (hh.blocks c hc).2
          rw [hunit, hkern] at this
          omega
        obtain ⟨m, hm, hothers, pre, post, hsize, hat, hpost⟩ :=
          free_spec (morecore_some hmore) hsizes (show max n 4096 ≤ 2 ^ 29 by omega)
        dsimp only at hsize hat hpost
        cases turns with
        | zero => cases hsearch
        | succ turns =>
          dsimp only at hsearch
          rw [search] at hsearch
          split at hsearch
          next i hfind =>
            obtain ⟨c, hc, hle, htake⟩ := find_some hfind
            obtain rfl : c = m := (hothers c hc).resolve_right fun hc' =>
              absurd hle (Nat.not_le.2 (hsmall c hc'))
            have hzero : (take n (h₁.ring.rotate i)).1 = 0 :=
              congrArg Prod.fst (Option.some.inj hsearch)
            rw [htake] at hzero
            have hsz := hh.sz
            unfold Cell.at at hzero hat hpost
            rw [hunit, hkern] at *
            have hpost' : post = 0 ∨ ∃ a, a + post * 8 ≤ 2 ^ 31 ∧ 8 ≤ a ∧
                (h.sz + max n 4096 * 8) % 2 ^ 32 = a := by
              rcases hpost with hpost | ⟨next, hnext, rfl, hnat⟩
              · exact .inl hpost
              · exact .inr ⟨next.addr, (hh.blocks next hnext).2, (hh.blocks next hnext).1, hnat⟩
            clear hpost hothers hsizes hsmall
            rcases hn with rfl | hn
            · rcases hpost' with rfl | ⟨a, ha, ha8, hnat⟩ <;> omega
            · rcases hpost' with rfl | ⟨a, ha, ha8, hnat⟩ <;> omega
          next hfind =>
            have := (find_none _ _).1 hfind m hm
            omega

/-- Only a positive number is refused. -/
theorem sbrk_refuses {h h' : Heap} {n : ℕ} (hno : sbrk h n = some (none, h')) :
    n ≠ 0 ∧ n < 2 ^ 31 := by
  unfold sbrk at hno
  split at hno
  next hzero =>
    split at hno
    · cases hno
    · next hpos => exact ⟨hzero.2, Nat.not_le.1 hpos⟩
  · cases hno

/-- There is no room for 32768 more bytes, which `morecore` asks for at least. -/
def Heap.Full (h : Heap) : Prop := KERNBASE ≤ h.sz + 32768 ∨ h.room (h.sz + 32768) = false

theorem sbrk_full (hh : h.Lies) : (∃ h₁, sbrk h 32768 = some (none, h₁)) ↔ h.Full := by
  have hsz := hh.sz
  have hkern : KERNBASE = 2 ^ 31 := rfl
  have hpos : ¬ Negative 32768 := by decide
  have hgrow : growproc h 32768 = 0 ↔ h.Full := by
    unfold growproc allocuvm Heap.Full
    rw [if_neg (by decide), if_neg hpos, Nat.mod_eq_of_lt (by omega)]
    split
    next hle => simp [hle]
    next hle =>
      rw [if_neg (by omega)]
      cases h.room (h.sz + 32768) <;> simp [hle]
  unfold sbrk
  by_cases hfull : h.Full
  · rw [if_pos ⟨hgrow.2 hfull, by decide⟩, if_neg hpos]
    exact ⟨fun _ => hfull, fun _ => ⟨h, rfl⟩⟩
  · rw [if_neg fun h0 => hfull (hgrow.1 h0.1)]
    exact ⟨fun ⟨_, he⟩ => (by cases he), fun h0 => absurd h0 hfull⟩

/-- **When a request that is too large fails cleanly.**  In a process whose blocks lie in user
memory, `0` is returned, the break does not move down and the list stays just if the request is
taken for one unit, no block has one, and there is no room for more; elsewhere the address is not
`0`. -/
theorem malloc_refused (h : Heap) (hh : h.Lies) (nbytes turns : ℕ) (hbytes : nbytes < 2 ^ 32)
    (hbig : Oversized nbytes) :
    (∃ h', malloc (turns + 1) h nbytes = some (0, h') ∧ h.sz ≤ h'.sz ∧
        h'.ring = h.started.ring) ↔
      nunits nbytes = 1 ∧ (∀ c ∈ h.ring, c.size = 0) ∧ h.Full := by
  have hn : nunits nbytes = 1 ∨ 2 ^ 28 ≤ nunits nbytes ∧ nunits nbytes ≤ 2 ^ 29 := by
    unfold Oversized at hbig
    unfold nunits UNIT at *
    omega
  constructor
  · rintro ⟨h', hmalloc, -, -⟩
    obtain ⟨hsmall, hmore⟩ := search_zero hh.started hn hmalloc
    obtain ⟨h₁, hsbrk⟩ := morecore_none.1 hmore
    have hone : nunits nbytes = 1 := by
      obtain ⟨hne, hlt⟩ := sbrk_refuses hsbrk
      unfold UNIT at hne hlt
      omega
    rw [hone] at hsmall hsbrk
    refine ⟨hone, fun c hc => ?_, (sbrk_full hh.started).1 ⟨h₁, hsbrk⟩⟩
    exact Nat.lt_one_iff.1 ((Heap.started_size Nat.one_pos).1 hsmall c hc)
  · rintro ⟨hone, hsmall, hfull⟩
    refine ⟨h.started, ?_, Nat.le_refl _, rfl⟩
    unfold malloc
    rw [hone, search, (find_none _ _).2 ((Heap.started_size Nat.one_pos).2 fun c hc => by
      rw [hsmall c hc]
      exact Nat.one_pos)]
    have hbytes : max 1 4096 * UNIT % 2 ^ 32 = 32768 := by decide
    have hmore : morecore h.started 1 = some none := by
      rw [morecore_none, hbytes]
      exact (sbrk_full hh.started).2 hfull
    dsimp only
    rw [hmore]
    rfl

/-- A process with an empty list and no page left, and a request of `2^32 - 1` bytes. -/
theorem malloc_refused_full : ∃ h', malloc 1 ⟨[], 0x1000, 0x3000, fun _ => false⟩ (2 ^ 32 - 1) =
    some (0, h') ∧ 0x3000 ≤ h'.sz ∧ h'.ring = [⟨0x1000, 0⟩] :=
  (malloc_refused ⟨[], 0x1000, 0x3000, fun _ => false⟩ ⟨nofun, by decide, by decide⟩ (2 ^ 32 - 1) 0
    (by decide) (by decide +kernel)).2 ⟨by decide +kernel, fun _ hc => absurd hc List.not_mem_nil,
      Or.inr rfl⟩

/-- **Requests that are too large succeed.**  For `2^32 - 16` bytes the break moves down by a
header, and `malloc` returns what lay behind it; for `2^32 - 1` bytes it returns a block of
one unit, which is its header. -/
theorem malloc_moves_break :
    Oversized (2 ^ 32 - 16) ∧ Oversized (2 ^ 32 - 1) ∧
      ((malloc 2 ⟨[], 0x1000, 0x3010, fun _ => true⟩ (2 ^ 32 - 16)).map fun r => (r.1, r.2.sz)) =
        some (0x3018, 0x3008) ∧
      ((malloc 2 ⟨[], 0x1000, 0x3000, fun _ => true⟩ (2 ^ 32 - 1)).map fun r =>
        (r.1, r.2.sz, r.2.ring)) =
        some (0x3000 + 0x8000, 0x3000 + 0x8000, [⟨0x1000, 0⟩, ⟨0x3000, 4095⟩]) := by
  decide +kernel

end Malloc
end Xv6
