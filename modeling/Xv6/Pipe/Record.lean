/-
# Records on a pipe

Processes that write records of `d` bytes with one call of `pipewrite` each, and read
with `n = d`, as `jacob` and `maekawa` do with their messages (`xv6/jacob.c`, lines
269-341, `xv6/maekawa.c`, lines 205-220).  If `d` divides `PIPESIZE`, the number of
bytes in the pipe is a multiple of `d` whenever the lock is free.  So a writer that
finds the pipe not full has room for its whole record, and it can only sleep, or
give up, before its first byte (`records_whole`).
-/

import Xv6.Pipe.Fifo

namespace Xv6
namespace Pipes

open Lib Function
open Files (PIPESIZE)

variable {α : Type*} {d : ℕ} {s s' : System α}

/-- Every call is about one record. -/
def OneRecord (d : ℕ) (_ : System α) : Act α → Prop
  | .write _ _ n _ => n = d
  | .read _ n _ => n = d
  | _ => True

instance (d : ℕ) (s : System α) (a : Act α) : Decidable (OneRecord d s a) := by
  unfold OneRecord
  split <;> infer_instance

/-- A record: the process and the call that wrote it, and its bytes. -/
structure Record (α : Type*) where
  p : ℕ
  call : ℕ
  addr : ℕ → α

namespace Record

/-- The bytes of a record as they were stored. -/
def stored (d : ℕ) (r : Record α) : List (Stored α) :=
  (List.range' 0 d).map fun i => ⟨r.p, r.call, i, r.addr i⟩

/-- The bytes of a record. -/
def bytes (d : ℕ) (r : Record α) : List α := (List.range' 0 d).map r.addr

@[simp] theorem length_bytes (d : ℕ) (r : Record α) : (r.bytes d).length = d := by
  rw [bytes, List.length_map, List.length_range']

end Record

/-- The bytes of a read that returns a positive count. -/
def Return.positive : Return α → Option (List α)
  | .read _ _ (a :: bytes) => some (a :: bytes)
  | _ => none

/-- The process and the number of a call of `pipewrite` that returns another value than `-1`. -/
def Return.written : Return α → Option (ℕ × ℕ)
  | .write p call r => if r = -1 then none else some (p, call)
  | _ => none

/-- The pipe holds whole records, of which the first `m` have been read. -/
structure Whole (d : ℕ) (s : System α) (recs : List (Record α)) (m : ℕ) : Prop where
  stored : s.stored = recs.flatMap (Record.stored d)
  written : s.returns.filterMap Return.written = recs.map fun r => (r.p, r.call)
  got : s.returns.filterMap Return.positive = (recs.take m).map (Record.bytes d)
  contents : s.pipe.contents = (recs.drop m).flatMap (Record.bytes d)
  le : m ≤ recs.length
  writers : ∀ p call addr n i, s.sleeper p = some (.write call addr n i) → n = d ∧ i = 0
  readers : ∀ p n, s.sleeper p = some (.read n) → n = d

namespace Whole

variable {recs : List (Record α)} {m : ℕ}

theorem length_flatMap (d : ℕ) (recs : List (Record α)) :
    (recs.flatMap (Record.bytes d)).length = d * recs.length := by
  induction recs with
  | nil => rfl
  | cons r recs ih =>
    rw [List.flatMap_cons, List.length_append, ih, Record.length_bytes, List.length_cons,
      Nat.mul_succ, Nat.add_comm]

/-- The occupancy is a multiple of the record size. -/
theorem size_eq (h : Whole d s recs m) : s.pipe.size = d * (recs.length - m) := by
  rw [← Pipe.length_contents, h.contents, length_flatMap, List.length_drop]

theorem writers_update (h : Whole d s recs m) {q : ℕ} {o : Option (Sleeper α)}
    (ho : ∀ call addr n i, o = some (.write call addr n i) → n = (d : ℤ) ∧ i = 0) :
    ∀ p call addr n i, update s.sleeper q o p = some (.write call addr n i) →
      n = (d : ℤ) ∧ i = 0 := by
  intro p call addr n i hp
  rcases of_update hp with ⟨-, hp⟩ | ⟨-, hp⟩
  · exact ho call addr n i hp
  · exact h.writers p call addr n i hp

theorem readers_update (h : Whole d s recs m) {q : ℕ} {o : Option (Sleeper α)}
    (ho : ∀ n, o = some (.read n) → n = (d : ℤ)) :
    ∀ p n, update s.sleeper q o p = some (.read n) → n = (d : ℤ) := by
  intro p n hp
  rcases of_update hp with ⟨-, hp⟩ | ⟨-, hp⟩
  · exact ho n hp
  · exact h.readers p n hp

/-- **One step.** -/
theorem step {a : Act α} (hd : 0 < d) (hdvd : d ∣ PIPESIZE) (h : Whole d s recs m)
    (hsize : s.pipe.size ≤ PIPESIZE) (hok : OneRecord d s a) (hs : s.step a = some s') :
    ∃ recs' m', Whole d s' recs' m' := by
  have hmany := h.size_eq
  have hstep := step_stepped hsize hs
  cases hstep with
  | @write p call i calls k addr n stop pipe hcall hk hcontents hsize' _ hdone hstop =>
    -- a call is at its first byte when it goes on
    obtain ⟨rfl, rfl⟩ : n = (d : ℤ) ∧ i = 0 := by
      cases hcall with
      | start => exact ⟨hok, rfl⟩
      | resume hp => exact h.writers _ _ _ _ _ hp
    have hleft : ((d : ℤ) - (0 : ℕ)).toNat = d := by omega
    rw [hleft] at hk hdone hstop
    have hsleeper : ∀ call' addr' n' i', (if stop = .asleep then
        some (Sleeper.write call addr (d : ℤ) (0 + k)) else none) = some (.write call' addr' n' i') →
        n' = (d : ℤ) ∧ i' = 0 + k := by
      intro call' addr' n' i' heq
      split at heq
      · obtain ⟨-, -, rfl, rfl⟩ := Sleeper.write.inj (Option.some.inj heq)
        exact ⟨rfl, rfl⟩
      · cases heq
    have hreaders : ∀ n', (if stop = .asleep then
        some (Sleeper.write call addr (d : ℤ) (0 + k)) else none) = some (.read n') → n' = (d : ℤ) := by
      intro n' heq
      split at heq <;> cases heq
    by_cases hwhole : stop = .done
    · -- the record is stored as a whole
      obtain rfl := hdone hwhole
      subst hwhole
      refine ⟨recs ++ [⟨p, call, addr⟩], m, ?_, ?_, ?_, ?_, ?_, ?_, ?_⟩
      · change s.stored ++ _ = _
        rw [h.stored, List.flatMap_append, List.flatMap_singleton]
        rfl
      · have hpos : ¬ (k : ℤ) = -1 := by omega
        change (s.returns ++ [Return.write p call (k : ℤ)]).filterMap Return.written = _
        rw [List.filterMap_append, h.written, List.map_append]
        simp [Return.written, hpos]
      · change (s.returns ++ [Return.write p call (k : ℤ)]).filterMap Return.positive = _
        rw [List.filterMap_append, h.got, List.take_append_of_le_length h.le]
        exact List.append_nil _
      · change pipe.contents = _
        rw [hcontents, h.contents, List.drop_append_of_le_length h.le, List.flatMap_append,
          List.flatMap_singleton]
        rfl
      · rw [List.length_append]
        exact Nat.le_add_right_of_le h.le
      · exact h.writers_update fun call' addr' n' i' heq => by cases heq
      · exact h.readers_update fun n' heq => by cases heq
    · -- the pipe is full, so there was room for no byte of the record
      obtain ⟨hfull, hlt⟩ := hstop hwhole
      have hzero : k = 0 := by
        have hlen := congrArg List.length hcontents
        rw [List.length_append, Pipe.length_contents, Pipe.length_contents, List.length_map,
          List.length_range', hfull, hmany] at hlen
        have hdk : d ∣ k := (Nat.dvd_add_right (Nat.dvd_mul_right ..)).1 (hlen ▸ hdvd)
        exact Nat.eq_zero_of_dvd_of_lt hdk hlt
      subst hzero
      have hreturns : (stop.returns p call (d : ℤ) : List (Return α)).filterMap Return.written = [] ∧
          (stop.returns p call (d : ℤ) : List (Return α)).filterMap Return.positive = [] := by
        cases stop with
        | done => exact absurd rfl hwhole
        | refused => exact ⟨rfl, rfl⟩
        | asleep => exact ⟨rfl, rfl⟩
      refine ⟨recs, m, ?_, ?_, ?_, ?_, h.le, ?_, ?_⟩
      · change s.stored ++ [] = _
        rw [List.append_nil, h.stored]
      · change (s.returns ++ _).filterMap Return.written = _
        rw [List.filterMap_append, hreturns.1, List.append_nil, h.written]
      · change (s.returns ++ _).filterMap Return.positive = _
        rw [List.filterMap_append, hreturns.2, List.append_nil, h.got]
      · change pipe.contents = _
        rw [hcontents, ← h.contents]
        exact List.append_nil _
      · exact h.writers_update hsleeper
      · exact h.readers_update hreaders
  | @wait p n hcall =>
    refine ⟨recs, m, { h with
      writers := h.writers_update fun call' addr' n' i' heq => (by cases heq)
      readers := h.readers_update fun n' heq => ?_ }⟩
    obtain rfl := Sleeper.read.inj (Option.some.inj heq)
    obtain ⟨killed, rfl⟩ | hp := hcall
    · exact hok
    · exact h.readers p _ hp
  | @refuse p n =>
    refine ⟨recs, m, h.stored, ?_, ?_, h.contents, h.le,
      h.writers_update fun call' addr' n' i' heq => (by cases heq),
      h.readers_update fun n' heq => (by cases heq)⟩
    · change (s.returns ++ _).filterMap Return.written = _
      rw [List.filterMap_append, h.written]
      exact List.append_nil _
    · change (s.returns ++ _).filterMap Return.positive = _
      rw [List.filterMap_append, h.got]
      exact List.append_nil _
  | @read p n bytes pipe hcall _ hcontents hlen _ _ =>
    obtain rfl : n = (d : ℤ) := by
      obtain ⟨killed, rfl⟩ | hp := hcall
      · exact hok
      · exact h.readers p _ hp
    have hwriters := h.writers_update (q := p) (o := none) fun call' addr' n' i' heq => (by cases heq)
    have hreaders := h.readers_update (q := p) (o := none) fun n' heq => (by cases heq)
    have hwritten : (s.returns ++ [Return.read p (d : ℤ) bytes]).filterMap Return.written =
        recs.map fun r => (r.p, r.call) := by
      rw [List.filterMap_append, h.written]
      exact List.append_nil _
    rw [Int.toNat_natCast, hmany] at hlen
    obtain hlast | hmore := Nat.eq_or_lt_of_le h.le
    · -- nothing is left
      rw [hlast, Nat.sub_self, Nat.mul_zero, Nat.min_zero] at hlen
      obtain rfl := List.eq_nil_of_length_eq_zero hlen
      refine ⟨recs, m, h.stored, hwritten, ?_, hcontents.symm.trans h.contents, h.le, hwriters, hreaders⟩
      change (s.returns ++ _).filterMap Return.positive = _
      rw [List.filterMap_append, h.got]
      exact List.append_nil _
    · -- the first record that is left
      have hdrop : recs.drop m = recs[m] :: recs.drop (m + 1) := List.drop_eq_getElem_cons hmore
      have hone : d ≤ d * (recs.length - m) := Nat.le_mul_of_pos_right d (by omega)
      rw [Nat.min_eq_left hone] at hlen
      obtain ⟨hbytes, hrest⟩ : bytes = recs[m].bytes d ∧
          pipe.contents = (recs.drop (m + 1)).flatMap (Record.bytes d) := by
        refine List.append_inj (hcontents.symm.trans ?_) (by rw [hlen, Record.length_bytes])
        rw [h.contents, hdrop, List.flatMap_cons]
      refine ⟨recs, m + 1, h.stored, hwritten, ?_, hrest, hmore, hwriters, hreaders⟩
      change (s.returns ++ _).filterMap Return.positive = _
      rw [List.filterMap_append, h.got, List.take_succ_eq_append_getElem hmore, List.map_append,
        List.map_singleton, ← hbytes]
      cases bytes with
      | nil =>
        rw [List.length_nil] at hlen
        omega
      | cons b bytes => rfl
  | close hdata hnread hnwrite =>
    refine ⟨recs, m, { h with contents := ?_ }⟩
    rw [← h.contents]
    unfold Pipe.contents Pipe.ring
    rw [hdata, hnread, hnwrite]

theorem of_boot (d : ℕ) (page : ℕ → α) : Whole d (.boot page) [] 0 where
  stored := rfl
  written := rfl
  got := rfl
  contents := List.eq_nil_of_length_eq_zero ((Pipe.length_contents _).trans (Pipe.size_alloc page))
  le := Nat.le_refl 0
  writers := nofun
  readers := nofun

end Whole

/-- **Records are never torn.**  If the record size divides `PIPESIZE`, then over every
interleaving what has been stored is a sequence of whole records, each by one call; these calls
are the ones that returned another value than `-1`; and the reads with a positive count have
returned the first of these records, one each and in order. -/
theorem records_whole (d : ℕ) (hd : 0 < d) (hdvd : d ∣ PIPESIZE) (page : ℕ → α) (s : System α)
    (h : Reach System.step (OneRecord d) (.boot page) s) :
    ∃ recs : List (Record α), s.stored = recs.flatMap (Record.stored d) ∧
      s.returns.filterMap Return.written = recs.map (fun r => (r.p, r.call)) ∧
      s.returns.filterMap Return.positive <+: recs.map (Record.bytes d) := by
  have hs : InOrder s ∧ ∃ recs m, Whole d s recs m := by
    refine h.invariant (I := fun x => InOrder x ∧ ∃ recs m, Whole d x recs m)
      ⟨.of_boot page, [], 0, .of_boot d page⟩ fun x a y hx hok hstep => ?_
    obtain ⟨horder, recs, m, hwhole⟩ := hx
    exact ⟨horder.step hstep, hwhole.step hd hdvd horder.size hok hstep⟩
  obtain ⟨-, recs, m, hwhole⟩ := hs
  refine ⟨recs, hwhole.stored, hwhole.written, ?_⟩
  rw [hwhole.got]
  exact (List.take_prefix m recs).map _

/-- Two processes write records of two bytes each; one record is read. -/
theorem records_whole_two : ∃ s : System ℕ, Reach System.step (OneRecord 2) (.boot fun _ => 0) s ∧
    s.returns.filterMap Return.positive = [[10, 11]] ∧
    ∃ recs : List (Record ℕ), s.stored = recs.flatMap (Record.stored 2) ∧
      s.returns.filterMap Return.written = recs.map (fun r => (r.p, r.call)) ∧
      s.returns.filterMap Return.positive <+: recs.map (Record.bytes 2) := by
  obtain ⟨s, hs, hgot⟩ : ∃ s : System ℕ, Reach System.step (OneRecord 2) (.boot fun _ => 0) s ∧
      s.returns.filterMap Return.positive = [[10, 11]] :=
    exists_reach_of_any [.read 2 2 false, .write 0 (10 + ·) 2 false, .write 1 (20 + ·) 2 true,
      .resume 2 true] (by decide +kernel)
  exact ⟨s, hs, hgot, records_whole 2 (by decide) (by decide) (fun _ => 0) s hs⟩

end Pipes
end Xv6
