/-
# A pipe is first in, first out

The two counters of a pipe wrap around modulo `2 ^ 32`, which `PIPESIZE` divides, so a
pipe is a ring of cells (`Xv6.Lib.Counter`) at every value of theirs.  Each stretch
of a call stores bytes behind those in the pipe or takes bytes from their front;
over whole runs the bytes received and those in the pipe are the bytes stored
(`pipe_fifo`).
-/

import Xv6.Pipe.Model

namespace Xv6
namespace Pipes

open Lib Function
open Files (PIPESIZE)

variable {α : Type*} {p p' : Pipe α} {s s' : System α}

/-! ### The pipe as a queue -/

namespace Pipe

/-- The cells with the two counters. -/
def ring (p : Pipe α) : CounterRing 32 α := ⟨p.data, p.nread, p.nwrite⟩

/-- The number of bytes in the pipe. -/
def size (p : Pipe α) : ℕ := p.ring.size

/-- The bytes in the pipe. -/
def contents (p : Pipe α) : List α := p.ring.contents PIPESIZE

theorem size_eq (p : Pipe α) : p.size = (p.nwrite - p.nread).toNat := rfl

@[simp] theorem length_contents (p : Pipe α) : p.contents.length = p.size :=
  CounterRing.length_contents ..

theorem PIPESIZE_dvd : PIPESIZE ∣ 2 ^ 32 := by decide

theorem PIPESIZE_pos : 0 < PIPESIZE := by decide

theorem PIPESIZE_lt : PIPESIZE < 2 ^ 32 := by decide

theorem empty_iff (p : Pipe α) : p.Empty ↔ p.size = 0 := by
  unfold Empty
  rw [size_eq, ← BitVec.toNat_zero, BitVec.toNat_inj, BitVec.sub_eq_iff_eq_add, BitVec.zero_add]
  exact eq_comm

theorem full_iff (p : Pipe α) : p.Full ↔ p.size = PIPESIZE := by
  have hsize : (BitVec.ofNat 32 PIPESIZE).toNat = PIPESIZE := by decide
  unfold Full
  rw [size_eq, ← hsize, BitVec.toNat_inj, BitVec.sub_eq_iff_eq_add, BitVec.add_comm, hsize]

theorem size_alloc (page : ℕ → α) : (alloc page).size = 0 := by
  rw [size_eq]
  change ((0 : BitVec 32) - 0).toNat = 0
  decide

theorem contents_store (a : α) (h : p.size < PIPESIZE) :
    (p.store a).contents = p.contents ++ [a] := by
  change (p.ring.store PIPESIZE a).contents PIPESIZE = p.ring.contents PIPESIZE ++ [a]
  exact CounterRing.contents_store PIPESIZE_dvd PIPESIZE_pos a h PIPESIZE_lt

theorem size_store (a : α) (h : p.size < PIPESIZE) : (p.store a).size = p.size + 1 := by
  rw [← length_contents, contents_store a h, List.length_append, length_contents]
  rfl

theorem contents_take (h : 0 < p.size) (hle : p.size ≤ PIPESIZE) :
    p.contents = p.take.1 :: p.take.2.contents := by
  change p.ring.contents PIPESIZE = p.ring.data _ :: p.ring.take.contents PIPESIZE
  exact CounterRing.contents_take PIPESIZE_dvd PIPESIZE_pos h hle

theorem size_take (h : 0 < p.size) (hle : p.size ≤ PIPESIZE) : p.take.2.size + 1 = p.size := by
  have hlen := congrArg List.length (contents_take h hle)
  rw [List.length_cons, length_contents, length_contents] at hlen
  exact hlen.symm

end Pipe

/-! ### The stretches of the calls -/

/-- The two ends of a pipe are open or closed as before. -/
def SameEnds (p p' : Pipe α) : Prop := p'.readopen = p.readopen ∧ p'.writeopen = p.writeopen

/-- **A stretch of `pipewrite`** stores some of the bytes left, in order: all of them, or as many
as there is room for. -/
theorem writeLoop_spec {killed : Bool} {addr : ℕ → α} {left i j : ℕ} {stop : Stop}
    (hle : p.size ≤ PIPESIZE) (h : writeLoop killed addr left i p = (j, stop, p')) :
    ∃ k ≤ left, j = i + k ∧ p'.contents = p.contents ++ (List.range' i k).map addr ∧
      p'.size ≤ PIPESIZE ∧ SameEnds p p' ∧ (stop = .done → k = left) ∧
      (stop ≠ .done → p'.size = PIPESIZE ∧ k < left) := by
  induction left generalizing i p with
  | zero =>
    cases h
    exact ⟨0, Nat.le_refl 0, rfl, (List.append_nil _).symm, hle, ⟨rfl, rfl⟩, fun _ => rfl,
      fun hne => absurd rfl hne⟩
  | succ left ih =>
    unfold writeLoop at h
    split at h
    next hfull =>
      -- the call gives up or sleeps, with nothing stored
      have hsize := p.full_iff.1 hfull
      have hstop : j = i ∧ p' = p ∧ stop ≠ .done := by
        split at h
        · cases h
          exact ⟨rfl, rfl, nofun⟩
        · cases h
          exact ⟨rfl, rfl, nofun⟩
      obtain ⟨rfl, rfl, hne⟩ := hstop
      exact ⟨0, Nat.zero_le _, rfl, (List.append_nil _).symm, hle, ⟨rfl, rfl⟩,
        fun hdone => absurd hdone hne, fun _ => ⟨hsize, Nat.succ_pos left⟩⟩
    next hfull =>
      have hlt : p.size < PIPESIZE := by
        have := mt p.full_iff.2 hfull
        omega
      obtain ⟨k, hk, rfl, hcontents, hsize, hends, hdone, hstop⟩ :=
        ih (by rw [Pipe.size_store _ hlt]; exact hlt) h
      refine ⟨k + 1, Nat.succ_le_succ hk, by omega, ?_, hsize, hends, fun hd => ?_, fun hd => ?_⟩
      · rw [hcontents, Pipe.contents_store _ hlt, List.range'_succ, List.map_cons,
          List.append_assoc]
        rfl
      · rw [hdone hd]
      · exact ⟨(hstop hd).1, Nat.succ_lt_succ (hstop hd).2⟩

/-- **The copying loop of `piperead`** takes the bytes asked for from the front, or all there
are. -/
theorem readLoop_spec {n : ℕ} {bytes : List α} (hle : p.size ≤ PIPESIZE)
    (h : readLoop n p = (bytes, p')) :
    p.contents = bytes ++ p'.contents ∧ bytes.length = min n p.size ∧ p'.size ≤ PIPESIZE ∧
      SameEnds p p' := by
  induction n generalizing p bytes with
  | zero =>
    cases h
    exact ⟨rfl, (Nat.zero_min _).symm, hle, rfl, rfl⟩
  | succ n ih =>
    unfold readLoop at h
    split at h
    next hempty =>
      have hsize := p.empty_iff.1 hempty
      cases h
      exact ⟨rfl, by rw [hsize]; rfl, hle, rfl, rfl⟩
    next hempty =>
      have hpos : 0 < p.size := Nat.pos_of_ne_zero (mt p.empty_iff.2 hempty)
      have hsize := Pipe.size_take hpos hle
      cases hrest : readLoop n p.take.2 with
      | mk rest p₂ =>
        have h : (p.take.1 :: (readLoop n p.take.2).1, (readLoop n p.take.2).2) =
          (bytes, p') := h
        rw [hrest] at h
        cases h
        obtain ⟨hcontents, hlen, hsize', hends⟩ := ih (by omega) hrest
        refine ⟨?_, ?_, hsize', hends⟩
        · rw [Pipe.contents_take hpos hle, hcontents]
          rfl
        · rw [List.length_cons, hlen]
          omega

/-- **`piperead`** sleeps or gives up on an empty pipe that can still be written to, and reads
otherwise. -/
theorem piperead_cases {killed : Bool} {n : ℤ} {r : Reading α} (hle : p.size ≤ PIPESIZE)
    (h : piperead killed n p = (r, p')) :
    (p' = p ∧ (r = .asleep ∨ r = .refused)) ∨
      ∃ bytes, r = .got bytes ∧ (p.size = 0 → p.writeopen = false) ∧
        p.contents = bytes ++ p'.contents ∧ bytes.length = min n.toNat p.size ∧
        p'.size ≤ PIPESIZE ∧ SameEnds p p' := by
  unfold piperead at h
  split at h
  · cases h
    refine .inl ⟨rfl, ?_⟩
    split
    · exact .inr rfl
    · exact .inl rfl
  next hgo =>
    cases h
    refine .inr ⟨_, rfl, fun hzero => ?_, readLoop_spec hle rfl⟩
    have hopen := fun hopen => hgo ⟨p.empty_iff.2 hzero, hopen⟩
    exact Bool.eq_false_iff.2 hopen

/-! ### Steps -/

/-- The call of `pipewrite` with which a process goes on: at its beginning, or where it sleeps.
The last number is that of the calls by then. -/
inductive Writing (s : System α) : Act α → ℕ → ℕ → (ℕ → α) → ℤ → ℕ → ℕ → Prop where
  | start {p : ℕ} {addr : ℕ → α} {n : ℤ} {killed : Bool} (hp : s.sleeper p = none) :
      Writing s (.write p addr n killed) p s.calls addr n 0 (s.calls + 1)
  | resume {p call i : ℕ} {addr : ℕ → α} {n : ℤ} {killed : Bool}
      (hp : s.sleeper p = some (.write call addr n i)) :
      Writing s (.resume p killed) p call addr n i s.calls

/-- A process goes on with a call of `piperead`. -/
def ReadingBy (s : System α) (a : Act α) (p : ℕ) (n : ℤ) : Prop :=
  (∃ killed, a = .read p n killed) ∨ s.sleeper p = some (.read n)

/-- What one step does to the system. -/
inductive Stepped (s : System α) (a : Act α) : System α → Prop where
  | write {p call i calls k : ℕ} {addr : ℕ → α} {n : ℤ} {stop : Stop} {pipe : Pipe α}
      (hcall : Writing s a p call addr n i calls) (hk : k ≤ (n - i).toNat)
      (hcontents : pipe.contents = s.pipe.contents ++ (List.range' i k).map addr)
      (hsize : pipe.size ≤ PIPESIZE) (hends : SameEnds s.pipe pipe)
      (hdone : stop = .done → k = (n - i).toNat)
      (hstop : stop ≠ .done → pipe.size = PIPESIZE ∧ k < (n - i).toNat) :
      Stepped s a
        { pipe := pipe
          calls := calls
          stored := s.stored ++ (List.range' i k).map fun j => ⟨p, call, j, addr j⟩
          sleeper := update s.sleeper p
            (if stop = .asleep then some (.write call addr n (i + k)) else none)
          returns := s.returns ++ stop.returns p call n }
  | wait {p : ℕ} {n : ℤ} (hcall : ReadingBy s a p n) :
      Stepped s a { s with sleeper := update s.sleeper p (some (.read n)) }
  | refuse {p : ℕ} {n : ℤ} :
      Stepped s a
        { s with
          sleeper := update s.sleeper p none
          returns := s.returns ++ [.readRefused p n] }
  | read {p : ℕ} {n : ℤ} {bytes : List α} {pipe : Pipe α}
      (hcall : ReadingBy s a p n)
      (hclosed : s.pipe.size = 0 → s.pipe.writeopen = false)
      (hcontents : s.pipe.contents = bytes ++ pipe.contents)
      (hlen : bytes.length = min n.toNat s.pipe.size)
      (hsize : pipe.size ≤ PIPESIZE) (hends : SameEnds s.pipe pipe) :
      Stepped s a
        { s with
          pipe := pipe
          sleeper := update s.sleeper p none
          returns := s.returns ++ [.read p n bytes] }
  | close {pipe : Pipe α} (hdata : pipe.data = s.pipe.data) (hnread : pipe.nread = s.pipe.nread)
      (hnwrite : pipe.nwrite = s.pipe.nwrite) : Stepped s a { s with pipe := pipe }

theorem write_stepped {a : Act α} {p call i calls : ℕ} {addr : ℕ → α} {n : ℤ} (killed : Bool)
    (hle : s.pipe.size ≤ PIPESIZE) (hcall : Writing s a p call addr n i calls) :
    Stepped s a ({ s with calls := calls }.write p call addr n i killed) := by
  unfold System.write
  dsimp only
  cases hloop : writeLoop killed addr (n - i).toNat i s.pipe with
  | mk j rest =>
    obtain ⟨stop, pipe⟩ := rest
    obtain ⟨k, hk, rfl, hcontents, hsize, hends, hdone, hstop⟩ := writeLoop_spec hle hloop
    dsimp only
    rw [Nat.add_sub_cancel_left]
    exact .write hcall hk hcontents hsize hends hdone hstop

theorem read_stepped {a : Act α} {p : ℕ} {n : ℤ} (killed : Bool) (hle : s.pipe.size ≤ PIPESIZE)
    (hcall : ReadingBy s a p n) :
    Stepped s a (s.read p n killed) := by
  unfold System.read
  split
  next pipe hread =>
    obtain ⟨rfl, -⟩ | ⟨bytes, hr, -⟩ := piperead_cases hle hread
    · exact .wait hcall
    · cases hr
  next pipe hread =>
    obtain ⟨rfl, -⟩ | ⟨bytes, hr, -⟩ := piperead_cases hle hread
    · exact .refuse
    · cases hr
  next bytes pipe hread =>
    obtain ⟨-, hr | hr⟩ | ⟨bytes', hr, hclosed, hcontents, hlen, hsize, hends⟩ :=
      piperead_cases hle hread
    · cases hr
    · cases hr
    · obtain rfl := Reading.got.inj hr
      exact .read hcall hclosed hcontents hlen hsize hends

/-- **What one step does.** -/
theorem step_stepped {a : Act α} (hle : s.pipe.size ≤ PIPESIZE) (h : s.step a = some s') :
    Stepped s a s' := by
  unfold System.step at h
  obtain ⟨-, h⟩ := Option.ite_none_left_eq_some.1 h
  cases a with
  | write p addr n killed =>
    dsimp only at h
    obtain ⟨hnone, h⟩ := Option.ite_none_right_eq_some.1 h
    cases h
    exact write_stepped killed hle (.start (Option.isNone_iff_eq_none.1 hnone))
  | read p n killed =>
    dsimp only at h
    split at h
    · cases h
      exact read_stepped killed hle (.inl ⟨killed, rfl⟩)
    · cases h
  | resume p killed =>
    dsimp only at h
    split at h
    · cases h
    next call addr n i hp =>
      cases h
      exact write_stepped killed hle (.resume hp)
    next n hp =>
      cases h
      exact read_stepped killed hle (.inr hp)
  | close writable =>
    cases h
    unfold pipeclose
    split
    · exact .close rfl rfl rfl
    · exact .close rfl rfl rfl

/-! ### Runs -/

/-- The pipe holds what was stored and not yet received. -/
structure InOrder (s : System α) : Prop where
  size : s.pipe.size ≤ PIPESIZE
  bytes : s.bytes = s.received ++ s.pipe.contents

theorem InOrder.step {a : Act α} (h : InOrder s) (hs : s.step a = some s') : InOrder s' := by
  have hstep := step_stepped h.size hs
  have hbytes : s.stored.map Stored.byte = s.returns.flatMap Return.bytes ++ s.pipe.contents := h.bytes
  cases hstep with
  | @write p call i calls k addr n stop pipe hcall hk hcontents hsize hends hdone hstop =>
    refine ⟨hsize, ?_⟩
    have hnone : (stop.returns p call n).flatMap Return.bytes = ([] : List α) := by
      cases stop <;> rfl
    change (s.stored ++ _).map Stored.byte = (s.returns ++ _).flatMap Return.bytes ++ pipe.contents
    rw [List.map_append, List.map_map, List.flatMap_append, hnone, List.append_nil,
      hcontents, ← List.append_assoc, hbytes]
    rfl
  | wait => exact ⟨h.size, hbytes⟩
  | refuse =>
    refine ⟨h.size, ?_⟩
    change s.stored.map Stored.byte = (s.returns ++ _).flatMap Return.bytes ++ s.pipe.contents
    rw [List.flatMap_append, hbytes]
    simp [Return.bytes]
  | @read _ _ _ pipe hcall hclosed hcontents hlen hsize hends =>
    refine ⟨hsize, ?_⟩
    change s.stored.map Stored.byte = (s.returns ++ _).flatMap Return.bytes ++ pipe.contents
    rw [List.flatMap_append, hbytes, hcontents]
    simp [Return.bytes]
  | close hdata hnread hnwrite =>
    have hring : ∀ pipe : Pipe α, pipe.data = s.pipe.data → pipe.nread = s.pipe.nread →
        pipe.nwrite = s.pipe.nwrite → pipe.ring = s.pipe.ring := fun pipe h₁ h₂ h₃ => by
      unfold Pipe.ring
      rw [h₁, h₂, h₃]
    refine ⟨?_, ?_⟩
    · change CounterRing.size (Pipe.ring _) ≤ _
      rw [hring _ hdata hnread hnwrite]
      exact h.size
    · change s.bytes = s.received ++ CounterRing.contents _ (Pipe.ring _)
      rw [hring _ hdata hnread hnwrite]
      exact h.bytes

theorem InOrder.of_boot (page : ℕ → α) : InOrder (System.boot page) := by
  refine ⟨by rw [System.boot, Pipe.size_alloc]; exact Nat.zero_le _, ?_⟩
  exact (List.eq_nil_of_length_eq_zero
    ((Pipe.length_contents _).trans (Pipe.size_alloc page))).symm

/-- A read that returns nothing. -/
theorem read_nothing {a : Act α} {p : ℕ} {n : ℤ} (h : InOrder s) (hs : s.step a = some s')
    (hn : 0 < n) (hreturn : s'.returns = s.returns ++ [.read p n []]) :
    s'.pipe.writeopen = false ∧ s'.received = s'.bytes := by
  have h' := h.step hs
  have hstep := step_stepped h.size hs
  -- a step that returns from a read is a read, since the others add no such return
  have hread : ∀ r : List (Return α), s'.returns = s.returns ++ r → r = [.read p n []] := fun r hr =>
    List.append_cancel_left (hr.symm.trans hreturn)
  cases hstep with
  | @write p call i calls k addr n stop pipe =>
    have hwrite := hread _ rfl
    cases stop <;> simp [Stop.returns] at hwrite
  | wait | close => exact absurd (hread [] (List.append_nil _).symm) nofun
  | refuse =>
    have := hread _ rfl
    simp at this
  | @read _ _ bytes pipe hcall hclosed hcontents hlen hsize hends =>
    have heq := hread _ rfl
    obtain ⟨rfl, rfl, rfl⟩ : _ = p ∧ _ = n ∧ bytes = [] := by simpa using heq
    rw [List.length_nil] at hlen
    have hzero : s.pipe.size = 0 := by omega
    have hempty : pipe.contents = [] := by
      refine List.eq_nil_of_length_eq_zero ?_
      have := congrArg List.length hcontents
      rw [Pipe.length_contents, List.nil_append] at this
      omega
    refine ⟨hends.2.trans (hclosed hzero), ?_⟩
    have hbytes := h'.bytes
    dsimp only at hbytes
    rw [hempty, List.append_nil] at hbytes
    exact hbytes.symm

/-- **A pipe is first in, first out**, over every interleaving of calls at their sleeps: what
the reads have returned is a prefix of what was stored; there are never more than `PIPESIZE`
bytes between the counters; and a read of `n > 0` bytes returns `0` only if the write end is
closed and everything stored has been read. -/
theorem pipe_fifo (page : ℕ → α) (s : System α) (h : Reach System.step anyStep (.boot page) s) :
    s.received <+: s.bytes ∧ (s.pipe.nwrite - s.pipe.nread).toNat ≤ PIPESIZE ∧
      ∀ a s' p n, s.step a = some s' → 0 < n → s'.returns = s.returns ++ [.read p n []] →
        s'.pipe.writeopen = false ∧ s'.received = s'.bytes := by
  have hs : InOrder s := h.invariant (.of_boot page) fun _ _ _ hx _ hstep => hx.step hstep
  exact ⟨⟨_, hs.bytes.symm⟩, hs.size, fun a s' p n hstep hn hreturn => read_nothing hs hstep hn hreturn⟩

/-- A writer stores three bytes, a reader takes two of them, and after the write end is closed
another one takes what is left and then gets `0`. -/
theorem pipe_fifo_three : ∃ s : System ℕ, Reach System.step anyStep (.boot fun _ => 0) s ∧
    s.received = [10, 11, 12] ∧ s.received <+: s.bytes := by
  obtain ⟨s, hs, hreceived⟩ : ∃ s : System ℕ, Reach System.step anyStep (.boot fun _ => 0) s ∧
      s.received = [10, 11, 12] :=
    exists_reach_of_any [.read 1 2 false, .write 0 (10 + ·) 3 false, .resume 1 false, .close true,
      .read 2 5 false, .read 2 5 false] (by decide +kernel)
  exact ⟨s, hs, hreceived, (pipe_fifo (fun _ => 0) s hs).1⟩

end Pipes
end Xv6
