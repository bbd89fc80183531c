/-
# Limits and ways to stop

The table sizes of `xv6/param.h` that the modelled code uses, and the ways in
which a kernel path can end without a result: it calls `panic`, it touches an
array outside its bounds or a page it did not get, after which nothing is known
of the memory, or it sleeps.
-/

import Mathlib

namespace Xv6

/-- Maximum number of processes. -/
def NPROC : ℕ := 64

/-- Number of containers, the host `0` included. -/
def NCONTAINER : ℕ := 15

/-- Open files of a process. -/
def NOFILE : ℕ := 300

/-- Open files of the system. -/
def NFILE : ℕ := 100

/-- Entries of the inode cache. -/
def NINODE : ℕ := 50

/-- Most blocks that one file system operation writes. -/
def MAXOPBLOCKS : ℕ := 10

/-- Most blocks in the log header. -/
def LOGSIZE : ℕ := MAXOPBLOCKS * 3

/-- Buffers of the disk block cache. -/
def NBUF : ℕ := MAXOPBLOCKS * 3

/-- Size of the file system in blocks. -/
def FSSIZE : ℕ := 1000

/-! The next two are irreducible, so that no proof unfolds a list of that length. -/

/-- Number of receiver queues. -/
@[irreducible] def NUMOFMESSAGEQUEUES : ℕ := 64

/-- Number of message buffers, and cells of each receiver queue. -/
@[irreducible] def NUMOFMESSAGEBUFFERS : ℕ := 5001

/-- How a kernel path stops short of a result. -/
inductive Halt where
  /-- A call of `panic` with its text. -/
  | panic (text : String)
  /-- An access outside the bounds of an array or of a page. -/
  | wild
  /-- A sleep that nothing in the state ends. -/
  | asleep
  deriving DecidableEq, Repr

@[simp] theorem ok_bind {ε α β : Type} (a : α) (f : α → Except ε β) :
    ((Except.ok a : Except ε α) >>= f) = f a := rfl

/-- A path returns when its first part does and its second part does on what the first one
gave. -/
theorem bind_eq_ok {ε α β : Type} {x : Except ε α} {f : α → Except ε β} {b : β} :
    (x >>= f) = .ok b ↔ ∃ a, x = .ok a ∧ f a = .ok b := by
  cases x with
  | error e => exact ⟨fun h => (nomatch h), fun ⟨_, h, _⟩ => (nomatch h)⟩
  | ok a => exact ⟨fun h => ⟨a, rfl, h⟩, fun ⟨_, h, hb⟩ => Except.ok.inj h ▸ hb⟩

theorem map_eq_ok {ε α β : Type} {f : α → β} {x : Except ε α} {b : β} (h : x.map f = .ok b) :
    ∃ a, x = .ok a ∧ f a = b := by
  cases x with
  | error e => cases h
  | ok a => exact ⟨a, rfl, Except.ok.inj h⟩

/-- A path that returns has passed a test that would have stopped it. -/
theorem ite_error_eq_ok {ε α : Type} {p : Prop} [Decidable p] {e : ε} {x : Except ε α} {a : α} :
    (if p then .error e else x) = .ok a ↔ ¬p ∧ x = .ok a := by
  split <;> simp [*]

theorem else_error_eq_ok {ε α : Type} {p : Prop} [Decidable p] {e : ε} {x : Except ε α} {a : α} :
    (if p then x else .error e) = .ok a ↔ p ∧ x = .ok a := by
  split <;> simp [*]

theorem ok_of_toOption {ε α : Type} {x : Except ε α} {a : α} (h : x.toOption = some a) :
    x = .ok a := by
  cases x with
  | error e => cases h
  | ok b => exact congrArg _ (Option.some.inj h)

/-- A kernel path that is seen to return a value with some property returns one. -/
theorem exists_ok_of_any {α : Type} {x : Except Halt α} {Q : α → Prop} [DecidablePred Q]
    (h : (x.toOption.any fun a => decide (Q a)) = true) : ∃ a, x = .ok a ∧ Q a := by
  cases x with
  | error e => cases h
  | ok a => exact ⟨a, rfl, of_decide_eq_true h⟩

end Xv6
