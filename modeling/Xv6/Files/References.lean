/-
# Who refers to what

`slots s f` counts the descriptors of all processes that point to the entry `f`
of the file table, and `users s k` the open files and current directories that
point to the entry `k` of the inode cache.  Each update of the state moves these
numbers by what it writes at one place.
-/

import Xv6.Lib.Count
import Xv6.Files.Cache

namespace Xv6
namespace Files

open Lib Function

variable {s s' : State} {p q fd f k : ℕ}

/-- The open file holds a reference on the entry `k` of the inode cache. -/
def File.Uses (file : File) (k : ℕ) : Prop := file.type = .inode ∧ file.ip = some k

instance (file : File) (k : ℕ) : Decidable (file.Uses k) := inferInstanceAs (Decidable (_ ∧ _))

/-- So does the process, for its current directory. -/
def Proc.In (proc : Proc) (k : ℕ) : Prop := proc.inUse = true ∧ proc.cwd = k

instance (proc : Proc) (k : ℕ) : Decidable (proc.In k) := inferInstanceAs (Decidable (_ ∧ _))

/-! The index sets are irreducible, so that no proof lists them. -/

/-- The entries of the file table. -/
@[irreducible] def fileIndices : Finset ℕ := Finset.range NFILE

/-- The slots of the process table. -/
@[irreducible] def procIndices : Finset ℕ := Finset.range NPROC

/-- The descriptors of all processes. -/
@[irreducible] def fdIndices : Finset (ℕ × ℕ) := Finset.range NPROC ×ˢ Finset.range NOFILE

theorem mem_fileIndices : f ∈ fileIndices ↔ f < NFILE := by
  unfold fileIndices
  exact Finset.mem_range

theorem mem_procIndices : p ∈ procIndices ↔ p < NPROC := by
  unfold procIndices
  exact Finset.mem_range

theorem mem_fdIndices : (p, fd) ∈ fdIndices ↔ p < NPROC ∧ fd < NOFILE := by
  unfold fdIndices
  rw [Finset.mem_product, Finset.mem_range, Finset.mem_range]

/-- The descriptors that point to an entry of the file table. -/
def slots (s : State) (f : ℕ) : ℕ := count fdIndices fun i => (s.proc i.1).ofile i.2 = some f

/-- The open files and current directories at an entry of the inode cache. -/
def users (s : State) (k : ℕ) : ℕ :=
  count fileIndices (fun f => (s.file f).Uses k) + count procIndices fun q => (s.proc q).In k

/-! ### Updates -/

section

variable (s : State)

@[simp] theorem setProc_self (x : Proc) : (s.setProc p x).proc p = x := update_self ..

theorem setProc_of_ne (h : q ≠ p) (x : Proc) : (s.setProc p x).proc q = s.proc q :=
  update_of_ne h ..

@[simp] theorem setFile_self (x : File) : (s.setFile f x).file f = x := update_self ..

theorem setFile_of_ne {g : ℕ} (h : g ≠ f) (x : File) : (s.setFile f x).file g = s.file g :=
  update_of_ne h ..

theorem setFile_setFile (f : ℕ) (x y : File) : (s.setFile f x).setFile f y = s.setFile f y := by
  unfold State.setFile
  rw [update_idem]

/-- A process as it is after one of its descriptors was set. -/
theorem setFd_self (o : Option ℕ) : (s.setFd p fd o).proc p =
    { s.proc p with ofile := update (s.proc p).ofile fd o } := update_self ..

theorem setFd_of_ne (h : q ≠ p) (o : Option ℕ) : (s.setFd p fd o).proc q = s.proc q :=
  update_of_ne h ..

theorem setFd_ofile (o : Option ℕ) (fd' : ℕ) : ((s.setFd p fd o).proc q).ofile fd' =
    if q = p ∧ fd' = fd then o else (s.proc q).ofile fd' := by
  by_cases hq : q = p
  · subst hq
    rw [setFd_self]
    dsimp only
    by_cases hfd : fd' = fd
    · rw [hfd, update_self, if_pos ⟨rfl, rfl⟩]
    · rw [update_of_ne hfd, if_neg fun h => hfd h.2]
  · rw [setFd_of_ne s hq, if_neg fun h => hq h.1]

theorem setFd_in (o : Option ℕ) : ((s.setFd p fd o).proc q).In k ↔ (s.proc q).In k := by
  by_cases hq : q = p
  · subst hq
    rw [setFd_self]
    exact Iff.rfl
  · rw [setFd_of_ne s hq]

end

/-! ### The numbers -/

theorem slots_congr (h : ∀ q fd, (s'.proc q).ofile fd = (s.proc q).ofile fd) :
    slots s' f = slots s f :=
  count_congr fun i _ => by rw [h]

theorem slots_setFd (hp : p < NPROC) (hfd : fd < NOFILE) (o : Option ℕ) :
    slots (s.setFd p fd o) f + one ((s.proc p).ofile fd = some f) =
      slots s f + one (o = some f) := by
  have hchange := count_change (fun i : ℕ × ℕ => (s.proc i.1).ofile i.2 = some f)
    (fun i => ((s.setFd p fd o).proc i.1).ofile i.2 = some f) (mem_fdIndices.2 ⟨hp, hfd⟩)
    fun j _ hj => by rw [setFd_ofile, if_neg fun h => hj (Prod.ext h.1 h.2)]
  rw [one_congr (show ((s.setFd p fd o).proc p).ofile fd = some f ↔ o = some f by
    rw [setFd_ofile, if_pos ⟨rfl, rfl⟩])] at hchange
  exact hchange

theorem slots_eq_zero : slots s f = 0 ↔
    ∀ p < NPROC, ∀ fd < NOFILE, (s.proc p).ofile fd ≠ some f := by
  unfold slots
  rw [count_eq_zero]
  constructor
  · intro h p hp fd hfd
    exact h (p, fd) (mem_fdIndices.2 ⟨hp, hfd⟩)
  · rintro h ⟨p, fd⟩ hi
    obtain ⟨hp, hfd⟩ := mem_fdIndices.1 hi
    exact h p hp fd hfd

theorem users_congr (hfile : ∀ f, (s'.file f).Uses k ↔ (s.file f).Uses k)
    (hproc : ∀ q, (s'.proc q).In k ↔ (s.proc q).In k) : users s' k = users s k := by
  unfold users
  rw [count_congr fun f _ => hfile f, count_congr fun q _ => hproc q]

theorem users_setFile (hf : f < NFILE) (x : File) :
    users (s.setFile f x) k + one ((s.file f).Uses k) = users s k + one (x.Uses k) := by
  have hchange : count fileIndices (fun g => ((s.setFile f x).file g).Uses k) + _ = _ :=
    count_update (File.Uses · k) s.file (mem_fileIndices.2 hf) x
  unfold users
  change _ + count procIndices (fun q => (s.proc q).In k) + _ = _
  omega

theorem users_setProc (hp : p < NPROC) (x : Proc) :
    users (s.setProc p x) k + one ((s.proc p).In k) = users s k + one (x.In k) := by
  have hchange : count procIndices (fun q => ((s.setProc p x).proc q).In k) + _ = _ :=
    count_update (Proc.In · k) s.proc (mem_procIndices.2 hp) x
  unfold users
  change count fileIndices (fun f => (s.file f).Uses k) + _ + _ = _
  omega

theorem users_setFd (o : Option ℕ) : users (s.setFd p fd o) k = users s k :=
  users_congr (fun _ => Iff.rfl) fun _ => setFd_in s o

theorem users_pos_of_proc (hp : p < NPROC) (h : (s.proc p).In k) : 0 < users s k := by
  have := count_pos (P := fun q => (s.proc q).In k) (mem_procIndices.2 hp) h
  unfold users
  omega

end Files
end Xv6
