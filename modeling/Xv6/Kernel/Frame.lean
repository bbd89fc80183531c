/-
# What a step does to the identity of processes

A process is known to the rest of the kernel by its pid and its container id.
Every operation on the process table except a successful `fork` leaves the live
slots among those that were live, each with the pid and the container id it had
(`Shrinks`); a successful `fork` adds one slot, with a pid never used before
and the host's container id (`Spawns`).
-/

import Xv6.Kernel.Calls

namespace Xv6
namespace Kernel

namespace PTable

/-- The slot holds a process that has not been reaped. -/
def Live (t : PTable) (i : ℕ) : Prop := i < NPROC ∧ (t.proc i).state ≠ .unused

instance (t : PTable) (i : ℕ) : Decidable (t.Live i) := inferInstanceAs (Decidable (_ ∧ _))

/-- The live slots of `t'` are live in `t` and hold the same process in the same container. -/
structure Shrinks (t t' : PTable) : Prop where
  nextpid : t'.nextpid = t.nextpid
  live : ∀ i, t'.Live i → t.Live i ∧ (t'.proc i).pid = (t.proc i).pid ∧
    (t'.proc i).containerId = (t.proc i).containerId

/-- One slot is given the next pid and, if it ends up with a process, the
host's container id; the others do as in `Shrinks`. -/
structure Spawns (t t' : PTable) (np : ℕ) : Prop where
  nextpid : t'.nextpid = t.nextpid + 1
  fresh : t'.Live np → (t'.proc np).pid = t.nextpid ∧ (t'.proc np).containerId = 0
  live : ∀ i, i ≠ np → t'.Live i → t.Live i ∧ (t'.proc i).pid = (t.proc i).pid ∧
    (t'.proc i).containerId = (t.proc i).containerId

variable {t t' t'' : PTable}

theorem Shrinks.refl : Shrinks t t :=
  ⟨rfl, fun _ hi => ⟨hi, rfl, rfl⟩⟩

theorem Shrinks.trans (h : Shrinks t t') (h' : Shrinks t' t'') : Shrinks t t'' where
  nextpid := h'.nextpid.trans h.nextpid
  live i hi := by
    obtain ⟨hi', hpid', hcid'⟩ := h'.live i hi
    obtain ⟨hi'', hpid, hcid⟩ := h.live i hi'
    exact ⟨hi'', hpid'.trans hpid, hcid'.trans hcid⟩

/-- Rewriting one slot, if what it becomes is no new process. -/
theorem shrinks_modify {i : ℕ} {f : Proc → Proc}
    (hf : (f (t.proc i)).state ≠ .unused → (t.proc i).state ≠ .unused ∧
      (f (t.proc i)).pid = (t.proc i).pid ∧ (f (t.proc i)).containerId = (t.proc i).containerId) :
    Shrinks t (t.modify i f) where
  nextpid := rfl
  live j hj := by
    obtain ⟨hlt, hstate⟩ := hj
    by_cases hji : j = i
    · subst hji
      rw [modify_proc_self] at hstate ⊢
      obtain ⟨hlive, hpid, hcid⟩ := hf hstate
      exact ⟨⟨hlt, hlive⟩, hpid, hcid⟩
    · rw [modify_proc_of_ne t hji] at hstate ⊢
      exact ⟨⟨hlt, hstate⟩, rfl, rfl⟩

/-! ### The operations on the process table -/

theorem shrinks_wakeup1 (t : PTable) (chan : Chan) : Shrinks t (t.wakeup1 chan) where
  nextpid := rfl
  live i hi := by
    obtain ⟨hlt, hstate⟩ := hi
    simp only [wakeup1] at hstate ⊢
    split
    · next hsleep => exact ⟨⟨hlt, by rw [hsleep.1]; decide⟩, rfl, rfl⟩
    next hsleep =>
      rw [if_neg hsleep] at hstate
      exact ⟨⟨hlt, hstate⟩, rfl, rfl⟩

/-- A process that runs may change its own state in any way. -/
theorem shrinks_of_running {cur : ℕ} {f : Proc → Proc} (hcur : (t.proc cur).state = .running)
    (hf : ∀ p, (f p).pid = p.pid ∧ (f p).containerId = p.containerId) :
    Shrinks t (t.modify cur f) :=
  shrinks_modify fun _ => ⟨by rw [hcur]; decide, hf _⟩

theorem shrinks_kill (t : PTable) (pid : ℤ) : Shrinks t (t.kill pid).2 := by
  unfold kill
  split
  · exact Shrinks.refl
  · dsimp only
    refine shrinks_modify ?_
    intro hstate
    refine ⟨?_, rfl, rfl⟩
    split at hstate
    next hsleep =>
      rw [hsleep]
      decide
    · exact hstate

theorem shrinks_reparent (cur : ℕ) (t : PTable) (i : ℕ) : Shrinks t (reparent cur t i) := by
  unfold reparent
  split
  · have hmod : Shrinks t (t.modify i fun p => { p with parent := some t.initproc }) :=
      shrinks_modify fun hstate => ⟨hstate, rfl, rfl⟩
    dsimp only
    split
    · exact hmod.trans (shrinks_wakeup1 _ _)
    · exact hmod
  · exact Shrinks.refl

theorem shrinks_foldl_reparent (cur : ℕ) (is : List ℕ) (t : PTable) :
    Shrinks t (is.foldl (reparent cur) t) := by
  induction is generalizing t with
  | nil => exact Shrinks.refl
  | cons i is ih => exact (shrinks_reparent cur t i).trans (ih _)

theorem reparent_state_running {cur i j : ℕ} (h : (t.proc j).state = .running) :
    ((reparent cur t i).proc j).state = .running := by
  have hmod : ((t.modify i fun p => { p with parent := some t.initproc }).proc j).state =
      .running := by
    by_cases hji : j = i
    · rw [hji, modify_proc_self, ← hji]
      exact h
    · rw [modify_proc_of_ne t hji]
      exact h
  unfold reparent
  dsimp only
  split_ifs
  · simp [wakeup1, hmod]
  · exact hmod
  · exact h

theorem foldl_reparent_state_running (cur : ℕ) {j : ℕ} (is : List ℕ) (t : PTable)
    (h : (t.proc j).state = .running) :
    ((is.foldl (reparent cur) t).proc j).state = .running := by
  induction is generalizing t with
  | nil => exact h
  | cons i is ih => exact ih _ (reparent_state_running h)

theorem shrinks_exit {cur : ℕ} (hcur : (t.proc cur).state = .running) (h : t.exit cur = .ok t') :
    Shrinks t t' := by
  unfold exit at h
  split at h
  · cases h
  · cases h
    have hwake : ((t.wakeup1 (parentChan (t.proc cur).parent)).proc cur).state = .running := by
      simp [wakeup1, hcur]
    have hloop := foldl_reparent_state_running cur (List.range NPROC) _ hwake
    have hend := shrinks_of_running (f := fun p => { p with state := .zombie }) hloop
      fun _ => ⟨rfl, rfl⟩
    exact (shrinks_wakeup1 t _).trans ((shrinks_foldl_reparent cur _ _).trans hend)

theorem shrinks_sleep {cur : ℕ} (hcur : (t.proc cur).state = .running) (chan : Chan) :
    Shrinks t (t.sleep cur chan) :=
  shrinks_of_running hcur fun _ => ⟨rfl, rfl⟩

theorem shrinks_dispatch {i : ℕ} (hi : (t.proc i).state = .runnable) :
    Shrinks t (t.dispatch i) := by
  refine shrinks_modify ?_
  intro _
  exact ⟨by rw [hi]; decide, rfl, rfl⟩

theorem shrinks_wait {cur : ℕ} (hcur : (t.proc cur).state = .running) :
    Shrinks t (t.wait cur).2 := by
  unfold wait
  split
  · dsimp only
    refine shrinks_modify ?_
    intro hstate
    exact absurd rfl hstate
  · split
    · exact Shrinks.refl
    · exact shrinks_sleep hcur _

theorem firstSlot_eq_some {p : Proc → Bool} {i : ℕ} (h : t.firstSlot p = some i) :
    i < NPROC ∧ p (t.proc i) = true :=
  ⟨List.mem_range.1 (List.mem_of_find?_eq_some h), List.find?_some (p := fun i => p (t.proc i)) h⟩

theorem firstSlot_eq_none {p : Proc → Bool} (h : t.firstSlot p = none) {i : ℕ} (hi : i < NPROC) :
    p (t.proc i) = false := by
  have := List.find?_eq_none.1 h i (List.mem_range.2 hi)
  simpa using this

/-- **A fork adds one process or none.**  Where memory runs out the pid is
used up all the same. -/
theorem fork_cases (t : PTable) (cur : ℕ) (kstack pgdir : Bool) :
    Shrinks t (t.fork cur kstack pgdir).2 ∨ ∃ np, Spawns t (t.fork cur kstack pgdir).2 np := by
  cases hslot : t.firstSlot fun p => p.state = .unused with
  | none => exact .inl (by simp only [fork, allocproc, hslot]; exact Shrinks.refl)
  | some np =>
    refine .inr ⟨np, ?_, fun hlive => ?_, fun i hi hlive => ?_⟩
    · cases kstack <;> cases pgdir <;> simp [fork, allocproc, hslot]
    · -- after a failed allocation the slot is `UNUSED` again
      have hstate := hlive.2
      revert hstate
      cases kstack <;> cases pgdir <;> simp [fork, allocproc, hslot]
    · have hother : (t.fork cur kstack pgdir).2.proc i = t.proc i := by
        cases kstack <;> cases pgdir <;> simp [fork, allocproc, hslot, modify_proc_of_ne, hi]
      unfold Live at hlive ⊢
      rw [hother] at hlive ⊢
      exact ⟨hlive, rfl, rfl⟩

end PTable

end Kernel
end Xv6
