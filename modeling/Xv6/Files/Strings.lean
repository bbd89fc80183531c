/-
# Strings that stay where they are

The table of a container's files has addresses in the memory of the processes that
registered the names (`set_file_in_container`, `xv6/container_manager.c`, lines
161-169).  A string is there as long as its process lives and does not write over
it (`exec_string`).
-/

import Xv6.Files.CallRecords

namespace Xv6
namespace Files

open Lib Kernel

variable {s s' : State} {x y : Proc} {p q addr : ℕ} {name path : Name} {touched : ℕ → Prop}

/-- The string at an address with the byte that ends it, in memory the kernel can read. -/
structure Proc.HasString (x : Proc) (addr : ℕ) (name : Name) : Prop where
  mem : ∀ i ≤ name.length, x.mem (addr + i) = name.getD i NUL
  mapped : addr + name.length < x.mapped

instance (x : Proc) (addr : ℕ) (name : Name) : Decidable (x.HasString addr name) :=
  decidable_of_iff ((∀ i < name.length + 1, x.mem (addr + i) = name.getD i NUL) ∧
      addr + name.length < x.mapped)
    ⟨fun h => ⟨fun i hi => h.1 i (Nat.lt_succ_of_le hi), h.2⟩,
      fun h => ⟨fun i hi => h.mem i (Nat.le_of_lt_succ hi), h.mapped⟩⟩

namespace Proc.HasString

theorem congr (h : x.HasString addr name) (hmem : y.mem = x.mem) (hsz : y.sz = x.sz) :
    y.HasString addr name := by
  refine ⟨by rw [hmem]; exact h.mem, ?_⟩
  unfold Proc.mapped
  rw [hsz]
  exact h.mapped

theorem rewritten (h : x.HasString addr name) (hx : Rewritten touched x y)
    (hclear : ∀ i ≤ name.length, ¬ touched (addr + i)) : y.HasString addr name :=
  ⟨fun i hi => (hx.mem _ (hclear i hi)).trans (h.mem i hi),
    hx.mapped _ (hclear _ (Nat.le_refl _)) h.mapped⟩

theorem of_stringAt {n : ℕ} (h : x.stringAt n addr = some name) :
    name.length < n ∧ ∀ i ≤ name.length, x.mem (addr + i) = name.getD i NUL := by
  induction n generalizing addr name with
  | zero => cases h
  | succ n ih =>
    unfold Proc.stringAt at h
    split at h
    next hnul =>
      cases h
      refine ⟨Nat.succ_pos n, fun i hi => ?_⟩
      obtain rfl : i = 0 := Nat.le_zero.1 hi
      exact hnul
    · obtain ⟨rest, hrest, rfl⟩ := Option.map_eq_some_iff.1 h
      obtain ⟨hlt, hmem⟩ := ih hrest
      refine ⟨Nat.succ_lt_succ hlt, fun i hi => ?_⟩
      cases i with
      | zero => rfl
      | succ i =>
        rw [show addr + (i + 1) = addr + 1 + i by omega]
        exact hmem i (Nat.le_of_succ_le_succ hi)

/-- What `fetchstr` finds is there. -/
theorem of_fetchstr (h : x.fetchstr addr = some name) : x.HasString addr name := by
  unfold Proc.fetchstr at h
  split at h
  · cases h
  · obtain ⟨hlt, hmem⟩ := of_stringAt h
    refine ⟨hmem, ?_⟩
    unfold Proc.mapped PGSIZE
    omega

/-- With more bytes stored over its end. -/
theorem append (h : x.HasString addr name) (more : Name)
    (hmapped : addr + name.length + more.length < x.mapped) :
    (x.store (addr + name.length) (more ++ [NUL])).HasString addr (name ++ more) := by
  refine ⟨fun i hi => ?_, ?_⟩
  · rw [List.length_append] at hi
    by_cases hlt : i < name.length
    · rw [x.store_mem (by omega), h.mem i (by omega), List.getD_append _ _ _ _ hlt]
    · have hin : addr + name.length ≤ addr + i ∧
          addr + i < addr + name.length + (more ++ [NUL]).length := by
        rw [List.length_append, List.length_singleton]
        omega
      refine (if_pos hin).trans ?_
      rw [show addr + i - (addr + name.length) = i - name.length by omega,
        List.getD_append_right name more _ _ (by omega)]
      by_cases hmore : i - name.length < more.length
      · rw [List.getD_append _ _ _ _ hmore]
      · rw [List.getD_append_right more [NUL] _ _ (by omega), List.getD_eq_default more NUL (by omega)]
        cases i - name.length - more.length <;> rfl
  · rw [List.length_append, ← Nat.add_assoc]
    exact hmapped

/-- The name that `sys_open` goes on with is in the caller's memory. -/
theorem renamed {r : Renaming} (h : x.fetchstr addr = some path)
    (hmapped : r.append = true → addr + path.length + 3 ≤ x.mapped) :
    (x.renamed r addr path).HasString addr
      (if r.append then path ++ suffix x.containerId else path) := by
  have hpath := of_fetchstr h
  unfold Proc.renamed
  split
  next happend =>
    refine hpath.append _ ?_
    have hle := hmapped happend
    change addr + path.length + 2 < _
    omega
  · exact hpath

end Proc.HasString

/-- The process in a slot is there, and so is its string. -/
def Stays (s : State) (q addr : ℕ) (name : Name) : Prop :=
  (s.proc q).inUse = true ∧ (s.proc q).HasString addr name

namespace Stays

theorem of_same (h : Stays s q addr name) (hsame : SameRecords s s') : Stays s' q addr name :=
  ⟨(hsame.inUse q).trans h.1, h.2.congr (hsame.mem q) (hsame.sz q)⟩

/-- Another process. -/
theorem setProc_of_ne (h : Stays s q addr name) (hq : q ≠ p) (x : Proc) :
    Stays (s.setProc p x) q addr name := by
  unfold Stays
  rw [Files.setProc_of_ne s hq]
  exact h

theorem setProc (h : Stays s q addr name) (hx : Rewritten touched (s.proc p) x)
    (hclear : q = p → ∀ i ≤ name.length, ¬ touched (addr + i)) :
    Stays (s.setProc p x) q addr name := by
  by_cases hq : q = p
  · subst hq
    unfold Stays
    rw [setProc_self]
    exact ⟨hx.inUse.trans h.1, h.2.rewritten hx (hclear rfl)⟩
  · exact h.setProc_of_ne hq x

/-- A change of the container records. -/
theorem of_proc_eq (h : Stays s q addr name) (hproc : s'.proc = s.proc) : Stays s' q addr name := by
  unfold Stays
  rw [hproc]
  exact h

/-- The container id does not matter. -/
theorem setContainerId (h : Stays s q addr name) (p cid : ℕ) :
    Stays (s.setProc p { s.proc p with containerId := cid }) q addr name := by
  by_cases hq : q = p
  · subst hq
    unfold Stays
    rw [setProc_self]
    exact ⟨h.1, h.2.congr rfl rfl⟩
  · exact h.setProc_of_ne hq _

theorem exit (h : Stays s q addr name) (hq : q ≠ p) (hs : Files.exit s p = .ok s') :
    Stays s' q addr name :=
  (h.setProc_of_ne hq _).of_same (exit_records hs)

end Stays

/-- **A string stays** through every call by which its process does not write over it. -/
theorem exec_string {call : Call} (h : Stays s q addr name)
    (hclear : q = p → ∀ i ≤ name.length, ¬ call.overwrites s p (addr + i))
    (hs : exec s p call = .ok s') : Stays s' q addr name := by
  cases call with
  | «open» addr' omode =>
    obtain rfl | ⟨r, t, -, hproc, x, hx, hsame⟩ := exec_open hs
    · exact h
    · exact ((h.of_proc_eq hproc).setProc hx hclear).of_same hsame
  | fork =>
    obtain hsame | ⟨q', child, hfree, -, -, -, -, hsame⟩ := fork_records hs
    · exact h.of_same hsame
    · have hne : q ≠ q' := by
        rintro rfl
        rw [h.1] at hfree
        cases hfree
      have hnext : Stays { s with nextpid := s.nextpid + 1 } q addr name := h
      exact (hnext.setProc_of_ne hne child).of_same hsame
  | exit =>
    refine h.exit (fun hq => ?_) hs
    exact hclear hq 0 (Nat.zero_le _) trivial
  | createContainer =>
    cases hs
    exact h
  | destroyContainer cid =>
    obtain ⟨-, -, ⟨hcid, hexit⟩ | ⟨-, rfl⟩⟩ := sysDestroyContainer_eq_ok hs
    · have h' : Stays { s with containers := s.containers.modify cid ContainerTable.destroyed } q
        addr name := h
      refine h'.exit (fun hq => ?_) hexit
      exact hclear hq 0 (Nat.zero_le _) hcid
    · exact h
  | joinContainer cid =>
    obtain ⟨t, -, -, rfl⟩ := exec_joinContainer hs
    have h' : Stays { s with containers := t } q addr name := h
    exact h'.setContainerId p cid
  | leaveContainer =>
    obtain rfl | ⟨t, -, rfl⟩ := exec_leaveContainer hs
    · exact h
    · have h' : Stays { s with containers := t } q addr name := h
      exact h'.setContainerId p 0
  | containerMalloc units =>
    obtain ⟨f, m, t, rfl⟩ := exec_containerMalloc_eq hs
    exact h
  | _ =>
    obtain ⟨x, hx, hsame⟩ := exec_records id hs
    exact (h.setProc hx hclear).of_same hsame

end Files
end Xv6
