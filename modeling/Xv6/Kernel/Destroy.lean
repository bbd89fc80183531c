/-
# Destroying a container under `ptable.lock`

`destroy_container_processes` (`xv6/proc.c`, lines 860-875) goes through the
process table with `ptable.lock` held and calls `kill` (lines 690-708) for each
slot that it finds, and `kill` acquires the lock again; `acquire`
(`xv6/spinlock.c`, lines 24-43) panics when its CPU has the lock already.  The
lock is a field of the state here, and every function that takes it does so by
`acquire`.  `Kernel.sysDestroyContainer` is what this comes to when no lock is
held at the start (`Locked.sysDestroyContainer_eq`).

So the call comes to its end only if every slot with the id, in use or not, has the
caller's pid; then it marks the first slot with that pid if the caller is in the container
(`destroy_kills_members`).
-/

import Xv6.Lib.Run
import Xv6.Kernel.Frame

namespace Xv6
namespace Kernel

open Lib

/-- The two tables, and whether this CPU holds `ptable.lock`. -/
structure Locked extends State where
  held : Bool

namespace Locked

/-- `acquire(&ptable.lock)`.  Where another CPU holds the lock it spins until it is released. -/
def acquire (s : Locked) : Except Halt Locked :=
  if s.held then .error (.panic "acquire") else .ok { s with held := true }

/-- `release(&ptable.lock)`. -/
def release (s : Locked) : Except Halt Locked :=
  if s.held then .ok { s with held := false } else .error (.panic "release")

/-- `kill`, with its lock. -/
def kill (s : Locked) (pid : ℤ) : Except Halt (ℤ × Locked) := do
  let s ← s.acquire
  let (code, t) := s.ptable.kill pid
  let s ← { s with ptable := t }.release
  .ok (code, s)

/-- One turn of the loop of `destroy_container_processes`. -/
def destroyTurn (pid : ℕ) (a : ℤ) (s : Locked) (i : ℕ) : Except Halt Locked := do
  let p := s.ptable.proc i
  if p.containerId = a ∧ p.pid ≠ pid then
    let (_, s) ← s.kill p.pid
    .ok s
  else .ok s

/-- `destroy_container_processes`. -/
def destroyContainerProcesses (s : Locked) (pid : ℕ) (a pcid : ℤ) : Except Halt Locked := do
  let s ← s.acquire
  let s ← (List.range NPROC).foldlM (destroyTurn pid a) s
  let s ← s.release
  if pcid = a then
    let (_, s) ← s.kill pid
    .ok s
  else .ok s

/-- `sys_destroy_container`. -/
def sysDestroyContainer (s : Locked) (cur : ℕ) (containerId : ℤ) : Except Halt (ℤ × Locked) := do
  let p := s.ptable.proc cur
  let containers ← s.containers.destroyContainerKernel containerId
  let s ← { s with containers := containers }.destroyContainerProcesses p.pid containerId
    p.containerId
  .ok (0, s)

end Locked

variable {s : Locked} {t : PTable} {pid cur : ℕ} {a pcid : ℤ}

/-! ### The loop -/

theorem kill_of_held (h : s.held = true) (pid : ℤ) : s.kill pid = .error (.panic "acquire") := by
  unfold Locked.kill Locked.acquire
  rw [if_pos h]
  rfl

theorem kill_of_free (h : s.held = false) (pid : ℤ) :
    s.kill pid = .ok ((s.ptable.kill pid).1, { s with ptable := (s.ptable.kill pid).2 }) := by
  obtain ⟨⟨table, containers⟩, held⟩ := s
  obtain rfl : held = false := h
  rfl

/-- The slots that the loop stops at. -/
def Struck (t : PTable) (pid : ℕ) (a : ℤ) (i : ℕ) : Prop :=
  (t.proc i).containerId = a ∧ (t.proc i).pid ≠ pid

instance (t : PTable) (pid : ℕ) (a : ℤ) (i : ℕ) : Decidable (Struck t pid a i) :=
  inferInstanceAs (Decidable (_ ∧ _))

/-- The loop passes the slots that it does not strike, and the first other one ends it. -/
theorem foldlM_destroyTurn (h : s.held = true) (slots : List ℕ) :
    slots.foldlM (Locked.destroyTurn pid a) s =
      if ∃ i ∈ slots, Struck s.ptable pid a i then .error (.panic "acquire") else .ok s := by
  induction slots with
  | nil => exact (if_neg (by simp)).symm
  | cons i slots ih =>
    rw [List.foldlM_cons]
    by_cases hi : Struck s.ptable pid a i
    · have hturn : Locked.destroyTurn pid a s i = .error (.panic "acquire") := by
        unfold Locked.destroyTurn
        exact (if_pos hi).trans (by rw [kill_of_held h]; rfl)
      rw [hturn, if_pos ⟨i, List.mem_cons_self, hi⟩]
      rfl
    · have hturn : Locked.destroyTurn pid a s i = .ok s := if_neg hi
      rw [hturn, ok_bind, ih]
      simp [hi]

/-- **The calls of `kill` in the loop panic**, so the loop strikes nothing if it ends. -/
theorem Locked.destroyContainerProcesses_eq (h : s.held = false) :
    s.destroyContainerProcesses pid a pcid =
      if ∃ i < NPROC, Struck s.ptable pid a i then .error (.panic "acquire")
      else .ok { s with ptable := if pcid = a then (s.ptable.kill pid).2 else s.ptable } := by
  have hacq : s.acquire = .ok { s with held := true } := if_neg (by rw [h]; decide)
  unfold destroyContainerProcesses
  rw [hacq, ok_bind, foldlM_destroyTurn rfl]
  simp only [List.mem_range]
  split
  · rfl
  · have hrel : ({ s with held := true } : Locked).release = .ok s := by
      obtain ⟨state, held⟩ := s
      obtain rfl : held = false := h
      rfl
    rw [ok_bind, hrel, ok_bind]
    split
    · rw [kill_of_free h]
      rfl
    · rfl

/-- A call that holds no lock at its start is the one on the two tables. -/
theorem Locked.sysDestroyContainer_eq (h : s.held = false) :
    s.sysDestroyContainer cur a =
      (Kernel.sysDestroyContainer s.toState cur a).map fun r => (r.1, ⟨r.2, false⟩) := by
  obtain ⟨⟨table, containers⟩, held⟩ := s
  obtain rfl : held = false := h
  unfold sysDestroyContainer Kernel.sysDestroyContainer
  cases containers.destroyContainerKernel a with
  | error e => rfl
  | ok c =>
    simp only [ok_bind]
    rw [Locked.destroyContainerProcesses_eq rfl]
    unfold PTable.destroyContainerProcesses
    cases hslot : table.firstSlot fun p =>
        p.containerId = a ∧ p.pid ≠ (table.proc cur).pid with
    | some i =>
      obtain ⟨hi, hstruck⟩ := PTable.firstSlot_eq_some hslot
      rw [if_pos ⟨i, hi, of_decide_eq_true hstruck⟩]
      rfl
    | none =>
      rw [if_neg]
      · rfl
      · rintro ⟨i, hi, hstruck⟩
        exact absurd hstruck (of_decide_eq_false (PTable.firstSlot_eq_none hslot hi))

/-- A child is in container 1 and its parent destroys it, which panics in both; and a process
destroys the container that it is in, which marks it in both. -/
theorem sysDestroyContainer_eq_members :
    (∃ s, Reach step anyStep boot s ∧ (s.ptable.proc 1).containerId = 1 ∧
      ((⟨s, false⟩ : Locked).sysDestroyContainer 0 1).toOption.isNone) ∧
    ∃ s, Reach step anyStep boot s ∧ (s.ptable.proc 0).containerId = 1 ∧
      ((⟨s, false⟩ : Locked).sysDestroyContainer 0 1).toOption.any
        (fun r => (r.2.ptable.proc 0).killed) := by
  obtain ⟨s, hs, hid, hnone⟩ : ∃ s, Reach step anyStep boot s ∧ (s.ptable.proc 1).containerId = 1 ∧
      (Kernel.sysDestroyContainer s 0 1).toOption.isNone :=
    exists_reach_of_any [.schedule, .call 0 .createContainer, .call 0 (.fork true true),
      .schedule, .call 1 (.joinContainer 1)] (by decide +kernel)
  obtain ⟨t, ht, hid', hsome⟩ : ∃ s, Reach step anyStep boot s ∧ (s.ptable.proc 0).containerId = 1 ∧
      (Kernel.sysDestroyContainer s 0 1).toOption.any fun r => (r.2.ptable.proc 0).killed :=
    exists_reach_of_any [.schedule, .call 0 .createContainer, .call 0 (.joinContainer 1)]
      (by decide +kernel)
  refine ⟨⟨s, hs, hid, ?_⟩, t, ht, hid', ?_⟩
  · rw [Locked.sysDestroyContainer_eq rfl]
    cases hcall : Kernel.sysDestroyContainer s 0 1 with
    | error e => rfl
    | ok r => simp [hcall, Except.toOption] at hnone
  · rw [Locked.sysDestroyContainer_eq rfl]
    cases hcall : Kernel.sysDestroyContainer t 0 1 with
    | error e => simp [hcall, Except.toOption] at hsome
    | ok r => simpa [hcall, Except.toOption, Except.map] using hsome

/-! ### What the call does -/

/-- A process as `kill` leaves it. -/
def Proc.struck (p : Proc) : Proc :=
  { p with killed := true, state := if p.state = .sleeping then .runnable else p.state }

/-- The first slot with the caller's pid, which `kill` marks if the caller is in the container. -/
def Target (t : PTable) (cur : ℕ) (a : ℤ) (i : ℕ) : Prop :=
  (t.proc cur).containerId = a ∧ (t.proc i).pid = (t.proc cur).pid ∧
    ∀ j < i, (t.proc j).pid ≠ (t.proc cur).pid

/-- A process that the call is to mark. -/
def Member (t : PTable) (a : ℤ) (i : ℕ) : Prop :=
  (t.proc i).state ≠ .unused ∧ (t.proc i).containerId = a

instance (t : PTable) (a : ℤ) (i : ℕ) : Decidable (Member t a i) :=
  inferInstanceAs (Decidable (_ ∧ _))

/-- What `destroy_container_processes` does to a slot, if the loop passes. -/
theorem proc_kill (hcur : cur < NPROC) (i : ℕ) :
    (Target t cur a i → (if (t.proc cur).containerId = a then
      (t.kill (t.proc cur).pid).2 else t).proc i = (t.proc i).struck) ∧
    (¬ Target t cur a i → (if (t.proc cur).containerId = a then
      (t.kill (t.proc cur).pid).2 else t).proc i = t.proc i) := by
  by_cases hid : (t.proc cur).containerId = a
  · rw [if_pos hid]
    unfold PTable.kill
    cases hslot : t.firstSlot fun p => (p.pid : ℤ) == ((t.proc cur).pid : ℤ) with
    | none =>
      have := PTable.firstSlot_eq_none hslot hcur
      simp at this
    | some k =>
      obtain ⟨hk, hkt, hfirst⟩ := List.find?_range_eq_some.1 hslot
      simp only [beq_iff_eq, Int.ofNat_inj, Bool.not_eq_true', beq_eq_false_iff_ne, ne_eq] at hk hfirst
      have htarget : Target t cur a i ↔ i = k := by
        refine ⟨fun h => ?_, fun h => ?_⟩
        · rcases Nat.lt_trichotomy i k with hlt | rfl | hlt
          · exact absurd h.2.1 (hfirst i hlt)
          · rfl
          · exact absurd hk (h.2.2 k hlt)
        · subst h
          exact ⟨hid, hk, hfirst⟩
      dsimp only
      rw [PTable.modify_proc, htarget]
      exact ⟨fun h => by rw [if_pos h, h]; rfl, fun h => if_neg h⟩
  · rw [if_neg hid]
    exact ⟨fun h => absurd h.1 hid, fun _ => rfl⟩

/-- The slots with the id `a` have the caller's pid, and the one slot that is marked then is the
only member, save members that are marked and awake already. -/
structure Lone (t : PTable) (cur : ℕ) (a : ℤ) : Prop where
  own : ∀ i < NPROC, (t.proc i).containerId = a → (t.proc i).pid = (t.proc cur).pid
  target : ∀ i < NPROC, Target t cur a i → Member t a i ∨ (t.proc i).struck = t.proc i
  others : ∀ i < NPROC, Member t a i → ¬ Target t cur a i → (t.proc i).struck = t.proc i

/-- **When `sys_destroy_container` marks the members of a container.**  For every process table
and container id, the call returns, has marked the processes with that id and made runnable those
of them that slept, and has left every other process as it was, just if the container has no
member but the caller. -/
theorem destroy_kills_members (s : Locked) (cur : ℕ) (a : ℤ) (hheld : s.held = false)
    (hcur : Running s.toState cur) (hpos : 1 ≤ a) (hlt : a < NCONTAINER) :
    (∃ s', s.sysDestroyContainer cur a = .ok (0, s') ∧
      ∀ i < NPROC, s'.ptable.proc i =
        if Member s.ptable a i then (s.ptable.proc i).struck else s.ptable.proc i) ↔
      Lone s.ptable cur a := by
  have hindex : ContainerTable.index a = .ok a.toNat := if_pos ⟨by omega, hlt⟩
  unfold Locked.sysDestroyContainer ContainerTable.destroyContainerKernel
  rw [hindex]
  simp only [ok_bind]
  rw [Locked.destroyContainerProcesses_eq (by exact hheld)]
  by_cases hstruck : ∃ i < NPROC, Struck s.ptable (s.ptable.proc cur).pid a i
  · rw [if_pos (by exact hstruck)]
    refine ⟨fun ⟨_, h, _⟩ => (by cases h), fun h => ?_⟩
    obtain ⟨i, hi, hid, hpid⟩ := hstruck
    exact absurd (h.own i hi hid) hpid
  · rw [if_neg (by exact hstruck), ok_bind]
    have hproc := fun i => proc_kill (t := s.ptable) (a := a) hcur.1 i
    constructor
    · rintro ⟨s', hs', hall⟩
      obtain rfl := congrArg Prod.snd (Except.ok.inj hs')
      dsimp only at hall
      refine ⟨fun i hi hid => ?_, fun i hi ht => ?_, fun i hi hm ht => ?_⟩
      · by_contra hpid
        exact hstruck ⟨i, hi, hid, hpid⟩
      · by_contra hnot
        obtain ⟨hm, hne⟩ := not_or.1 hnot
        have := hall i hi
        rw [(hproc i).1 ht, if_neg hm] at this
        exact hne this
      · have := hall i hi
        rw [(hproc i).2 ht, if_pos hm] at this
        exact this.symm
    · intro h
      refine ⟨_, rfl, fun i hi => ?_⟩
      dsimp only
      by_cases ht : Target s.ptable cur a i
      · rw [(hproc i).1 ht]
        rcases h.target i hi ht with hm | hsame
        · rw [if_pos hm]
        · split
          · rfl
          · exact hsame
      · rw [(hproc i).2 ht]
        split
        next hm => exact (h.others i hi hm ht).symm
        next => rfl

/-- A process destroys the container that it is in alone, and is marked. -/
theorem destroy_kills_members_alone : ∃ (s : State) (s' : Locked), Reach step anyStep boot s ∧
    (⟨s, false⟩ : Locked).sysDestroyContainer 0 1 = .ok (0, s') ∧
    (s.ptable.proc 0).killed = false ∧ (s'.ptable.proc 0).killed = true := by
  obtain ⟨s, hs, hcur, hothers, hid, hkilled⟩ : ∃ s, Reach step anyStep boot s ∧ Running s 0 ∧
      (∀ i < NPROC, i ≠ 0 → (s.ptable.proc i).containerId ≠ 1) ∧
      (s.ptable.proc 0).containerId = 1 ∧ (s.ptable.proc 0).killed = false :=
    exists_reach_of_any [.schedule, .call 0 .createContainer, .call 0 (.joinContainer 1)]
      (by decide +kernel)
  obtain ⟨s', hs', hproc⟩ := (destroy_kills_members ⟨s, false⟩ 0 1 rfl hcur (by decide)
    (by decide)).2
    { own := fun i hi hid => by
        by_contra hne
        exact hothers i hi (fun h => hne (by rw [h])) hid
      target := fun i hi ht => by
        obtain rfl : i = 0 := by
          by_contra hne
          exact ht.2.2 0 (Nat.pos_of_ne_zero hne) rfl
        exact .inl ⟨by rw [hcur.2]; decide, hid⟩
      others := fun i hi hm ht => by
        obtain rfl : i = 0 := by
          by_contra hne
          exact hothers i hi hne hm.2
        exact absurd ⟨hid, rfl, nofun⟩ ht }
  refine ⟨s, s', hs, hs', hkilled, ?_⟩
  rw [hproc 0 (by decide), if_pos ⟨by rw [hcur.2]; decide, hid⟩]
  rfl

/-- **A slot that the loop strikes stops the kernel**, whether it is in use or not. -/
theorem Locked.sysDestroyContainer_panics {i : ℕ} (hheld : s.held = false) (hpos : 0 ≤ a)
    (hlt : a < NCONTAINER) (hi : i < NPROC)
    (hstruck : Struck s.ptable (s.ptable.proc cur).pid a i) :
    s.sysDestroyContainer cur a = .error (.panic "acquire") := by
  have hindex : ContainerTable.index a = .ok a.toNat := if_pos ⟨hpos, hlt⟩
  unfold sysDestroyContainer ContainerTable.destroyContainerKernel
  rw [hindex]
  simp only [ok_bind]
  rw [destroyContainerProcesses_eq (by exact hheld), if_pos ⟨i, hi, hstruck⟩]
  rfl

/-- **A container with another member cannot be destroyed**, nor one whose id a free slot has
kept: the kernel stops in `acquire`.  A child has joined container 1, and the parent destroys it,
before and after the child has exited and been reaped. -/
theorem destroy_panics :
    (∃ s, Reach step anyStep boot s ∧ Running s 0 ∧ (s.ptable.proc 1).state = .running ∧
      (s.ptable.proc 1).containerId = 1 ∧
      (⟨s, false⟩ : Locked).sysDestroyContainer 0 1 = .error (.panic "acquire")) ∧
    ∃ s, Reach step anyStep boot s ∧ Running s 0 ∧
      (∀ i < NPROC, (s.ptable.proc i).state ≠ .unused → (s.ptable.proc i).containerId ≠ 1) ∧
      (⟨s, false⟩ : Locked).sysDestroyContainer 0 1 = .error (.panic "acquire") := by
  refine ⟨?_, ?_⟩
  · obtain ⟨s, hs, hcur, hstate, hid, hstruck⟩ : ∃ s, Reach step anyStep boot s ∧ Running s 0 ∧
        (s.ptable.proc 1).state = .running ∧ (s.ptable.proc 1).containerId = 1 ∧
        Struck s.ptable (s.ptable.proc 0).pid 1 1 :=
      exists_reach_of_any [.schedule, .call 0 .createContainer, .call 0 (.fork true true),
        .schedule, .call 1 (.joinContainer 1)] (by decide +kernel)
    exact ⟨s, hs, hcur, hstate, hid, Locked.sysDestroyContainer_panics rfl (by decide) (by decide)
      (by decide : 1 < NPROC) hstruck⟩
  · obtain ⟨s, hs, hcur, hnone, hstruck⟩ : ∃ s, Reach step anyStep boot s ∧ Running s 0 ∧
        (∀ i < NPROC, (s.ptable.proc i).state ≠ .unused → (s.ptable.proc i).containerId ≠ 1) ∧
        Struck s.ptable (s.ptable.proc 0).pid 1 1 :=
      exists_reach_of_any [.schedule, .call 0 .createContainer, .call 0 (.fork true true),
        .schedule, .call 1 (.joinContainer 1), .call 1 .exit, .call 0 .wait] (by decide +kernel)
    exact ⟨s, hs, hcur, hnone, Locked.sysDestroyContainer_panics rfl (by decide) (by decide)
      (by decide : 1 < NPROC) hstruck⟩

end Kernel
end Xv6
