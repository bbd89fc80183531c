/-
# Who is killed

`kill` (`xv6/proc.c`, lines 690-708) marks the first slot with the pid it is
given, whatever the state of that slot, and `allocproc` and `fork` do not clear
the mark.  A slot that `wait` has freed has pid 0; one that a `fork` without
memory has freed keeps the pid it was given.  A `kill` of such a pid returns 0,
and the mark it leaves in the free slot is inherited by the next process made
there; so is the mark of a process killed while it is made, if the `fork` then
fails.  In runs without these two, `kill` returns 0 for processes only, and a
new process is marked only if `kill` was called with its own pid.
-/

import Xv6.Kernel.Stages

namespace Xv6
namespace Kernel
namespace Life

open Lib PTable

variable {s s' : State} {e : Event} {cur np : ℕ} {slept : Option ℕ} {pid : ℤ}

/-- A free slot has the pid. -/
def Stale (t : PTable) (pid : ℤ) : Prop :=
  ∃ i < NPROC, (t.proc i).state = .unused ∧ ((t.proc i).pid : ℤ) = pid

instance (t : PTable) (pid : ℤ) : Decidable (Stale t pid) :=
  inferInstanceAs (Decidable (∃ i < NPROC, _))

/-- No `kill` has the pid of a free slot, and no `fork` runs out of memory after the slot it
makes has been marked. -/
def Aimed (s : State) : Event → Prop
  | .call _ (.kill pid) => ¬ Stale s.ptable pid
  | .call cur (.kstack false) | .call cur (.pgdir false) =>
      ∀ np ∈ (s.stage cur).making, (s.ptable.proc np).killed = false
  | _ => True

instance (s : State) (e : Event) : Decidable (Aimed s e) := by
  unfold Aimed
  split <;> infer_instance

/-- No free slot is marked, and a slot that is being made only if `kill` was called with its
pid since it was allocated. -/
structure Unhurt (s : State) : Prop where
  free : ∀ i, (s.ptable.proc i).state = .unused → (s.ptable.proc i).killed = false
  fresh : ∀ i, (s.ptable.proc i).state = .embryo → (s.ptable.proc i).killed = true →
    ((s.ptable.proc i).pid : ℤ) ∈ s.kills i

/-- The steps that only move processes and mark none. -/
theorem Unhurt.moves (h : Unhurt s) (hm : Moves slept s.ptable s'.ptable)
    (hkilled : ∀ i, (s'.ptable.proc i).killed = (s.ptable.proc i).killed)
    (hkills : s'.kills = s.kills) : Unhurt s' := by
  constructor
  · intro i hi
    rw [hkilled]
    exact h.free i ((hm.state_eq (.inr (by rw [hi]; decide))).symm.trans hi)
  · intro i hi
    rw [hkilled, hm.pid, hkills]
    exact h.fresh i ((hm.state_eq (.inr (by rw [hi]; decide))).symm.trans hi)

/-- Rewriting one slot that is not started. -/
theorem Unhurt.rewrite (h : Unhurt s) (hr : Rewrites np s s')
    (hkills : ∀ i, i ≠ np → s'.kills i = s.kills i)
    (hfree : (s'.ptable.proc np).state = .unused → (s'.ptable.proc np).killed = false)
    (hfresh : (s'.ptable.proc np).state = .embryo → (s'.ptable.proc np).killed = true →
      ((s'.ptable.proc np).pid : ℤ) ∈ s'.kills np) : Unhurt s' := by
  constructor <;> intro i <;> rcases eq_or_ne i np with rfl | hne
  · exact hfree
  · rw [hr.other i hne]
    exact h.free i
  · exact hfresh
  · rw [hr.other i hne, hkills i hne]
    exact h.fresh i

/-- What `kill` does when it finds no free slot. -/
theorem Unhurt.kill (h : Unhurt s) (haim : ¬ Stale s.ptable pid) :
    Unhurt { s with
      ptable := (s.ptable.kill pid).2
      kills := fun i => pid :: s.kills i } := by
  cases hslot : s.ptable.firstSlot fun p => p.pid == pid with
  | none =>
    have hkill : (s.ptable.kill pid).2 = s.ptable := by simp only [PTable.kill, hslot]
    constructor
    · intro i
      rw [hkill]
      exact h.free i
    · intro i hi hk
      rw [hkill] at hi hk ⊢
      exact List.mem_cons_of_mem _ (h.fresh i hi hk)
  | some m =>
    obtain ⟨hm, hpid⟩ := firstSlot_eq_some hslot
    have hpid : ((s.ptable.proc m).pid : ℤ) = pid := by simpa using hpid
    have hused : (s.ptable.proc m).state ≠ .unused := fun hfree => haim ⟨m, hm, hfree, hpid⟩
    have hkill : (s.ptable.kill pid).2 = s.ptable.modify m fun p =>
        { p with
          killed := true
          state := if p.state = .sleeping then .runnable else p.state } := by
      simp only [PTable.kill, hslot]
    constructor
    · intro i hi
      rw [hkill] at hi ⊢
      rcases eq_or_ne i m with rfl | hne
      · rw [modify_proc_self] at hi
        split at hi
        · cases hi
        · exact absurd hi hused
      · rw [modify_proc_of_ne _ hne] at hi ⊢
        exact h.free i hi
    · intro i hi hk
      rw [hkill] at hi hk ⊢
      rcases eq_or_ne i m with rfl | hne
      · rw [modify_proc_self]
        exact List.mem_cons.2 (.inl hpid)
      · rw [modify_proc_of_ne _ hne] at hi hk ⊢
        exact List.mem_cons_of_mem _ (h.fresh i hi hk)

theorem Unhurt.exit {t : PTable} (h : Unhurt s) (hx : Exits cur s.ptable t) :
    Unhurt { s with ptable := t } := by
  have hback : ∀ i st, st ≠ .zombie → ¬ st.Able → (t.proc i).state = st →
      (s.ptable.proc i).state = st := by
    rintro i st hz hst rfl
    have hne : i ≠ cur := by
      rintro rfl
      exact hz hx.dead
    exact (hx.state_eq hne (.inr hst)).symm
  constructor
  · intro i hi
    rw [hx.killed]
    exact h.free i (hback i _ (by decide) (by decide) hi)
  · intro i hi
    rw [hx.killed, hx.pid]
    exact h.fresh i (hback i _ (by decide) (by decide) hi)

/-! None of the other operations marks a process. -/

theorem killed_modify (t : PTable) (i : ℕ) {f : Proc → Proc} (hf : ∀ p, (f p).killed = p.killed)
    (j : ℕ) : ((t.modify i f).proc j).killed = (t.proc j).killed := by
  rw [modify_proc]
  split
  · next hj => rw [hf, hj]
  · rfl

theorem killed_sleep (t : PTable) (cur : ℕ) (chan : Chan) (i : ℕ) :
    ((t.sleep cur chan).proc i).killed = (t.proc i).killed := by
  unfold PTable.sleep
  refine killed_modify t cur ?_ i
  exact fun _ => rfl

theorem killed_yield (t : PTable) (cur i : ℕ) :
    ((t.yield cur).proc i).killed = (t.proc i).killed := by
  unfold PTable.yield
  refine killed_modify t cur ?_ i
  exact fun _ => rfl

theorem killed_dispatch (t : PTable) (cur i : ℕ) :
    ((t.dispatch cur).proc i).killed = (t.proc i).killed := by
  unfold PTable.dispatch
  refine killed_modify t cur ?_ i
  exact fun _ => rfl

theorem killed_wakeup1 (t : PTable) (chan : Chan) (i : ℕ) :
    ((t.wakeup1 chan).proc i).killed = (t.proc i).killed := by
  simp only [wakeup1]
  split <;> rfl

/-- **A step that is aimed marks no free slot.** -/
theorem Unhurt.step (h : Unhurt s) (hst : Staged s) (haim : Aimed s e) (hs : Shape s s' e) :
    Unhurt s' := by
  cases hs with
  | full hs' => exact hs' ▸ h
  | @claim cur np hcur hstage hnp hfree hs' =>
    subst hs'
    have hkilled : ((Life.claim s cur np).ptable.proc np).killed = false := by
      simpa [Life.claim] using h.free np hfree
    refine h.rewrite (rewrites_claim hfree) ?_ (fun _ => hkilled) ?_
    · intro i hi
      simp [Life.claim, hi]
    · intro _ hk
      rw [hkilled] at hk
      cases hk
  | @discard cur c np hcur hc hstage hs' =>
    subst hs'
    have hunmarked : (s.ptable.proc np).killed = false := by
      rcases hc with rfl | rfl <;> exact haim np hstage
    refine h.rewrite (rewrites_modify (embryo_not_able (hst.embryo _ np hstage)) rfl rfl)
      (fun _ _ => rfl) ?_ ?_
    · intro _
      simpa [Life.discard] using hunmarked
    · intro hembryo
      simp [Life.discard] at hembryo
  | @stack cur np hcur hstage hs' | @copy cur np hcur hstage hs' =>
    subst hs'
    have hemb := hst.embryo cur np (by rw [hstage]; rfl)
    refine h.rewrite (rewrites_modify (embryo_not_able hemb) rfl rfl) (fun _ _ => rfl) ?_ ?_
    · intro hunused
      simp [hemb] at hunused
    · intro _ hk
      simpa [State.goto] using h.fresh np hemb (by simpa using hk)
  | @start cur np hcur hstage hs' =>
    subst hs'
    have hemb := hst.embryo cur np (by rw [hstage]; rfl)
    refine h.rewrite (rewrites_modify (embryo_not_able hemb) rfl rfl) (fun _ _ => rfl) ?_ ?_
    · intro hunused
      simp at hunused
    · intro hembryo
      simp at hembryo
  | exit t hcur hstage ht hs' => exact hs' ▸ h.exit (exits_of_exit ht)
  | reap i hcur hi hparent hzombie hs' =>
    subst hs'
    refine h.rewrite (rewrites_modify (by rw [hzombie]; decide) rfl rfl) (fun _ _ => rfl) ?_ ?_
    · intro _
      simp
    · intro hembryo
      simp at hembryo
  | giveUp hcur hs' => exact hs' ▸ h.moves Moves.refl (fun _ => rfl) rfl
  | await hcur hnone hs' | sleep a hcur hstage hs' =>
    exact hs' ▸ h.moves (moves_sleep hcur.2 _) (killed_sleep _ _ _) rfl
  | kill pid hcur hs' => exact hs' ▸ h.kill haim
  | yield hcur hs' =>
    exact hs' ▸ h.moves (moves_yield hcur.2) (killed_yield _ _) rfl
  | wakeup chan hs' => exact hs' ▸ h.moves (moves_wakeup1 _ chan) (killed_wakeup1 _ chan) rfl
  | dispatch i hi hs' =>
    exact hs' ▸ h.moves (moves_dispatch hi) (killed_dispatch _ _) rfl

theorem unhurt_boot : Unhurt boot where
  free i _ := by
    rcases eq_or_ne i 0 with rfl | hi
    · rfl
    · simp [boot, PTable.userinit, hi, Proc.zero]
  fresh i hi := by
    rcases eq_or_ne i 0 with rfl | hne
    · cases hi
    · simp [boot, PTable.userinit, hne, Proc.zero] at hi

/-- `kill` returns 0 exactly if some slot has the pid. -/
theorem kill_eq_zero {t : PTable} :
    (t.kill pid).1 = 0 ↔ ∃ i < NPROC, ((t.proc i).pid : ℤ) = pid := by
  unfold PTable.kill
  split
  next hslot =>
    constructor
    · exact fun h => absurd h (by simp)
    · rintro ⟨i, hi, hpid⟩
      have hno := firstSlot_eq_none hslot hi
      simp [hpid] at hno
  next i hslot =>
    obtain ⟨hi, hpid⟩ := firstSlot_eq_some hslot
    exact ⟨fun _ => ⟨i, hi, by simpa using hpid⟩, fun _ => rfl⟩

/-- A pid that a free slot has is the pid of no process, as no pid is given out twice. -/
theorem Numbered.not_live_of_stale (h : Numbered s) (hstale : Stale s.ptable pid) :
    ¬ ∃ i < NPROC, (s.ptable.proc i).state ≠ .unused ∧ ((s.ptable.proc i).pid : ℤ) = pid := by
  obtain ⟨i, hi, hfree, hpid⟩ := hstale
  rintro ⟨j, hj, hlive, hpid'⟩
  have heq : (s.ptable.proc j).pid = (s.ptable.proc i).pid := by
    rw [← hpid] at hpid'
    exact_mod_cast hpid'
  obtain rfl := h.inj j i (h.pos j hlive) heq
  exact hlive hfree

/-- The end of `fork` makes the slot `RUNNABLE` as it is. -/
theorem runnable_step (hstage : s.stage cur = .copied np)
    (hstep : step s (.call cur .runnable) = some s') :
    s'.ptable.proc np = { s.ptable.proc np with state := .runnable } := by
  cases step_shape hstep with
  | discard np' hcur hc => rcases hc with hc | hc <;> cases hc
  | start np' hcur hstage' hs' =>
    obtain rfl : np = np' := Stage.copied.inj (hstage.symm.trans hstage')
    rw [hs']
    simp

theorem invariants_of_aimed (h : Reach step Aimed boot s) : Staged s ∧ Numbered s ∧ Unhurt s := by
  refine h.invariant (I := fun s => Staged s ∧ Numbered s ∧ Unhurt s)
    ⟨staged_boot, numbered_boot, unhurt_boot⟩ ?_
  rintro x e y ⟨hst, hnum, hun⟩ haim hstep
  have hs := step_shape hstep
  exact ⟨hst.step hs, hnum.step hst hs, hun.step hst haim hs⟩

/-- **`kill` reaches processes, and new processes start unmarked.**  In every state that is
reached by steps that are aimed: `kill` returns 0 for processes only, exactly for the pids no
free slot has; and a process that a `fork` makes `RUNNABLE` is marked only if `kill` was called
with its pid since it was allocated. -/
theorem kill_reaches_processes (h : Reach step Aimed boot s) :
    (∀ pid : ℤ, ((s.ptable.kill pid).1 = 0 →
        ∃ i < NPROC, (s.ptable.proc i).state ≠ .unused ∧ ((s.ptable.proc i).pid : ℤ) = pid) ↔
      ¬ Stale s.ptable pid) ∧
    ∀ cur np s', s.stage cur = .copied np → step s (.call cur .runnable) = some s' →
      (s'.ptable.proc np).state = .runnable ∧
      ((s'.ptable.proc np).killed = true → ((s'.ptable.proc np).pid : ℤ) ∈ s.kills np) := by
  obtain ⟨hst, hnum, hun⟩ := invariants_of_aimed h
  refine ⟨fun pid => ⟨fun hkill hstale => ?_, fun haim hzero => ?_⟩, ?_⟩
  · refine hnum.not_live_of_stale hstale (hkill (kill_eq_zero.2 ?_))
    obtain ⟨i, hi, -, hpid⟩ := hstale
    exact ⟨i, hi, hpid⟩
  · obtain ⟨i, hi, hpid⟩ := kill_eq_zero.1 hzero
    exact ⟨i, hi, fun hfree => haim ⟨i, hi, hfree, hpid⟩, hpid⟩
  · intro cur np s' hstage hstep
    have hemb := hst.embryo cur np (by rw [hstage]; rfl)
    rw [runnable_step hstage hstep]
    exact ⟨rfl, hun.fresh np hemb⟩

/-- The first process makes a child, which is killed by another process before it runs. -/
theorem kill_reaches_processes_two : ∃ s s', Reach step Aimed boot s ∧ s.stage 0 = .copied 2 ∧
    s.kills 2 = [3] ∧ step s (.call 0 .runnable) = some s' ∧
    (s'.ptable.proc 2).state = .runnable ∧
    ((s'.ptable.proc 2).killed = true → ((s'.ptable.proc 2).pid : ℤ) ∈ s.kills 2) := by
  have hrun : ∃ s, Reach step Aimed boot s ∧ s.stage 0 = .copied 2 ∧ s.kills 2 = [3] ∧
      (step s (.call 0 .runnable)).isSome = true :=
    exists_reach_of_any
      [.dispatch 0, .call 0 .fork, .call 0 (.kstack true), .call 0 (.pgdir true),
        .call 0 .runnable, .dispatch 1, .call 0 .fork, .call 0 (.kstack true),
        .call 1 (.kill 3), .call 0 (.pgdir true)] (by decide +kernel)
  obtain ⟨s, hreach, hstage, hkills, hsome⟩ := hrun
  obtain ⟨s', hstep⟩ := Option.isSome_iff_exists.1 hsome
  have hfresh := (kill_reaches_processes hreach).2 0 2 s' hstage hstep
  exact ⟨s, s', hreach, hstage, hkills, hstep, hfresh⟩

/-- Nothing has pid 0, but `kill` of it returns 0, and the next process is marked when it
becomes `RUNNABLE`, although `kill` was not called since it was allocated. -/
theorem kill_marks_free_slot : ∃ s s', Reach step anyStep boot s ∧ Reach step anyStep s s' ∧
    (s.ptable.kill 0).1 = 0 ∧
    (∀ i < NPROC, (s.ptable.proc i).state ≠ .unused → (s.ptable.proc i).pid ≠ 0) ∧
    (s'.ptable.proc 1).state = .runnable ∧ (s'.ptable.proc 1).killed = true ∧
    s'.kills 1 = [] :=
  exists_reach_reach_of_any [.dispatch 0]
    [.call 0 (.kill 0), .call 0 .fork, .call 0 (.kstack true), .call 0 (.pgdir true),
      .call 0 .runnable] (by decide +kernel)

end Life
end Kernel
end Xv6
