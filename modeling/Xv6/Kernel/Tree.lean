/-
# The process tree and its reaping

`exit` hands the children of its caller to `initproc` and `wait` reaps a zombie
child or sleeps (`xv6/proc.c`, lines 306-391).  `Family` is the invariant: every
started process but `initproc` has a parent that has not exited, and no process
sleeps in `wait` while it has a zombie child.  It holds in every state that any
interleaving of the parts of `fork` with `exit`, `wait`, `kill`, `sleep`,
`wakeup` and the scheduler reaches; with it, `process_tree` says that a pid is
returned by one `wait` at most, made by the parent.
-/

import Xv6.Kernel.Stages

namespace Xv6
namespace Kernel
namespace Life

open Lib PTable Function

variable {s s' : State} {e : Event} {cur np : ℕ} {slept : Option ℕ}

/-- Every started process but the first has a parent that has not exited, and nobody sleeps
in `wait` while one of its children is a zombie. -/
structure Family (s : State) : Prop where
  init_lt : s.ptable.initproc < NPROC
  root : (s.ptable.proc s.ptable.initproc).parent = none
  kin : ∀ i < NPROC, i ≠ s.ptable.initproc → (s.ptable.proc i).state ≠ .unused →
    (s.ptable.proc i).state ≠ .embryo →
    ∃ j < NPROC, j ≠ i ∧ (s.ptable.proc i).parent = some j ∧ (s.ptable.proc j).state.Able
  copied : ∀ c np, s.stage c = .copied np → (s.ptable.proc np).parent = some c
  asleep : ∀ c, s.stage c = .waiting → (s.ptable.proc c).state = .sleeping →
    (s.ptable.proc c).chan = .slot c
  heard : ∀ i < NPROC, ∀ j, (s.ptable.proc i).state = .zombie →
    (s.ptable.proc i).parent = some j → s.stage j = .waiting →
    (s.ptable.proc j).state ≠ .sleeping

/-- The steps that only move processes; one that goes to sleep in `wait` does so on its own
slot and has no zombie child. -/
theorem Family.moves (h : Family s) (hm : Moves slept s.ptable s'.ptable)
    (hcopied : ∀ c m, s'.stage c = .copied m → s.stage c = .copied m)
    (hwait : ∀ c, slept ≠ some c → s'.stage c = .waiting → s.stage c = .waiting)
    (hslept : ∀ c, slept = some c → s'.stage c = .waiting →
      (s'.ptable.proc c).chan = .slot c ∧ ∀ i < NPROC, (s.ptable.proc i).parent = some c →
        (s.ptable.proc i).state ≠ .zombie) : Family s' := by
  refine ⟨by rw [hm.initproc]; exact h.init_lt, by rw [hm.initproc, hm.parent]; exact h.root,
    ?_, ?_, ?_, ?_⟩
  · intro i hi hinit hunused hembryo
    rw [hm.initproc] at hinit
    -- a process that is not started is in the state it was in
    have hstill : ∀ st, ¬ st.Able → (s.ptable.proc i).state = st → (s'.ptable.proc i).state = st := by
      rintro st hst rfl
      exact hm.state_eq (.inl hst)
    obtain ⟨j, hj, hne, hparent, hable⟩ := h.kin i hi hinit
      (fun heq => hunused (hstill _ (by decide) heq))
      (fun heq => hembryo (hstill _ (by decide) heq))
    exact ⟨j, hj, hne, by rw [hm.parent, hparent], hm.able hable⟩
  · intro c m hc
    rw [hm.parent]
    exact h.copied c m (hcopied c m hc)
  · intro c hc hsleep
    by_cases hcs : slept = some c
    · exact (hslept c hcs hc).1
    · obtain ⟨hsleep', hchan⟩ := hm.asleep c hcs hsleep
      rw [hchan]
      exact h.asleep c (hwait c hcs hc) hsleep'
  · intro i hi j hz hparent hj hsleep
    rw [hm.parent] at hparent
    have hz' := (hm.state_eq (.inr (by rw [hz]; decide))).symm.trans hz
    by_cases hjs : slept = some j
    · exact (hslept j hjs hj).2 i hi hparent hz'
    · exact h.heard i hi j hz' hparent (hwait j hjs hj) (hm.asleep j hjs hsleep).1

/-- Rewriting one slot that is not started: if it is started now, it has a parent, and it
is no zombie now. -/
theorem Family.rewrite {g : Stage} (h : Family s) (hst : Staged s) (hr : Rewrites np s s')
    (hstage : s'.stage = update s.stage cur g) (hg : g ≠ .waiting)
    (hsole : ∀ c, c ≠ cur → (s.stage c).making ≠ some np)
    (hkin : (s'.ptable.proc np).state ≠ .unused → (s'.ptable.proc np).state ≠ .embryo →
      ∃ j < NPROC, j ≠ np ∧ (s'.ptable.proc np).parent = some j ∧ (s.ptable.proc j).state.Able)
    (hzombie : (s'.ptable.proc np).state ≠ .zombie)
    (hcopied : ∀ m, g = .copied m → (s'.ptable.proc m).parent = some cur) : Family s' := by
  have hwait : ∀ c, s'.stage c = .waiting → s.stage c = .waiting := by
    intro c hc
    rw [hstage] at hc
    rcases eq_or_ne c cur with rfl | hne
    · rw [update_self] at hc
      exact absurd hc hg
    · rwa [update_of_ne hne] at hc
  have hable : ∀ j, (s.ptable.proc j).state.Able → j ≠ np := by
    rintro j hj rfl
    exact hr.idle hj
  have hwaiting : ∀ c, s'.stage c = .waiting → s'.ptable.proc c = s.ptable.proc c := by
    intro c hc
    refine hr.other c (hable c (hst.able c ?_))
    rw [hwait c hc]
    exact nofun
  have hinit : s'.ptable.proc s.ptable.initproc = s.ptable.proc s.ptable.initproc :=
    hr.other _ (hable _ hst.init)
  refine ⟨by rw [hr.initproc]; exact h.init_lt, by rw [hr.initproc, hinit]; exact h.root,
    ?_, ?_, ?_, ?_⟩
  · intro i hi hne hunused hembryo
    rw [hr.initproc] at hne
    rcases eq_or_ne i np with rfl | hin
    · obtain ⟨j, hj, hji, hparent, hj'⟩ := hkin hunused hembryo
      exact ⟨j, hj, hji, hparent, by rw [hr.other j hji]; exact hj'⟩
    · rw [hr.other i hin] at hunused hembryo ⊢
      obtain ⟨j, hj, hji, hparent, hj'⟩ := h.kin i hi hne hunused hembryo
      exact ⟨j, hj, hji, hparent, by rw [hr.other j (hable j hj')]; exact hj'⟩
  · intro c m hc
    rw [hstage] at hc
    rcases eq_or_ne c cur with rfl | hne
    · rw [update_self] at hc
      exact hcopied m hc
    · rw [update_of_ne hne] at hc
      rw [hr.other m (by rintro rfl; exact hsole c hne (by rw [hc]; rfl))]
      exact h.copied c m hc
  · intro c hc hsleep
    rw [hwaiting c hc] at hsleep ⊢
    exact h.asleep c (hwait c hc) hsleep
  · intro i hi j hz hparent hj
    rw [hwaiting j hj]
    have hin : i ≠ np := by
      rintro rfl
      exact hzombie hz
    rw [hr.other i hin] at hz hparent
    exact h.heard i hi j hz hparent (hwait j hj)

/-- **`exit` leaves no orphan and no unheard zombie.** -/
theorem Family.exit {t : PTable} (h : Family s) (hst : Staged s) (hcur : Running s cur)
    (hstage : s.stage cur = .user) (hx : Exits cur s.ptable t) :
    Family { s with ptable := t } := by
  -- who sleeps now has slept all the time
  have hsleep : ∀ j, (t.proc j).state = .sleeping → (s.ptable.proc j).state = .sleeping := by
    intro j hj
    have hne : j ≠ cur := by
      rintro rfl
      rw [hx.dead] at hj
      cases hj
    rcases hx.state j hne with heq | ⟨hs, -⟩
    · rw [← heq, hj]
    · exact hs
  have hheir : ∀ i, (s.ptable.proc i).parent ≠ some cur → s.ptable.heir cur i =
      (s.ptable.proc i).parent := fun i hi => if_neg hi
  -- the caller's own parent is another process
  obtain ⟨p, hp, hpne, hparent, hpable⟩ := h.kin cur hcur.1 hx.init hcur.able.ne_unused
    hcur.able.ne_embryo
  have hcurheir : s.ptable.heir cur cur = some p := by
    rw [hheir cur, hparent]
    rw [hparent]
    exact fun heq => hpne (Option.some.inj heq)
  refine ⟨by dsimp only; rw [hx.initproc]; exact h.init_lt, ?_, ?_, ?_, ?_, ?_⟩
  · dsimp only
    rw [hx.initproc, hx.parent _ h.init_lt, hheir _ (by rw [h.root]; exact nofun)]
    exact h.root
  · intro i hi hinit hunused hembryo
    rw [hx.initproc] at hinit
    rw [hx.parent i hi]
    rcases eq_or_ne i cur with rfl | hne
    · exact ⟨p, hp, hpne, hcurheir, hx.able hpne hpable⟩
    · have hstill : ∀ st, ¬ st.Able → (s.ptable.proc i).state = st → (t.proc i).state = st := by
        rintro st hst rfl
        exact hx.state_eq hne (.inl hst)
      obtain ⟨j, hj, hji, hpi, hjable⟩ := h.kin i hi hinit
        (fun heq => hunused (hstill _ (by decide) heq))
        (fun heq => hembryo (hstill _ (by decide) heq))
      rcases eq_or_ne j cur with rfl | hjc
      · -- an abandoned child goes to `initproc`
        exact ⟨s.ptable.initproc, h.init_lt, hinit.symm, if_pos hpi,
          hx.able hx.init.symm hst.init⟩
      · refine ⟨j, hj, hji, ?_, hx.able hjc hjable⟩
        rw [hheir i (by rw [hpi]; exact fun heq => hjc (Option.some.inj heq)), hpi]
  · intro c m hc
    have hm := h.copied c m hc
    have hne : (s.ptable.proc m).parent ≠ some cur := by
      rw [hm]
      rintro ⟨⟩
      rw [hstage] at hc
      cases hc
    rcases Nat.lt_or_ge m NPROC with hlt | hge
    · exact (hx.parent m hlt).trans ((hheir m hne).trans hm)
    · exact (hx.beyond m hge).trans hm
  · intro c hc hs
    rw [hx.chan]
    exact h.asleep c hc (hsleep c hs)
  · intro i hi j hz hpj hj hs
    rw [hx.parent i hi] at hpj
    have hchan := h.asleep j hj (hsleep j hs)
    rcases eq_or_ne i cur with rfl | hne
    · -- the new zombie's parent has been woken
      obtain rfl : p = j := Option.some.inj (hcurheir.symm.trans hpj)
      refine hx.parent_woken p hs ?_
      rw [hchan, hparent]
      rfl
    · have hz' := (hx.state_eq hne (.inr (by rw [hz]; decide))).symm.trans hz
      by_cases hchild : (s.ptable.proc i).parent = some cur
      · -- an inherited zombie has woken `initproc`
        obtain rfl : s.ptable.initproc = j := by
          rw [PTable.heir, if_pos hchild] at hpj
          exact Option.some.inj hpj
        exact hx.init_woken i hi hz' hchild _ hs hchan
      · rw [hheir i hchild] at hpj
        exact h.heard i hi j hz' hpj hj (hsleep j hs)

/-- **The family stays whole in every step.** -/
theorem Family.step (h : Family s) (hst : Staged s) (hs : Shape s s' e) : Family s' := by
  have hs₀ := hs
  cases hs with
  | full hs' => exact hs' ▸ h
  | claim np hcur hstage hnp hfree hs' =>
    subst hs'
    refine h.rewrite hst (rewrites_claim hfree) rfl (by simp) (fun c _ => hst.unmade hfree c)
      ?_ ?_ (by simp)
    · intro _ hembryo
      exact absurd (by simp [Life.claim]) hembryo
    · simp [Life.claim]
  | discard np hcur hc hstage hs' =>
    subst hs'
    have hidle := embryo_not_able (hst.embryo _ np hstage)
    refine h.rewrite hst (rewrites_modify hidle rfl rfl) rfl (by simp) (hst.sole hstage)
      ?_ ?_ (by simp)
    · intro hunused
      exact absurd (by simp [Life.discard]) hunused
    · simp [Life.discard]
  | @stack cur np hcur hstage hs' =>
    subst hs'
    have hmk : (s.stage cur).making = some np := by rw [hstage]; rfl
    have hemb := hst.embryo cur np hmk
    refine h.rewrite hst (rewrites_modify (embryo_not_able hemb) rfl rfl) rfl (by simp)
      (hst.sole hmk) ?_ ?_ (by simp)
    · intro _ hembryo
      exact absurd (by simp [hemb]) hembryo
    · simp [hemb]
  | @copy cur np hcur hstage hs' =>
    subst hs'
    have hmk : (s.stage cur).making = some np := by rw [hstage]; rfl
    have hemb := hst.embryo cur np hmk
    refine h.rewrite hst (rewrites_modify (embryo_not_able hemb) rfl rfl) rfl (by simp)
      (hst.sole hmk) ?_ ?_ ?_
    · intro _ hembryo
      exact absurd (by simp [hemb]) hembryo
    · simp [hemb]
    · intro m hm
      obtain rfl : np = m := Stage.copied.inj hm
      simp
  | @start cur np hcur hstage hs' =>
    subst hs'
    have hmk : (s.stage cur).making = some np := by rw [hstage]; rfl
    have hidle := embryo_not_able (hst.embryo cur np hmk)
    refine h.rewrite hst (rewrites_modify hidle rfl rfl) rfl (by simp) (hst.sole hmk)
      ?_ ?_ (by simp)
    · -- the parent is the process that is in `fork`
      intro _ _
      refine ⟨cur, hcur.1, ?_, ?_, hcur.able⟩
      · rintro rfl
        exact hidle hcur.able
      · simpa using h.copied cur np hstage
    · simp
  | exit t hcur hstage ht hs' =>
    subst hs'
    exact h.exit hst hcur hstage (exits_of_exit ht)
  | reap i hcur hi hparent hzombie hs' =>
    subst hs'
    have hidle : ¬ (s.ptable.proc i).state.Able := by
      rw [hzombie]
      decide
    refine h.rewrite hst (rewrites_modify hidle rfl rfl) rfl (by simp) ?_ ?_ ?_
      (by simp)
    · intro c _ hc
      rw [hst.embryo c i hc] at hzombie
      cases hzombie
    · intro hunused
      exact absurd (by simp) hunused
    · simp
  | @giveUp cur hcur hs' =>
    subst hs'
    have hm : Moves none s.ptable (s.goto cur .user).ptable := Moves.refl
    exact h.moves hm (fun c m => stage_of_goto (by simp)) (fun c _ => stage_of_goto (by simp)) (by simp)
  | @await cur hcur hnone hs' =>
    subst hs'
    refine h.moves (moves_sleep hcur.2 _) (fun c m => stage_of_goto (by simp)) ?_ ?_
    · intro c hsl hc
      have hne : c ≠ cur := fun heq => hsl (by rw [heq])
      simpa [State.goto, hne] using hc
    · intro c hsl _
      obtain rfl : cur = c := Option.some.inj hsl
      exact ⟨by simp [PTable.sleep], hnone⟩
  | _ =>
    obtain ⟨slept, hm, hstage, -, huser⟩ := hs₀.plain trivial
    refine h.moves hm (fun c m hc => hstage ▸ hc) (fun c _ hc => hstage ▸ hc) fun c hc hw => ?_
    rw [hstage, huser c hc] at hw
    cases hw

theorem family_boot : Family boot where
  init_lt := by decide
  root := rfl
  kin i hi hinit hunused _ := by
    have hne : i ≠ 0 := hinit
    simp [boot, PTable.userinit, hne, Proc.zero] at hunused
  copied c np hc := (nomatch hc)
  asleep c hc := (nomatch hc)
  heard i hi j _ _ hj := (nomatch hj)

/-! ### Every run -/

/-- The three invariants in every state that is reached. -/
theorem invariants_of_reach (h : Reach step anyStep boot s) :
    Staged s ∧ Numbered s ∧ Family s := by
  refine h.invariant (I := fun s => Staged s ∧ Numbered s ∧ Family s)
    ⟨staged_boot, numbered_boot, family_boot⟩ ?_
  rintro x e y ⟨hst, hnum, hfam⟩ _ hstep
  have hs := step_shape hstep
  exact ⟨hst.step hs, hnum.step hst hs, hfam.step hst hs⟩

/-- `wait` alone returns pids, each that of a zombie child of its caller. -/
theorem reaped_step (hs : Shape s s' e) :
    s'.reaped = s.reaped ∨ ∃ cur i, e = .call cur .wait ∧ i < NPROC ∧
      (s.ptable.proc i).state = .zombie ∧ (s.ptable.proc i).parent = some cur ∧
      s'.reaped = (cur, (s.ptable.proc i).pid) :: s.reaped := by
  cases hs with
  | @reap cur i hcur hi hparent hzombie hs' =>
    right
    refine ⟨cur, i, rfl, hi, hzombie, hparent, ?_⟩
    rw [hs']
  | _ =>
    subst_vars
    exact .inl rfl

/-- **The process tree.**  In every state that is reached, a started process other than
`initproc` has a parent that is neither free nor a zombie; nobody sleeps in `wait` while one
of its children is a zombie; no pid has been returned by two calls of `wait`; and the next
step returns a pid only to the `wait` of the current parent of a zombie that has it. -/
theorem process_tree (h : Reach step anyStep boot s) :
    (∀ i < NPROC, i ≠ s.ptable.initproc → (s.ptable.proc i).state ≠ .unused →
      (s.ptable.proc i).state ≠ .embryo →
      ∃ j < NPROC, (s.ptable.proc i).parent = some j ∧ (s.ptable.proc j).state ≠ .unused ∧
        (s.ptable.proc j).state ≠ .zombie) ∧
    (∀ i < NPROC, ∀ j, s.stage j = .waiting → (s.ptable.proc j).state = .sleeping →
      (s.ptable.proc i).parent = some j → (s.ptable.proc i).state ≠ .zombie) ∧
    (s.reaped.map Prod.snd).Nodup ∧
    ∀ e s', step s e = some s' → s'.reaped = s.reaped ∨
      ∃ cur i, e = .call cur .wait ∧ i < NPROC ∧ (s.ptable.proc i).state = .zombie ∧
        (s.ptable.proc i).parent = some cur ∧
        s'.reaped = (cur, (s.ptable.proc i).pid) :: s.reaped := by
  obtain ⟨-, hnum, hfam⟩ := invariants_of_reach h
  refine ⟨?_, ?_, hnum.nodup, fun e s' hstep => reaped_step (step_shape hstep)⟩
  · intro i hi hinit hunused hembryo
    obtain ⟨j, hj, -, hparent, hable⟩ := hfam.kin i hi hinit hunused hembryo
    exact ⟨j, hj, hparent, hable.ne_unused, hable.ne_zombie⟩
  · intro i hi j hj hsleep hparent hz
    exact hfam.heard i hi j hz hparent hj hsleep

/-- The first process waits, its child `2` leaves a child `3` behind, and both are reaped by
the first process, to which `3` was handed. -/
theorem process_tree_orphan : ∃ s, Reach step anyStep boot s ∧ s.reaped = [(0, 3), (0, 2)] ∧
    (s.reaped.map Prod.snd).Nodup := by
  have hrun : ∃ s, Reach step anyStep boot s ∧ s.reaped = [(0, 3), (0, 2)] :=
    exists_reach_of_any
      [.dispatch 0, .call 0 .fork, .call 0 (.kstack true), .call 0 (.pgdir true),
        .call 0 .runnable, .dispatch 1, .call 1 .fork, .call 1 (.kstack true),
        .call 1 (.pgdir true), .call 1 .runnable, .dispatch 2, .call 0 .wait, .call 1 .exit,
        .call 2 .exit, .dispatch 0, .call 0 .wait, .call 0 .wait] (by decide +kernel)
  obtain ⟨s, hreach, hreaped⟩ := hrun
  exact ⟨s, hreach, hreaped, (process_tree hreach).2.2.1⟩

end Life
end Kernel
end Xv6
