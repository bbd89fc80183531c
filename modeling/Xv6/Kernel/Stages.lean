/-
# Stages and pids

Two invariants of the life of processes at the granularity of `ptable.lock`,
for every interleaving of the parts of `fork` with `exit`, `wait`, `kill`,
`sleep`, `wakeup` and the scheduler:

* `Staged`: a slot that some `fork` is making is `EMBRYO` and made by one
  process only, and whoever is inside `fork` or `wait` has not exited;
* `Numbered`: no two slots have the same pid, and no pid that `wait` has
  returned is in the table.

Each has a lemma for the steps that only move processes between their states
and one for the steps that rewrite one slot that is not started; `exit` is the
third kind.
-/

import Xv6.Kernel.Handover
import Xv6.Kernel.Lifecycle

namespace Xv6
namespace Kernel
namespace Life

open Lib PTable Function

variable {s s' : State} {e : Event} {cur np : ℕ} {slept : Option ℕ}

/-- Every slot but one is as it was, and that one was not started. -/
structure Rewrites (np : ℕ) (s s' : State) : Prop where
  initproc : s'.ptable.initproc = s.ptable.initproc
  idle : ¬ (s.ptable.proc np).state.Able
  other : ∀ i, i ≠ np → s'.ptable.proc i = s.ptable.proc i

theorem rewrites_modify {f : Proc → Proc} (h : ¬ (s.ptable.proc np).state.Able)
    (ht : s'.ptable.proc = (s.ptable.modify np f).proc)
    (hinit : s'.ptable.initproc = s.ptable.initproc) : Rewrites np s s' where
  initproc := hinit
  idle := h
  other i hi := by rw [ht, modify_proc_of_ne _ hi]

theorem rewrites_claim (h : (s.ptable.proc np).state = .unused) :
    Rewrites np s (claim s cur np) :=
  rewrites_modify (f := fun p => { p with state := .embryo, pid := s.ptable.nextpid })
    (by rw [h]; decide) rfl rfl

/-! ### Stages -/

/-- The stages fit the states. -/
structure Staged (s : State) : Prop where
  init : (s.ptable.proc s.ptable.initproc).state.Able
  embryo : ∀ c np, (s.stage c).making = some np → (s.ptable.proc np).state = .embryo
  able : ∀ c, s.stage c ≠ .user → (s.ptable.proc c).state.Able
  inj : ∀ c c' np, (s.stage c).making = some np → (s.stage c').making = some np → c = c'

theorem embryo_not_able {p : Proc} (h : p.state = .embryo) : ¬ p.state.Able := by
  rw [h]
  decide

theorem Running.able (h : Running s cur) : (s.ptable.proc cur).state.Able := .inr (.inr h.2)

theorem Staged.moves (h : Staged s) (hm : Moves slept s.ptable s'.ptable)
    (hmaking : ∀ c np, (s'.stage c).making = some np → (s.stage c).making = some np)
    (hstage : ∀ c, s'.stage c ≠ .user → (s.ptable.proc c).state.Able) : Staged s' where
  init := by
    rw [hm.initproc]
    exact hm.able h.init
  embryo c np hc := by
    have hemb := h.embryo c np (hmaking c np hc)
    exact (hm.state_eq (.inl (embryo_not_able hemb))).trans hemb
  able c hc := hm.able (hstage c hc)
  inj c c' np hc hc' := h.inj c c' np (hmaking c np hc) (hmaking c' np hc')

/-- The process that takes the step goes to another stage, and one slot is rewritten. -/
theorem Staged.rewrite {g : Stage} (h : Staged s) (hcur : Running s cur)
    (hr : Rewrites np s s') (hstage : s'.stage = update s.stage cur g)
    (hkept : (s'.ptable.proc np).state = .embryo ∨ ∀ c, c ≠ cur → (s.stage c).making ≠ some np)
    (hnew : ∀ m, g.making = some m → (s'.ptable.proc m).state = .embryo ∧
      ∀ c, c ≠ cur → (s.stage c).making ≠ some m) : Staged s' where
  init := by
    rw [hr.initproc, hr.other _ (by rintro rfl; exact hr.idle h.init)]
    exact h.init
  embryo c m hc := by
    rw [hstage] at hc
    rcases eq_or_ne c cur with rfl | hne
    · rw [update_self] at hc
      exact (hnew m hc).1
    · rw [update_of_ne hne] at hc
      rcases eq_or_ne m np with rfl | hm
      · exact hkept.resolve_right fun hfree => hfree c hne hc
      · rw [hr.other m hm]
        exact h.embryo c m hc
  able c hc := by
    rcases eq_or_ne c cur with rfl | hne
    · rw [hr.other c (by rintro rfl; exact hr.idle hcur.able)]
      exact hcur.able
    · rw [hstage, update_of_ne hne] at hc
      have hable := h.able c hc
      rw [hr.other c (by rintro rfl; exact hr.idle hable)]
      exact hable
  inj c c' m hc hc' := by
    rw [hstage] at hc hc'
    rcases eq_or_ne c cur with hcc | hne <;> rcases eq_or_ne c' cur with hcc' | hne'
    · rw [hcc, hcc']
    · rw [hcc, update_self] at hc
      rw [update_of_ne hne'] at hc'
      exact absurd hc' ((hnew m hc).2 c' hne')
    · rw [hcc', update_self] at hc'
      rw [update_of_ne hne] at hc
      exact absurd hc ((hnew m hc').2 c hne)
    · rw [update_of_ne hne] at hc
      rw [update_of_ne hne'] at hc'
      exact h.inj c c' m hc hc'

/-- Nobody makes a free slot. -/
theorem Staged.unmade (h : Staged s) (hfree : (s.ptable.proc np).state = .unused) (c : ℕ) :
    (s.stage c).making ≠ some np := by
  intro hc
  rw [h.embryo c np hc] at hfree
  cases hfree

/-- Nobody else makes the slot that a `fork` is making. -/
theorem Staged.sole (h : Staged s) (hmk : (s.stage cur).making = some np) :
    ∀ c, c ≠ cur → (s.stage c).making ≠ some np :=
  fun c hne hc => hne (h.inj c cur np hc hmk)

theorem Staged.exit {t : PTable} (h : Staged s) (hcur : Running s cur)
    (hstage : s.stage cur = .user) (hx : Exits cur s.ptable t) :
    Staged { s with ptable := t } := by
  refine ⟨?_, ?_, ?_, h.inj⟩
  · dsimp only
    rw [hx.initproc]
    exact hx.able hx.init.symm h.init
  · intro c m hc
    have hemb := h.embryo c m hc
    have hne : m ≠ cur := by
      rintro rfl
      exact embryo_not_able hemb hcur.able
    exact (hx.state_eq hne (.inl (embryo_not_able hemb))).trans hemb
  · intro c hc
    refine hx.able ?_ (h.able c hc)
    rintro rfl
    exact hc hstage

/-- The steps that leave the stages alone and only move processes. -/
def Event.Plain : Event → Prop
  | .call _ (.kill _) | .call _ (.sleep _) | .call _ .yield | .wakeup _ | .dispatch _ => True
  | _ => False

/-- Whoever goes to sleep in such a step is in no call of its own. -/
theorem Shape.plain (hs : Shape s s' e) (he : e.Plain) :
    ∃ slept, Moves slept s.ptable s'.ptable ∧ s'.stage = s.stage ∧ s'.reaped = s.reaped ∧
      ∀ c, slept = some c → s.stage c = .user := by
  cases hs with
  | kill pid hcur hs' => exact hs' ▸ ⟨none, moves_kill _ pid, rfl, rfl, nofun⟩
  | @sleep cur a hcur hstage hs' =>
    refine hs' ▸ ⟨some cur, moves_sleep hcur.2 _, rfl, rfl, fun c hc => ?_⟩
    exact Option.some.inj hc ▸ hstage
  | yield hcur hs' => exact hs' ▸ ⟨none, moves_yield hcur.2, rfl, rfl, nofun⟩
  | wakeup chan hs' => exact hs' ▸ ⟨none, moves_wakeup1 _ chan, rfl, rfl, nofun⟩
  | dispatch i hi hs' => exact hs' ▸ ⟨none, moves_dispatch hi, rfl, rfl, nofun⟩
  | discard np hcur hc => rcases hc with rfl | rfl <;> exact he.elim
  | _ => exact he.elim

/-- A stage that is not the one gone to was there before. -/
theorem stage_of_goto {g st : Stage} {c : ℕ} (hne : st ≠ g)
    (hc : (s.goto cur g).stage c = st) : s.stage c = st := by
  rcases eq_or_ne c cur with rfl | hcur
  · exact absurd (hc.symm.trans (update_self ..)) hne
  · exact (update_of_ne hcur ..).symm.trans hc

/-- In a stage in which nothing is made. -/
theorem Staged.goto {g : Stage} {t : PTable} (h : Staged s) (hcur : Running s cur)
    (hm : Moves slept s.ptable t) (hg : g.making = none) :
    Staged { s.goto cur g with ptable := t } := by
  refine h.moves hm (fun c m hc => ?_) fun c hc => ?_
  · have hne : (s.goto cur g).stage c ≠ g := fun heq => by
      rw [← heq] at hg
      exact absurd (hg.symm.trans hc) nofun
    rwa [← stage_of_goto hne rfl] at hc
  · rcases eq_or_ne c cur with rfl | hne
    · exact hcur.able
    · exact h.able c (by simpa [State.goto, hne] using hc)

/-- **The stages fit the states in every step.** -/
theorem Staged.step (h : Staged s) (hs : Shape s s' e) : Staged s' := by
  have hs₀ := hs
  cases hs with
  | full hs' => exact hs' ▸ h
  | claim np hcur hstage hnp hfree hs' =>
    subst hs'
    refine h.rewrite hcur (rewrites_claim hfree) rfl (.inr fun c _ => h.unmade hfree c) ?_
    intro m hm
    obtain rfl : np = m := Option.some.inj hm
    exact ⟨by simp [Life.claim], fun c _ => h.unmade hfree c⟩
  | discard np hcur hc hstage hs' =>
    subst hs'
    have hidle := embryo_not_able (h.embryo _ np hstage)
    exact h.rewrite hcur (rewrites_modify hidle rfl rfl) rfl (.inr (h.sole hstage))
      fun m hm => by cases hm
  | @stack cur np hcur hstage hs' | @copy cur np hcur hstage hs' =>
    subst hs'
    have hmk : (s.stage cur).making = some np := by rw [hstage]; rfl
    have hemb := h.embryo cur np hmk
    refine h.rewrite hcur (rewrites_modify (embryo_not_able hemb) rfl rfl) rfl
      (.inr (h.sole hmk)) ?_
    intro m hm
    obtain rfl : np = m := Option.some.inj hm
    exact ⟨by rw [modify_proc_self]; exact hemb, h.sole hmk⟩
  | @start cur np hcur hstage hs' =>
    subst hs'
    have hmk : (s.stage cur).making = some np := by rw [hstage]; rfl
    have hidle := embryo_not_able (h.embryo cur np hmk)
    exact h.rewrite hcur (rewrites_modify hidle rfl rfl) rfl (.inr (h.sole hmk))
      fun m hm => by cases hm
  | exit t hcur hstage ht hs' =>
    subst hs'
    exact h.exit hcur hstage (exits_of_exit ht)
  | reap i hcur hi hparent hzombie hs' =>
    subst hs'
    have hidle : ¬ (s.ptable.proc i).state.Able := by
      rw [hzombie]
      decide
    refine h.rewrite hcur (rewrites_modify hidle rfl rfl) rfl (.inr fun c _ hc => ?_)
      fun m hm => by cases hm
    rw [h.embryo c i hc] at hzombie
    cases hzombie
  | giveUp hcur hs' => exact hs' ▸ h.goto hcur .refl rfl
  | await hcur hnone hs' => exact hs' ▸ h.goto hcur (moves_sleep hcur.2 _) rfl
  | _ =>
    obtain ⟨slept, hm, hstage, -, -⟩ := hs₀.plain trivial
    exact h.moves hm (fun c m hc => hstage ▸ hc) fun c hc => h.able c (hstage ▸ hc)

theorem staged_boot : Staged boot where
  init := by decide
  embryo c np hc := (nomatch hc)
  able c hc := absurd rfl hc
  inj c c' np hc := (nomatch hc)

/-! ### Pids -/

/-- Pids are given out once. -/
structure Numbered (s : State) : Prop where
  lt : ∀ i, (s.ptable.proc i).pid < s.ptable.nextpid
  pos : ∀ i, (s.ptable.proc i).state ≠ .unused → (s.ptable.proc i).pid ≠ 0
  inj : ∀ i j, (s.ptable.proc i).pid ≠ 0 → (s.ptable.proc i).pid = (s.ptable.proc j).pid → i = j
  nodup : (s.reaped.map Prod.snd).Nodup
  gone : ∀ r ∈ s.reaped, r.2 ≠ 0 ∧ r.2 < s.ptable.nextpid ∧ ∀ i, (s.ptable.proc i).pid ≠ r.2

/-- A step that gives out no pid and takes none back. -/
theorem Numbered.same (h : Numbered s) (hnext : s'.ptable.nextpid = s.ptable.nextpid)
    (hpid : ∀ i, (s'.ptable.proc i).pid = (s.ptable.proc i).pid)
    (hused : ∀ i, (s'.ptable.proc i).state ≠ .unused → (s.ptable.proc i).state ≠ .unused)
    (hreaped : s'.reaped = s.reaped) : Numbered s' where
  lt i := by
    rw [hpid, hnext]
    exact h.lt i
  pos i hi := by
    rw [hpid]
    exact h.pos i (hused i hi)
  inj i j := by
    rw [hpid, hpid]
    exact h.inj i j
  nodup := by
    rw [hreaped]
    exact h.nodup
  gone r hr := by
    rw [hreaped] at hr
    rw [hnext]
    refine ⟨(h.gone r hr).1, (h.gone r hr).2.1, fun i => ?_⟩
    rw [hpid]
    exact (h.gone r hr).2.2 i

theorem Numbered.moves (h : Numbered s) (hm : Moves slept s.ptable s'.ptable)
    (hreaped : s'.reaped = s.reaped) : Numbered s' := by
  refine h.same hm.nextpid hm.pid (fun i hi hold => ?_) hreaped
  exact hi ((hm.state_eq (.inl (by rw [hold]; decide))).trans hold)

/-- Rewriting one slot in use, pid apart. -/
theorem Numbered.rewrite (h : Numbered s) (hr : Rewrites np s s')
    (hnext : s'.ptable.nextpid = s.ptable.nextpid)
    (hpid : (s'.ptable.proc np).pid = (s.ptable.proc np).pid)
    (hused : (s.ptable.proc np).state ≠ .unused) (hreaped : s'.reaped = s.reaped) :
    Numbered s' := by
  refine h.same hnext (fun i => ?_) (fun i hi => ?_) hreaped <;>
    rcases eq_or_ne i np with rfl | hne
  · exact hpid
  · rw [hr.other i hne]
  · exact hused
  · rwa [hr.other i hne] at hi

theorem Numbered.claim (h : Numbered s) : Numbered (claim s cur np) := by
  -- the new pid is above every other
  have hself : ((Life.claim s cur np).ptable.proc np).pid = s.ptable.nextpid := by
    simp [Life.claim]
  have hother : ∀ i, i ≠ np → (Life.claim s cur np).ptable.proc i = s.ptable.proc i := by
    intro i hi
    simp [Life.claim, modify_proc_of_ne, hi]
  have hnext : (Life.claim s cur np).ptable.nextpid = s.ptable.nextpid + 1 := rfl
  refine ⟨?_, ?_, ?_, h.nodup, ?_⟩
  · intro i
    rw [hnext]
    rcases eq_or_ne i np with rfl | hi
    · rw [hself]
      omega
    · rw [hother i hi]
      have := h.lt i
      omega
  · intro i hlive
    rcases eq_or_ne i np with rfl | hi
    · rw [hself]
      have := h.lt i
      omega
    · rw [hother i hi] at hlive ⊢
      exact h.pos i hlive
  · intro i j
    rcases eq_or_ne i np with rfl | hi <;> rcases eq_or_ne j i with rfl | hji
    · exact fun _ _ => rfl
    · rw [hself, hother j hji]
      have := h.lt j
      omega
    · exact fun _ _ => rfl
    · rw [hother i hi]
      rcases eq_or_ne j np with rfl | hj
      · rw [hself]
        have := h.lt i
        omega
      · rw [hother j hj]
        exact h.inj i j
  · intro r hr
    obtain ⟨hpos, hlt, hgone⟩ := h.gone r hr
    refine ⟨hpos, by rw [hnext]; omega, fun i => ?_⟩
    rcases eq_or_ne i np with rfl | hi
    · rw [hself]
      omega
    · rw [hother i hi]
      exact hgone i

/-- A reaped pid leaves the table. -/
theorem Numbered.reap {i : ℕ} (h : Numbered s) (hzombie : (s.ptable.proc i).state = .zombie) :
    Numbered { s.goto cur .user with
      ptable := s.ptable.modify i fun p =>
        { p with pid := 0, parent := none, killed := false, state := .unused }
      reaped := (cur, (s.ptable.proc i).pid) :: s.reaped } := by
  have hpos : (s.ptable.proc i).pid ≠ 0 := h.pos i (by rw [hzombie]; decide)
  refine ⟨?_, ?_, ?_, ?_, ?_⟩
  · intro j
    rcases eq_or_ne j i with rfl | hj
    · have := h.lt j
      simp only [modify_proc_self, modify_nextpid]
      omega
    · simpa [modify_proc_of_ne, hj] using h.lt j
  · intro j
    rcases eq_or_ne j i with rfl | hj
    · simp
    · simpa [modify_proc_of_ne, hj] using h.pos j
  · intro j k
    rcases eq_or_ne j i with rfl | hj
    · simp
    · rcases eq_or_ne k i with rfl | hk
      · simp only [modify_proc_of_ne _ hj, modify_proc_self]
        exact fun h h' => absurd h' h
      · simpa [modify_proc_of_ne, hj, hk] using h.inj j k
  · refine List.nodup_cons.2 ⟨?_, h.nodup⟩
    intro hmem
    obtain ⟨r, hr, heq⟩ := List.mem_map.1 hmem
    exact (h.gone r hr).2.2 i heq.symm
  · intro r hr
    have hother : ∀ j, r.2 ≠ 0 → (j ≠ i → (s.ptable.proc j).pid ≠ r.2) →
        ((s.ptable.modify i fun p =>
          { p with pid := 0, parent := none, killed := false, state := .unused }).proc j).pid ≠
            r.2 := by
      intro j hr0 hj
      rcases eq_or_ne j i with rfl | hne
      · rw [modify_proc_self]
        exact hr0.symm
      · rw [modify_proc_of_ne _ hne]
        exact hj hne
    rcases List.mem_cons.1 hr with rfl | hr
    · refine ⟨hpos, h.lt i, fun j => hother j hpos fun hne heq => ?_⟩
      exact hne (h.inj i j hpos heq.symm).symm
    · obtain ⟨hr0, hlt, hgone⟩ := h.gone r hr
      exact ⟨hr0, hlt, fun j => hother j hr0 fun _ => hgone j⟩

/-- **Pids are given out once, in every step.** -/
theorem Numbered.step (h : Numbered s) (hst : Staged s) (hs : Shape s s' e) : Numbered s' := by
  have hused : ∀ {c m : ℕ}, (s.stage c).making = some m → (s.ptable.proc m).state ≠ .unused := by
    intro c m hc
    rw [hst.embryo c m hc]
    decide
  have hs₀ := hs
  cases hs with
  | full hs' => exact hs' ▸ h
  | claim np hcur hstage hnp hfree hs' => exact hs' ▸ h.claim
  | discard np hcur hc hstage hs' =>
    subst hs'
    have hidle := embryo_not_able (hst.embryo _ np hstage)
    refine h.rewrite (rewrites_modify hidle rfl rfl) rfl ?_ (hused hstage) rfl
    simp [Life.discard]
  | @stack cur np hcur hstage hs' | @copy cur np hcur hstage hs' | @start cur np hcur hstage hs' =>
    subst hs'
    have hmk : (s.stage cur).making = some np := by rw [hstage]; rfl
    have hidle := embryo_not_able (hst.embryo _ np hmk)
    refine h.rewrite (rewrites_modify hidle rfl rfl) rfl ?_ (hused hmk) rfl
    simp
  | @exit cur t hcur hstage ht hs' =>
    subst hs'
    have hx := exits_of_exit ht
    refine h.same hx.nextpid hx.pid (fun i hi => ?_) rfl
    rcases eq_or_ne i cur with rfl | hne
    · exact hcur.able.ne_unused
    · exact fun hold => hi ((hx.state_eq hne (.inl (by rw [hold]; decide))).trans hold)
  | reap i hcur hi hparent hzombie hs' => exact hs' ▸ h.reap hzombie
  | giveUp hcur hs' => exact hs' ▸ h.same rfl (fun _ => rfl) (fun _ hi => hi) rfl
  | await hcur hnone hs' => exact hs' ▸ h.moves (moves_sleep hcur.2 _) rfl
  | _ =>
    obtain ⟨slept, hm, -, hreaped, -⟩ := hs₀.plain trivial
    exact h.moves hm hreaped

theorem numbered_boot : Numbered boot where
  lt i := by
    rcases eq_or_ne i 0 with rfl | hi
    · decide
    · simp [boot, PTable.userinit, hi, Proc.zero]
  pos i hi := by
    rcases eq_or_ne i 0 with rfl | hne
    · decide
    · simp [boot, PTable.userinit, hne, Proc.zero] at hi
  inj i j := by
    rcases eq_or_ne i 0 with rfl | hi <;> rcases eq_or_ne j 0 with rfl | hj <;>
      simp [boot, PTable.userinit, *, Proc.zero]
  nodup := List.nodup_nil
  gone r hr := (nomatch hr)

end Life
end Kernel
end Xv6
