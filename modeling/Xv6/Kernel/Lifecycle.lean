/-
# The life of a process, at the granularity of `ptable.lock`

`fork` (`xv6/proc.c`, lines 259-301) takes `ptable.lock` twice, in `allocproc`
to claim a slot and at its end to make the child `RUNNABLE`; between the two it
allocates memory, which can fail, and writes the child's parent.  Here each of
these parts is a step of its own, so that anything may happen between them.
`exit`, `kill`, `sleep` and each turn of `wait` hold the lock throughout and
are the operations of the process table.

A process has a *stage*: in user code, inside `fork` with the slot it is
making, or inside the loop of `wait`.  Two histories are kept beside the
table: the pids that `wait` has returned, each with the slot that called it,
and for every slot the pids `kill` was called with since the slot was last
allocated.
-/

import Xv6.Lib.Run
import Xv6.Kernel.Frame

namespace Xv6
namespace Kernel

open Function

/-- Where a process is inside `fork` or `wait`. -/
inductive Stage where
  /-- In neither. -/
  | user
  /-- `allocproc` has claimed the slot and released the lock. -/
  | claimed (np : ℕ)
  /-- `allocproc` has returned the slot. -/
  | stacked (np : ℕ)
  /-- The slot has its memory and its parent. -/
  | copied (np : ℕ)
  /-- In the loop of `wait`, at its `sleep`. -/
  | waiting
  deriving DecidableEq, Repr

/-- The slot that a `fork` is making. -/
def Stage.making : Stage → Option ℕ
  | .claimed np | .stacked np | .copied np => some np
  | .user | .waiting => none

namespace Life

/-- The process table, the stages and the two histories. -/
structure State where
  ptable : PTable
  stage : ℕ → Stage
  /-- The slots that called `wait` and the pids they were given, the last first. -/
  reaped : List (ℕ × ℕ)
  /-- The pids `kill` was called with since the slot was allocated. -/
  kills : ℕ → List ℤ

/-- After `userinit`. -/
def boot : State where
  ptable := PTable.userinit
  stage _ := .user
  reaped := []
  kills _ := []

/-- A process goes to another stage. -/
def State.goto (s : State) (cur : ℕ) (g : Stage) : State :=
  { s with stage := update s.stage cur g }

/-- What the process of a slot can do. -/
inductive Call where
  /-- `fork` up to the release in `allocproc`. -/
  | fork
  /-- `allocproc` from there on, if the kernel stack could be allocated. -/
  | kstack (ok : Bool)
  /-- `copyuvm`, if there was memory for it, and the parent. -/
  | pgdir (ok : Bool)
  /-- The end of `fork`. -/
  | runnable
  | exit
  /-- One turn of the loop of `wait`. -/
  | wait
  | kill (pid : ℤ)
  | sleep (a : ℤ)
  | yield
  deriving DecidableEq, Repr

/-- A call by a slot's process, a `wakeup` by anyone, or the scheduler's switch to a slot. -/
inductive Event where
  | call (cur : ℕ) (c : Call)
  | wakeup (chan : Chan)
  | dispatch (i : ℕ)
  deriving DecidableEq, Repr

/-- `allocproc` claims the slot `np` for a `fork` by `cur` and gives it the next pid. -/
def claim (s : State) (cur np : ℕ) : State :=
  { s with
    ptable :=
      { s.ptable.modify np fun p => { p with state := .embryo, pid := s.ptable.nextpid } with
        nextpid := s.ptable.nextpid + 1 }
    stage := update s.stage cur (.claimed np)
    kills := update s.kills np [] }

/-- `fork` up to the first release of the lock; it returns at once if no slot is free. -/
def allocproc (s : State) (cur : ℕ) : State :=
  match s.ptable.firstSlot fun p => p.state = .unused with
  | none => s
  | some np => claim s cur np

/-- A `fork` without memory frees its slot, without the lock. -/
def discard (s : State) (cur np : ℕ) : State :=
  { s with
    ptable := s.ptable.modify np fun p => { p with state := .unused }
    stage := update s.stage cur .user }

/-- What one turn of `wait` leaves. -/
def waitTurn (s : State) (cur : ℕ) : State :=
  match s.ptable.wait cur with
  | (.reaped pid, t) =>
      { s.goto cur .user with ptable := t, reaped := (cur, pid) :: s.reaped }
  | (.failed, t) => { s.goto cur .user with ptable := t }
  | (.asleep, t) => { s.goto cur .waiting with ptable := t }

/-- A call by the process in slot `cur`, in the stage it belongs to. -/
def exec (s : State) (cur : ℕ) (c : Call) : Option State :=
  match c, s.stage cur with
  | .fork, .user => some (allocproc s cur)
  | .kstack ok, .claimed np =>
      some (if ok then
          { s.goto cur (.stacked np) with
            ptable := s.ptable.modify np fun p => { p with containerId := 0 } }
        else discard s cur np)
  | .pgdir ok, .stacked np =>
      some (if ok then
          { s.goto cur (.copied np) with
            ptable := s.ptable.modify np fun p => { p with parent := some cur } }
        else discard s cur np)
  | .runnable, .copied np =>
      some { s.goto cur .user with
        ptable := s.ptable.modify np fun p => { p with state := .runnable } }
  | .exit, .user => (s.ptable.exit cur).toOption.map fun t => { s with ptable := t }
  | .wait, .user => some (waitTurn s cur)
  | .wait, .waiting => some (waitTurn s cur)
  | .kill pid, .user =>
      some { s with
        ptable := (s.ptable.kill pid).2
        kills := fun i => pid :: s.kills i }
  | .sleep a, .user => some { s with ptable := s.ptable.sleep cur (.addr a) }
  | .yield, _ => some { s with ptable := s.ptable.yield cur }
  | _, _ => none

/-- A slot of the table whose process runs on some CPU. -/
def Running (s : State) (cur : ℕ) : Prop :=
  cur < NPROC ∧ (s.ptable.proc cur).state = .running

instance (s : State) (cur : ℕ) : Decidable (Running s cur) :=
  inferInstanceAs (Decidable (_ ∧ _))

/-- One step of the system. -/
def step (s : State) : Event → Option State
  | .call cur c => if Running s cur then exec s cur c else none
  | .wakeup chan => some { s with ptable := s.ptable.wakeup chan }
  | .dispatch i =>
      if i < NPROC ∧ (s.ptable.proc i).state = .runnable then
        some { s with ptable := s.ptable.dispatch i }
      else none

/-- The parts of a `fork`, by the allocations that succeed. -/
def forkCalls (kstack pgdir : Bool) : List Call :=
  if kstack then
    if pgdir then [.fork, .kstack true, .pgdir true, .runnable]
    else [.fork, .kstack true, .pgdir false]
  else [.fork, .kstack false]

/-- **A `fork` that nothing interrupts is the `fork` of the process table.** -/
theorem foldlM_forkCalls {s : State} {cur np : ℕ} (hstage : s.stage cur = .user)
    (hslot : (s.ptable.firstSlot fun p => p.state = .unused) = some np) (kstack pgdir : Bool) :
    ((forkCalls kstack pgdir).foldlM (exec · cur ·) s).map State.ptable =
      some (s.ptable.fork cur kstack pgdir).2 := by
  cases kstack <;> cases pgdir <;>
    simp [forkCalls, exec, allocproc, claim, discard, State.goto, hstage, hslot, PTable.fork,
      PTable.allocproc, PTable.modify]

/-! ### The kinds of steps -/

/-- The steps, each with what it found and what it left. -/
inductive Shape (s s' : State) : Event → Prop where
  | full {cur : ℕ} (h : s' = s) : Shape s s' (.call cur .fork)
  | claim {cur : ℕ} (np : ℕ) (hcur : Running s cur) (hstage : s.stage cur = .user)
      (hnp : np < NPROC) (hfree : (s.ptable.proc np).state = .unused)
      (h : s' = claim s cur np) : Shape s s' (.call cur .fork)
  | discard {cur : ℕ} {c : Call} (np : ℕ) (hcur : Running s cur)
      (hc : c = .kstack false ∨ c = .pgdir false)
      (hstage : (s.stage cur).making = some np) (h : s' = discard s cur np) :
      Shape s s' (.call cur c)
  | stack {cur : ℕ} (np : ℕ) (hcur : Running s cur) (hstage : s.stage cur = .claimed np)
      (h : s' = { s.goto cur (.stacked np) with
        ptable := s.ptable.modify np fun p => { p with containerId := 0 } }) :
      Shape s s' (.call cur (.kstack true))
  | copy {cur : ℕ} (np : ℕ) (hcur : Running s cur) (hstage : s.stage cur = .stacked np)
      (h : s' = { s.goto cur (.copied np) with
        ptable := s.ptable.modify np fun p => { p with parent := some cur } }) :
      Shape s s' (.call cur (.pgdir true))
  | start {cur : ℕ} (np : ℕ) (hcur : Running s cur) (hstage : s.stage cur = .copied np)
      (h : s' = { s.goto cur .user with
        ptable := s.ptable.modify np fun p => { p with state := .runnable } }) :
      Shape s s' (.call cur .runnable)
  | exit {cur : ℕ} (t : PTable) (hcur : Running s cur) (hstage : s.stage cur = .user)
      (ht : s.ptable.exit cur = .ok t) (h : s' = { s with ptable := t }) :
      Shape s s' (.call cur .exit)
  | reap {cur : ℕ} (i : ℕ) (hcur : Running s cur)
      (hi : i < NPROC) (hparent : (s.ptable.proc i).parent = some cur)
      (hzombie : (s.ptable.proc i).state = .zombie)
      (h : s' = { s.goto cur .user with
        ptable := s.ptable.modify i fun p =>
          { p with pid := 0, parent := none, killed := false, state := .unused }
        reaped := (cur, (s.ptable.proc i).pid) :: s.reaped }) :
      Shape s s' (.call cur .wait)
  | giveUp {cur : ℕ} (hcur : Running s cur) (h : s' = s.goto cur .user) :
      Shape s s' (.call cur .wait)
  | await {cur : ℕ} (hcur : Running s cur)
      (hnone : ∀ i < NPROC, (s.ptable.proc i).parent = some cur →
        (s.ptable.proc i).state ≠ .zombie)
      (h : s' = { s.goto cur .waiting with ptable := s.ptable.sleep cur (.slot cur) }) :
      Shape s s' (.call cur .wait)
  | kill {cur : ℕ} (pid : ℤ) (hcur : Running s cur)
      (h : s' = { s with
        ptable := (s.ptable.kill pid).2
        kills := fun i => pid :: s.kills i }) : Shape s s' (.call cur (.kill pid))
  | sleep {cur : ℕ} (a : ℤ) (hcur : Running s cur) (hstage : s.stage cur = .user)
      (h : s' = { s with ptable := s.ptable.sleep cur (.addr a) }) :
      Shape s s' (.call cur (.sleep a))
  | yield {cur : ℕ} (hcur : Running s cur) (h : s' = { s with ptable := s.ptable.yield cur }) :
      Shape s s' (.call cur .yield)
  | wakeup (chan : Chan) (h : s' = { s with ptable := s.ptable.wakeup1 chan }) :
      Shape s s' (.wakeup chan)
  | dispatch (i : ℕ) (hi : (s.ptable.proc i).state = .runnable)
      (h : s' = { s with ptable := s.ptable.dispatch i }) : Shape s s' (.dispatch i)

variable {s s' : State} {cur : ℕ}

theorem shape_allocproc (hcur : Running s cur) (hstage : s.stage cur = .user) :
    Shape s (allocproc s cur) (.call cur .fork) := by
  unfold allocproc
  split
  · exact .full rfl
  next np hslot =>
    obtain ⟨hnp, hfree⟩ := PTable.firstSlot_eq_some hslot
    exact .claim np hcur hstage hnp (of_decide_eq_true hfree) rfl

theorem shape_waitTurn (hcur : Running s cur) : Shape s (waitTurn s cur) (.call cur .wait) := by
  unfold waitTurn PTable.wait
  cases hslot : s.ptable.firstSlot fun p => p.parent = some cur ∧ p.state = .zombie with
  | some i =>
    obtain ⟨hi, hchild⟩ := PTable.firstSlot_eq_some hslot
    obtain ⟨hparent, hzombie⟩ := of_decide_eq_true hchild
    exact .reap i hcur hi hparent hzombie rfl
  | none =>
    split_ifs
    · exact .giveUp hcur rfl
    · refine .await hcur ?_ rfl
      intro i hi hparent hzombie
      exact of_decide_eq_false (PTable.firstSlot_eq_none hslot hi) ⟨hparent, hzombie⟩

/-- A call made in the stage it belongs to. -/
theorem shape_exec {c : Call} (hcur : Running s cur) (h : exec s cur c = some s') :
    Shape s s' (.call cur c) := by
  unfold exec at h
  split at h
  next hstage =>
    cases h
    exact shape_allocproc hcur hstage
  next ok np hstage =>
    cases h
    cases ok
    · exact .discard np hcur (.inl rfl) (by rw [hstage]; rfl) rfl
    · exact .stack np hcur hstage rfl
  next ok np hstage =>
    cases h
    cases ok
    · exact .discard np hcur (.inr rfl) (by rw [hstage]; rfl) rfl
    · exact .copy np hcur hstage rfl
  next np hstage =>
    cases h
    exact .start np hcur hstage rfl
  next hstage =>
    cases ht : s.ptable.exit cur with
    | error e =>
      rw [ht] at h
      cases h
    | ok t =>
      rw [ht] at h
      cases h
      exact .exit t hcur hstage ht rfl
  · cases h
    exact shape_waitTurn hcur
  · cases h
    exact shape_waitTurn hcur
  next pid _ =>
    cases h
    exact .kill pid hcur rfl
  next a hstage =>
    cases h
    exact .sleep a hcur hstage rfl
  · cases h
    exact .yield hcur rfl
  · cases h

/-- **Every step is of one of these kinds.** -/
theorem step_shape {e : Event} (h : step s e = some s') : Shape s s' e := by
  cases e with
  | call cur c =>
    unfold step at h
    dsimp only at h
    split at h
    · next hcur => exact shape_exec hcur h
    · cases h
  | wakeup chan =>
    cases h
    exact .wakeup chan rfl
  | dispatch i =>
    unfold step at h
    dsimp only at h
    split at h
    next hi =>
      cases h
      exact .dispatch i hi.2 rfl
    · cases h

end Life
end Kernel
end Xv6
