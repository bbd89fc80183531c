/-
# What the operations do to the states and parents

`Moves t t'`: the operations that only move processes between `SLEEPING`,
`RUNNABLE` and `RUNNING`, which leave pids and parents alone.  `Exits cur t t'`:
the whole of `exit` (`xv6/proc.c`, lines 306-347), whose loop hands every child
of the caller to `initproc` and wakes `initproc` if one of them is a zombie.
-/

import Xv6.Kernel.Frame

namespace Xv6
namespace Kernel

/-- The process has been started and has not exited. -/
def ProcState.Able (st : ProcState) : Prop := st = .sleeping ∨ st = .runnable ∨ st = .running

instance (st : ProcState) : Decidable st.Able := inferInstanceAs (Decidable (_ ∨ _ ∨ _))

theorem ProcState.Able.ne_unused {st : ProcState} (h : st.Able) : st ≠ .unused := by
  rintro rfl
  revert h
  decide

theorem ProcState.Able.ne_embryo {st : ProcState} (h : st.Able) : st ≠ .embryo := by
  rintro rfl
  revert h
  decide

theorem ProcState.Able.ne_zombie {st : ProcState} (h : st.Able) : st ≠ .zombie := by
  rintro rfl
  revert h
  decide

namespace PTable

/-- The processes move between the three states of a started process; a process
that sleeps afterwards slept before on the same channel, except for `slept`. -/
structure Moves (slept : Option ℕ) (t t' : PTable) : Prop where
  nextpid : t'.nextpid = t.nextpid
  initproc : t'.initproc = t.initproc
  pid : ∀ i, (t'.proc i).pid = (t.proc i).pid
  parent : ∀ i, (t'.proc i).parent = (t.proc i).parent
  state : ∀ i, (t'.proc i).state = (t.proc i).state ∨
    (t.proc i).state.Able ∧ (t'.proc i).state.Able
  asleep : ∀ i, slept ≠ some i → (t'.proc i).state = .sleeping →
    (t.proc i).state = .sleeping ∧ (t'.proc i).chan = (t.proc i).chan

variable {t t' : PTable} {cur : ℕ}

theorem Moves.refl : Moves none t t where
  nextpid := rfl
  initproc := rfl
  pid _ := rfl
  parent _ := rfl
  state _ := .inl rfl
  asleep _ _ h := ⟨h, rfl⟩

/-- A process that is not started, before or after, is in the state it was in. -/
theorem Moves.state_eq {slept : Option ℕ} {i : ℕ} (h : Moves slept t t')
    (hi : ¬ (t.proc i).state.Able ∨ ¬ (t'.proc i).state.Able) :
    (t'.proc i).state = (t.proc i).state := by
  rcases h.state i with heq | ⟨hold, hnew⟩
  · exact heq
  · exact hi.elim (absurd hold) (absurd hnew)

theorem Moves.able {slept : Option ℕ} {i : ℕ} (h : Moves slept t t')
    (hi : (t.proc i).state.Able) : (t'.proc i).state.Able := by
  rcases h.state i with heq | ⟨-, hnew⟩
  · rwa [heq]
  · exact hnew

/-- Rewriting one slot. -/
theorem moves_modify {slept : Option ℕ} {i : ℕ} {f : Proc → Proc}
    (hpid : (f (t.proc i)).pid = (t.proc i).pid)
    (hparent : (f (t.proc i)).parent = (t.proc i).parent)
    (hstate : (f (t.proc i)).state = (t.proc i).state ∨
      (t.proc i).state.Able ∧ (f (t.proc i)).state.Able)
    (hasleep : slept ≠ some i → (f (t.proc i)).state = .sleeping →
      (t.proc i).state = .sleeping ∧ (f (t.proc i)).chan = (t.proc i).chan) :
    Moves slept t (t.modify i f) := by
  -- the slot itself as assumed, every other slot as it was
  have hother : ∀ j, j ≠ i → (t.modify i f).proc j = t.proc j := fun j h =>
    modify_proc_of_ne t h f
  refine ⟨rfl, rfl, ?_, ?_, ?_, ?_⟩ <;> intro j <;> rcases eq_or_ne j i with rfl | hj
  · rw [modify_proc_self, hpid]
  · rw [hother j hj]
  · rw [modify_proc_self, hparent]
  · rw [hother j hj]
  · rw [modify_proc_self]
    exact hstate
  · rw [hother j hj]
    exact .inl rfl
  · rw [modify_proc_self]
    exact hasleep
  · rw [hother j hj]
    exact fun _ h => ⟨h, rfl⟩

theorem moves_wakeup1 (t : PTable) (chan : Chan) : Moves none t (t.wakeup1 chan) := by
  refine ⟨rfl, rfl, ?_, ?_, ?_, ?_⟩ <;> intro i <;> simp only [wakeup1] <;> split
  · rfl
  · rfl
  · rfl
  · rfl
  · next h => exact .inr ⟨.inl h.1, .inr (.inl rfl)⟩
  · exact .inl rfl
  · intro _ h
    cases h
  · exact fun _ h => ⟨h, rfl⟩

theorem moves_kill (t : PTable) (pid : ℤ) : Moves none t (t.kill pid).2 := by
  unfold kill
  split
  · exact Moves.refl
  next i _ =>
    dsimp only
    refine moves_modify rfl rfl ?_ ?_
    · dsimp only
      split
      · next h => exact .inr ⟨.inl h, .inr (.inl rfl)⟩
      · exact .inl rfl
    · intro _ hsleep
      split at hsleep
      · cases hsleep
      · exact ⟨hsleep, rfl⟩

theorem moves_sleep (h : (t.proc cur).state = .running) (chan : Chan) :
    Moves (some cur) t (t.sleep cur chan) :=
  moves_modify rfl rfl (.inr ⟨.inr (.inr h), .inl rfl⟩) fun hne => absurd rfl hne

theorem moves_yield (h : (t.proc cur).state = .running) : Moves none t (t.yield cur) :=
  moves_modify rfl rfl (.inr ⟨.inr (.inr h), .inr (.inl rfl)⟩) fun _ h => (nomatch h)

theorem moves_dispatch {i : ℕ} (h : (t.proc i).state = .runnable) : Moves none t (t.dispatch i) :=
  moves_modify rfl rfl (.inr ⟨.inr (.inl h), .inr (.inr rfl)⟩) fun _ h => (nomatch h)

/-! ### `exit` -/

/-- The parent a process has after the exit of `cur`. -/
def heir (t : PTable) (cur i : ℕ) : Option ℕ :=
  if (t.proc i).parent = some cur then some t.initproc else (t.proc i).parent

/-- The loop of `exit` has gone over the first `n` slots. -/
structure Handed (cur n : ℕ) (t t' : PTable) : Prop where
  nextpid : t'.nextpid = t.nextpid
  initproc : t'.initproc = t.initproc
  pid : ∀ i, (t'.proc i).pid = (t.proc i).pid
  chan : ∀ i, (t'.proc i).chan = (t.proc i).chan
  killed : ∀ i, (t'.proc i).killed = (t.proc i).killed
  done : ∀ i < n, (t'.proc i).parent = t.heir cur i
  rest : ∀ i, n ≤ i → (t'.proc i).parent = (t.proc i).parent
  state : ∀ i, (t'.proc i).state = (t.proc i).state ∨
    (t.proc i).state = .sleeping ∧ (t'.proc i).state = .runnable
  woken : ∀ i < n, (t.proc i).state = .zombie → (t.proc i).parent = some cur →
    ∀ j, (t'.proc j).state = .sleeping → (t.proc j).chan ≠ .slot t.initproc

theorem handed_zero (cur : ℕ) (t : PTable) : Handed cur 0 t t where
  nextpid := rfl
  initproc := rfl
  pid _ := rfl
  chan _ := rfl
  killed _ := rfl
  done _ h := absurd h (Nat.not_lt_zero _)
  rest _ _ := rfl
  state _ := .inl rfl
  woken _ h := absurd h (Nat.not_lt_zero _)

/-- A slot that sleeps at the end has slept all the time. -/
theorem Handed.sleeping {n j : ℕ} (h : Handed cur n t t') (hj : (t'.proc j).state = .sleeping) :
    (t.proc j).state = .sleeping := by
  rcases h.state j with heq | ⟨hs, -⟩
  · rw [← heq, hj]
  · exact hs

/-- A zombie is one at both ends of the loop. -/
theorem Handed.zombie {n j : ℕ} (h : Handed cur n t t') :
    (t'.proc j).state = .zombie ↔ (t.proc j).state = .zombie := by
  rcases h.state j with heq | ⟨hs, hr⟩
  · rw [heq]
  · simp [hs, hr]

/-- A turn that finds a child, by what it leaves: the child's parent is written, and some
sleepers may have been woken. -/
theorem Handed.child {n : ℕ} {u : PTable} (h : Handed cur n t t')
    (hchild : (t.proc n).parent = some cur) (hnextpid : u.nextpid = t'.nextpid)
    (hinitproc : u.initproc = t'.initproc)
    (hrec : ∀ i, u.proc i = { t'.proc i with
      parent := if i = n then some t.initproc else (t'.proc i).parent
      state := (u.proc i).state })
    (hstate : ∀ i, (u.proc i).state = (t'.proc i).state ∨
      (t'.proc i).state = .sleeping ∧ (u.proc i).state = .runnable)
    (hwoken : (t.proc n).state = .zombie → ∀ j, (u.proc j).state = .sleeping →
      (t.proc j).chan ≠ .slot t.initproc) :
    Handed cur (n + 1) t u := by
  have hsleep : ∀ j, (u.proc j).state = .sleeping → (t'.proc j).state = .sleeping := by
    intro j hj
    rcases hstate j with heq | ⟨hs, -⟩
    · rw [← heq, hj]
    · exact hs
  refine ⟨hnextpid.trans h.nextpid, hinitproc.trans h.initproc, ?_, ?_, ?_, ?_, ?_, ?_, ?_⟩
  · intro i
    rw [hrec]
    exact h.pid i
  · intro i
    rw [hrec]
    exact h.chan i
  · intro i
    rw [hrec]
    exact h.killed i
  · intro i hi
    rw [hrec]
    split
    · next hin => rw [hin, heir, if_pos hchild]
    · exact h.done i (by omega)
  · intro i hi
    rw [hrec]
    rw [if_neg (by omega)]
    exact h.rest i (by omega)
  · intro i
    rcases hstate i with heq | ⟨hs, hr⟩
    · rw [heq]
      exact h.state i
    · exact .inr ⟨h.sleeping hs, hr⟩
  · intro i hi hzi hpi j hj
    rcases Nat.lt_succ_iff_lt_or_eq.1 hi with hlt | rfl
    · exact h.woken i hlt hzi hpi j (hsleep j hj)
    · exact hwoken hzi j hj

/-- One turn of the loop. -/
theorem Handed.turn {n : ℕ} (h : Handed cur n t t') :
    Handed cur (n + 1) t (reparent cur t' n) := by
  have hn := h.rest n le_rfl
  unfold reparent
  rw [hn]
  split
  next hchild =>
    generalize hw : (t'.modify n fun p => { p with parent := some t'.initproc }) = w
    have hproc : ∀ i, w.proc i =
        { t'.proc i with parent := if i = n then some t.initproc else (t'.proc i).parent } := by
      intro i
      rw [← hw, modify_proc]
      split
      · next hi => rw [hi, h.initproc]
      · rfl
    have hinit : w.initproc = t'.initproc := by rw [← hw, modify_initproc]
    have hstate : ∀ i, (w.proc i).state = (t'.proc i).state := fun i => by rw [hproc]
    have hchan : ∀ i, (w.proc i).chan = (t.proc i).chan := fun i => by
      rw [hproc]
      exact h.chan i
    have hnext : w.nextpid = t'.nextpid := by rw [← hw, modify_nextpid]
    dsimp only
    split
    next hz =>
      refine h.child hchild hnext hinit ?_ ?_ ?_
      · intro i
        simp only [wakeup1]
        split <;> rw [hproc]
      · intro i
        simp only [wakeup1]
        split
        · next hs => exact .inr ⟨by rw [← hstate, hs.1], rfl⟩
        · exact .inl (hstate i)
      · intro _ j hj hslot
        simp only [wakeup1] at hj
        split at hj
        · cases hj
        · next hs => exact hs ⟨hj, by rw [hchan, hslot, hinit, h.initproc]⟩
    next hz =>
      refine h.child hchild hnext hinit (fun i => by rw [hproc]) (fun i => .inl (hstate i)) ?_
      intro hzn
      exact absurd (by rw [hstate, h.zombie, hzn]) hz
  next hchild =>
    refine { h with done := ?_, rest := ?_, woken := ?_ }
    · intro i hi
      rcases Nat.lt_succ_iff_lt_or_eq.1 hi with hlt | rfl
      · exact h.done i hlt
      · rw [hn, heir, if_neg hchild]
    · intro i hi
      exact h.rest i (by omega)
    · intro i hi hzi hpi
      rcases Nat.lt_succ_iff_lt_or_eq.1 hi with hlt | rfl
      · exact h.woken i hlt hzi hpi
      · exact absurd hpi hchild

/-- **The loop of `exit`.** -/
theorem handed_foldl (cur n : ℕ) (t : PTable) :
    Handed cur n t ((List.range n).foldl (reparent cur) t) := by
  induction n with
  | zero => exact handed_zero cur t
  | succ n ih =>
    rw [List.range_succ, List.foldl_append]
    exact ih.turn

/-- What `exit` by the process in slot `cur` leaves. -/
structure Exits (cur : ℕ) (t t' : PTable) : Prop where
  init : cur ≠ t.initproc
  nextpid : t'.nextpid = t.nextpid
  initproc : t'.initproc = t.initproc
  pid : ∀ i, (t'.proc i).pid = (t.proc i).pid
  chan : ∀ i, (t'.proc i).chan = (t.proc i).chan
  killed : ∀ i, (t'.proc i).killed = (t.proc i).killed
  parent : ∀ i < NPROC, (t'.proc i).parent = t.heir cur i
  beyond : ∀ i, NPROC ≤ i → (t'.proc i).parent = (t.proc i).parent
  dead : (t'.proc cur).state = .zombie
  state : ∀ i, i ≠ cur → (t'.proc i).state = (t.proc i).state ∨
    (t.proc i).state = .sleeping ∧ (t'.proc i).state = .runnable
  /-- Whoever still sleeps does not sleep on the caller's parent … -/
  parent_woken : ∀ j, (t'.proc j).state = .sleeping →
    (t.proc j).chan ≠ parentChan (t.proc cur).parent
  /-- … nor on `initproc`, if that has inherited a zombie. -/
  init_woken : ∀ i < NPROC, (t.proc i).state = .zombie → (t.proc i).parent = some cur →
    ∀ j, (t'.proc j).state = .sleeping → (t.proc j).chan ≠ .slot t.initproc

theorem Exits.state_eq {i : ℕ} (h : Exits cur t t') (hne : i ≠ cur)
    (hi : ¬ (t.proc i).state.Able ∨ ¬ (t'.proc i).state.Able) :
    (t'.proc i).state = (t.proc i).state := by
  rcases h.state i hne with heq | ⟨hold, hnew⟩
  · exact heq
  · rw [hold, hnew] at hi
    exact absurd hi (by decide)

theorem Exits.able {i : ℕ} (h : Exits cur t t') (hne : i ≠ cur) (hi : (t.proc i).state.Able) :
    (t'.proc i).state.Able := by
  rcases h.state i hne with heq | ⟨-, hnew⟩
  · rwa [heq]
  · exact .inr (.inl hnew)

/-- **`exit` marks its caller, hands its children on and wakes those who wait.** -/
theorem exits_of_exit (h : t.exit cur = .ok t') :
    Exits cur t t' := by
  unfold exit at h
  obtain ⟨hinit, h⟩ := ite_error_eq_ok.1 h
  cases h
  -- the three parts: wake the parent, hand the children on, become a zombie
  have hwake := moves_wakeup1 t (parentChan (t.proc cur).parent)
  have hloop := handed_foldl cur NPROC (t.wakeup1 (parentChan (t.proc cur).parent))
  generalize hw : t.wakeup1 (parentChan (t.proc cur).parent) = w at hwake hloop ⊢
  generalize hl : (List.range NPROC).foldl (reparent cur) w = l at hloop ⊢
  have hproc : ∀ i, w.proc i = { t.proc i with state := (w.proc i).state } := by
    intro i
    rw [← hw]
    simp only [wakeup1]
    split <;> rfl
  have hstate : ∀ i, (w.proc i).state = (t.proc i).state ∨
      (t.proc i).state = .sleeping ∧ (w.proc i).state = .runnable := by
    intro i
    rw [← hw]
    simp only [wakeup1]
    split
    · next hs => exact .inr ⟨hs.1, rfl⟩
    · exact .inl rfl
  have hother : ∀ i, i ≠ cur →
      (l.modify cur fun p => { p with state := .zombie }).proc i = l.proc i :=
    fun i hi => modify_proc_of_ne l hi _
  have hmod : ∀ i, (l.modify cur fun p => { p with state := .zombie }).proc i =
      { l.proc i with state := if i = cur then .zombie else (l.proc i).state } := by
    intro i
    rw [modify_proc]
    split
    · next hi => rw [hi]
    · rfl
  -- a slot that sleeps at the end slept through all three
  have hsleep : ∀ j, ((l.modify cur fun p => { p with state := .zombie }).proc j).state =
      .sleeping → (l.proc j).state = .sleeping := by
    intro j hj
    rw [hmod] at hj
    split at hj
    · cases hj
    · exact hj
  refine ⟨hinit, hloop.nextpid.trans hwake.nextpid, hloop.initproc.trans hwake.initproc,
    ?_, ?_, ?_, ?_, ?_, ?_, ?_, ?_, ?_⟩
  · intro i
    rw [hmod]
    exact (hloop.pid i).trans (hwake.pid i)
  · intro i
    rw [hmod, ← show (w.proc i).chan = (t.proc i).chan by rw [hproc]]
    exact hloop.chan i
  · intro i
    rw [hmod, ← show (w.proc i).killed = (t.proc i).killed by rw [hproc]]
    exact hloop.killed i
  · intro i hi
    rw [hmod, heir, ← hwake.parent i, ← hwake.initproc]
    exact hloop.done i hi
  · intro i hi
    rw [hmod]
    exact (hloop.rest i hi).trans (hwake.parent i)
  · rw [modify_proc_self]
  · intro i hi
    rw [hother i hi]
    rcases hloop.state i with heq | ⟨hs, hr⟩
    · rw [heq]
      exact hstate i
    · rcases hstate i with heq' | ⟨-, hr'⟩
      · exact .inr ⟨by rw [← heq', hs], hr⟩
      · rw [hr'] at hs
        cases hs
  · intro j hj hchan
    have hw' : (w.proc j).state = .sleeping := hloop.sleeping (hsleep j hj)
    rw [← hw] at hw'
    simp only [wakeup1] at hw'
    split at hw'
    · cases hw'
    · next hs => exact hs ⟨hw', hchan⟩
  · intro i hi hz hp j hj
    have hz' : (w.proc i).state = .zombie := by
      rcases hstate i with heq | ⟨hs, -⟩
      · rw [heq, hz]
      · rw [hz] at hs
        cases hs
    have hwoken := hloop.woken i hi hz' ((hwake.parent i).trans hp) j (hsleep j hj)
    rw [hwake.initproc, hproc] at hwoken
    exact hwoken

end PTable
end Kernel
end Xv6
