/-
# The two levels of the scheduler take turns

While no container is created or destroyed, the set of `RUNNABLE` processes is
the same at the start of every round and no process changes its membership, the
rounds of `scheduler` are two cyclic scans nested in each other: one over the
containers, with `current_container` as its cursor, and inside it one per
container over the process table, with that container's `last_process` as its
cursor.  A round of one container leaves the cursors of all others alone.
`scheduler_round_robin` is the fairness both have: each alive container gets
exactly one of any `k` consecutive rounds, `k` the number of alive containers,
and among any `|E_c|` consecutive rounds of a container `c` each process
eligible in `c` is run exactly once.
-/

import Xv6.Kernel.Scheduler

namespace Xv6
namespace Kernel

open Lib

/-- The alive containers. -/
def aliveContainers (s : State) : List ℕ :=
  (List.range NCONTAINER).filter fun cid => (s.containers.container cid).status = .alive

/-- The process in slot `i` belongs to the host or has its bit set in `cid`. -/
def MayRunIn (s : State) (cid i : ℕ) : Prop :=
  (s.ptable.proc i).containerId = 0 ∨
    (s.containers.container cid).proc (s.ptable.proc i).pid ≠ 0

/-- The slots eligible in the rounds of `cid`. -/
def eligibleSlots (s : State) (cid : ℕ) : List ℕ :=
  (List.range NPROC).filter (eligible s cid)

theorem eligible_eq_true {s : State} {cid i : ℕ} :
    eligible s cid i = true ↔ (s.ptable.proc i).state = .runnable ∧ MayRunIn s cid i := by
  simp only [eligible, MayRunIn, decide_eq_true_eq, not_and_or, not_not, or_comm, ne_eq]

/-- The states at the start of the rounds of a run in which only the cursors move:
between two rounds the alive containers, the `RUNNABLE` processes and their
memberships are the same, and the cursors are where the round left them. -/
structure SteadyRun (s : ℕ → State) : Prop where
  currentContainer : ∀ n, (s (n + 1)).containers.currentContainer =
    (schedulerRound (s n)).2.2.containers.currentContainer
  lastProcess : ∀ n cid, ((s (n + 1)).containers.container cid).lastProcess =
    ((schedulerRound (s n)).2.2.containers.container cid).lastProcess
  status : ∀ n cid, ((s n).containers.container cid).status =
    ((s 0).containers.container cid).status
  runnable : ∀ n i, ((s n).ptable.proc i).state = .runnable ↔
    ((s 0).ptable.proc i).state = .runnable
  membership : ∀ n cid i, ((s 0).ptable.proc i).state = .runnable →
    (MayRunIn (s n) cid i ↔ MayRunIn (s 0) cid i)

/-- The container whose round it is. -/
def containerOf (s : State) : ℕ := (schedulerRound s).1

/-- The slot that the round runs. -/
def selected (s : State) : Option ℕ := (schedulerRound s).2.1

/-! ### One round -/

variable {s : State} {cid : ℕ}

/-- The selection only looks at the tables, not at `current_container`. -/
theorem selectProcess_getContainerToRun :
    selectProcess { s with containers := s.containers.getContainerToRun.2 } cid =
      selectProcess s cid := by
  unfold selectProcess eligible
  rw [ContainerTable.getContainerToRun_container]

theorem containerOf_eq : containerOf s = s.containers.getContainerToRun.1 := by
  unfold containerOf schedulerRound
  dsimp only
  split <;> rfl

theorem selected_eq : selected s = selectProcess s (containerOf s) := by
  rw [containerOf_eq, ← selectProcess_getContainerToRun]
  unfold selected schedulerRound
  dsimp only
  split
  · exact (‹_ = none›).symm
  · exact (‹_ = some _›).symm

theorem schedulerRound_currentContainer :
    (schedulerRound s).2.2.containers.currentContainer =
      s.containers.getContainerToRun.2.currentContainer := by
  unfold schedulerRound
  dsimp only
  split <;> rfl

/-- A round moves the cursor of its own container to the slot it runs. -/
theorem schedulerRound_lastProcess (c : ℕ) :
    ((schedulerRound s).2.2.containers.container c).lastProcess =
      if c = containerOf s then (selected s).getD (s.containers.container c).lastProcess
      else (s.containers.container c).lastProcess := by
  rw [selected_eq, containerOf_eq, ← selectProcess_getContainerToRun]
  unfold schedulerRound
  dsimp only
  cases selectProcess { s with containers := s.containers.getContainerToRun.2 }
      s.containers.getContainerToRun.1 with
  | none => simp
  | some i =>
    dsimp only [ContainerTable.setLastProcessOfContainer, Option.getD_some]
    split
    · next h => rw [h, ContainerTable.modify_container_self]
    next h =>
      rw [ContainerTable.modify_container_of_ne _ h,
        ContainerTable.getContainerToRun_container]

/-- While some container is alive, the round goes to the next one and the
cursor follows. -/
theorem nextAfter_currentContainer (hc : cid ∈ aliveContainers s) :
    nextAfter NCONTAINER (fun cid => (s.containers.container cid).status = .alive)
        s.containers.currentContainer = some (containerOf s) ∧
      (schedulerRound s).2.2.containers.currentContainer = containerOf s := by
  obtain ⟨hlt, halive⟩ := List.mem_filter.1 hc
  obtain ⟨j, hj⟩ := nextAfter_isSome
    (p := fun cid => (s.containers.container cid).status = .alive) (List.mem_range.1 hlt) halive
    s.containers.currentContainer
  rw [schedulerRound_currentContainer, containerOf_eq]
  unfold ContainerTable.getContainerToRun
  rw [hj]
  exact ⟨rfl, rfl⟩

/-! ### A run of rounds -/

namespace SteadyRun

variable {s : ℕ → State} {cid : ℕ}

theorem aliveContainers_eq (h : SteadyRun s) (n : ℕ) :
    aliveContainers (s n) = aliveContainers (s 0) := by
  unfold aliveContainers
  simp only [h.status n]

theorem eligible_eq (h : SteadyRun s) (n : ℕ) : eligible (s n) cid = eligible (s 0) cid := by
  funext i
  rw [Bool.eq_iff_iff, eligible_eq_true, eligible_eq_true, h.runnable n i]
  exact and_congr_right fun hr => h.membership n cid i hr

/-- The containers of consecutive rounds are consecutive hits of one scan. -/
theorem nextAfter_container (h : SteadyRun s) (hc : cid ∈ aliveContainers (s 0)) (n : ℕ) :
    nextAfter NCONTAINER (fun cid => ((s 0).containers.container cid).status = .alive)
        (s n).containers.currentContainer = some (s (n + 1)).containers.currentContainer ∧
      containerOf (s n) = (s (n + 1)).containers.currentContainer := by
  rw [← h.aliveContainers_eq n] at hc
  obtain ⟨hnext, hcur⟩ := nextAfter_currentContainer hc
  rw [h.currentContainer n, hcur]
  simp only [h.status n] at hnext
  exact ⟨hnext, rfl⟩

/-- The choices of consecutive rounds of one container are consecutive hits of
one scan: the rounds of the others leave its cursor where it is. -/
theorem selected_window (h : SteadyRun s) (hne : eligibleSlots (s 0) cid ≠ []) (m n : ℕ) :
    ((List.range' n m).filter fun j => containerOf (s j) = cid).map (fun j => selected (s j)) =
      (rounds NPROC (eligible (s 0) cid)
        ((List.range' n m).filter fun j => containerOf (s j) = cid).length
        ((s n).containers.container cid).lastProcess).map some := by
  induction m generalizing n with
  | zero => rfl
  | succ m ih =>
    have hlast := h.lastProcess n cid
    rw [schedulerRound_lastProcess] at hlast
    rw [List.range'_succ]
    by_cases hn : containerOf (s n) = cid
    · obtain ⟨i, hi⟩ := List.exists_mem_of_ne_nil _ hne
      obtain ⟨hlt, helig⟩ := List.mem_filter.1 hi
      obtain ⟨j, hj⟩ := nextAfter_isSome (List.mem_range.1 hlt) helig
        ((s n).containers.container cid).lastProcess
      have hsel : selected (s n) = some j := by
        rw [selected_eq, hn, selectProcess, h.eligible_eq n, hj]
      rw [if_pos hn.symm, hsel, Option.getD_some] at hlast
      rw [List.filter_cons_of_pos (by simpa using hn), List.map_cons, List.length_cons, rounds,
        hj, hsel, ih (n + 1), hlast, List.map_cons]
    · rw [if_neg (fun he => hn he.symm)] at hlast
      rw [List.filter_cons_of_neg (by simpa using hn), ih (n + 1), hlast]

end SteadyRun

/-- **Two-level round robin.**  In a steady run with at least one alive
container, any `k` consecutive rounds, `k` the number of alive containers, are
one round of each of them; and any stretch of the run that holds as many rounds
of an alive container `cid` as there are slots eligible in `cid` runs, in those
rounds, each of these slots once. -/
theorem scheduler_round_robin (s : ℕ → State) (h : SteadyRun s)
    (hk : 1 ≤ (aliveContainers (s 0)).length) :
    (∀ n, ((List.range' n (aliveContainers (s 0)).length).map fun j => containerOf (s j)).Perm
        (aliveContainers (s 0))) ∧
      ∀ cid ∈ aliveContainers (s 0), ∀ n m,
        ((List.range' n m).filter fun j => containerOf (s j) = cid).length =
            (eligibleSlots (s 0) cid).length →
          (((List.range' n m).filter fun j => containerOf (s j) = cid).map
            fun j => selected (s j)).Perm ((eligibleSlots (s 0) cid).map some) := by
  constructor
  · intro n
    obtain ⟨cid, hc⟩ := List.exists_mem_of_length_pos hk
    have hrounds := rounds_of_cursor (fun j => (h.nextAfter_container hc j).1)
      (aliveContainers (s 0)).length n
    have hmap : (List.range' n (aliveContainers (s 0)).length).map (fun j => containerOf (s j)) =
        (List.range' n (aliveContainers (s 0)).length).map
          fun j => (s (j + 1)).containers.currentContainer :=
      List.map_congr_left fun j _ => (h.nextAfter_container hc j).2
    rw [hmap, ← hrounds]
    exact rounds_perm (by decide) _
  · intro cid _ n m hlen
    rcases Nat.eq_zero_or_pos (eligibleSlots (s 0) cid).length with hzero | hpos
    · rw [hzero] at hlen
      rw [List.length_eq_zero_iff.1 hzero, List.length_eq_zero_iff.1 hlen]
      exact List.Perm.refl _
    · rw [h.selected_window (List.ne_nil_of_length_pos hpos), hlen]
      exact (rounds_perm (by decide) _).map some

/-- The start of the next round, if what was run is `RUNNABLE` again by then. -/
def nextRound (s : State) : State := { (schedulerRound s).2.2 with ptable := s.ptable }

theorem nextRound_container (s : State) (c : ℕ) :
    ((nextRound s).containers.container c).status = (s.containers.container c).status ∧
      ((nextRound s).containers.container c).proc = (s.containers.container c).proc := by
  unfold nextRound schedulerRound
  dsimp only
  cases selectProcess { s with containers := s.containers.getContainerToRun.2 }
      s.containers.getContainerToRun.1 with
  | none => simp [ContainerTable.getContainerToRun_container]
  | some i =>
    dsimp only [ContainerTable.setLastProcessOfContainer]
    rcases eq_or_ne c s.containers.getContainerToRun.1 with rfl | hne
    · rw [ContainerTable.modify_container_self, ContainerTable.getContainerToRun_container]
      exact ⟨rfl, rfl⟩
    · rw [ContainerTable.modify_container_of_ne _ hne,
        ContainerTable.getContainerToRun_container]
      exact ⟨rfl, rfl⟩

/-- Every state starts a steady run. -/
theorem steadyRun_nextRound (s : State) : SteadyRun fun n => nextRound^[n] s := by
  have hsame : ∀ n, (nextRound^[n] s).ptable = s.ptable ∧ ∀ c,
      ((nextRound^[n] s).containers.container c).status = (s.containers.container c).status ∧
      ((nextRound^[n] s).containers.container c).proc = (s.containers.container c).proc := by
    intro n
    induction n with
    | zero => exact ⟨rfl, fun _ => ⟨rfl, rfl⟩⟩
    | succ n ih =>
      rw [Function.iterate_succ_apply']
      refine ⟨ih.1, fun c => ?_⟩
      obtain ⟨hstatus, hproc⟩ := nextRound_container (nextRound^[n] s) c
      exact ⟨hstatus.trans (ih.2 c).1, hproc.trans (ih.2 c).2⟩
  refine ⟨fun n => ?_, fun n c => ?_, fun n c => ((hsame n).2 c).1, fun n i => ?_,
    fun n c i _ => ?_⟩
  · rw [Function.iterate_succ_apply']
    rfl
  · rw [Function.iterate_succ_apply']
    rfl
  · rw [(hsame n).1]
    rfl
  · unfold MayRunIn
    rw [(hsame n).1, ((hsame n).2 c).2]
    rfl

/-- Containers 1 and 2 are alive, and slots 0 and 1 are `RUNNABLE` processes of the host. -/
def twoByTwo : State where
  ptable := PTable.userinit.modify 1 fun p => { p with pid := 2, state := .runnable }
  containers := ContainerTable.containerInit.getContainer.2.getContainer.2

/-- Two rounds are one of each container, and of four rounds those of container 1 run both
slots. -/
theorem scheduler_round_robin_twoByTwo :
    [containerOf twoByTwo, containerOf (nextRound twoByTwo)].Perm [1, 2] ∧
      (((List.range' 0 4).filter fun j => containerOf (nextRound^[j] twoByTwo) = 1).map
        fun j => selected (nextRound^[j] twoByTwo)).Perm [some 0, some 1] := by
  obtain ⟨hcontainers, hslots⟩ :=
    scheduler_round_robin _ (steadyRun_nextRound twoByTwo) (by decide +kernel)
  exact ⟨hcontainers 0, hslots 1 (by decide +kernel) 0 4 (by decide +kernel)⟩

end Kernel
end Xv6
