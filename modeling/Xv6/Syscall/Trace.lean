/-
# The system call counters

`syscall` (`xv6/syscall.c`, lines 234-254) with its counters (lines 12-62), and
`sys_toggle` and `sys_print_count` (`xv6/sysproc.c`, lines 96-120), which are the
only calls that touch them.  A counter is a 32-bit `int`, and a call is one step.

There are 45 counters, for the calls `1` to `44`; the loops of the two calls go up to
`33`, and the number comes from the process as it is.
-/

import Xv6.Lib.Run
import Xv6.Param

namespace Xv6
namespace Syscall

open Lib

/-- `numToCall`. -/
def numToCall : List String :=
  ["random", "sys_fork", "sys_exit", "sys_wait", "sys_pipe", "sys_read", "sys_kill", "sys_exec",
    "sys_fstat", "sys_chdir", "sys_dup", "sys_getpid", "sys_sbrk", "sys_sleep", "sys_uptime",
    "sys_open", "sys_write", "sys_mknod", "sys_unlink", "sys_link", "sys_mkdir", "sys_close",
    "sys_toggle", "sys_add", "sys_ps", "sys_send", "sys_recv", "sys_print_count",
    "sys_send_multi", "sys_signal", "sys_sigraise", "sys_halt", "sys_recv_multi",
    "sys_change_state", "sys_create_container", "sys_destroy_container", "sys_join_container",
    "sys_leave_container", "sys_scheduler_log_on", "sys_scheduler_log_off",
    "sys_container_malloc", "sys_memory_log_on", "sys_memory_log_off",
    "sys_get_file_container_id", "sys_get_container_id"]

/-- `NELEM(syscalls)`, and the number of counters. -/
def NSYSCALL : ℕ := 45

def SYS_toggle : ℤ := 22
def SYS_print_count : ℤ := 27

/-- An `int` after overflow. -/
def wrap (x : ℤ) : ℤ := (x + 2 ^ 31) % 2 ^ 32 - 2 ^ 31

theorem wrap_of_lt {x : ℤ} (h : 0 ≤ x) (h' : x < 2 ^ 31) : wrap x = x := by
  unfold wrap
  omega

/-- `sys_trace` and `syscall_trace`. -/
structure State where
  sysTrace : Bool
  syscallTrace : ℕ → ℤ

namespace State

/-- One more of the call `n`. -/
def add (s : State) (n : ℕ) : State :=
  { s with syscallTrace := Function.update s.syscallTrace n (wrap (s.syscallTrace n + 1)) }

/-- `syscall_trace[num] += 1`. -/
def count (s : State) (num : ℤ) : Except Halt State :=
  if 0 ≤ num ∧ num < NSYSCALL then .ok (s.add num.toNat) else .error .wild

/-- `sys_toggle`. -/
def sysToggle (s : State) : State :=
  if s.sysTrace then { s with sysTrace := false }
  else { sysTrace := true, syscallTrace := fun i => if i < 34 then 0 else s.syscallTrace i }

/-- What `sys_print_count` prints for one counter. -/
def line (s : State) (i : ℕ) : String :=
  numToCall.getD i "" ++ " " ++ toString (s.syscallTrace i) ++ "\n"

/-- The lines that `sys_print_count` prints. -/
def sysPrintCount (s : State) : List String :=
  ((List.range' 1 33).filter fun i => s.syscallTrace i ≠ 0).map s.line

/-- `syscall`: the counters after the call, and what it prints of them. -/
def syscall (s : State) (num : ℤ) : Except Halt (State × List String) := do
  let s ← if s.sysTrace then s.count num else .ok s
  if num = SYS_toggle then .ok (s.sysToggle, [])
  else if num = SYS_print_count then .ok (s, s.sysPrintCount)
  else .ok (s, [])

end State

/-- The counters, and the calls since tracing was last switched on. -/
structure History where
  state : State
  since : List ℤ

/-- Tracing is off, and no call has been made. -/
def boot : History := ⟨⟨false, fun _ => 0⟩, []⟩

/-- Some process makes the call `num`. -/
def step (h : History) (num : ℤ) : Option History :=
  match h.state.syscall num with
  | .error _ => none
  | .ok (s, _) =>
    some ⟨s, if num = SYS_toggle ∧ s.sysTrace = true then [] else h.since ++ [num]⟩

/-- A call that is traced has a counter that the two loops reach, and the counter has room. -/
def Allowed (h : History) (num : ℤ) : Prop :=
  h.state.sysTrace = true → 0 ≤ num ∧ num < 34 ∧ h.since.count num + 1 < 2 ^ 31

instance (h : History) (num : ℤ) : Decidable (Allowed h num) :=
  inferInstanceAs (Decidable (_ → _))

/-- While tracing is on, each counter is the number of calls; the last eleven are `0`. -/
structure Counts (h : History) : Prop where
  on : h.state.sysTrace = true → ∀ n : ℕ, h.state.syscallTrace n = h.since.count (n : ℤ)
  high : ∀ n, 34 ≤ n → h.state.syscallTrace n = 0

section

variable {h : History} {s : State} {num : ℤ}

/-! ### One call -/

theorem syscall_off (hoff : s.sysTrace = false) :
    s.syscall num = .ok (if num = SYS_toggle then s.sysToggle else s,
      if num = SYS_print_count then s.sysPrintCount else []) := by
  unfold State.syscall
  rw [hoff, if_neg Bool.false_ne_true, ok_bind]
  split
  · rename_i htoggle
    rw [if_neg (by rw [htoggle]; decide)]
  · split <;> rfl

theorem syscall_on (hon : s.sysTrace = true) (h0 : 0 ≤ num) (hlt : num < NSYSCALL) :
    ∃ t printed, s.syscall num = .ok (t, printed) ∧
      (num = SYS_toggle → t.sysTrace = false) ∧ (num ≠ SYS_toggle → t.sysTrace = true) ∧
      t.syscallTrace = (s.add num.toNat).syscallTrace := by
  have hcount : s.count num = .ok (s.add num.toNat) := if_pos ⟨h0, hlt⟩
  unfold State.syscall
  rw [if_pos hon, hcount, ok_bind]
  dsimp only
  by_cases htoggle : num = SYS_toggle
  · have hoff : (s.add num.toNat).sysToggle = { s.add num.toNat with sysTrace := false } :=
      if_pos hon
    rw [if_pos htoggle, hoff]
    exact ⟨_, _, rfl, fun _ => rfl, fun hne => absurd htoggle hne, rfl⟩
  · rw [if_neg htoggle]
    split
    · exact ⟨_, _, rfl, fun he => absurd he htoggle, fun _ => hon, rfl⟩
    · exact ⟨_, _, rfl, fun he => absurd he htoggle, fun _ => hon, rfl⟩

/-- A traced call with any other number leaves the array. -/
theorem syscall_wild (hon : s.sysTrace = true) (hnum : ¬ (0 ≤ num ∧ num < NSYSCALL)) :
    s.syscall num = .error .wild := by
  have hcount : s.count num = .error .wild := if_neg hnum
  unfold State.syscall
  rw [if_pos hon, hcount]
  rfl

theorem exists_syscall (hok : Allowed h num) : ∃ r, h.state.syscall num = .ok r := by
  cases htrace : h.state.sysTrace with
  | false => exact ⟨_, syscall_off htrace⟩
  | true =>
    obtain ⟨h0, hlt, -⟩ := hok htrace
    obtain ⟨t, printed, hrun, -⟩ := syscall_on htrace h0 (Int.lt_trans hlt (by decide))
    exact ⟨_, hrun⟩

/-! ### Runs -/

theorem counts_boot : Counts boot := ⟨fun hon => (nomatch hon), fun _ _ => rfl⟩

/-- **A call that is traced adds one to its counter, and one that switches tracing on clears
them all.** -/
theorem Counts.step {h' : History} (hc : Counts h) (hok : Allowed h num)
    (hstep : step h num = some h') : Counts h' := by
  unfold Syscall.step at hstep
  cases htrace : h.state.sysTrace with
  | false =>
    rw [syscall_off htrace] at hstep
    cases hstep
    by_cases htoggle : num = SYS_toggle
    · -- the counters that are cleared, and those that were `0`
      have hcleared : ∀ n, h.state.sysToggle.syscallTrace n = 0 := by
        intro n
        unfold State.sysToggle
        rw [htrace, if_neg Bool.false_ne_true]
        dsimp only
        split
        · rfl
        · exact hc.high n (by omega)
      have hon : h.state.sysToggle.sysTrace = true := by
        unfold State.sysToggle
        rw [htrace, if_neg Bool.false_ne_true]
      simp only [htoggle, if_true]
      constructor
      case on =>
        intro _ n
        rw [if_pos ⟨trivial, hon⟩]
        exact hcleared n
      case high => exact fun n _ => hcleared n
    · simp only [if_neg htoggle]
      exact ⟨fun hon => absurd (htrace.symm.trans hon) Bool.false_ne_true, hc.high⟩
  | true =>
    obtain ⟨h0, hlt, hroom⟩ := hok htrace
    obtain ⟨t, printed, hrun, hoff, hon, htr⟩ := syscall_on htrace h0 (Int.lt_trans hlt (by decide))
    rw [hrun] at hstep
    cases hstep
    have hcounter : h.state.syscallTrace num.toNat = h.since.count num := by
      have := hc.on htrace num.toNat
      rwa [Int.toNat_of_nonneg h0] at this
    constructor
    case on =>
      intro htr' n
      dsimp only at htr' ⊢
      have hne : num ≠ SYS_toggle := by
        intro htoggle
        exact Bool.false_ne_true ((hoff htoggle).symm.trans htr')
      rw [if_neg fun hand => hne hand.1, htr, List.count_append, List.count_singleton, State.add]
      dsimp only
      by_cases hn : n = num.toNat
      · have hcast : (n : ℤ) = num := by rw [hn, Int.toNat_of_nonneg h0]
        rw [hn, Function.update_self, hcounter, wrap_of_lt (by omega) (by omega),
          Int.toNat_of_nonneg h0, if_pos (beq_self_eq_true num)]
        rfl
      · have hcast : ¬ (num == (n : ℤ)) = true := by
          rw [beq_iff_eq]
          omega
        rw [Function.update_of_ne hn, if_neg hcast]
        exact hc.on htrace n
    case high =>
      intro n hn
      dsimp only
      rw [htr, State.add]
      dsimp only
      rw [Function.update_of_ne (by omega)]
      exact hc.high n hn

/-- **The counters count**: while tracing is on, the counter of a call is the number of times it
was made since tracing was switched on, and it is printed unless it is `0`; and a call goes to no
counter that is not there. -/
theorem trace_counts (t : History) (h : Reach step Allowed boot t) :
    (t.state.sysTrace = true → ∀ n : ℕ, 0 < n → n < NSYSCALL →
      t.state.syscallTrace n = t.since.count (n : ℤ) ∧
      (t.state.syscallTrace n ≠ 0 → t.state.line n ∈ t.state.sysPrintCount)) ∧
    ∀ num, Allowed t num → ∃ r, t.state.syscall num = .ok r := by
  have hcounts : Counts t :=
    h.invariant (I := Counts) counts_boot fun _ _ _ hc hok hstep => hc.step hok hstep
  refine ⟨fun hon n hpos _ => ⟨hcounts.on hon n, fun hne => ?_⟩, fun num => exists_syscall⟩
  have hlt : n < 34 := by
    by_contra hge
    exact hne (hcounts.high n (by omega))
  refine List.mem_map_of_mem (List.mem_filter.2 ⟨?_, decide_eq_true hne⟩)
  rw [List.mem_range'_1]
  omega

/-- Tracing is switched on, and `getpid` is called twice. -/
theorem trace_counts_getpid : ∃ t, Reach step Allowed boot t ∧ t.since = [11, 11] ∧
    t.state.syscallTrace 11 = 2 ∧ t.state.line 11 ∈ t.state.sysPrintCount := by
  obtain ⟨t, ht, htrace, hsince⟩ : ∃ t, Reach step Allowed boot t ∧
      t.state.sysTrace = true ∧ t.since = [11, 11] :=
    exists_reach_of_any [22, 11, 11] (by decide +kernel)
  obtain ⟨hcount, hprinted⟩ := (trace_counts t ht).1 htrace 11 (by decide) (by decide)
  rw [hsince] at hcount
  have htwo : t.state.syscallTrace 11 = 2 := hcount
  exact ⟨t, ht, hsince, htwo, hprinted (by rw [htwo]; decide)⟩

/-- A call with a high number is counted, but its counter is not printed and not cleared; and any
number at all is taken for that of a counter. -/
theorem trace_miscounts : ∃ t, Reach step anyStep boot t ∧ t.state.sysTrace = true ∧
    t.since.count 34 = 0 ∧ t.state.syscallTrace 34 = 1 ∧ t.state.sysPrintCount = [] ∧
    t.state.syscall 45 = .error .wild ∧ t.state.syscall (-1) = .error .wild := by
  obtain ⟨t, ht, htrace, hsince, hcount, hprinted⟩ : ∃ t, Reach step anyStep boot t ∧
      t.state.sysTrace = true ∧ t.since.count 34 = 0 ∧ t.state.syscallTrace 34 = 1 ∧
      t.state.sysPrintCount = [] :=
    exists_reach_of_any [22, 34, 22, 22] (by decide +kernel)
  exact ⟨t, ht, htrace, hsince, hcount, hprinted, syscall_wild htrace (by decide),
    syscall_wild htrace (by decide)⟩

end

end Syscall
end Xv6
