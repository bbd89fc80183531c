/-
# Room in the log

`mkfs` writes `log.size = LOGSIZE` (`xv6/mkfs.c`, line 25), and one of these
blocks is the header, so that `log_write` has `LOGSIZE - 1` blocks to give away
while `begin_op` reckons with `LOGSIZE`.

`claimed` counts the blocks in the log and those that the operations in
progress may still add.  No step raises it but `begin_op`; as long as that
leaves it below `LOGSIZE - 1` the test of `log_write` never fails
(`log_write_never_panics`).  `begin_op` itself lets it reach `LOGSIZE`
(`three_full_operations_panic`).
-/

import Xv6.Lib.Run
import Xv6.Log.Operations

namespace Xv6
namespace Log

open Lib

/-- The blocks that an operation may still add to those logged. -/
def Operation.room (logged : List ℕ) (op : Operation) : ℕ :=
  MAXOPBLOCKS - op.blocks.length +
    match op.pending with
    | none => 0
    | some b => if b ∈ logged then 0 else 1

/-- The blocks in the log and those that may still come. -/
def Shared.claimed (s : Shared) : ℕ :=
  s.log.m.lh.n + (s.ops.map (Operation.room s.log.logged)).sum

/-- `begin_op` leaves less than `LOGSIZE - 1` blocks claimed. -/
def LeavesRoom (s : Shared) : Action → Prop
  | .beginOp => s.claimed + MAXOPBLOCKS < LOGSIZE - 1
  | _ => True

instance (s : Shared) (a : Action) : Decidable (LeavesRoom s a) := by
  unfold LeavesRoom
  split <;> infer_instance

/-! ### What is claimed -/

/-- The place of an operation in the list, and what the list is without it. -/
theorem exists_split {ops : List Operation} {j : ℕ} {op : Operation} (h : ops[j]? = some op) :
    ∃ l₁ l₂, ops = l₁ ++ op :: l₂ ∧ (∀ x, ops.set j x = l₁ ++ x :: l₂) ∧
      ops.eraseIdx j = l₁ ++ l₂ := by
  obtain ⟨hj, hget⟩ := List.getElem?_eq_some_iff.1 h
  refine ⟨ops.take j, ops.drop (j + 1), ?_, fun x => ?_, List.eraseIdx_eq_take_drop_succ ops j⟩
  · rw [← hget, List.cons_getElem_drop_succ, List.take_append_drop]
  · rw [List.set_eq_take_append_cons_drop, if_pos hj]

/-- More logged blocks leave an operation no more room. -/
theorem Operation.room_anti {logged logged' : List ℕ} (h : ∀ b ∈ logged, b ∈ logged')
    (op : Operation) : op.room logged' ≤ op.room logged := by
  unfold Operation.room
  split
  · exact Nat.le_refl _
  next b hb =>
    by_cases hold : b ∈ logged
    · exact Nat.le_of_eq (by rw [if_pos hold, if_pos (h b hold)])
    · rw [if_neg hold]
      split <;> omega

theorem sum_room_anti {logged logged' : List ℕ} (h : ∀ b ∈ logged, b ∈ logged')
    (ops : List Operation) :
    (ops.map (Operation.room logged')).sum ≤ (ops.map (Operation.room logged)).sum := by
  induction ops with
  | nil => exact Nat.le_refl _
  | cons op ops ih =>
    have hop := op.room_anti h
    rw [List.map_cons, List.sum_cons, List.map_cons, List.sum_cons]
    omega

/-- **The reservation invariant.** -/
structure Reserved (s : Shared) : Prop where
  size : s.log.m.size = LOGSIZE
  count : s.log.outstanding = s.ops.length
  quiet : s.log.committing = true → s.ops = []
  recorded : ∀ op ∈ s.ops, ∀ b ∈ op.blocks, b ∈ s.log.logged ∨ op.pending = some b
  claimed : s.claimed < LOGSIZE - 1

variable {s s' : Shared}

theorem Reserved.of_idle {m : Machine} (hsize : m.size = LOGSIZE) (hn : m.lh.n = 0) :
    Reserved (idle m) where
  size := hsize
  count := rfl
  quiet _ := rfl
  recorded op hop := absurd hop List.not_mem_nil
  claimed := by
    have : (idle m).claimed = m.lh.n := rfl
    rw [this, hn]
    decide

theorem Reserved.beginOp (h : Reserved s) (hok : LeavesRoom s .beginOp)
    (hs : step s .beginOp = some s') : Reserved s' := by
  obtain ⟨l, hl, rfl⟩ := Option.map_eq_some_iff.1 hs
  obtain ⟨hcom, rfl⟩ : s.log.committing = false ∧
      l = { s.log with outstanding := s.log.outstanding + 1 } := by
    unfold Session.beginOp at hl
    obtain ⟨hcom, hl⟩ := Option.ite_none_left_eq_some.1 hl
    split at hl
    · cases hl
    · exact ⟨by simpa using hcom, (Option.some.inj hl).symm⟩
  constructor
  · exact h.size
  · have := h.count
    simp only [List.length_append, List.length_singleton]
    omega
  · intro hc
    exact absurd (hc.symm.trans hcom) (by decide)
  · intro op hop b hb
    obtain hop | hop := List.mem_append.1 hop
    · exact h.recorded op hop b hb
    · obtain rfl := List.mem_singleton.1 hop
      exact absurd hb List.not_mem_nil
  · have hroom : s.claimed + MAXOPBLOCKS < LOGSIZE - 1 := hok
    have hnew : Operation.room s.log.logged ⟨[], none⟩ = MAXOPBLOCKS := rfl
    unfold Shared.claimed at hroom ⊢
    change s.log.m.lh.n + ((s.ops ++ [_]).map (Operation.room s.log.logged)).sum < _
    rw [List.map_append, List.sum_append, List.map_singleton, List.sum_singleton, hnew]
    omega

/-- A call of `log_write` takes its block out of the operation's quota. -/
theorem room_check {logged : List ℕ} {op : Operation} {b : ℕ} (hmay : op.MayWrite b)
    (hrec : ∀ x ∈ op.blocks, x ∈ logged ∨ op.pending = some x) :
    Operation.room logged ⟨op.blocks.insert b, some b⟩ ≤ op.room logged := by
  obtain ⟨hnone, hquota⟩ := hmay
  unfold Operation.room
  rw [hnone]
  dsimp only
  by_cases hb : b ∈ op.blocks
  · have hlogged : b ∈ logged := (hrec b hb).resolve_right (by rw [hnone]; exact nofun)
    exact Nat.le_of_eq (by rw [List.insert_of_mem hb, if_pos hlogged])
  · rw [List.insert_of_not_mem hb, List.length_cons] at hquota ⊢
    split <;> omega

theorem Reserved.check {j b : ℕ} (h : Reserved s) (hs : step s (.check j b) = some s') :
    Reserved s' := by
  unfold step at hs
  dsimp only at hs
  split at hs
  · cases hs
  next op hop =>
    obtain ⟨hmay, hs⟩ := Option.ite_none_right_eq_some.1 hs
    cases hs
    obtain ⟨l₁, l₂, hops, hset, -⟩ := exists_split hop
    have hrec := h.recorded op (by rw [hops]; simp)
    constructor
    · exact h.size
    · rw [h.count, List.length_set]
    · intro hc
      rw [h.quiet hc] at hops
      simp at hops
    · intro op' hop' x hx
      rw [hset, List.mem_append, List.mem_cons] at hop'
      obtain hop' | rfl | hop' := hop'
      · exact h.recorded op' (by rw [hops]; simp [hop']) x hx
      · obtain rfl | hx := List.mem_insert_iff.1 hx
        · exact .inr rfl
        · exact .inl ((hrec x hx).resolve_right (by rw [hmay.1.1]; exact nofun))
      · exact h.recorded op' (by rw [hops]; simp [hop']) x hx
    · have hroom := room_check hmay.1 hrec
      have hclaimed := h.claimed
      unfold Shared.claimed at hclaimed ⊢
      dsimp only
      rw [hops] at hclaimed
      rw [hset]
      simp only [List.map_append, List.map_cons, List.sum_append, List.sum_cons] at hclaimed ⊢
      omega

theorem Reserved.append {j : ℕ} {v : Block} (h : Reserved s)
    (hs : step s (.append j v) = some s') : Reserved s' := by
  unfold step at hs
  dsimp only at hs
  split at hs
  next blocks b hop =>
    cases hs
    obtain ⟨l₁, l₂, hops, hset, -⟩ := exists_split hop
    constructor
    · exact h.size
    · rw [List.length_set]
      exact h.count
    · intro hc
      rw [h.quiet hc] at hops
      simp at hops
    · intro op' hop' x hx
      rw [hset, List.mem_append, List.mem_cons] at hop'
      rw [Session.mem_logged_absorb]
      obtain hop' | rfl | hop' := hop'
      · exact (h.recorded op' (by rw [hops]; simp [hop']) x hx).imp_left .inl
      · obtain hx | hx := h.recorded ⟨blocks, some b⟩ (by rw [hops]; simp) x hx
        · exact .inl (.inl hx)
        · exact .inl (.inr (Option.some.inj hx).symm)
      · exact (h.recorded op' (by rw [hops]; simp [hop']) x hx).imp_left .inl
    · -- what the header gains, this operation's claim loses
      have hclaimed := h.claimed
      have hgrow : ∀ x ∈ s.log.logged, x ∈ (s.log.absorb b v).logged := fun x hx =>
        (Session.mem_logged_absorb s.log v).2 (.inl hx)
      have h₁ := sum_room_anti hgrow l₁
      have h₂ := sum_room_anti hgrow l₂
      have hn := Session.n_absorb s.log b v
      have hold : Operation.room s.log.logged ⟨blocks, some b⟩ =
          MAXOPBLOCKS - blocks.length + if b ∈ s.log.logged then 0 else 1 := rfl
      have hnew : Operation.room (s.log.absorb b v).logged ⟨blocks, none⟩ =
          MAXOPBLOCKS - blocks.length := rfl
      unfold Shared.claimed at hclaimed ⊢
      dsimp only
      rw [hops] at hclaimed
      rw [hset]
      simp only [List.map_append, List.map_cons, List.sum_append, List.sum_cons] at hclaimed ⊢
      omega
  · cases hs

theorem Reserved.endOp {j : ℕ} (h : Reserved s) (hs : step s (.endOp j) = some s') :
    Reserved s' := by
  unfold step at hs
  dsimp only at hs
  split at hs
  next blocks hop =>
    obtain ⟨l, hl, rfl⟩ := Option.map_eq_some_iff.1 hs
    obtain ⟨l₁, l₂, hops, -, herase⟩ := exists_split hop
    obtain rfl : l = { s.log with
        outstanding := s.log.outstanding - 1, committing := s.log.outstanding - 1 = 0 } := by
      unfold Session.endOp at hl
      split at hl
      · cases hl
      · exact (Option.some.inj hl).symm
    have hlen : s.ops.length = (l₁ ++ l₂).length + 1 := by
      rw [hops]
      simp only [List.length_append, List.length_cons]
      omega
    have hcount := h.count
    constructor
    · exact h.size
    · dsimp only
      rw [herase]
      omega
    · intro hc
      have hzero : s.log.outstanding - 1 = 0 := of_decide_eq_true hc
      dsimp only
      rw [herase]
      exact List.length_eq_zero_iff.1 (by omega)
    · intro op' hop' x hx
      rw [herase] at hop'
      refine h.recorded op' ?_ x hx
      rw [hops]
      obtain hop' | hop' := List.mem_append.1 hop' <;> simp [hop']
    · have hclaimed := h.claimed
      unfold Shared.claimed at hclaimed ⊢
      rw [hops] at hclaimed
      rw [herase]
      change s.log.m.lh.n + ((l₁ ++ l₂).map (Operation.room s.log.logged)).sum < _
      simp only [List.map_append, List.map_cons, List.sum_append, List.sum_cons] at hclaimed ⊢
      omega
  · cases hs

theorem Reserved.commit (h : Reserved s) (hs : step s .commit = some s') : Reserved s' := by
  unfold step at hs
  dsimp only at hs
  obtain ⟨hcom, hs⟩ := Option.ite_none_right_eq_some.1 hs
  cases hs
  obtain ⟨hn, hsize⟩ := s.log.m.commit_empties
  have hops := h.quiet hcom
  constructor
  · exact hsize.trans h.size
  · exact h.count
  · intro _
    exact hops
  · intro op hop
    rw [hops] at hop
    exact absurd hop List.not_mem_nil
  · unfold Shared.claimed
    dsimp only
    rw [hops]
    change s.log.m.commit.lh.n + 0 < _
    rw [hn]
    decide

theorem Reserved.step {a : Action} (h : Reserved s) (hok : LeavesRoom s a)
    (hs : Log.step s a = some s') : Reserved s' := by
  cases a with
  | beginOp => exact h.beginOp hok hs
  | check j b => exact h.check hs
  | append j v => exact h.append hs
  | endOp j => exact h.endOp hs
  | commit => exact h.commit hs

/-- A `log_write` that an operation in progress may make passes the tests. -/
def WritesPass (s : Shared) : Prop :=
  ∀ op ∈ s.ops, ∀ b, op.MayWrite b → s.log.checkWrite = .ok ()

/-- **The log never overflows.**  With `log.size = LOGSIZE`, in every run in which each
`begin_op` leaves less than `LOGSIZE - 1` blocks claimed, no `log_write` within its
operation's quota panics, and the header never counts more blocks than the log has. -/
theorem log_write_never_panics (m : Machine) (hsize : m.size = LOGSIZE) (hn : m.lh.n = 0)
    (s : Shared) (h : Reach step LeavesRoom (idle m) s) :
    WritesPass s ∧ s.log.m.lh.n ≤ s.log.m.size - 1 := by
  have hinv : Reserved s :=
    h.invariant (.of_idle hsize hn) fun _ _ _ hx hok hs => hx.step hok hs
  have hn : s.log.m.lh.n < LOGSIZE - 1 := by
    have := hinv.claimed
    unfold Shared.claimed at this
    omega
  refine ⟨fun op hop b _ => ?_, by rw [hinv.size]; omega⟩
  have hout : 1 ≤ s.log.outstanding := by
    rw [hinv.count]
    exact List.length_pos_of_mem hop
  unfold Session.checkWrite
  rw [hinv.size, if_neg (by omega), if_neg (by omega)]

/-- Two operations, the first of which has written one block. -/
theorem log_write_never_panics_two :
    ∃ s, Reach step LeavesRoom (idle (reboot 2 LOGSIZE fun _ _ => 0)) s ∧
    s.log.outstanding = 2 ∧ s.log.m.lh.n = 1 ∧ WritesPass s := by
  obtain ⟨s, hs, hout, hn⟩ : ∃ s, Reach step LeavesRoom (idle (reboot 2 LOGSIZE fun _ _ => 0)) s ∧
      s.log.outstanding = 2 ∧ s.log.m.lh.n = 1 :=
    exists_reach_of_any [.beginOp, .beginOp, .check 0 40, .append 0 fun _ => 0] (by decide +kernel)
  exact ⟨s, hs, hout, hn, (log_write_never_panics _ rfl rfl s hs).1⟩

/-- The steps by which an operation writes some blocks one after the other. -/
def writesOf (j : ℕ) (blocks : List ℕ) : List Action :=
  blocks.flatMap fun b => [.check j b, .append j fun _ => 0]

/-- **Three operations at full quota.**  They are all let in, and the thirtieth block is one
too many. -/
theorem three_full_operations_panic :
    ∃ s, Reach step anyStep (idle (reboot 2 LOGSIZE fun _ _ => 0)) s ∧
      (∃ op ∈ s.ops, op.MayWrite 129) ∧
      s.log.checkWrite = .error (.panic "too big a transaction") :=
  exists_reach_of_any
    ([.beginOp, .beginOp, .beginOp] ++ writesOf 0 (List.range' 100 10) ++
      writesOf 1 (List.range' 110 10) ++ writesOf 2 (List.range' 120 9)) (by decide +kernel)

end Log
end Xv6
