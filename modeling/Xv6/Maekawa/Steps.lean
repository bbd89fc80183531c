/-
# What one step does

The inversion lemmas of the model: `Handled` lists what `recvHandler` can do with a
message, `Shape` what a step of the system can do (`recvHandler_handled`,
`step_shape`).  Every invariant of the protocol is proved over these.
-/

import Xv6.Maekawa.System

namespace Xv6
namespace Maekawa

open Lib

/-- The records written when `writeTo` succeeds. -/
theorem writeTo_eq_some {P : ℕ} {dest : ℤ} {body : Body} {out : List Message}
    (h : writeTo P dest body = some out) : ∃ d : ℕ, dest = d ∧ out = [(d, body)] := by
  unfold writeTo at h
  split_ifs at h with hdest
  exact ⟨dest.toNat, (Int.toNat_of_nonneg hdest.1).symm, (Option.some.inj h).symm⟩

/-- What `recvHandler` does with a message: the new variables and what is written. -/
inductive Handled (n : Node) : Message → Node → List Message → Prop
  | grant {k : ℕ} {ts : ℤ} (hfree : n.processStatus ≠ 1) :
      Handled n (k, .request ts)
        { n with processStatus := 1, currentLockingRequest := ⟨k, ts⟩ } [(k, .locked)]
  | refuse {k : ℕ} {ts : ℤ} (hbusy : n.processStatus = 1)
      (hflag : scanFails (enqueueRequestQueue n.waitQueue ⟨k, ts⟩) ⟨k, ts⟩ = true ∨
        precedes n.currentLockingRequest ⟨k, ts⟩ = true) :
      Handled n (k, .request ts)
        { n with waitQueue := enqueueRequestQueue n.waitQueue ⟨k, ts⟩ } [(k, .failed)]
  | inquire {k : ℕ} {ts : ℤ} (d : ℕ) (hbusy : n.processStatus = 1)
      (hscan : scanFails (enqueueRequestQueue n.waitQueue ⟨k, ts⟩) ⟨k, ts⟩ = false)
      (hcurrent : precedes n.currentLockingRequest ⟨k, ts⟩ = false)
      (hd : n.currentLockingRequest.pid = d) :
      Handled n (k, .request ts)
        { n with waitQueue := enqueueRequestQueue n.waitQueue ⟨k, ts⟩ } [(d, .inquire)]
  | locked {k : ℕ} : Handled n (k, .locked) { n with lockedCount := n.lockedCount + 1 } []
  | failed {k : ℕ} : Handled n (k, .failed) { n with failedBit := true } []
  | ignore {k : ℕ} (hbit : n.failedBit = false) : Handled n (k, .inquire) n []
  | relinquish {k : ℕ} (hbit : n.failedBit = true) :
      Handled n (k, .inquire) { n with lockedCount := n.lockedCount - 1 } [(k, .relinquish)]
  | regrant {k : ℕ} (b : ℕ) (q : QueueRequest)
      (hrem : removeElementRequestQueue n.waitQueue
        (earliestFrom n.waitQueue n.currentLockingRequest).2 = some q)
      (hb : (earliestFrom n.waitQueue n.currentLockingRequest).1.pid = b) :
      Handled n (k, .relinquish)
        { n with
          waitQueue := enqueueRequestQueue q n.currentLockingRequest
          currentLockingRequest := (earliestFrom n.waitQueue n.currentLockingRequest).1
          processStatus := 1 } [(b, .locked)]
  | free {k : ℕ} (hempty : n.waitQueue.size = 0) :
      Handled n (k, .release)
        { n with processStatus := 0, currentLockingRequest := ⟨-1, -1⟩ } []
  | next {k : ℕ} (b : ℕ) (q : QueueRequest) (hne : n.waitQueue.size ≠ 0)
      (hrem : removeElementRequestQueue n.waitQueue (earliestWaiting n.waitQueue).2 = some q)
      (hb : (earliestWaiting n.waitQueue).1.pid = b) :
      Handled n (k, .release)
        { n with
          waitQueue := q
          currentLockingRequest := (earliestWaiting n.waitQueue).1
          processStatus := 1 } [(b, .locked)]
  | complete {k : ℕ} :
      Handled n (k, .complete) { n with completeAndStop := n.completeAndStop + 1 } []

variable {P : ℕ} {n n' : Node} {m : Message} {out : List Message}

theorem onRequest_handled {k : ℕ} {ts : ℤ} (h : n.onRequest P ⟨k, ts⟩ = some (n', out)) :
    Handled n (k, .request ts) n' out := by
  unfold Node.onRequest at h
  split_ifs at h with hfree
  · obtain ⟨ms, hms, heq⟩ := Option.map_eq_some_iff.1 h
    obtain ⟨d, hd, rfl⟩ := writeTo_eq_some hms
    obtain rfl := Int.ofNat.inj hd
    cases heq
    exact .grant hfree
  · obtain ⟨ms, hms, heq⟩ := Option.map_eq_some_iff.1 h
    cases heq
    split_ifs at hms with hflag
    · obtain ⟨d, hd, rfl⟩ := writeTo_eq_some hms
      obtain rfl := Int.ofNat.inj hd
      exact .refuse (not_not.1 hfree) (Bool.or_eq_true_iff.1 hflag)
    · obtain ⟨d, hd, rfl⟩ := writeTo_eq_some hms
      obtain ⟨hscan, hcurrent⟩ := Bool.or_eq_false_iff.1 (Bool.not_eq_true _ ▸ hflag)
      exact .inquire d (not_not.1 hfree) hscan hcurrent hd

theorem onInquire_handled {k : ℕ} (h : n.onInquire P k = some (n', out)) :
    Handled n (k, .inquire) n' out := by
  unfold Node.onInquire at h
  split_ifs at h with hbit
  · obtain ⟨ms, hms, heq⟩ := Option.map_eq_some_iff.1 h
    obtain ⟨d, hd, rfl⟩ := writeTo_eq_some hms
    obtain rfl := Int.ofNat.inj hd
    cases heq
    exact .relinquish hbit
  · cases h
    exact .ignore (Bool.not_eq_true _ ▸ hbit)

theorem onRelinquish_handled {k : ℕ} (h : n.onRelinquish P = some (n', out)) :
    Handled n (k, .relinquish) n' out := by
  obtain ⟨q, hrem, h⟩ := Option.bind_eq_some_iff.1 h
  obtain ⟨ms, hms, heq⟩ := Option.bind_eq_some_iff.1 h
  obtain ⟨d, hd, rfl⟩ := writeTo_eq_some hms
  cases heq
  exact .regrant d q hrem hd

theorem onRelease_handled {k : ℕ} (h : n.onRelease P = some (n', out)) :
    Handled n (k, .release) n' out := by
  unfold Node.onRelease at h
  split_ifs at h with hempty
  · cases h
    exact .free hempty
  · obtain ⟨q, hrem, h⟩ := Option.bind_eq_some_iff.1 h
    obtain ⟨ms, hms, heq⟩ := Option.bind_eq_some_iff.1 h
    obtain ⟨d, hd, rfl⟩ := writeTo_eq_some hms
    cases heq
    exact .next d q hempty hrem hd

/-- **What the handler can do.** -/
theorem recvHandler_handled (h : recvHandler P n m = some (n', out)) : Handled n m n' out := by
  obtain ⟨k, body⟩ := m
  cases body with
  | request ts => exact onRequest_handled h
  | locked =>
    cases h
    exact .locked
  | failed =>
    cases h
    exact .failed
  | inquire => exact onInquire_handled h
  | relinquish => exact onRelinquish_handled h
  | release => exact onRelease_handled h
  | complete =>
    cases h
    exact .complete

theorem Handled.pc_eq (h : Handled n m n' out) : n'.pc = n.pc := by
  cases h <;> rfl

theorem Handled.receive_pc (h : Handled n m n' out) {s : State} {i : ℕ} (hn : s.node i = n)
    (rest : List Message) (p : ℕ) : ((s.receive i rest n' out).node p).pc = (s.node p).pc :=
  update_field Node.pc (by rw [h.pc_eq, ← hn]; rfl) p

/-- A step of the system, by what it does. -/
inductive Shape (c : Config) (s : State) : Action → State → Prop
  | request (i : ℕ) (hi : i < c.P) (hpc : (s.node i).pc = .start) (hreq : c.requests i = true) :
      Shape c s (.start i)
        (s.turn i { s.node i with lockedCount := 0, pc := .acquiring } (sendRequest c i))
  | idle (i : ℕ) (hi : i < c.P) (hpc : (s.node i).pc = .start) :
      Shape c s (.start i) (s.turn i { s.node i with pc := .serving } [])
  | write (i : ℕ) {s' : State} (hnode : s'.node = s.node) (hbetween : s'.between = s.between) :
      Shape c s (.write i) s'
  | handle (i k : ℕ) {m : Body} {rest : List Message} {n : Node} {out : List Message}
      (hpipe : s.pipe i = (k, m) :: rest) (hreading : Reading c (s.node i))
      (hhandled : Handled (s.node i) (k, m) n out) :
      Shape c s (.handle i) (s.receive i rest n out)
  | enter (i : ℕ) (hpc : (s.node i).pc = .acquiring) (hcount : c.K ≤ (s.node i).lockedCount) :
      Shape c s (.enter i)
        (s.turn i { s.node i with lockedCount := c.K, processStatus := 1, pc := .critical } [])
  | leave (i : ℕ) (hpc : (s.node i).pc = .critical) :
      Shape c s (.leave i)
        (s.turn i { s.node i with pc := .serving } (releaseLockMaekawa c i ++ sendComplete c))

/-- **What a step can do.** -/
theorem step_shape {c : Config} {s s' : State} {a : Action} (h : step c s a = some s') :
    Shape c s a s' := by
  cases a with
  | start i =>
    simp only [step] at h
    split_ifs at h with hstart hreq
    · cases h
      exact .request i hstart.1 hstart.2 hreq
    · cases h
      exact .idle i hstart.1 hstart.2
  | write i => exact .write i (Network.write_node h) (Network.between_write h)
  | handle i =>
    simp only [step] at h
    split_ifs at h with hread
    split at h
    · cases h
    next m rest hpipe =>
      obtain ⟨⟨n, out⟩, hres, rfl⟩ := Option.map_eq_some_iff.1 h
      exact .handle i m.1 hpipe hread.2 (recvHandler_handled hres)
  | enter i =>
    simp only [step] at h
    split_ifs at h with henter
    cases h
    exact .enter i henter.2.1 henter.2.2
  | leave i =>
    simp only [step] at h
    split_ifs at h with hpc
    cases h
    exact .leave i hpc

end Maekawa
end Xv6
