/-
# What an arbiter keeps

One arbiter of `xv6/maekawa.c` and the messages it gets (`recvHandler`, lines
232-390, with the queue functions of lines 74-152).  `Arbitrates` is what holds
after any messages: the ring is well formed, and the current request is one that
was granted.

The requests that an arbiter has are the current one and those that wait
(`Node.held`).  `arbiter_conserves` says what each of `REQUEST`, `RELEASE` and
`RELINQUISH` does to them, where the queue does what it is asked for
(`QueueHolds`).  It does not in two cases: `removeElementRequestQueue` leaves a
ring that wraps around as it is, and `RELINQUISH` puts the current request into
the queue also when no request that waits precedes it, and so has it twice.
-/

import Xv6.Lib.Run
import Xv6.Maekawa.Steps
import Xv6.Maekawa.WaitQueue

namespace Xv6
namespace Maekawa

open Lib

variable {P k : ℕ} {n n' : Node} {m : Message} {out : List Message}

/-- One message, handled to its end. -/
def handle (P : ℕ) (n : Node) (m : Message) : Option Node := (recvHandler P n m).map Prod.fst

/-! ### After any messages -/

/-- The ring is well formed; without a current request nothing waits, and the current request
is a child's. -/
structure Arbitrates (P : ℕ) (n : Node) : Prop where
  wf : n.waitQueue.Wf MAXQSize
  idle : n.processStatus ≠ 1 → n.waitQueue.size = 0 ∧ n.currentLockingRequest.pid = -1
  holder : n.processStatus = 1 →
    0 ≤ n.currentLockingRequest.pid ∧ n.currentLockingRequest.pid < P

theorem arbitrates_init (P k : ℕ) : Arbitrates P (Node.init k) where
  wf := ⟨Nat.zero_le _, (by decide : 0 < MAXQSize), rfl⟩
  idle _ := ⟨rfl, rfl⟩
  holder h := absurd h (by decide : ¬ 0 = 1)

theorem writeTo_lt {dest : ℤ} {body : Body} (h : writeTo P dest body = some out) :
    0 ≤ dest ∧ dest < P := by
  unfold writeTo at h
  split at h
  · assumption
  · cases h

/-- The place at which the loop of `RELINQUISH` ends. -/
theorem earliestFrom_place (q : QueueRequest) (current : Request) :
    (earliestFrom q current).2 = -1 ∨ ∃ k, AtPlace q (earliestFrom q current) k := by
  obtain heq | ⟨k, hk, -⟩ := (earliestFrom_spec q current).1
  · exact .inl (by rw [heq])
  · exact .inr ⟨k, hk⟩

theorem Arbitrates.enqueue (h : Arbitrates P n) (r : Request) (hbusy : n.processStatus = 1) :
    Arbitrates P { n with waitQueue := enqueueRequestQueue n.waitQueue r } :=
  ⟨enqueueRequestQueue_wf h.wf r, fun hne => absurd hbusy hne, h.holder⟩

/-- **Every message leaves an arbiter in order.** -/
theorem Arbitrates.recvHandler (h : Arbitrates P n)
    (hrecv : recvHandler P n m = some (n', out)) : Arbitrates P n' := by
  obtain ⟨sender, body⟩ := m
  cases body with
  | request ts =>
    change n.onRequest P ⟨sender, ts⟩ = _ at hrecv
    unfold Node.onRequest at hrecv
    split at hrecv
    · obtain ⟨ms, hms, heq⟩ := Option.map_eq_some_iff.1 hrecv
      cases heq
      exact ⟨h.wf, fun hne => absurd rfl hne, fun _ => writeTo_lt hms⟩
    next hbusy =>
      obtain ⟨ms, -, heq⟩ := Option.map_eq_some_iff.1 hrecv
      cases heq
      exact h.enqueue _ (not_not.1 hbusy)
  | locked | failed | complete =>
    cases hrecv
    exact ⟨h.wf, h.idle, h.holder⟩
  | inquire =>
    have hh := recvHandler_handled hrecv
    cases hh <;> exact ⟨h.wf, h.idle, h.holder⟩
  | relinquish =>
    obtain ⟨q, hrem, hrecv⟩ := Option.bind_eq_some_iff.1 hrecv
    obtain ⟨ms, hms, heq⟩ := Option.bind_eq_some_iff.1 hrecv
    cases heq
    obtain ⟨hqwf, -⟩ := removeElementRequestQueue_subset h.wf (earliestFrom_place ..) hrem
    exact ⟨enqueueRequestQueue_wf hqwf _, fun hne => absurd rfl hne, fun _ => writeTo_lt hms⟩
  | release =>
    change n.onRelease P = _ at hrecv
    unfold Node.onRelease at hrecv
    split at hrecv
    next hempty =>
      cases hrecv
      exact ⟨h.wf, fun _ => ⟨hempty, rfl⟩, fun h => absurd h (by decide : ¬ 0 = 1)⟩
    next hne =>
      obtain ⟨q, hrem, hrecv⟩ := Option.bind_eq_some_iff.1 hrecv
      obtain ⟨ms, hms, heq⟩ := Option.bind_eq_some_iff.1 hrecv
      cases heq
      obtain ⟨hqwf, -⟩ :=
        removeElementRequestQueue_subset h.wf (.inr (earliestWaiting_spec h.wf hne).1) hrem
      exact ⟨hqwf, fun hne => absurd rfl hne, fun _ => writeTo_lt hms⟩

theorem arbitrates_of_reach {ok : Node → Message → Prop}
    (h : Reach (handle P) ok (Node.init k) n) : Arbitrates P n := by
  refine h.invariant (arbitrates_init P k) fun x m y hx _ hs => ?_
  obtain ⟨⟨n', out⟩, hrecv, rfl⟩ := Option.map_eq_some_iff.1 hs
  exact hx.recvHandler hrecv

/-! ### The requests of an arbiter -/

/-- The requests that an arbiter has: the current one and those that wait. -/
def Node.held (n : Node) : Multiset Request :=
  (if n.processStatus = 1 then {n.currentLockingRequest} else 0) + (waiting n.waitQueue)

theorem Node.held_of_busy (h : n.processStatus = 1) :
    n.held = (n.currentLockingRequest :: waiting n.waitQueue : List Request) := by
  rw [held, if_pos h, Multiset.singleton_add, Multiset.cons_coe]

theorem Node.held_of_free (h : n.processStatus ≠ 1) (hempty : n.waitQueue.size = 0) :
    n.held = 0 := by
  rw [held, if_neg h, waiting, (RingBuffer.contents_eq_nil_iff MAXQSize _).2 hempty]
  rfl

/-- One of the requests that no other one precedes. -/
def Least (r : Request) (l : List Request) : Prop := r ∈ l ∧ ∀ x ∈ l, precedes x r = false

instance (r : Request) (l : List Request) : Decidable (Least r l) :=
  inferInstanceAs (Decidable (_ ∧ _))

theorem precedes_eq_false {a b : Request} : precedes a b = false ↔ b.key ≤ a.key := by
  rw [← not_lt, ← precedes_iff, Bool.not_eq_true]

/-- What the queue is asked for, where it does it: a `REQUEST` finds room; `RELEASE` and
`RELINQUISH` find a ring that can lose an element; and `RELINQUISH` comes while a request is
current and one that precedes it waits. -/
def QueueHolds (P : ℕ) (n : Node) : Message → Prop
  | (sender, .request _) => sender < P ∧ n.waitQueue.size < MAXQSize
  | (_, .release) => Removable n.waitQueue
  | (_, .relinquish) => n.processStatus = 1 ∧ Removable n.waitQueue ∧
      ∃ r ∈ waiting n.waitQueue, precedes r n.currentLockingRequest = true
  | _ => False

instance (P : ℕ) (n : Node) (m : Message) : Decidable (QueueHolds P n m) :=
  match m with
  | (_, .request _) => inferInstanceAs (Decidable (_ ∧ _))
  | (_, .release) => inferInstanceAs (Decidable (Removable _))
  | (_, .relinquish) => inferInstanceAs (Decidable (_ ∧ _ ∧ _))
  | (_, .locked) | (_, .inquire) | (_, .failed) | (_, .complete) =>
    inferInstanceAs (Decidable False)

/-- What a message does to the requests.  `REQUEST` adds one.  `RELEASE` drops the current one
and takes a least one out of the queue, if any waits.  `RELINQUISH` makes a least one current
and keeps all. -/
def Conserves (n : Node) (m : Message) (n' : Node) : Prop :=
  match m with
  | (sender, .request timeStamp) => n'.held = ⟨sender, timeStamp⟩ ::ₘ n.held
  | (_, .release) =>
      if n.waitQueue.size = 0 then n'.held = 0
      else n'.processStatus = 1 ∧ Least n'.currentLockingRequest (waiting n.waitQueue) ∧
        ∃ i, (waiting n.waitQueue)[i]? = some n'.currentLockingRequest ∧
          waiting n'.waitQueue = (waiting n.waitQueue).eraseIdx i
  | (_, .relinquish) => n'.processStatus = 1 ∧ n'.held = n.held ∧
      Least n'.currentLockingRequest (n.currentLockingRequest :: waiting n.waitQueue)
  | _ => True

/-- All requests of an arbiter are children's. -/
def OfChildren (P : ℕ) (n : Node) : Prop := ∀ r ∈ waiting n.waitQueue, 0 ≤ r.pid ∧ r.pid < P

theorem writeTo_eq {dest : ℤ} (h : 0 ≤ dest ∧ dest < P) (body : Body) :
    writeTo P dest body = some [(dest.toNat, body)] := if_pos h

theorem Arbitrates.request {sender : ℕ} {ts : ℤ} (h : Arbitrates P n) (hsender : sender < P)
    (hroom : n.waitQueue.size < MAXQSize) :
    ∃ n' out, Maekawa.recvHandler P n (sender, .request ts) = some (n', out) ∧
      Conserves n (sender, .request ts) n' ∧
      (∀ r ∈ waiting n'.waitQueue, r ∈ waiting n.waitQueue ∨ r = ⟨sender, ts⟩) := by
  have hdest : (0 : ℤ) ≤ sender ∧ (sender : ℤ) < P := by omega
  change ∃ n' out, n.onRequest P ⟨sender, ts⟩ = some (n', out) ∧ _
  unfold Node.onRequest
  split
  next hfree =>
    rw [writeTo_eq hdest]
    refine ⟨_, _, rfl, ?_, fun r hr => .inl hr⟩
    have hnil := (RingBuffer.contents_eq_nil_iff MAXQSize _).2 (h.idle hfree).1
    unfold Conserves
    dsimp only
    rw [Node.held_of_free hfree (h.idle hfree).1, Node.held_of_busy (by rfl)]
    change ((⟨sender, ts⟩ :: waiting n.waitQueue : List Request) : Multiset Request) = _
    rw [waiting, hnil]
    rfl
  next hbusy =>
    have hbusy := not_not.1 hbusy
    have hheld : Conserves n (sender, .request ts)
        { n with waitQueue := enqueueRequestQueue n.waitQueue ⟨sender, ts⟩ } := by
      unfold Conserves
      dsimp only
      rw [Node.held_of_busy hbusy, Node.held_of_busy (by exact hbusy), Multiset.cons_coe]
      dsimp only
      rw [waiting_enqueueRequestQueue h.wf hroom, Multiset.coe_eq_coe, ← List.cons_append]
      exact List.perm_append_singleton ..
    have hin : ∀ r ∈ waiting (enqueueRequestQueue n.waitQueue ⟨sender, ts⟩),
        r ∈ waiting n.waitQueue ∨ r = ⟨sender, ts⟩ := fun r hr =>
      mem_waiting_enqueueRequestQueue h.wf hr
    dsimp only
    split
    · rw [writeTo_eq hdest]
      exact ⟨_, _, rfl, hheld, hin⟩
    · rw [writeTo_eq (h.holder hbusy)]
      exact ⟨_, _, rfl, hheld, hin⟩

theorem Arbitrates.release {sender : ℕ} (h : Arbitrates P n) (hpids : OfChildren P n)
    (hrem : Removable n.waitQueue) :
    ∃ n' out, Maekawa.recvHandler P n (sender, .release) = some (n', out) ∧
      Conserves n (sender, .release) n' ∧
      (∀ r ∈ waiting n'.waitQueue, r ∈ waiting n.waitQueue) := by
  change ∃ n' out, n.onRelease P = some (n', out) ∧ _
  unfold Node.onRelease
  split
  next hempty =>
    refine ⟨_, _, rfl, ?_, fun r hr => hr⟩
    unfold Conserves
    dsimp only
    rw [if_pos hempty]
    exact Node.held_of_free (by decide : 0 ≠ 1) hempty
  next hne =>
    obtain ⟨⟨k, hk⟩, hleast⟩ := earliestWaiting_spec h.wf hne
    obtain ⟨q, hq, hqwf, -, herase⟩ := removeElementRequestQueue_erases h.wf hrem hk
    have hwrite := writeTo_eq (hpids _ hk.mem) .locked
    refine ⟨{ n with
        waitQueue := q
        currentLockingRequest := (earliestWaiting n.waitQueue).1
        processStatus := 1 }, _,
      Option.bind_eq_some_iff.2 ⟨q, hq, Option.bind_eq_some_iff.2 ⟨_, hwrite, rfl⟩⟩, ?_, ?_⟩
    · unfold Conserves
      dsimp only
      rw [if_neg hne]
      exact ⟨rfl, ⟨hk.mem, fun x hx => precedes_eq_false.2 (hleast x hx)⟩, k, hk.getElem?,
        herase⟩
    · intro r hr
      dsimp only at hr
      rw [herase] at hr
      exact List.mem_of_mem_eraseIdx hr

theorem Arbitrates.relinquish {sender : ℕ} (h : Arbitrates P n) (hpids : OfChildren P n)
    (hbusy : n.processStatus = 1) (hrem : Removable n.waitQueue)
    (hearlier : ∃ r ∈ waiting n.waitQueue, precedes r n.currentLockingRequest = true) :
    ∃ n' out, Maekawa.recvHandler P n (sender, .relinquish) = some (n', out) ∧
      Conserves n (sender, .relinquish) n' ∧
      (∀ r ∈ waiting n'.waitQueue, r ∈ waiting n.waitQueue ∨ r = n.currentLockingRequest) := by
  obtain ⟨hfound, hleast⟩ := earliestFrom_spec n.waitQueue n.currentLockingRequest
  -- a request that waits comes first, so the loop leaves the current one
  obtain ⟨k, hk, hlt⟩ := hfound.resolve_left fun heq => by
    obtain ⟨r, hr, hprec⟩ := hearlier
    have hle := hleast r hr
    rw [heq] at hle
    exact absurd ((precedes_iff _ _).1 hprec) (not_lt.2 hle)
  obtain ⟨q, hq, hqwf, hsize, hperm⟩ := removeElementRequestQueue_spec h.wf hrem hk
  have hwrite := writeTo_eq (hpids _ hk.mem) .locked
  have hwaits := waiting_enqueueRequestQueue hqwf hsize n.currentLockingRequest
  refine ⟨{ n with
      waitQueue := enqueueRequestQueue q n.currentLockingRequest
      currentLockingRequest := (earliestFrom n.waitQueue n.currentLockingRequest).1
      processStatus := 1 }, _,
    Option.bind_eq_some_iff.2 ⟨q, hq, Option.bind_eq_some_iff.2 ⟨_, hwrite, rfl⟩⟩,
    ⟨rfl, ?_, List.mem_cons_of_mem _ hk.mem, ?_⟩, fun r hr => ?_⟩
  · rw [Node.held_of_busy hbusy, Node.held_of_busy (by rfl), Multiset.coe_eq_coe]
    dsimp only
    rw [hwaits, ← List.cons_append]
    exact (List.perm_append_singleton ..).trans (hperm.symm.cons _)
  · intro x hx
    obtain rfl | hx := List.mem_cons.1 hx
    · exact precedes_eq_false.2 hlt.le
    · exact precedes_eq_false.2 (hleast x hx)
  · dsimp only at hr
    rw [hwaits] at hr
    obtain hr | hr := List.mem_append.1 hr
    · exact .inl (hperm.symm.subset (List.mem_cons_of_mem _ hr))
    · exact .inr (List.mem_singleton.1 hr)

/-- One message, where the queue does what it is asked for. -/
theorem Arbitrates.conserves (h : Arbitrates P n) (hpids : OfChildren P n)
    (hok : QueueHolds P n m) :
    ∃ n' out, Maekawa.recvHandler P n m = some (n', out) ∧ Conserves n m n' ∧
      OfChildren P n' := by
  obtain ⟨sender, body⟩ := m
  cases body with
  | request ts =>
    obtain ⟨n', out, hrecv, hcons, hmem⟩ := h.request hok.1 hok.2
    refine ⟨n', out, hrecv, hcons, fun r hr => ?_⟩
    obtain hr | rfl := hmem r hr
    · exact hpids r hr
    · have hsender : sender < P := hok.1
      dsimp only
      omega
  | release =>
    obtain ⟨n', out, hrecv, hcons, hmem⟩ := h.release hpids hok
    exact ⟨n', out, hrecv, hcons, fun r hr => hpids r (hmem r hr)⟩
  | relinquish =>
    obtain ⟨hbusy, hrem, hearlier⟩ := hok
    obtain ⟨n', out, hrecv, hcons, hmem⟩ := h.relinquish hpids hbusy hrem hearlier
    refine ⟨n', out, hrecv, hcons, fun r hr => ?_⟩
    obtain hr | rfl := hmem r hr
    · exact hpids r hr
    · exact h.holder hbusy
  | locked | inquire | failed | complete => exact hok.elim

theorem ofChildren_of_reach (h : Reach (handle P) (QueueHolds P) (Node.init k) n) :
    OfChildren P n := by
  have hboth : Arbitrates P n ∧ OfChildren P n := by
    refine h.invariant (I := fun n => Arbitrates P n ∧ OfChildren P n)
      ⟨arbitrates_init P k, fun r hr => absurd hr List.not_mem_nil⟩ ?_
    rintro x m y ⟨hx, hpids⟩ hok hs
    obtain ⟨n', out, hrecv, -, hpids'⟩ := hx.conserves hpids hok
    obtain ⟨⟨n'', out'⟩, hrecv', rfl⟩ := Option.map_eq_some_iff.1 hs
    obtain ⟨rfl, -⟩ := Prod.mk.inj (Option.some.inj (hrecv.symm.trans hrecv'))
    exact ⟨hx.recvHandler hrecv, hpids'⟩
  exact hboth.2

/-- **An arbiter loses and duplicates no request.**  After every sequence of `REQUEST`,
`RELEASE` and `RELINQUISH` messages for which the queue does what it is asked for, the ring is
well formed; and the handler of the next such message returns, keeps it so, and does to the
requests what `Conserves` says. -/
theorem arbiter_conserves (P k : ℕ) (n : Node)
    (h : Reach (handle P) (QueueHolds P) (Node.init k) n) :
    n.waitQueue.Wf MAXQSize ∧ ∀ m, QueueHolds P n m → ∃ n' out,
      recvHandler P n m = some (n', out) ∧ n'.waitQueue.Wf MAXQSize ∧ Conserves n m n' := by
  have harb := arbitrates_of_reach h
  refine ⟨harb.wf, fun m hok => ?_⟩
  obtain ⟨n', out, hrecv, hcons, -⟩ := harb.conserves (ofChildren_of_reach h) hok
  exact ⟨n', out, hrecv, (harb.recvHandler hrecv).wf, hcons⟩

/-- Child 0 has the vote and child 1 asks earlier: after `RELINQUISH` child 1 has it, and
child 0 waits. -/
theorem arbiter_conserves_two : ∃ n n' out, Reach (handle 4) (QueueHolds 4) (Node.init 3) n ∧
    n.held = {⟨0, 5⟩, ⟨1, 3⟩} ∧ recvHandler 4 n (0, .relinquish) = some (n', out) ∧
    n'.held = {⟨0, 5⟩, ⟨1, 3⟩} ∧ n'.currentLockingRequest = ⟨1, 3⟩ := by
  obtain ⟨n, hn, hcur, hwait, hok⟩ : ∃ n, Reach (handle 4) (QueueHolds 4) (Node.init 3) n ∧
      n.currentLockingRequest = ⟨0, 5⟩ ∧ waiting n.waitQueue = [⟨1, 3⟩] ∧
      QueueHolds 4 n (0, .relinquish) :=
    exists_reach_of_any [(0, .request 5), (1, .request 3)] (by decide +kernel)
  obtain ⟨n', out, hrecv, -, -, hheld, hmem, hleast⟩ :=
    (arbiter_conserves 4 3 n hn).2 (0, .relinquish) hok
  have hn₀ : n.held = {⟨0, 5⟩, ⟨1, 3⟩} := by
    rw [Node.held, if_pos hok.1, hcur, hwait]
    rfl
  refine ⟨n, n', out, hn, hn₀, hrecv, hheld.trans hn₀, ?_⟩
  rw [hcur, hwait] at hmem hleast
  obtain heq | heq := List.mem_pair.1 hmem
  · rw [heq] at hleast
    exact absurd (hleast ⟨1, 3⟩ (by decide)) (by decide)
  · exact heq

/-- Messages that move an empty ring on by one cell: a request waits and is granted. -/
def advance (i : ℕ) : List Message := [(1, .request i), (0, .release)]

/-- **Requests are duplicated and lost.**  `RELINQUISH` with nothing earlier in the queue leaves
the current request twice, and with two later ones the handler writes before the queue.  `RELEASE`
with a queue that wraps around grants a request and leaves it in the queue. -/
theorem arbiter_duplicates :
    (∃ n n' out, Reach (handle 4) anyStep (Node.init 3) n ∧ n.held = {⟨0, 5⟩} ∧
      recvHandler 4 n (0, .relinquish) = some (n', out) ∧ n'.held = {⟨0, 5⟩, ⟨0, 5⟩}) ∧
    (∃ n, Reach (handle 4) anyStep (Node.init 3) n ∧
      n.held = {⟨0, 5⟩, ⟨1, 6⟩, ⟨2, 7⟩} ∧ recvHandler 4 n (0, .relinquish) = none) ∧
    ∃ n n' out, Reach (handle 4) anyStep (Node.init 3) n ∧
      waiting n.waitQueue = [⟨2, 1⟩, ⟨3, 2⟩] ∧
      recvHandler 4 n (1, .release) = some (n', out) ∧ n'.currentLockingRequest = ⟨2, 1⟩ ∧
      waiting n'.waitQueue = [⟨2, 1⟩, ⟨3, 2⟩] := by
  refine ⟨?_, ?_, ?_⟩
  · obtain ⟨n, hn, hheld, hrecv⟩ : ∃ n, Reach (handle 4) anyStep (Node.init 3) n ∧
        n.held = {⟨0, 5⟩} ∧ ((recvHandler 4 n (0, .relinquish)).any fun r =>
          decide (r.1.held = {⟨0, 5⟩, ⟨0, 5⟩})) = true :=
      exists_reach_of_any [(0, .request 5)] (by decide +kernel)
    obtain ⟨⟨n', out⟩, hrecv, hheld'⟩ := (Option.any_eq_true _ _).1 hrecv
    exact ⟨n, n', out, hn, hheld, hrecv, of_decide_eq_true hheld'⟩
  · obtain ⟨n, hn, hheld, hrecv⟩ : ∃ n, Reach (handle 4) anyStep (Node.init 3) n ∧
        n.held = {⟨0, 5⟩, ⟨1, 6⟩, ⟨2, 7⟩} ∧
        (recvHandler 4 n (0, .relinquish)).isNone = true :=
      exists_reach_of_any [(0, .request 5), (1, .request 6), (2, .request 7)] (by decide +kernel)
    exact ⟨n, hn, hheld, Option.isNone_iff_eq_none.1 hrecv⟩
  · obtain ⟨n, hn, hwait, hrecv⟩ : ∃ n, Reach (handle 4) anyStep (Node.init 3) n ∧
        waiting n.waitQueue = [⟨2, 1⟩, ⟨3, 2⟩] ∧ ((recvHandler 4 n (1, .release)).any fun r =>
          decide (r.1.currentLockingRequest = ⟨2, 1⟩ ∧
            waiting r.1.waitQueue = [⟨2, 1⟩, ⟨3, 2⟩])) = true :=
      exists_reach_of_any
        ((0, .request 0) :: (List.range 99).flatMap advance ++ [(2, .request 1), (3, .request 2)])
        (by decide +kernel)
    obtain ⟨⟨n', out⟩, hrecv, hafter⟩ := (Option.any_eq_true _ _).1 hrecv
    obtain ⟨hcur, hwait'⟩ := of_decide_eq_true hafter
    exact ⟨n, n', out, hn, hwait, hrecv, hcur, hwait'⟩

end Maekawa
end Xv6
