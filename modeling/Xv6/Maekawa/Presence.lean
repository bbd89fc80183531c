/-
# Where a request is

A request that has been sent and not been released is in exactly one place at each
arbiter of its voting set: on its way, in the wait queue, or granted.  `Present`
says so by counting (`Present.balance`); it also says that an arbiter that is not
locked has nobody waiting, and that `RELEASE` comes only from a child that has left
its critical section.

The queue functions of `xv6/maekawa.c` keep this where they do what they are for.
`QueueWorks` is the condition: a request that has to wait finds room in the queue,
and a request is taken only from a queue that does not wrap around.
-/

import Xv6.Maekawa.Exclusion

namespace Xv6
namespace Maekawa

open Lib

def Body.isRequest : Body → Bool
  | .request _ => true
  | _ => false

def Body.isRelease : Body → Bool
  | .release => true
  | _ => false

/-- The child has asked for its votes and not given them back. -/
def Node.Active (n : Node) : Prop := n.pc = .acquiring ∨ n.pc = .critical

instance (n : Node) : Decidable n.Active := inferInstanceAs (Decidable (_ ∨ _))

/-- How often the request of `q` waits at an arbiter or is granted by it. -/
def load (c : Config) (n : Node) (q : ℕ) : ℕ :=
  (waiting n.waitQueue).count (c.req q) +
    if n.processStatus = 1 ∧ n.currentLockingRequest.pid = q then 1 else 0

structure Present (c : Config) (s : State) : Prop where
  balance : ∀ j q, (s.between q j).countP Body.isRequest + load c (s.node j) q =
    (if j ∈ c.S q ∧ (s.node q).Active then 1 else 0) + (s.between q j).countP Body.isRelease
  idle : ∀ j, (s.node j).processStatus ≠ 1 → waiting (s.node j).waitQueue = []
  released : ∀ q j, .release ∈ s.between q j → (s.node q).pc = .serving

/-- What the handler of a message asks of the queue. -/
def QueueWorks (n : Node) : Body → Prop
  | .request _ => n.processStatus = 1 → n.waitQueue.size < MAXQSize
  | .relinquish | .release => Removable n.waitQueue
  | _ => True

variable {c : Config} {s s' : State} {a : Action} {i j k q : ℕ}

theorem Present.of_init (c : Config) : Present c (init c) where
  balance j q := by
    have hidle : ¬ ((init c).node q).Active := by rintro (h | h) <;> cases h
    rw [if_neg fun h => hidle h.2]
    rfl
  idle _ _ := rfl
  released _ _ h := absurd h List.not_mem_nil

theorem Present.congr (h : Present c s) (hnode : s'.node = s.node)
    (hbetween : s'.between = s.between) : Present c s' := by
  obtain ⟨hbalance, hidle, hreleased⟩ := h
  constructor <;> simpa only [hnode, hbetween]

/-- **A request is in at most one place.** -/
theorem Present.le_one (h : Present c s) (hg : Granted c s) (j q : ℕ) :
    (s.between q j).countP Body.isRequest + load c (s.node j) q ≤ 1 := by
  rw [h.balance]
  rcases Nat.eq_zero_or_pos ((s.between q j).countP Body.isRelease) with hzero | hpos
  · rw [hzero]
    split_ifs <;> omega
  · obtain ⟨m, hm, hrel⟩ := List.countP_pos_iff.1 hpos
    obtain rfl : m = .release := by cases m <;> simp_all [Body.isRelease]
    have hpc := h.released q j hm
    rw [if_neg fun hact => by simp [Node.Active, hpc] at hact]
    have htoken := hg.token j q
    have hle : (s.between q j).countP Body.isRelease ≤ (s.between q j).countP Body.returnsGrant :=
      List.countP_mono_left fun x _ hx => by cases x <;> simp_all [Body.isRelease, Body.returnsGrant]
    unfold tokens at htoken
    split_ifs at htoken <;> omega

/-- The granted request is that of the child the vote is granted to. -/
theorem Routed.current_eq (hr : Routed c s) (hg : Grants s j q) :
    (s.node j).currentLockingRequest = c.req q := by
  obtain ⟨q', hq, -, -⟩ := hr.current j hg.1
  obtain rfl : q = q' := Int.ofNat.inj (hg.2.symm.trans (congrArg Request.pid hq))
  exact hq

/-! ### What a handler does to its own arbiter -/

theorem count_req_append (l : List Request) (k q : ℕ) :
    (l ++ [c.req k]).count (c.req q) = l.count (c.req q) + if k = q then 1 else 0 := by
  rw [List.count_append, List.count_singleton]
  simp only [beq_iff_eq, c.req_injective.eq_iff]

theorem count_req_cons (l : List Request) (k q : ℕ) :
    (c.req k :: l).count (c.req q) = l.count (c.req q) + if k = q then 1 else 0 := by
  rw [List.count_cons]
  simp only [beq_iff_eq, c.req_injective.eq_iff]

/-- What the protocol guarantees about a message when its handler runs: a request is its
sender's, a vote comes back from the child it was granted to, and a vote given up is
wanted by somebody earlier. -/
structure Expected (c : Config) (n : Node) (k : ℕ) (m : Body) : Prop where
  valid : ∀ r ∈ waiting n.waitQueue, ∃ q, r = c.req q
  request : ∀ ts, m = .request ts → (⟨k, ts⟩ : Request) = c.req k
  returned : m.returnsGrant = true → n.processStatus = 1 ∧ n.currentLockingRequest = c.req k
  wanted : m = .relinquish →
    ∃ r ∈ waiting n.waitQueue, r.key < n.currentLockingRequest.key

/-- What remains of a queue from which an earliest request has been granted. -/
structure Taken (c : Config) (n n' : Node) (b : ℕ) (rest : List Request) : Prop where
  wf : n'.waitQueue.Wf MAXQSize
  status : n'.processStatus = 1
  current : n'.currentLockingRequest = c.req b
  perm : (waiting n.waitQueue).Perm (c.req b :: rest)
  least : ∀ r ∈ waiting n.waitQueue, (c.req b).key ≤ r.key

variable {n n' : Node} {m : Body} {out : List Message}

/-- **`RELINQUISH`, where the queue works**: the earliest request is granted, the old one
waits. -/
theorem Expected.regrant (he : Expected c n k .relinquish) (hwf : n.waitQueue.Wf MAXQSize)
    (hrem : Removable n.waitQueue) {b : ℕ} {q : QueueRequest}
    (hq : removeElementRequestQueue n.waitQueue
      (earliestFrom n.waitQueue n.currentLockingRequest).2 = some q)
    (hb : (earliestFrom n.waitQueue n.currentLockingRequest).1.pid = b) :
    Taken c n
        { n with
          waitQueue := enqueueRequestQueue q n.currentLockingRequest
          currentLockingRequest := (earliestFrom n.waitQueue n.currentLockingRequest).1
          processStatus := 1 } b (waiting q) ∧
      waiting (enqueueRequestQueue q n.currentLockingRequest) = waiting q ++ [c.req k] ∧
      (c.req b).key < (c.req k).key := by
  obtain ⟨-, hcur⟩ := he.returned rfl
  obtain ⟨hfound, hleast⟩ := earliestFrom_spec n.waitQueue n.currentLockingRequest
  -- somebody earlier waits, so the loop leaves the current request
  obtain ⟨p, hp, hlt⟩ : ∃ p, AtPlace n.waitQueue
      (earliestFrom n.waitQueue n.currentLockingRequest) p ∧
      (earliestFrom n.waitQueue n.currentLockingRequest).1.key < n.currentLockingRequest.key := by
    refine hfound.resolve_left fun heq => ?_
    obtain ⟨r, hr, hrlt⟩ := he.wanted rfl
    have hle := hleast r hr
    rw [heq] at hle
    exact absurd hrlt (not_lt.2 hle)
  obtain ⟨b', hb'⟩ := he.valid _ hp.mem
  obtain rfl : b = b' := Int.ofNat.inj (hb.symm.trans (congrArg Request.pid hb'))
  obtain ⟨q', hq', hqwf, hqsize, hperm⟩ := removeElementRequestQueue_spec hwf hrem hp
  obtain rfl := Option.some.inj (hq'.symm.trans hq)
  rw [hb'] at hperm hleast hlt
  refine ⟨⟨enqueueRequestQueue_wf hqwf _, rfl, hb', hperm, hleast⟩, ?_, hcur ▸ hlt⟩
  rw [waiting_enqueueRequestQueue hqwf hqsize, hcur]

/-- **`RELEASE`, where the queue works**: the earliest request is granted. -/
theorem Expected.next (he : Expected c n k .release) (hwf : n.waitQueue.Wf MAXQSize)
    (hrem : Removable n.waitQueue) (hne : n.waitQueue.size ≠ 0) {b : ℕ} {q : QueueRequest}
    (hq : removeElementRequestQueue n.waitQueue (earliestWaiting n.waitQueue).2 = some q)
    (hb : (earliestWaiting n.waitQueue).1.pid = b) :
    Taken c n
      { n with
        waitQueue := q
        currentLockingRequest := (earliestWaiting n.waitQueue).1
        processStatus := 1 } b (waiting q) := by
  obtain ⟨⟨p, hp⟩, hleast⟩ := earliestWaiting_spec hwf hne
  obtain ⟨b', hb'⟩ := he.valid _ hp.mem
  obtain rfl : b = b' := Int.ofNat.inj (hb.symm.trans (congrArg Request.pid hb'))
  obtain ⟨q', hq', hqwf, -, hperm⟩ := removeElementRequestQueue_spec hwf hrem hp
  obtain rfl := Option.some.inj (hq'.symm.trans hq)
  rw [hb'] at hperm hleast
  exact ⟨hqwf, rfl, hb', hperm, hleast⟩

theorem Taken.load_eq {b : ℕ} {rest : List Request} (h : Taken c n n' b rest) (q : ℕ) :
    load c n' q + rest.count (c.req q) =
      (waiting n'.waitQueue).count (c.req q) + (waiting n.waitQueue).count (c.req q) := by
  unfold load
  rw [h.perm.count_eq, count_req_cons, h.status, h.current]
  simp only [true_and, Config.req, Int.natCast_inj]
  omega

/-- **A handler takes in the request it is sent and drops the one that is released**; all
others stay at the arbiter. -/
theorem Handled.load_eq (hh : Handled n (k, m) n' out) (he : Expected c n k m)
    (hwf : n.waitQueue.Wf MAXQSize) (hworks : QueueWorks n m) (q : ℕ) :
    load c n' q + (if q = k ∧ m.isRelease then 1 else 0) =
      load c n q + if q = k ∧ m.isRequest then 1 else 0 := by
  have hcurrent : m.returnsGrant = true →
      load c n q = (waiting n.waitQueue).count (c.req q) + if k = q then 1 else 0 := by
    intro hm
    obtain ⟨hst, hcur⟩ := he.returned hm
    simp only [load, hst, hcur, true_and, Config.req, Int.natCast_inj]
  have hwait : ∀ ts, m = .request ts → n.processStatus = 1 →
      waiting (enqueueRequestQueue n.waitQueue ⟨k, ts⟩) = waiting n.waitQueue ++ [c.req k] := by
    rintro ts rfl hst
    rw [waiting_enqueueRequestQueue hwf (hworks hst), he.request ts rfl]
  cases hh with
  | @grant _ ts hfree =>
    simp [load, hfree, Body.isRequest, Body.isRelease, eq_comm]
  | @refuse _ ts hbusy | @inquire _ ts d hbusy =>
    simp only [load, hwait ts rfl hbusy, count_req_append, Body.isRequest, Body.isRelease]
    simp only [Bool.false_eq_true, and_false, if_false, and_true, eq_comm]
    omega
  | locked | failed | ignore | relinquish | complete => simp [load, Body.isRequest, Body.isRelease]
  | regrant b q' hrem hb =>
    obtain ⟨htaken, hwaits, -⟩ := he.regrant hwf hworks hrem hb
    have hload := htaken.load_eq q
    dsimp only at hload
    rw [hwaits, count_req_append] at hload
    rw [hcurrent rfl]
    simp only [Body.isRequest, Body.isRelease, Bool.false_eq_true, and_false, if_false]
    omega
  | free hempty =>
    rw [hcurrent rfl]
    simp [load, Body.isRequest, Body.isRelease, eq_comm]
  | next b q' hne hrem hb =>
    have hload := (he.next hwf hworks hne hrem hb).load_eq q
    dsimp only at hload
    rw [hcurrent rfl]
    simp only [Body.isRequest, Body.isRelease, Bool.false_eq_true, and_false, if_false, and_true,
      eq_comm]
    omega

/-! ### Steps -/

theorem Handled.countP_out {m : Message} (hh : Handled n m n' out) (p : ℕ) :
    (marked p out).countP Body.isRequest = 0 ∧ (marked p out).countP Body.isRelease = 0 := by
  cases hh <;> simp [countP_marked_singleton, Body.isRequest, Body.isRelease]

theorem Handled.idle {m : Message} (hh : Handled n m n' out)
    (hidle : n.processStatus ≠ 1 → waiting n.waitQueue = []) (hst : n'.processStatus ≠ 1) :
    waiting n'.waitQueue = [] := by
  cases hh with
  | grant | regrant | next => exact absurd rfl hst
  | refuse hbusy | inquire _ hbusy => exact absurd hbusy hst
  | locked | failed | ignore | relinquish | complete => exact hidle hst
  | free hempty => exact (RingBuffer.contents_eq_nil_iff _ _).2 hempty

theorem release_mem_iff {l : List Body} : .release ∈ l ↔ 0 < l.countP Body.isRelease := by
  rw [List.countP_pos_iff]
  constructor
  · exact fun h => ⟨_, h, rfl⟩
  · rintro ⟨m, hm, hrel⟩
    cases m <;> simp_all [Body.isRelease]

/-- **A handled message keeps every request in one place**, where the queue works. -/
theorem Present.receive (h : Present c s) {rest : List Message} (hpipe : s.pipe i = (k, m) :: rest)
    (hh : Handled (s.node i) (k, m) n out) (he : Expected c (s.node i) k m)
    (hwf : (s.node i).waitQueue.Wf MAXQSize) (hworks : QueueWorks (s.node i) m) :
    Present c (s.receive i rest n out) := by
  have hpc := hh.receive_pc rfl rest
  have hactive : ∀ q, ((s.receive i rest n out).node q).Active ↔ (s.node q).Active := fun q => by
    unfold Node.Active
    rw [hpc]
  have hreq := fun q j => Network.countP_between_receive Body.isRequest hpipe n out q j
  have hrel := fun q j => Network.countP_between_receive Body.isRelease hpipe n out q j
  simp only [(hh.countP_out _).1, (hh.countP_out _).2, ite_self, Nat.add_zero] at hreq hrel
  constructor
  · intro j q
    have hbalance := h.balance j q
    have hreq := hreq q j
    have hrel := hrel q j
    simp only [hactive]
    rcases eq_or_ne j i with rfl | hne
    · have hload := hh.load_eq he hwf hworks q
      rw [Network.receive_node_self]
      simp only [true_and] at hreq hrel
      omega
    · rw [Network.receive_node_of_ne _ hne]
      simp only [hne, false_and, and_false, if_false, Nat.zero_add] at hreq hrel
      omega
  · intro j hst
    rcases eq_or_ne j i with rfl | hne
    · rw [Network.receive_node_self] at hst ⊢
      exact hh.idle (h.idle j) hst
    · rw [Network.receive_node_of_ne _ hne] at hst ⊢
      exact h.idle j hst
  · intro q j hmem
    rw [hpc]
    refine h.released q j (release_mem_iff.2 ?_)
    have hrel := hrel q j
    have hpos := release_mem_iff.1 hmem
    omega

/-- So does a turn that sends a request as the child becomes active and releases it as it
stops being so. -/
theorem Present.turn (h : Present c s) (hqueue : n.waitQueue = (s.node i).waitQueue)
    (hst : n.processStatus = (s.node i).processStatus)
    (hcur : n.currentLockingRequest = (s.node i).currentLockingRequest)
    (hserving : (s.node i).pc ≠ .serving)
    (hreleased : ∀ j, .release ∈ marked j out → n.pc = .serving)
    (hout : ∀ j, (marked j out).countP Body.isRequest +
        (if j ∈ c.S i ∧ (s.node i).Active then 1 else 0) =
      (if j ∈ c.S i ∧ n.Active then 1 else 0) + (marked j out).countP Body.isRelease) :
    Present c (s.turn i n out) := by
  have hload : ∀ j q, load c ((s.turn i n out).node j) q = load c (s.node j) q := by
    intro j q
    rcases eq_or_ne j i with rfl | hne
    · rw [Network.turn_node_self]
      unfold load
      rw [hqueue, hst, hcur]
    · rw [Network.turn_node_of_ne _ hne]
  constructor
  · intro j q
    have hbalance := h.balance j q
    rw [hload, Network.countP_between_turn, Network.countP_between_turn]
    rcases eq_or_ne q i with rfl | hne
    · have hout := hout j
      rw [Network.turn_node_self, if_pos rfl, if_pos rfl]
      omega
    · rw [Network.turn_node_of_ne _ hne, if_neg hne, if_neg hne]
      exact hbalance
  · intro j hj
    rcases eq_or_ne j i with rfl | hne
    · rw [Network.turn_node_self] at hj ⊢
      rw [hqueue]
      exact h.idle j (hst ▸ hj)
    · rw [Network.turn_node_of_ne _ hne] at hj ⊢
      exact h.idle j hj
  · intro q j hmem
    rcases Network.mem_between_turn.1 hmem with hold | ⟨rfl, hnew⟩
    · rcases eq_or_ne q i with rfl | hne
      · exact absurd (h.released q j hold) hserving
      · rw [Network.turn_node_of_ne _ hne]
        exact h.released q j hold
    · rw [Network.turn_node_self]
      exact hreleased j hnew

/-- **Every step keeps every request in one place**, where the queue works. -/
theorem Present.step (h : Present c s) (hs : Shape c s a s') (hsafe : SafeInv c s)
    (hhandle : ∀ i k m rest, a = .handle i → s.pipe i = (k, m) :: rest →
      Expected c (s.node i) k m ∧ QueueWorks (s.node i) m) : Present c s' := by
  cases hs with
  | request i hi hpc hreq =>
    refine h.turn rfl rfl rfl (by simp [hpc]) (fun j hj => ?_) fun j => ?_
    · exact absurd (mem_marked_map.1 hj).2 (by simp)
    · unfold sendRequest
      simp [countP_marked_map _ _ _ (c.nodup_S i), Body.isRequest, Body.isRelease, Node.Active,
        hpc]
  | idle i hi hpc =>
    refine h.turn rfl rfl rfl (by simp [hpc]) (fun j hj => absurd hj (by simp)) fun j => ?_
    simp [Node.Active, hpc]
  | write i hnode hbetween => exact h.congr hnode hbetween
  | handle i k hpipe hread hh =>
    obtain ⟨he, hworks⟩ := hhandle i k _ _ rfl hpipe
    exact h.receive hpipe hh he (hsafe.routed.wf i) hworks
  | enter i hpc hcount =>
    have hown := hsafe.own_status hpc hcount
    refine h.turn rfl hown.symm rfl (by simp [hpc]) (fun j hj => absurd hj (by simp)) fun j => ?_
    simp [Node.Active, hpc]
  | leave i hpc =>
    refine h.turn rfl rfl rfl (by simp [hpc]) (fun _ _ => rfl) fun j => ?_
    rw [marked_append, List.countP_append, List.countP_append]
    unfold releaseLockMaekawa sendComplete
    simp [countP_marked_map _ _ _ (c.nodup_S i), countP_marked_map _ _ _ List.nodup_range,
      Body.isRequest, Body.isRelease, Node.Active, hpc]

end Maekawa
end Xv6
