/-
# Runs that do what the protocol asks

The invariants of `xv6/maekawa.c` along runs without its faults.  `FaultFree` collects
the conditions under which a step does what the protocol asks of it: a child gives
back only votes it has (`InquireForGrant`), the wait queue works (`QueueWorks`), and
whoever is not the earliest is told and asked in time (`GivesWay`).  `LiveInv` collects
the invariants; `LiveInv.expected` says what they tell an arbiter about the next
message, and `LiveInv.step` that every such step keeps them.
-/

import Xv6.Maekawa.Arbiter

namespace Xv6
namespace Maekawa

open Lib

instance (n : Node) : (m : Body) → Decidable (QueueWorks n m)
  | .request _ => inferInstanceAs (Decidable (_ → _))
  | .relinquish | .release => inferInstanceAs (Decidable (Removable _))
  | .locked | .inquire | .failed | .complete => inferInstanceAs (Decidable True)

instance (c : Config) (s : State) (i k : ℕ) : (m : Body) → Decidable (GivesWay c s i k m)
  | .failed => inferInstanceAs (Decidable (_ → _ → _))
  | .request _ => inferInstanceAs (Decidable (_ → _ ∧ _))
  | .relinquish | .release | .locked | .inquire | .complete => inferInstanceAs (Decidable True)

/-- What the protocol asks of the handling of a message. -/
def MessageInOrder (c : Config) (s : State) : Action → Prop
  | .handle i => ∀ m ∈ (s.pipe i).head?, QueueWorks (s.node i) m.2 ∧ GivesWay c s i m.1 m.2
  | _ => True

instance (c : Config) (s : State) : (a : Action) → Decidable (MessageInOrder c s a)
  | .handle i => inferInstanceAs (Decidable (∀ m ∈ (s.pipe i).head?, _))
  | .start _ | .write _ | .enter _ | .leave _ => inferInstanceAs (Decidable True)

/-- A step that does what the protocol asks: votes are given back only by those who have
them, the queue works, and whoever is not the earliest is told and asked in time. -/
def FaultFree (c : Config) (s : State) (a : Action) : Prop :=
  InquireForGrant s a ∧ MessageInOrder c s a

instance (c : Config) (s : State) (a : Action) : Decidable (FaultFree c s a) :=
  inferInstanceAs (Decidable (_ ∧ _))

/-- All invariants of such a run. -/
structure LiveInv (c : Config) (s : State) : Prop where
  safe : SafeInv c s
  present : Present c s
  ordered : Ordered c s

variable {c : Config} {s s' : State} {a : Action} {i j k p q : ℕ} {n : Node} {m : Body}
  {rest out : List Message}

theorem LiveInv.of_init (c : Config) : LiveInv c (init c) :=
  ⟨.of_init c, .of_init c, .of_init c⟩

/-! ### What the invariants say about the next message -/

theorem mem_between_of_pipe (hpipe : s.pipe i = (k, m) :: rest) : m ∈ s.between k i := by
  rw [Network.between_take hpipe, if_pos ⟨rfl, rfl⟩]
  exact List.mem_append_left _ List.mem_cons_self

theorem LiveInv.expected (h : LiveInv c s) (hpipe : s.pipe i = (k, m) :: rest) :
    Expected c (s.node i) k m where
  valid r hr := by
    obtain ⟨q, hq, -, -⟩ := h.safe.routed.waiting i r hr
    exact ⟨q, hq⟩
  request ts hm := by
    subst hm
    obtain ⟨q, hq, -, -⟩ := h.safe.routed.transit k i ts (mem_between_of_pipe hpipe)
    obtain rfl : k = q := Int.ofNat.inj (congrArg Request.pid hq)
    exact hq
  returned hm := by
    obtain ⟨hg, -⟩ := h.safe.granted.returned hpipe hm
    exact ⟨hg.1, h.safe.routed.current_eq hg⟩
  wanted hm := by
    subst hm
    obtain ⟨-, r, hr, hlt⟩ := h.ordered.relinquishing k i (mem_between_of_pipe hpipe)
    obtain ⟨hg, -⟩ := h.safe.granted.returned hpipe rfl
    rw [h.safe.routed.current_eq hg]
    exact ⟨r, hr, (precedes_iff _ _).1 hlt⟩

theorem LiveInv.count_le_one (h : LiveInv c s) (j q : ℕ) :
    (waiting (s.node j).waitQueue).count (c.req q) ≤ 1 := by
  have hle := h.present.le_one h.safe.granted j q
  unfold load at hle
  omega

/-- A request on its way is not granted yet. -/
theorem LiveInv.not_grants_of_request (h : LiveInv c s) {ts : ℤ}
    (hmem : .request ts ∈ s.between k i) : ¬ Grants s i k := by
  intro hg
  have hle := h.present.le_one h.safe.granted i k
  have hpos : 0 < (s.between k i).countP Body.isRequest := List.countP_pos_iff.2 ⟨_, hmem, rfl⟩
  unfold load at hle
  rw [if_pos (show _ ∧ _ from hg)] at hle
  omega

/-! ### Steps -/

/-- A request that has to wait. -/
theorem LiveInv.orderedWait (h : LiveInv c s) {ts : ℤ}
    (hpipe : s.pipe i = (k, .request ts) :: rest) (hbusy : (s.node i).processStatus = 1)
    (hworks : QueueWorks (s.node i) (.request ts)) (r : Request) :
    r ∈ waiting (enqueueRequestQueue (s.node i).waitQueue ⟨k, ts⟩) ↔
      r ∈ waiting (s.node i).waitQueue ∨ r = c.req k := by
  rw [waiting_enqueueRequestQueue (h.safe.routed.wf i) (hworks hbusy),
    (h.expected hpipe).request ts rfl, List.mem_append, List.mem_singleton]

/-- **Messages to an arbiter keep the order.** -/
theorem LiveInv.orderedArbiter (h : LiveInv c s) (hpipe : s.pipe i = (k, m) :: rest)
    (hh : Handled (s.node i) (k, m) n out) (hworks : QueueWorks (s.node i) m)
    (hgives : GivesWay c s i k m) (hg' : Granted c (s.receive i rest n out))
    (hm : m.isRequest = true ∨ m.returnsGrant = true) :
    Ordered c (s.receive i rest n out) := by
  have he := h.expected hpipe
  have hwf := h.safe.routed.wf i
  cases hh with
  | @grant _ ts hfree =>
    refine h.ordered.nobodyWaits hpipe rfl rfl rfl (by simp) (by simp)
      (fun p => by simp [mem_marked_singleton]) rfl (h.present.idle i hfree) fun h' _ hpid => ?_
    obtain rfl : k = h' := Int.ofNat.inj hpid
    exact not_asked_after_locked hpipe
  | @refuse _ ts hbusy hflag =>
    have hreq := he.request ts rfl
    refine h.ordered.refuse h.safe.routed hpipe (h.orderedWait hpipe hbusy hworks) ?_
    rcases hflag with hscan | hcur
    · rw [(hgives hbusy).1, List.any_eq_true] at hscan
      obtain ⟨r, hr, hlt⟩ := hscan
      exact .inl ⟨r, hr, hreq ▸ hlt⟩
    · rw [hreq, precedes_iff] at hcur
      exact .inr hcur
  | @inquire _ ts d hbusy hscan hcur hd =>
    have hreq := he.request ts rfl
    have hgrants : Grants s i d := ⟨hbusy, hd⟩
    have hcurrent := h.safe.routed.current_eq hgrants
    obtain ⟨hsees, htold⟩ := hgives hbusy
    rw [hsees, List.any_eq_false] at hscan
    have hall : (waiting (s.node i).waitQueue).all (fun r => !precedes r ⟨k, ts⟩) = true :=
      List.all_eq_true.2 fun r hr => by simpa using hscan r hr
    have hne : c.req k ≠ c.req d := fun heq => by
      obtain rfl := c.req_injective heq
      exact h.not_grants_of_request (mem_between_of_pipe hpipe) hgrants
    refine h.ordered.inquire hpipe hcurrent (h.orderedWait hpipe hbusy hworks) ?_
      (fun r hr => ?_) fun h' hw => ?_
    · rw [hcurrent, hreq] at hcur
      have hle := not_lt.1 fun hlt => Bool.eq_false_iff.1 hcur ((precedes_iff _ _).2 hlt)
      exact lt_of_le_of_ne hle fun heq => hne (Request.key_injective heq)
    · have hnot := hscan r hr
      rw [hreq, precedes_iff] at hnot
      exact not_lt.1 hnot
    · obtain ⟨q, hq, -, hpc⟩ := h.safe.routed.waiting i _ hw
      obtain rfl := c.req_injective hq
      exact htold hall hcur h' (List.mem_range.2 (h.safe.routed.range h' hpc)) hw
  | regrant b q hrem hb =>
    obtain ⟨htaken, hwaits, hlt⟩ := he.regrant hwf hworks hrem hb
    refine h.ordered.passOn hpipe htaken rfl rfl rfl (by simp) (by simp) (h.count_le_one i b)
      (fun r hr => ?_) hg'
    change r ∈ waiting (enqueueRequestQueue _ _) at hr
    rw [hwaits, List.mem_append, List.mem_singleton] at hr
    obtain ⟨hbit, -⟩ := h.ordered.relinquishing k i (mem_between_of_pipe hpipe)
    exact hr.imp_right fun hr => ⟨hr, hbit, hlt⟩
  | free hempty =>
    refine h.ordered.nobodyWaits hpipe rfl rfl rfl (by simp) (by simp) (fun p => by simp) rfl
      ((RingBuffer.contents_eq_nil_iff _ _).2 hempty) fun _ hst => ?_
    exact absurd hst (show ¬ (0 : ℕ) = 1 by decide)
  | next b q hne hrem hb =>
    exact h.ordered.passOn hpipe (he.next hwf hworks hne hrem hb) rfl rfl rfl (by simp) (by simp)
      (h.count_le_one i b) (fun r hr => .inl hr) hg'
  | locked | failed | ignore | relinquish | complete =>
    simp [Body.isRequest, Body.returnsGrant] at hm

/-- A child that reads is not in its critical section. -/
theorem Reading.not_inCriticalSection (h : Reading c (s.node i)) : ¬ InCriticalSection c s i := by
  rintro (hpc | ⟨hpc, hcount⟩) <;> rcases h with ⟨hpc', hlt⟩ | ⟨hpc', -⟩ <;> simp_all
  omega

/-- A child whose vote is asked for has given it to an earlier request. -/
theorem LiveInv.earlier_of_inquire (h : LiveInv c s) (hpipe : s.pipe i = (k, .inquire) :: rest)
    (hhas : Held s k i) : Earlier c (s.node k) i := by
  refine h.ordered.inquired k i hhas.1 ?_
  have hnone : .locked ∉ s.between k i := fun hmem => by
    have hpos : 0 < (s.between k i).countP Body.carriesGrant :=
      List.countP_pos_iff.2 ⟨_, hmem, rfl⟩
    have hzero := hhas.2
    unfold tokens at hzero
    omega
  rw [Network.between_take hpipe, if_pos ⟨rfl, rfl⟩] at hnone ⊢
  exact asked_inquire_cons fun hmem => hnone (List.mem_append_right _ hmem)

/-- A child that is granted a vote and no longer active has released it. -/
theorem LiveInv.release_of_serving (h : LiveInv c s) (hg : Grants s j i)
    (hpc : (s.node i).pc = .serving) : .release ∈ s.between i j := by
  have hbalance := h.present.balance j i
  rw [if_neg fun hact => by simp [Node.Active, hpc] at hact] at hbalance
  unfold load at hbalance
  rw [if_pos (show _ ∧ _ from hg)] at hbalance
  exact release_mem_iff.2 (by omega)

/-- **Messages to a child keep the order.** -/
theorem LiveInv.orderedChild (h : LiveInv c s) (hpipe : s.pipe i = (k, m) :: rest)
    (hread : Reading c (s.node i)) (hh : Handled (s.node i) (k, m) n out)
    (hguard : m = .inquire → (s.node i).failedBit = true → Held s k i)
    (hgives : GivesWay c s i k m) (hm : m.isRequest = false) (hm' : m.returnsGrant = false) :
    Ordered c (s.receive i rest n out) := by
  have hpending : ∀ {n : Node} {out : List Message} (j : ℕ), (m = .inquire → j ≠ k) →
      Grants s j i → Earlier c (s.node j) i → (s.node i).failedBit = true →
      Answering c (s.receive i rest n out) j i := fun j hne hg hearlier hbit =>
    Answering.receive (h.ordered.pending j i hg hearlier hbit) hpipe
      (fun hm hj => absurd hj (hne hm)) (fun hback => by simp [hm'] at hback)
      fun hcs => absurd hcs hread.not_inCriticalSection
  cases hh with
  | locked | complete =>
    exact h.ordered.receiveByChild hpipe rfl rfl rfl id hm' (by simp) (by simp) (by simp)
      fun j hg hearlier hbit => hpending j (by simp) hg hearlier hbit
  | failed =>
    refine h.ordered.receiveByChild hpipe rfl rfl rfl (fun _ => rfl) hm' (fun _ => rfl) (by simp)
      (by simp) fun j hg hearlier _ => ?_
    rcases Bool.eq_false_or_eq_true (s.node i).failedBit with hbit | hbit
    · exact hpending j (by simp) hg hearlier hbit
    · rcases hread with ⟨hpc, -⟩ | ⟨hpc, -⟩
      · have hj := h.safe.routed.mem_S_of_grants hg
        have hinquire := hgives hpc hbit j hj hg hearlier
        exact .inl (Network.mem_between_receive_of_ne hpipe (by simp) hinquire)
      · have hrelease := h.release_of_serving hg hpc
        exact .inr (.inr (.inl (Network.mem_between_receive_of_ne hpipe (by simp) hrelease)))
  | ignore hbit =>
    refine h.ordered.receiveByChild hpipe rfl rfl rfl id hm' (by simp) (by simp) (by simp)
      fun j _ _ hbit' => ?_
    rw [hbit] at hbit'
    cases hbit'
  | relinquish hbit =>
    have hhas := hguard rfl hbit
    refine h.ordered.receiveByChild hpipe rfl rfl rfl id hm' (by simp)
      (by simp [mem_marked_singleton]) (fun j hj => ?_) fun j hg hearlier _ => ?_
    · obtain ⟨rfl, -⟩ := mem_marked_singleton.1 hj
      exact ⟨hbit, h.earlier_of_inquire hpipe hhas⟩
    · rcases eq_or_ne j k with rfl | hne
      · exact .inr (.inl Network.mem_between_receive_sent)
      · exact hpending j (fun _ => hne) hg hearlier hbit
  | grant | refuse | inquire => simp [Body.isRequest] at hm
  | regrant | free | next => simp [Body.returnsGrant] at hm'

/-- **A turn that reads nothing keeps the order**, if a child leaves its critical section
with a release to everybody. -/
theorem Ordered.turn (h : Ordered c s) (hr : Routed c s)
    (hqueue : n.waitQueue = (s.node i).waitQueue)
    (hst : n.processStatus = (s.node i).processStatus)
    (hcur : n.currentLockingRequest = (s.node i).currentLockingRequest)
    (hbit : n.failedBit = (s.node i).failedBit)
    (hinquire : ∀ p, .inquire ∉ marked p out) (hrel : ∀ p, .relinquish ∉ marked p out)
    (hcs : InCriticalSection c s i → InCriticalSection c (s.turn i n out) i ∨
      ∀ j ∈ c.S i, .release ∈ marked j out) : Ordered c (s.turn i n out) := by
  have hgrants : ∀ j q, Grants (s.turn i n out) j q ↔ Grants s j q := fun j q => grants_turn hst hcur
  have hnode : ∀ j, ((s.turn i n out).node j).waitQueue = (s.node j).waitQueue ∧
      ((s.turn i n out).node j).currentLockingRequest = (s.node j).currentLockingRequest ∧
      ((s.turn i n out).node j).failedBit = (s.node j).failedBit := by
    intro j
    rcases eq_or_ne j i with rfl | hne
    · rw [Network.turn_node_self]
      exact ⟨hqueue, hcur, hbit⟩
    · rw [Network.turn_node_of_ne _ hne]
      exact ⟨rfl, rfl, rfl⟩
  have hearlier : ∀ j h, Earlier c ((s.turn i n out).node j) h ↔ Earlier c (s.node j) h := by
    intro j h
    unfold Earlier
    rw [(hnode j).1]
  constructor
  · intro h' j hmem
    rw [hearlier, (hnode h').2.2]
    rcases Network.mem_between_turn.1 hmem with hold | ⟨-, hnew⟩
    · exact h.relinquishing h' j hold
    · exact absurd hnew (hrel j)
  · intro j h' hg hasked
    rw [hearlier]
    rw [Network.between_turn] at hasked
    refine h.inquired j h' ((hgrants j h').1 hg) (asked_append ?_ hasked)
    split_ifs
    · exact hinquire h'
    · exact List.not_mem_nil
  · intro j h' hg he hb
    rw [hgrants] at hg
    rw [hearlier] at he
    rw [(hnode h').2.2] at hb
    have hstay : ∀ {x a b}, x ∈ s.between a b → x ∈ (s.turn i n out).between a b :=
      fun hx => Network.mem_between_turn.2 (.inl hx)
    rcases h.pending j h' hg he hb with hx | hx | hx | hx
    · exact .inl (hstay hx)
    · exact .inr (.inl (hstay hx))
    · exact .inr (.inr (.inl (hstay hx)))
    · rcases eq_or_ne h' i with rfl | hne
      · rcases hcs hx with hin | hall
        · exact .inr (.inr (.inr hin))
        · have hj := hall j (hr.mem_S_of_grants hg)
          exact .inr (.inr (.inl (Network.mem_between_turn.2 (.inr ⟨rfl, hj⟩))))
      · refine .inr (.inr (.inr ?_))
        unfold InCriticalSection
        rwa [Network.turn_node_of_ne _ hne]
  · intro j h' hw hb hnot
    rw [(hnode j).1] at hw ⊢
    rw [(hnode j).2.1]
    rw [(hnode h').2.2] at hb
    exact h.first j h' hw hb fun hmem => hnot (Network.mem_between_turn.2 (.inl hmem))

/-- **Every step that does what the protocol asks keeps all invariants.** -/
theorem LiveInv.step (h : LiveInv c s) (hs : Shape c s a s') (hok : FaultFree c s a) :
    LiveInv c s' := by
  have hsafe := h.safe.step hs hok.1
  refine ⟨hsafe, h.present.step hs h.safe ?_, ?_⟩
  · rintro i k m rest rfl hpipe
    exact ⟨h.expected hpipe, (hok.2 (k, m) (by rw [hpipe]; rfl)).1⟩
  cases hs with
  | request i hi hpc hreq =>
    refine h.ordered.turn h.safe.routed rfl rfl rfl rfl (fun p hp => ?_) (fun p hp => ?_)
      fun hcs => ?_
    · exact absurd (mem_marked_map.1 hp).2 (by simp)
    · exact absurd (mem_marked_map.1 hp).2 (by simp)
    · simp [InCriticalSection, hpc] at hcs
  | idle i hi hpc =>
    refine h.ordered.turn h.safe.routed rfl rfl rfl rfl (by simp) (by simp) fun hcs => ?_
    simp [InCriticalSection, hpc] at hcs
  | write i hnode hbetween => exact h.ordered.congr hnode hbetween
  | @handle i k m rest n out hpipe hread hh =>
    obtain ⟨hworks, hgives⟩ := hok.2 (k, m) (by rw [hpipe]; rfl)
    by_cases hm : m.isRequest = true ∨ m.returnsGrant = true
    · exact h.orderedArbiter hpipe hh hworks hgives hsafe.granted hm
    · obtain ⟨hreq, hret⟩ := not_or.1 hm
      exact h.orderedChild hpipe hread hh (fun heq => hok.1 (k, m) (by rw [hpipe]; rfl) heq)
        hgives (Bool.eq_false_iff.2 hreq) (Bool.eq_false_iff.2 hret)
  | enter i hpc hcount =>
    have hown := h.safe.own_status hpc hcount
    refine h.ordered.turn h.safe.routed rfl hown.symm rfl rfl (by simp) (by simp) fun _ => .inl ?_
    unfold InCriticalSection
    rw [Network.turn_node_self]
    exact .inl rfl
  | leave i hpc =>
    refine h.ordered.turn h.safe.routed rfl rfl rfl rfl (fun p hp => ?_) (fun p hp => ?_)
      fun _ => .inr fun j hj => ?_
    all_goals rw [marked_append, List.mem_append] at *
    · rcases hp with hp | hp <;> exact absurd (mem_marked_map.1 hp).2 (by simp)
    · rcases hp with hp | hp <;> exact absurd (mem_marked_map.1 hp).2 (by simp)
    · exact .inl (mem_marked_map.2 ⟨hj, rfl⟩)

theorem liveInv_of_reach (h : Reach (step c) (FaultFree c) (init c) s) : LiveInv c s :=
  h.invariant (.of_init c) fun _ _ _ hinv hok hstep => hinv.step (step_shape hstep) hok

end Maekawa
end Xv6
