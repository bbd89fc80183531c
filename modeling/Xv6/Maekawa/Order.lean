/-
# Who has to give way

The part of the protocol of `xv6/maekawa.c` that is to prevent deadlock.  A child
that waits at an arbiter behind an earlier request is told so (`FAILED`), and a
child that has a vote an earlier request waits for is asked for it (`INQUIRE`) and
gives it back once it knows that it has failed somewhere (`RELINQUISH`).  `Ordered`
says what holds of these messages:

* a vote is given back, and asked for, only if an earlier request waits for it;
* a child that knows it has failed, and has a vote that an earlier request waits
  for, has been asked and not answered yet, or is done with it;
* a child that waits and has not been told that it failed is the earliest there.

Three things in the code break this, and `GivesWay` excludes them.  `FAILED` does not
look for an `INQUIRE` that was ignored before it came.  The scan of a `REQUEST` looks at
the first cells of the queue's array instead of the cells of the queue.  A request
that becomes the earliest at an arbiter displaces another without telling it.
-/

import Xv6.Maekawa.Presence

namespace Xv6
namespace Maekawa

open Lib

/-! ### Open inquiries -/

/-- What a further message makes of `asked`. -/
def askedAfter (b : Bool) : Body → Bool
  | .locked => false
  | .inquire => true
  | _ => b

/-- Of the `LOCKED` and `INQUIRE` messages of a channel, the last is an `INQUIRE`: it asks
for the vote that was granted last. -/
def asked (l : List Body) : Bool := l.foldl askedAfter false

theorem askedAfter_mono {b b' : Bool} (h : b = true → b' = true) (x : Body)
    (hx : askedAfter b x = true) : askedAfter b' x = true := by
  cases x <;> first | exact hx | exact h hx

theorem askedAfter_of_ne {b : Bool} {x : Body} (hx : x ≠ .inquire)
    (h : askedAfter b x = true) : b = true := by
  cases x <;> first | exact h | exact absurd rfl hx | cases h

theorem asked_append {l l' : List Body} (hl' : .inquire ∉ l') (h : asked (l ++ l') = true) :
    asked l = true := by
  unfold asked at h ⊢
  rw [List.foldl_append] at h
  generalize l.foldl askedAfter false = b at h ⊢
  induction l' generalizing b with
  | nil => exact h
  | cons x l' ih =>
    obtain ⟨hx, hl'⟩ := not_or.1 (mt List.mem_cons.2 hl')
    exact askedAfter_of_ne (Ne.symm hx) (ih hl' _ h)

theorem asked_append_locked (l : List Body) : asked (l ++ [.locked]) = false := by
  unfold asked
  rw [List.foldl_append]
  rfl

theorem asked_of_suffix {l l' : List Body} (h : asked l' = true) : asked (l ++ l') = true := by
  have hmono : ∀ (l' : List Body) (b b' : Bool), (b = true → b' = true) →
      l'.foldl askedAfter b = true → l'.foldl askedAfter b' = true := by
    intro l'
    induction l' with
    | nil => exact fun b b' hb h => hb h
    | cons x l' ih => exact fun b b' hb h => ih _ _ (askedAfter_mono hb x) h
  unfold asked
  rw [List.foldl_append]
  exact hmono l' false _ (by simp) h

theorem asked_inquire_cons {l : List Body} (h : .locked ∉ l) : asked (.inquire :: l) = true := by
  change l.foldl askedAfter true = true
  induction l with
  | nil => rfl
  | cons x l ih =>
    obtain ⟨hx, hl⟩ := not_or.1 (mt List.mem_cons.2 h)
    rw [List.foldl_cons, show askedAfter true x = true by cases x <;> first | rfl | exact absurd rfl hx]
    exact ih hl

/-! ### The invariant -/

/-- A request earlier than that of `h` waits at the arbiter. -/
def Earlier (c : Config) (n : Node) (h : ℕ) : Prop :=
  ∃ r ∈ waiting n.waitQueue, precedes r (c.req h) = true

instance (c : Config) (n : Node) (h : ℕ) : Decidable (Earlier c n h) :=
  inferInstanceAs (Decidable (∃ r ∈ waiting n.waitQueue, _))

structure Ordered (c : Config) (s : State) : Prop where
  relinquishing : ∀ h j, .relinquish ∈ s.between h j →
    (s.node h).failedBit = true ∧ Earlier c (s.node j) h
  inquired : ∀ j h, Grants s j h → asked (s.between j h) = true → Earlier c (s.node j) h
  pending : ∀ j h, Grants s j h → Earlier c (s.node j) h → (s.node h).failedBit = true →
    .inquire ∈ s.between j h ∨ .relinquish ∈ s.between h j ∨ .release ∈ s.between h j ∨
      InCriticalSection c s h
  first : ∀ j h, c.req h ∈ waiting (s.node j).waitQueue → (s.node h).failedBit = false →
    .failed ∉ s.between j h →
      (c.req h).key < (s.node j).currentLockingRequest.key ∧
        ∀ r ∈ waiting (s.node j).waitQueue, (c.req h).key ≤ r.key

/-- What `h` may be about with a vote of `j` that it has to give back. -/
def Answering (c : Config) (s : State) (j h : ℕ) : Prop :=
  .inquire ∈ s.between j h ∨ .relinquish ∈ s.between h j ∨ .release ∈ s.between h j ∨
    InCriticalSection c s h

/-- Every `INQUIRE` about a vote of `i` that an earlier request waits for is still to be
read. -/
def InquiriesOpen (c : Config) (s : State) (i : ℕ) : Prop :=
  ∀ j ∈ c.S i, Grants s j i → Earlier c (s.node j) i → .inquire ∈ s.between j i

/-- The test loop of the `REQUEST` case sees what waits. -/
def ScanSees (n : Node) (req : Request) : Prop :=
  scanFails (enqueueRequestQueue n.waitQueue req) req =
    (waiting n.waitQueue).any fun r => precedes r req

/-- Whoever waits at `i` has failed somewhere, or `FAILED` is on its way. -/
def WaitersTold (c : Config) (s : State) (i : ℕ) : Prop :=
  ∀ h ∈ List.range c.P, c.req h ∈ waiting (s.node i).waitQueue →
    (s.node h).failedBit = true ∨ .failed ∈ s.between i h

instance (c : Config) (s : State) (i : ℕ) : Decidable (InquiriesOpen c s i) :=
  inferInstanceAs (Decidable (∀ j ∈ c.S i, _))

instance (n : Node) (req : Request) : Decidable (ScanSees n req) :=
  inferInstanceAs (Decidable (_ = _))

instance (c : Config) (s : State) (i : ℕ) : Decidable (WaitersTold c s i) :=
  inferInstanceAs (Decidable (∀ h ∈ List.range c.P, _))

/-- What the handlers of `FAILED` and `REQUEST` rely on. -/
def GivesWay (c : Config) (s : State) (i k : ℕ) : Body → Prop
  | .failed => (s.node i).pc = .acquiring → (s.node i).failedBit = false → InquiriesOpen c s i
  | .request ts => (s.node i).processStatus = 1 → ScanSees (s.node i) ⟨k, ts⟩ ∧
      ((waiting (s.node i).waitQueue).all (fun r => !precedes r ⟨k, ts⟩) = true →
        precedes (s.node i).currentLockingRequest ⟨k, ts⟩ = false → WaitersTold c s i)
  | _ => True

variable {c : Config} {s s' : State} {a : Action} {i j k q : ℕ} {n : Node} {m : Body}
  {rest out : List Message}

theorem Ordered.of_init (c : Config) : Ordered c (init c) where
  relinquishing _ _ h := absurd h List.not_mem_nil
  inquired _ _ h := absurd h.1 (show ¬ (0 : ℕ) = 1 by decide)
  pending _ _ h := absurd h.1 (show ¬ (0 : ℕ) = 1 by decide)
  first _ _ h := absurd h List.not_mem_nil

theorem Ordered.congr (h : Ordered c s) (hnode : s'.node = s.node)
    (hbetween : s'.between = s.between) : Ordered c s' := by
  obtain ⟨hrel, hinq, hpend, hfirst⟩ := h
  constructor <;> simpa only [Grants, InCriticalSection, hnode, hbetween]

/-- No new `INQUIRE`, no new inquiry. -/
theorem asked_of_receive (hpipe : s.pipe i = (k, m) :: rest) {h : ℕ}
    (hout : .inquire ∉ marked h out)
    (hasked : asked ((s.receive i rest n out).between j h) = true) :
    asked (s.between j h) = true := by
  have hlaw := asked_of_suffix (l := if j = k ∧ h = i then [m] else []) hasked
  rw [Network.between_receive hpipe] at hlaw
  refine asked_append ?_ hlaw
  split_ifs
  · exact hout
  · exact List.not_mem_nil

theorem inCriticalSection_receive (hpc : n.pc = (s.node i).pc)
    (hcount : n.lockedCount = (s.node i).lockedCount) :
    InCriticalSection c (s.receive i rest n out) q ↔ InCriticalSection c s q := by
  have hpcs : ((s.receive i rest n out).node q).pc = (s.node q).pc := update_field Node.pc hpc q
  have hcounts : ((s.receive i rest n out).node q).lockedCount = (s.node q).lockedCount :=
    update_field Node.lockedCount hcount q
  unfold InCriticalSection
  rw [hpcs, hcounts]

/-- Only the message taken can be what was to be done. -/
theorem Answering.receive (h : Answering c s j q) (hpipe : s.pipe i = (k, m) :: rest)
    (hinquire : m = .inquire → j = k → q ≠ i) (hback : m.returnsGrant = true → j ≠ i)
    (hcs : InCriticalSection c s q → InCriticalSection c (s.receive i rest n out) q) :
    Answering c (s.receive i rest n out) j q := by
  have hkeep : ∀ x, x.returnsGrant = true → x ∈ s.between q j →
      x ∈ (s.receive i rest n out).between q j := fun x hx hmem =>
    (Network.mem_between_receive_or hpipe n out hmem).resolve_right fun hm =>
      hback (hm.2.2 ▸ hx) hm.2.1
  rcases h with hx | hx | hx | hx
  · exact .inl ((Network.mem_between_receive_or hpipe n out hx).resolve_right fun hm =>
      hinquire hm.2.2.symm hm.1 hm.2.1)
  · exact .inr (.inl (hkeep _ rfl hx))
  · exact .inr (.inr (.inl (hkeep _ rfl hx)))
  · exact .inr (.inr (.inr (hcs hx)))

/-! ### Messages to a child -/

/-- **A message to the child** (`LOCKED`, `FAILED`, `INQUIRE`, `COMPLETE`) leaves the
arbiters alone; what is in question is what the child itself owes. -/
theorem Ordered.receiveByChild (h : Ordered c s) (hpipe : s.pipe i = (k, m) :: rest)
    (hqueue : n.waitQueue = (s.node i).waitQueue)
    (hst : n.processStatus = (s.node i).processStatus)
    (hcur : n.currentLockingRequest = (s.node i).currentLockingRequest)
    (hbit : (s.node i).failedBit = true → n.failedBit = true)
    (hm : m.returnsGrant = false) (hfailed : m = .failed → n.failedBit = true)
    (hout : ∀ p, .inquire ∉ marked p out)
    (hrel : ∀ j, .relinquish ∈ marked j out → n.failedBit = true ∧ Earlier c (s.node j) i)
    (hpend : ∀ j, Grants s j i → Earlier c (s.node j) i → n.failedBit = true →
      Answering c (s.receive i rest n out) j i) :
    Ordered c (s.receive i rest n out) := by
  have hgrants : ∀ j q, Grants (s.receive i rest n out) j q ↔ Grants s j q :=
    fun j q => grants_receive hst hcur
  have hwaiting : ∀ j, ((s.receive i rest n out).node j).waitQueue = (s.node j).waitQueue :=
    update_field Node.waitQueue hqueue
  have hcurrent : ∀ j, ((s.receive i rest n out).node j).currentLockingRequest =
      (s.node j).currentLockingRequest := update_field Node.currentLockingRequest hcur
  have hearlier : ∀ j h, Earlier c ((s.receive i rest n out).node j) h ↔ Earlier c (s.node j) h := by
    intro j h
    unfold Earlier
    rw [hwaiting]
  have hmono : ∀ h, (s.node h).failedBit = true →
      ((s.receive i rest n out).node h).failedBit = true := by
    intro h hh
    rcases eq_or_ne h i with rfl | hne
    · rw [Network.receive_node_self]
      exact hbit hh
    · rwa [Network.receive_node_of_ne _ hne]
  constructor
  · intro h' j hmem
    rw [hearlier]
    rcases Network.mem_of_mem_between_receive hpipe n out hmem with hold | ⟨rfl, hnew⟩
    · obtain ⟨hb, he⟩ := h.relinquishing h' j hold
      exact ⟨hmono h' hb, he⟩
    · rw [Network.receive_node_self]
      exact hrel j hnew
  · intro j h' hg hasked
    rw [hearlier]
    exact h.inquired j h' ((hgrants j h').1 hg) (asked_of_receive hpipe (hout h') hasked)
  · intro j h' hg he hb
    rw [hgrants] at hg
    rw [hearlier] at he
    rcases eq_or_ne h' i with rfl | hne
    · rw [Network.receive_node_self] at hb
      exact hpend j hg he hb
    · rw [Network.receive_node_of_ne _ hne] at hb
      refine Answering.receive (h.pending j h' hg he hb) hpipe (fun _ _ => hne)
        (fun hm' => by simp [hm] at hm') fun hcs => ?_
      unfold InCriticalSection
      rwa [Network.receive_node_of_ne _ hne]
  · intro j h' hw hb hnot
    rw [hwaiting] at hw ⊢
    rw [hcurrent]
    refine h.first j h' hw (Bool.eq_false_iff.2 fun hbit' => ?_) fun hmem => ?_
    · rw [hmono h' hbit'] at hb
      cases hb
    · rcases Network.mem_between_receive_or hpipe n out hmem with hin | ⟨-, rfl, hm⟩
      · exact hnot hin
      · rw [Network.receive_node_self, hfailed hm.symm] at hb
        cases hb

end Maekawa
end Xv6
