/-
# Every message once and in order

`Accounted` ties what has been stored for a receiver to the calls of
`sys_send_multi`: a call in progress has stored its message once for every time
the receiver stands among the pids it has dealt with, a call that has returned
once for every time it stands in its list.  With `Phase` this gives
`multicast_exactly_once`: the receiver gets these messages, each once and in the
order in which they were stored, as soon as it has been scheduled and has gone
through its handler.
-/

import Xv6.Multicast.Delivery

namespace Xv6
namespace Multicast

open Lib Message Function

variable {s s' : State} {e : Event} {r cur : ℕ}

/-- What the call `id` has stored. -/
def entries (stored : List (ℕ × Payload)) (id : ℕ) : List (ℕ × Payload) :=
  stored.filter fun x => x.1 = id

/-- The pids a call in progress has stored its message for. -/
def Sending.reached (c : Sending) : List ℤ :=
  if c.stored then c.sent ++ c.todo.take 1 else c.sent

/-- The calls and what they have stored for `r`. -/
structure Accounted (s : State) (r : ℕ) : Prop where
  open_lt : ∀ cur c, s.sending cur = some c → c.id < s.calls
  open_inj : ∀ cur cur' c c', s.sending cur = some c → s.sending cur' = some c' →
    c.id = c'.id → cur = cur'
  closed_lt : ∀ c ∈ s.returned, c.id < s.calls
  closed_apart : ∀ c ∈ s.returned, ∀ cur c', s.sending cur = some c' → c'.id ≠ c.id
  stored_lt : ∀ x ∈ s.stored r, x.1 < s.calls
  open_entries : ∀ cur c, s.sending cur = some c →
    entries (s.stored r) c.id =
      List.replicate (c.reached.count ((s.proc r).pid : ℤ)) (c.id, c.msg)
  closed_entries : ∀ c ∈ s.returned,
    entries (s.stored r) c.id =
      List.replicate (c.pids.count ((s.proc r).pid : ℤ)) (c.id, c.msg)

/-- Two stages of a call that have stored the same for the pid. -/
def SameCall (pid : ℤ) (c c' : Sending) : Prop :=
  c'.id = c.id ∧ c'.msg = c.msg ∧ c'.reached.count pid = c.reached.count pid

/-- A step that stores nothing for `r` and in which no call begins or ends. -/
theorem Accounted.carry (h : Accounted s r)
    (hopen : ∀ cur c', s'.sending cur = some c' → ∃ c, s.sending cur = some c ∧
      SameCall (s.proc r).pid c c')
    (hcalls : s'.calls = s.calls) (hret : s'.returned = s.returned)
    (hstored : s'.stored r = s.stored r) (hpid : (s'.proc r).pid = (s.proc r).pid) :
    Accounted s' r := by
  constructor
  · intro cur c' h'
    obtain ⟨c, hc, hid, -⟩ := hopen cur c' h'
    rw [hid, hcalls]
    exact h.open_lt cur c hc
  · intro cur₁ cur₂ c₁ c₂ h₁ h₂ heq
    obtain ⟨c₁', hc₁, hid₁, -⟩ := hopen cur₁ c₁ h₁
    obtain ⟨c₂', hc₂, hid₂, -⟩ := hopen cur₂ c₂ h₂
    rw [hid₁, hid₂] at heq
    exact h.open_inj cur₁ cur₂ c₁' c₂' hc₁ hc₂ heq
  · rw [hret, hcalls]
    exact h.closed_lt
  · intro d hd cur c' h'
    obtain ⟨c, hc, hid, -⟩ := hopen cur c' h'
    rw [hret] at hd
    rw [hid]
    exact h.closed_apart d hd cur c hc
  · rw [hstored, hcalls]
    exact h.stored_lt
  · intro cur c' h'
    obtain ⟨c, hc, hid, hmsg, hcount⟩ := hopen cur c' h'
    rw [hstored, hid, hmsg, hpid, hcount]
    exact h.open_entries cur c hc
  · rw [hstored, hret, hpid]
    exact h.closed_entries

/-- The open calls after one of them has moved on. -/
theorem open_update {pid : ℤ} {c c' : Sending}
    (hsend : s'.sending = update s.sending cur (some c')) (hc : s.sending cur = some c)
    (hsame : SameCall pid c c')
    (cur₁ : ℕ) (c₁ : Sending) (h₁ : s'.sending cur₁ = some c₁) :
    ∃ c₀, s.sending cur₁ = some c₀ ∧ SameCall pid c₀ c₁ := by
  rw [hsend] at h₁
  rcases of_update h₁ with ⟨rfl, heq⟩ | ⟨-, h₁⟩
  · cases heq
    exact ⟨c, hc, hsame⟩
  · exact ⟨c₁, h₁, rfl, rfl, rfl⟩

/-- A call begins, with a number that is new. -/
theorem Accounted.send {pids : List ℤ} {msg : Payload} (h : Accounted s r) :
    Accounted (send s cur pids msg) r := by
  have hold : ∀ cur₁ c, (Multicast.send s cur pids msg).sending cur₁ = some c →
      (c.id = s.calls ∧ cur₁ = cur ∧ c.msg = msg ∧ c.reached = []) ∨
      s.sending cur₁ = some c := by
    intro cur₁ c h₁
    rcases of_update h₁ with ⟨hcur, h₁⟩ | ⟨-, h₁⟩
    · cases h₁
      exact .inl ⟨rfl, hcur, rfl, rfl⟩
    · exact .inr h₁
  have hcalls : (Multicast.send s cur pids msg).calls = s.calls + 1 := rfl
  constructor
  · intro cur₁ c h₁
    rw [hcalls]
    rcases hold cur₁ c h₁ with ⟨hid, -⟩ | h₀
    · omega
    · have := h.open_lt cur₁ c h₀
      omega
  · intro cur₁ cur₂ c₁ c₂ h₁ h₂ heq
    rcases hold cur₁ c₁ h₁ with ⟨hid, hcur, -⟩ | h₀ <;>
      rcases hold cur₂ c₂ h₂ with ⟨hid', hcur', -⟩ | h₀'
    · rw [hcur, hcur']
    · have := h.open_lt cur₂ c₂ h₀'
      omega
    · have := h.open_lt cur₁ c₁ h₀
      omega
    · exact h.open_inj cur₁ cur₂ c₁ c₂ h₀ h₀' heq
  · intro d hd
    have := h.closed_lt d hd
    rw [hcalls]
    omega
  · intro d hd cur₁ c h₁
    rcases hold cur₁ c h₁ with ⟨hid, -⟩ | h₀
    · have := h.closed_lt d hd
      omega
    · exact h.closed_apart d hd cur₁ c h₀
  · intro x hx
    have := h.stored_lt x hx
    rw [hcalls]
    omega
  · intro cur₁ c h₁
    rcases hold cur₁ c h₁ with ⟨hid, -, -, hreached⟩ | h₀
    · rw [hreached, hid, List.count_nil, List.replicate_zero]
      refine List.filter_eq_nil_iff.2 fun x hx => ?_
      have := h.stored_lt x hx
      simp only [decide_eq_true_eq]
      omega
    · exact h.open_entries cur₁ c h₀
  · exact h.closed_entries

theorem entries_append (l : List (ℕ × Payload)) (id id' : ℕ) (msg : Payload) :
    entries (l ++ [(id', msg)]) id = entries l id ++ if id' = id then [(id', msg)] else [] := by
  unfold entries
  rw [List.filter_append]
  split
  · next h => simp [h]
  · next h => simp [h]

/-- A call stores its message for `r`. -/
theorem Accounted.store {c : Sending} {pid : ℤ} {rest : List ℤ} (h : Accounted s r)
    (hc : s.sending cur = some c) (htodo : c.todo = pid :: rest) (hstored : c.stored = false)
    (hsend : s'.sending = update s.sending cur (some { c with stored := true }))
    (hcalls : s'.calls = s.calls) (hret : s'.returned = s.returned)
    (hst : s'.stored r = s.stored r ++ [(c.id, c.msg)])
    (hpid : (s'.proc r).pid = (s.proc r).pid) (heq : ((s.proc r).pid : ℤ) = pid) :
    Accounted s' r := by
  have hold : ∀ cur₁ c₁, s'.sending cur₁ = some c₁ →
      (cur₁ = cur ∧ c₁ = { c with stored := true }) ∨ cur₁ ≠ cur ∧ s.sending cur₁ = some c₁ := by
    intro cur₁ c₁ h₁
    rw [hsend] at h₁
    exact (of_update h₁).imp_left (And.imp_right fun heq => (Option.some.inj heq).symm)
  constructor
  · intro cur₁ c₁ h₁
    rw [hcalls]
    rcases hold cur₁ c₁ h₁ with ⟨-, rfl⟩ | ⟨-, h₀⟩
    · exact h.open_lt cur c hc
    · exact h.open_lt cur₁ c₁ h₀
  · intro cur₁ cur₂ c₁ c₂ h₁ h₂ hid
    rcases hold cur₁ c₁ h₁ with ⟨hcur, rfl⟩ | ⟨-, h₀⟩ <;>
      rcases hold cur₂ c₂ h₂ with ⟨hcur', rfl⟩ | ⟨-, h₀'⟩
    · rw [hcur, hcur']
    · exact hcur.trans (h.open_inj cur cur₂ c c₂ hc h₀' hid)
    · exact (h.open_inj cur₁ cur c₁ c h₀ hc hid).trans hcur'.symm
    · exact h.open_inj cur₁ cur₂ c₁ c₂ h₀ h₀' hid
  · rw [hret, hcalls]
    exact h.closed_lt
  · intro d hd cur₁ c₁ h₁
    rw [hret] at hd
    rcases hold cur₁ c₁ h₁ with ⟨-, rfl⟩ | ⟨-, h₀⟩
    · exact h.closed_apart d hd cur c hc
    · exact h.closed_apart d hd cur₁ c₁ h₀
  · intro x hx
    rw [hst] at hx
    rw [hcalls]
    rcases List.mem_append.1 hx with hx | hx
    · exact h.stored_lt x hx
    · obtain rfl := List.mem_singleton.1 hx
      exact h.open_lt cur c hc
  · intro cur₁ c₁ h₁
    rw [hst, entries_append, hpid]
    rcases hold cur₁ c₁ h₁ with ⟨-, rfl⟩ | ⟨hne, h₀⟩
    · -- one entry more, and one pid more that has been reached
      have hreached : ({ c with stored := true } : Sending).reached = c.reached ++ [pid] := by
        simp [Sending.reached, hstored, htodo]
      rw [if_pos rfl, hreached, List.count_append, heq, List.count_singleton_self,
        List.replicate_succ', ← heq]
      exact congrArg (· ++ [(c.id, c.msg)]) (h.open_entries cur c hc)
    · have hid : c.id ≠ c₁.id := fun hid => hne (h.open_inj cur cur₁ c c₁ hc h₀ hid).symm
      rw [if_neg hid, List.append_nil]
      exact h.open_entries cur₁ c₁ h₀
  · intro d hd
    rw [hret] at hd
    rw [hst, entries_append, hpid, if_neg (h.closed_apart d hd cur c hc), List.append_nil]
    exact h.closed_entries d hd

/-- A call returns. -/
theorem Accounted.ret {c : Sending} (h : Accounted s r) (hc : s.sending cur = some c)
    (htodo : c.todo = []) : Accounted (ret s cur c) r := by
  have hold : ∀ cur₁ c₁, (Multicast.ret s cur c).sending cur₁ = some c₁ →
      cur₁ ≠ cur ∧ s.sending cur₁ = some c₁ := by
    intro cur₁ c₁ h₁
    exact (of_update h₁).resolve_left fun h => nomatch h.2
  have hreached : c.reached = c.sent := by simp [Sending.reached, htodo]
  constructor
  · intro cur₁ c₁ h₁
    exact h.open_lt cur₁ c₁ (hold cur₁ c₁ h₁).2
  · intro cur₁ cur₂ c₁ c₂ h₁ h₂
    exact h.open_inj cur₁ cur₂ c₁ c₂ (hold cur₁ c₁ h₁).2 (hold cur₂ c₂ h₂).2
  · intro d hd
    rcases List.mem_cons.1 hd with rfl | hd
    · exact h.open_lt cur c hc
    · exact h.closed_lt d hd
  · intro d hd cur₁ c₁ h₁
    obtain ⟨hne, h₀⟩ := hold cur₁ c₁ h₁
    rcases List.mem_cons.1 hd with rfl | hd
    · exact fun hid => hne (h.open_inj cur₁ cur c₁ c h₀ hc hid)
    · exact h.closed_apart d hd cur₁ c₁ h₀
  · exact h.stored_lt
  · intro cur₁ c₁ h₁
    exact h.open_entries cur₁ c₁ (hold cur₁ c₁ h₁).2
  · intro d hd
    rcases List.mem_cons.1 hd with rfl | hd
    · rw [← hreached]
      exact h.open_entries cur c hc
    · exact h.closed_entries d hd

/-- **One step keeps the account.** -/
theorem Accounted.step (h : Accounted s r) (htab : Table s) (hr : r < NPROC)
    (hs : Shape s s' e) : Accounted s' r := by
  have hpid := (hs.fixed r).1
  cases hs with
  | send hcur hnone hs' => exact hs' ▸ h.send
  | @store cur c pid rest i hc htodo hstored hrange hslot hs' =>
    rcases eq_or_ne i r with rfl | hne
    · exact h.store hc htodo hstored (by rw [hs']) (by rw [hs']; rfl) (by rw [hs']; rfl)
        (by simp [hs']) hpid (slotOf_eq_some hslot).2
    · -- another process's buffer
      have hother : pid ≠ ((s.proc r).pid : ℤ) := fun heq =>
        hne (htab.slot_unique hslot hr heq.symm)
      refine h.carry (open_update (congrArg State.sending hs') hc ⟨rfl, rfl, ?_⟩) (by rw [hs']; rfl)
        (by rw [hs']; rfl) (by simp [hs', hne.symm]) hpid
      simp [Sending.reached, hstored, htodo, hother]
  | @raise cur c pid rest i hc htodo hstored hslot hs' =>
    refine h.carry (open_update (congrArg State.sending hs') hc ⟨rfl, rfl, ?_⟩) (by rw [hs']; rfl)
      (by rw [hs']; rfl) (by rw [hs']; rfl) hpid
    simp [Sending.reached, hstored, htodo]
  | @miss cur c pid rest hc htodo hstored hslot hs' =>
    refine h.carry (open_update (congrArg State.sending hs') hc ⟨rfl, rfl, ?_⟩) (by rw [hs'])
      (by rw [hs']) (by rw [hs']) hpid
    simp [Sending.reached, hstored, htodo]
  | ret c hc htodo hs' => exact hs' ▸ h.ret hc htodo
  | dispatch hs' | yield hs' =>
    refine h.carry (fun cur c hc => ⟨c, ?_, rfl, rfl, rfl⟩) (by rw [hs']; rfl)
      (by rw [hs']; rfl) (by rw [hs']; rfl) hpid
    rw [hs'] at hc
    exact hc
  | recv j hrun hdue hslot hs' =>
    exact h.carry (fun cur c hc => ⟨c, by rwa [hs'] at hc, rfl, rfl, rfl⟩) (by rw [hs'])
      (by rw [hs']) (by rw [hs']) hpid

/-! ### Every run -/

theorem Boot.table (h : Boot s) : Table s where
  inj := h.inj
  lt cur hcur := absurd (h.sending cur) hcur

theorem Boot.phase (h : Boot s) (r : ℕ) : Phase s r :=
  .idle (by rw [h.received, h.stored]; rfl) (fun cur => not_inFlight_of_none (h.sending cur))
    (h.pending r) (h.due r)

theorem Boot.accounted (h : Boot s) (r : ℕ) : Accounted s r := by
  have hnone : ∀ {cur c}, s.sending cur ≠ some c := by
    intro cur c hc
    rw [h.sending] at hc
    cases hc
  constructor
  · exact fun cur c hc => absurd hc hnone
  · exact fun cur cur' c c' hc => absurd hc hnone
  · rw [h.returned]
    exact nofun
  · rw [h.returned]
    exact nofun
  · rw [h.stored]
    exact nofun
  · exact fun cur c hc => absurd hc hnone
  · rw [h.returned]
    exact nofun

/-- The invariants of a receiver with a handler of its own. -/
structure Served (r : ℕ) (s : State) : Prop where
  user : (s.proc r).handler = .user
  table : Table s
  phase : Phase s r
  accounted : Accounted s r

theorem Served.step (h : Served r s) (hr : r < NPROC) (hspaced : Spaced r s e)
    (hstep : step s e = some s') : Served r s' := by
  have hs := step_shape hstep
  exact ⟨(hs.fixed r).2.trans h.user, h.table.step hs,
    h.phase.step h.table hr h.user hspaced hs, h.accounted.step h.table hr hs⟩

theorem served_of_reach {s₀ : State} (hboot : Boot s₀) (hr : r < NPROC)
    (huser : (s₀.proc r).handler = .user) (h : Reach step (Spaced r) s₀ s) : Served r s := by
  refine h.invariant (I := Served r)
    ⟨huser, hboot.table, hboot.phase r, hboot.accounted r⟩ ?_
  exact fun x e y hx hspaced hstep => hx.step hr hspaced hstep

/-- What the receiver does by itself. -/
def OwnTurn (r : ℕ) (e : Event) : Prop := e = .yield r ∨ e = .dispatch r ∨ e = .recv r

/-- By such turns it receives all that has been stored for it. -/
def CatchesUp (r : ℕ) (s : State) : Prop :=
  ∃ (acts : List Event) (s' : State), (∀ e ∈ acts, OwnTurn r e) ∧
    acts.foldlM step s = some s' ∧ s'.received r = (s.stored r).map Prod.snd

/-- The handler that is due takes the message out of the buffer. -/
theorem recv_due (h : Table s) (hr : r < NPROC) (hfree : s.sending r = none)
    (hrun : (s.proc r).running = true) (hpid : (s.proc r).pid < NPROC) (hdue : 0 < s.due r) :
    ∃ s', step s (.recv r) = some s' ∧
      s'.received r = s.received r ++ [loadPayload (s.proc r).msgFromMulticast] := by
  have hguard : Running s r ∧ (s.sending r).isNone = true ∧ 0 < s.due r :=
    ⟨⟨hr, hrun⟩, by rw [hfree]; rfl, hdue⟩
  have hrange : (0 : ℤ) ≤ (s.proc r).pid ∧ ((s.proc r).pid : ℤ) < NPROC := by omega
  have hload : receiveFromProcbuffer s (s.proc r).pid =
      .ok (loadPayload (s.proc r).msgFromMulticast) := by
    rw [receiveFromProcbuffer, if_pos hrange, slotOf_self h hr]
  have hstep : step s (.recv r) = recv s r := if_pos hguard
  rw [hstep, recv, hload]
  exact ⟨_, rfl, update_self ..⟩

/-- A receiver that is switched to, with nobody between buffer and signal, has everything
after its handler. -/
theorem Served.catch_up_dispatch (h : Served r s) (hr : r < NPROC) (hfree : s.sending r = none)
    (hnone : ∀ cur < NPROC, ¬ InFlight s r cur) (hrun : (s.proc r).running = false) :
    CatchesUp r s := by
  have hstep : Multicast.step s (.dispatch r) = some (dispatch s r) := if_pos ⟨hr, hrun⟩
  have h' := h.step (e := .dispatch r) hr trivial hstep
  have hsame := inFlight_congr ((step_shape hstep).fixed r).1 rfl
  have hproc : (dispatch s r).proc r = { s.proc r with running := true, pending := false } := by
    simp [dispatch, State.modify]
  cases h'.phase with
  | idle hrec _ _ _ =>
    exact ⟨[.dispatch r], dispatch s r, by simp [OwnTurn], by simp [hstep], hrec⟩
  | out msg hrec hbuf hpid htok =>
    cases htok with
    | sender cur hcur hsole hpend hd =>
      refine absurd ((hsame cur).1 hcur) (hnone cur (h'.table.lt cur fun hsend => ?_))
      exact not_inFlight_of_none hsend hcur
    | signal _ hpend hd =>
      rw [hproc] at hpend
      cases hpend
    | handler _ hpend hd =>
      obtain ⟨s', hrecv, hgot⟩ :=
        recv_due h'.table hr hfree (by rw [hproc]) hpid (by omega)
      refine ⟨[.dispatch r, .recv r], s', by simp [OwnTurn], ?_, ?_⟩
      · simp [hstep, hrecv]
      · rw [hgot, hbuf]
        exact hrec.symm

/-- **The receiver catches up by its own turns.** -/
theorem Served.catch_up (h : Served r s) (hr : r < NPROC) (hfree : s.sending r = none)
    (hnone : ∀ cur < NPROC, ¬ InFlight s r cur) : CatchesUp r s := by
  cases hrun : (s.proc r).running with
  | false => exact h.catch_up_dispatch hr hfree hnone hrun
  | true =>
    have hstep : Multicast.step s (.yield r) =
        some (s.modify r fun p => { p with running := false }) := if_pos ⟨hr, hrun⟩
    obtain ⟨acts, s', hown, hacts, hrec⟩ := (h.step (e := .yield r) hr trivial hstep).catch_up_dispatch
      hr hfree (fun cur hcur hfl => hnone cur hcur
        ((inFlight_congr ((step_shape hstep).fixed r).1 rfl cur).1 hfl)) (by simp [State.modify])
    refine ⟨.yield r :: acts, s', ?_, ?_, hrec⟩
    · intro e he
      rcases List.mem_cons.1 he with rfl | he
      · exact .inl rfl
      · exact hown e he
    · rw [List.foldlM_cons, hstep]
      exact hacts

/-- **Multicast loses, duplicates and reorders nothing, if messages are spaced.**  In every run
in which no message is stored for `r` while another is on its way to it: what a call that has
returned has stored for `r` is its message, once for each time `r` is in its list; `r` has
received the first of the messages stored for it, in order and each once; it has received all
of them when no signal is pending, no handler due and no sender about to raise the signal; and
by being scheduled and going through its handler it comes there. -/
theorem multicast_exactly_once {s₀ : State} (hboot : Boot s₀) (hr : r < NPROC)
    (huser : (s₀.proc r).handler = .user) (h : Reach step (Spaced r) s₀ s) :
    (∀ c ∈ s.returned, entries (s.stored r) c.id =
      List.replicate (c.pids.count ((s.proc r).pid : ℤ)) (c.id, c.msg)) ∧
    s.received r <+: (s.stored r).map Prod.snd ∧
    (¬ Busy s r → s.received r = (s.stored r).map Prod.snd) ∧
    (s.sending r = none → (∀ cur < NPROC, ¬ InFlight s r cur) → CatchesUp r s) := by
  have hserved := served_of_reach hboot hr huser h
  refine ⟨hserved.accounted.closed_entries, ?_, ?_, hserved.catch_up hr⟩
  · cases hserved.phase with
    | idle hrec _ _ _ => exact ⟨[], by rw [List.append_nil, hrec]⟩
    | out msg hrec _ _ _ =>
      rw [hrec]
      exact List.prefix_append _ _
  · exact fun hbusy => (hserved.phase.received_of_not_busy hserved.table hbusy).1

/-- Processes with the pids `1, 2, …`, each with a handler of its own. -/
def start : State where
  proc i := { pid := i + 1, running := false, pending := false, handler := .user,
              msgFromMulticast := fun _ => 0 }
  sending _ := none
  due _ := 0
  calls := 0
  stored _ := []
  received _ := []
  returned := []

theorem boot_start : Boot start where
  inj _ _ _ _ h := Nat.succ.inj h
  pending _ := rfl
  sending _ := rfl
  due _ := rfl
  calls := rfl
  stored _ := rfl
  received _ := rfl
  returned := rfl

/-- A message to the processes 1 and 3, and one to process 1 after it has received the first. -/
theorem multicast_exactly_once_two : ∃ s, Reach step (Spaced 0) start s ∧
    s.returned.map Sent.flag = [0, 0] ∧ ¬ Busy s 0 ∧
    (s.stored 0).map (fun x => x.2 0) = [5, 7] ∧
    s.received 0 = (s.stored 0).map Prod.snd := by
  have hrun : ∃ s, Reach step (Spaced 0) start s ∧ s.returned.map Sent.flag = [0, 0] ∧
      ¬ Busy s 0 ∧ (s.stored 0).map (fun x => x.2 0) = [5, 7] :=
    exists_reach_of_any
      [.dispatch 1, .send 1 [1, 3] fun _ => 5, .store 1, .raise 1, .store 1, .raise 1, .ret 1,
        .dispatch 0, .recv 0, .dispatch 2, .send 2 [1] fun _ => 7, .store 2, .raise 2, .ret 2,
        .yield 0, .dispatch 0, .recv 0] (by decide +kernel)
  obtain ⟨s, hreach, hflags, hbusy, hstored⟩ := hrun
  exact ⟨s, hreach, hflags, hbusy, hstored,
    (multicast_exactly_once boot_start (by decide) rfl hreach).2.2.1 hbusy⟩

/-- Two senders: the second stores its message before the receiver is scheduled.  Both calls
return 0, and the first message is never received. -/
theorem multicast_overwrites : ∃ s, Reach step anyStep start s ∧
    s.returned.map Sent.flag = [0, 0] ∧ ¬ Busy s 0 ∧
    (s.stored 0).map (fun x => x.2 0) = [5, 7] ∧ (s.received 0).map (fun msg => msg 0) = [7] :=
  exists_reach_of_any
    [.dispatch 1, .dispatch 2, .send 1 [1] fun _ => 5, .store 1, .raise 1, .ret 1,
      .send 2 [1] fun _ => 7, .store 2, .raise 2, .ret 2, .dispatch 0, .recv 0]
    (by decide +kernel)

end Multicast
end Xv6
