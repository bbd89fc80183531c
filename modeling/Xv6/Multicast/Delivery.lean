/-
# What a receiver gets

A message lives in the one buffer of its receiver from `sent_to_proc_buffer` to
`recv_multi`.  On its way it is a token in one of three places: with the sender
that has still to raise the signal, in the pending mark, or in the handler the
process has still to go through.  `Phase` says that there is one token at most
and that what has been received is what has been stored, without the message of
the token.  A second message stored while there is a token takes the first
one's place; the runs without that are those in which nothing is lost,
duplicated or reordered.
-/

import Xv6.Multicast.Model

namespace Xv6
namespace Multicast

open Lib Message

variable {s s' : State} {e : Event} {r : ℕ}

/-- The process of slot `cur` has written the buffer of slot `r` and has still to raise the
signal. -/
def InFlight (s : State) (r cur : ℕ) : Prop :=
  ∃ c ∈ s.sending cur, c.stored = true ∧ c.todo.head? = some ((s.proc r).pid : ℤ)

instance (s : State) (r cur : ℕ) : Decidable (InFlight s r cur) :=
  inferInstanceAs (Decidable (∃ c ∈ s.sending cur, _))

/-- A message is on its way to slot `r`. -/
def Busy (s : State) (r : ℕ) : Prop :=
  (s.proc r).pending = true ∨ 0 < s.due r ∨ ∃ cur < NPROC, InFlight s r cur

instance (s : State) (r : ℕ) : Decidable (Busy s r) := inferInstanceAs (Decidable (_ ∨ _ ∨ _))

/-- No message is stored for `r` while another is on its way. -/
def Spaced (r : ℕ) (s : State) : Event → Prop
  | .store cur => (∃ c ∈ s.sending cur, c.todo.head? = some ((s.proc r).pid : ℤ)) → ¬ Busy s r
  | _ => True

instance (r : ℕ) (s : State) (e : Event) : Decidable (Spaced r s e) := by
  unfold Spaced
  split <;> infer_instance

/-- Where the message on its way is. -/
inductive Token (s : State) (r : ℕ) : Prop where
  | sender (cur : ℕ) (hcur : InFlight s r cur) (hsole : ∀ cur', InFlight s r cur' → cur' = cur)
      (hpending : (s.proc r).pending = false) (hdue : s.due r = 0)
  | signal (hnone : ∀ cur, ¬ InFlight s r cur) (hpending : (s.proc r).pending = true)
      (hdue : s.due r = 0)
  | handler (hnone : ∀ cur, ¬ InFlight s r cur) (hpending : (s.proc r).pending = false)
      (hdue : s.due r = 1)

/-- Everything stored for `r` has been received, or all but the message on its way, which is
in the buffer. -/
inductive Phase (s : State) (r : ℕ) : Prop where
  | idle (hreceived : s.received r = (s.stored r).map Prod.snd)
      (hnone : ∀ cur, ¬ InFlight s r cur) (hpending : (s.proc r).pending = false)
      (hdue : s.due r = 0)
  | out (msg : Payload) (hreceived : (s.stored r).map Prod.snd = s.received r ++ [msg])
      (hbuffer : loadPayload (s.proc r).msgFromMulticast = msg) (hpid : (s.proc r).pid < NPROC)
      (htoken : Token s r)

/-- The table: distinct pids, and callers that are in it. -/
structure Table (s : State) : Prop where
  inj : ∀ i < NPROC, ∀ j < NPROC, (s.proc i).pid = (s.proc j).pid → i = j
  lt : ∀ cur, s.sending cur ≠ none → cur < NPROC

/-! ### The table -/

theorem slotOf_eq_some {pid : ℤ} {i : ℕ} (h : s.slotOf pid = some i) :
    i < NPROC ∧ ((s.proc i).pid : ℤ) = pid :=
  ⟨List.mem_range.1 (List.mem_of_find?_eq_some h),
    of_decide_eq_true (List.find?_some (p := fun i => decide (((s.proc i).pid : ℤ) = pid)) h)⟩

theorem slotOf_eq_none {pid : ℤ} (h : s.slotOf pid = none) {i : ℕ} (hi : i < NPROC) :
    ((s.proc i).pid : ℤ) ≠ pid := by
  have := List.find?_eq_none.1 h i (List.mem_range.2 hi)
  simpa using this

/-- Only its own slot has a pid. -/
theorem Table.slot_unique (h : Table s) {pid : ℤ} {i : ℕ} (hslot : s.slotOf pid = some i)
    (hr : r < NPROC) (hpid : ((s.proc r).pid : ℤ) = pid) : i = r := by
  obtain ⟨hi, hpid'⟩ := slotOf_eq_some hslot
  refine h.inj i hi r hr ?_
  exact_mod_cast hpid'.trans hpid.symm

theorem slotOf_self (h : Table s) (hr : r < NPROC) : s.slotOf (s.proc r).pid = some r := by
  cases hslot : s.slotOf (s.proc r).pid with
  | none => exact absurd rfl (slotOf_eq_none hslot hr)
  | some i => rw [h.slot_unique hslot hr rfl]

/-- The fields no step writes. -/
theorem Shape.fixed (hs : Shape s s' e) (i : ℕ) :
    (s'.proc i).pid = (s.proc i).pid ∧ (s'.proc i).handler = (s.proc i).handler := by
  -- a step rewrites one slot at most, and there neither of the two
  cases hs with
  | send hcur hnone h => exact h ▸ ⟨rfl, rfl⟩
  | store c pid rest j hc htodo hstored hpid hslot h | raise c pid rest j hc htodo hstored hslot h =>
    rw [h]
    simp only [State.modify, Function.update_apply]
    split
    · next hij => exact hij ▸ ⟨rfl, rfl⟩
    · exact ⟨rfl, rfl⟩
  | miss c pid rest hc htodo hstored hslot h => exact h ▸ ⟨rfl, rfl⟩
  | ret c hc htodo h => exact h ▸ ⟨rfl, rfl⟩
  | dispatch h | yield h =>
    rw [h]
    simp only [Multicast.dispatch, State.modify, Function.update_apply]
    split
    · next hij => exact hij ▸ ⟨rfl, rfl⟩
    · exact ⟨rfl, rfl⟩
  | recv j hrun hdue hslot h => exact h ▸ ⟨rfl, rfl⟩

theorem Table.step (h : Table s) (hs : Shape s s' e) : Table s' where
  inj i hi j hj heq := by
    rw [(hs.fixed i).1, (hs.fixed j).1] at heq
    exact h.inj i hi j hj heq
  lt cur hcur := by
    -- a caller has been one before, or is entering now
    have hupdate : ∀ (c : ℕ) (x : Option Sending), c < NPROC →
        Function.update s.sending c x cur ≠ none → cur < NPROC := by
      intro c x hc hx
      rcases eq_or_ne cur c with rfl | hne
      · exact hc
      · rw [Function.update_of_ne hne] at hx
        exact h.lt cur hx
    have hcaller : ∀ {c : ℕ} {x : Sending}, s.sending c = some x → c < NPROC := by
      intro c x hx
      exact h.lt c (by rw [hx]; exact nofun)
    cases hs with
    | send hlt hnone hs' =>
      subst hs'
      exact hupdate _ _ hlt hcur
    | store c pid rest j hc htodo hstored hpid hslot hs'
    | raise c pid rest j hc htodo hstored hslot hs' | miss c pid rest hc htodo hstored hslot hs'
    | ret c hc htodo hs' =>
      subst hs'
      exact hupdate _ _ (hcaller hc) hcur
    | dispatch hs' | yield hs' | recv j hrun hdue hslot hs' =>
      subst hs'
      exact h.lt cur hcur

/-! ### One step -/

/-- After a step that changes nothing about `r`. -/
theorem Phase.congr (h : Phase s r) (hproc : s'.proc r = { s.proc r with running := (s'.proc r).running })
    (hflight : ∀ cur, InFlight s' r cur ↔ InFlight s r cur) (hdue : s'.due r = s.due r)
    (hstored : s'.stored r = s.stored r) (hreceived : s'.received r = s.received r) :
    Phase s' r := by
  have hpending : (s'.proc r).pending = (s.proc r).pending := by rw [hproc]
  cases h with
  | idle hrec hnone hpend hd =>
    refine .idle (by rw [hreceived, hstored, hrec]) ?_ (hpending.trans hpend) (hdue.trans hd)
    exact fun cur hcur => hnone cur ((hflight cur).1 hcur)
  | out msg hrec hbuf hpid htok =>
    refine .out msg (by rw [hreceived, hstored, hrec]) (by rw [hproc]; exact hbuf)
      (by rw [hproc]; exact hpid) ?_
    cases htok with
    | sender cur hcur hsole hpend hd =>
      exact .sender cur ((hflight cur).2 hcur)
        (fun cur' hcur' => hsole cur' ((hflight cur').1 hcur')) (hpending.trans hpend)
        (hdue.trans hd)
    | signal hnone hpend hd =>
      exact .signal (fun cur hcur => hnone cur ((hflight cur).1 hcur)) (hpending.trans hpend)
        (hdue.trans hd)
    | handler hnone hpend hd =>
      exact .handler (fun cur hcur => hnone cur ((hflight cur).1 hcur))
        (hpending.trans hpend) (hdue.trans hd)

/-- The caller `cur` is with another call, or at another place of it, and neither before nor
after in flight to `r`. -/
theorem inFlight_update {cur : ℕ} {x : Option Sending}
    (hsend : s'.sending = Function.update s.sending cur x)
    (hpid : (s'.proc r).pid = (s.proc r).pid) (hbefore : ¬ InFlight s r cur)
    (hafter : ¬ InFlight s' r cur) (cur' : ℕ) : InFlight s' r cur' ↔ InFlight s r cur' := by
  rcases eq_or_ne cur' cur with rfl | hne
  · exact iff_of_false hafter hbefore
  · unfold InFlight
    rw [hsend, Function.update_of_ne hne, hpid]

theorem inFlight_congr (hpid : (s'.proc r).pid = (s.proc r).pid) (hsend : s'.sending = s.sending)
    (cur : ℕ) : InFlight s' r cur ↔ InFlight s r cur := by
  rw [InFlight, InFlight, hsend, hpid]

/-- Who is in flight has written a buffer. -/
theorem InFlight.of_some {cur : ℕ} {c : Sending} (h : InFlight s r cur)
    (hc : s.sending cur = some c) :
    c.stored = true ∧ c.todo.head? = some ((s.proc r).pid : ℤ) := by
  obtain ⟨c', hc', hfl⟩ := h
  obtain rfl : c = c' := Option.some.inj (hc.symm.trans hc')
  exact hfl

theorem not_inFlight_of_none {cur : ℕ} (h : s.sending cur = none) : ¬ InFlight s r cur := by
  rintro ⟨c, hc, -⟩
  rw [h] at hc
  cases hc

/-- With nobody busy, everything has been received. -/
theorem Phase.received_of_not_busy (h : Phase s r) (htab : Table s) (hbusy : ¬ Busy s r) :
    s.received r = (s.stored r).map Prod.snd ∧ (∀ cur, ¬ InFlight s r cur) ∧
      (s.proc r).pending = false ∧ s.due r = 0 := by
  cases h with
  | idle hrec hnone hpend hd => exact ⟨hrec, hnone, hpend, hd⟩
  | out msg hrec hbuf hpid htok =>
    exfalso
    cases htok with
    | sender cur hcur hsole hpend hd =>
      refine hbusy (.inr (.inr ⟨cur, htab.lt cur ?_, hcur⟩))
      intro hnone
      exact not_inFlight_of_none hnone hcur
    | signal hnone hpend hd => exact hbusy (.inl hpend)
    | handler hnone hpend hd => exact hbusy (.inr (.inl (by omega)))

/-- **One step keeps the phase.** -/
theorem Phase.step (h : Phase s r) (htab : Table s) (hr : r < NPROC)
    (huser : (s.proc r).handler = .user) (hspaced : Spaced r s e) (hs : Shape s s' e) :
    Phase s' r := by
  have hpid := (hs.fixed r).1
  cases hs with
  | @send cur pids msg hcur hnone hs' =>
    subst hs'
    refine h.congr rfl (inFlight_update rfl rfl (not_inFlight_of_none hnone) ?_) rfl rfl rfl
    intro hfl
    have := (hfl.of_some (c := ⟨s.calls, msg, [], pids, false, 0⟩) (by simp [Multicast.send])).1
    cases this
  | @store cur c pid rest i hc htodo hstored hrange hslot hs' =>
    have hbefore : ¬ InFlight s r cur := by
      intro hfl
      rw [(hfl.of_some hc).1] at hstored
      cases hstored
    have hsend : s'.sending cur = some { c with stored := true } := by simp [hs']
    rcases eq_or_ne i r with rfl | hne
    · -- the buffer of `r`, which no message is on its way to
      have hpid' : ((s.proc i).pid : ℤ) = pid := (slotOf_eq_some hslot).2
      have hhead : c.todo.head? = some ((s.proc i).pid : ℤ) := by rw [htodo, hpid']; rfl
      obtain ⟨hrec, hnone, hpend, hd⟩ :=
        h.received_of_not_busy htab (hspaced ⟨c, hc, hhead⟩)
      have hproc : s'.proc i = { s.proc i with
          msgFromMulticast := storePayload (s.proc i).msgFromMulticast c.msg } := by
        simp [hs', State.modify]
      refine .out c.msg ?_ ?_ ?_ (.sender cur ⟨_, hsend, rfl, ?_⟩ ?_ ?_ ?_)
      · simp [hs', hrec]
      · rw [hproc]
        exact Fin.tail_cons _ _
      · rw [hpid]
        have := hrange.2
        omega
      · rw [hpid]
        exact hhead
      · intro cur' hcur'
        by_contra hne
        refine hnone cur' ?_
        obtain ⟨c', hc', hfl⟩ := hcur'
        refine ⟨c', ?_, ?_⟩
        · simpa [hs', hne] using hc'
        · rwa [hpid] at hfl
      · rw [hproc]
        exact hpend
      · simpa [hs'] using hd
    · have hproc : s'.proc r = s.proc r := by simp [hs', State.modify, hne.symm]
      refine h.congr (by rw [hproc]) (inFlight_update (by rw [hs']) hpid hbefore ?_) (by rw [hs']; rfl)
        ?_ (by rw [hs']; rfl)
      · intro hfl
        have hhead := (hfl.of_some hsend).2
        rw [htodo, hproc] at hhead
        exact hne (htab.slot_unique hslot hr (Option.some.inj hhead).symm)
      · simp [hs', hne.symm]
  | @raise cur c pid rest i hc htodo hstored hslot hs' =>
    have hsend : s'.sending cur = some { c with
        sent := c.sent ++ [pid]
        todo := rest
        stored := false } := by simp [hs']
    have hafter : ¬ InFlight s' r cur := by
      intro hfl
      have := (hfl.of_some hsend).1
      cases this
    rcases eq_or_ne i r with rfl | hne
    · -- the token goes from the sender to the mark
      have hpid' : ((s.proc i).pid : ℤ) = pid := (slotOf_eq_some hslot).2
      have hfl : InFlight s i cur := ⟨c, hc, hstored, by rw [htodo, hpid']; rfl⟩
      have hproc : s'.proc i = { s.proc i with pending := true } := by simp [hs', State.modify]
      have hdue : s'.due i = s.due i := by rw [hs']; rfl
      cases h with
      | idle hrec hnone hpend hd => exact absurd hfl (hnone cur)
      | out msg hrec hbuf hlt htok =>
        cases htok with
        | signal hnone hpend hd => exact absurd hfl (hnone cur)
        | handler hnone hpend hd => exact absurd hfl (hnone cur)
        | sender cur₀ hcur₀ hsole hpend hd =>
          obtain rfl := hsole cur hfl
          refine .out msg (by rw [hs']; exact hrec) (by rw [hproc]; exact hbuf)
            (by rw [hpid]; exact hlt) (.signal ?_ (by rw [hproc]) (hdue.trans hd))
          intro cur' hcur'
          rcases eq_or_ne cur' cur with rfl | hne
          · exact hafter hcur'
          · refine hne (hsole cur' ?_)
            obtain ⟨c', hc', hfl'⟩ := hcur'
            exact ⟨c', by simpa [hs', hne] using hc', by rwa [hpid] at hfl'⟩
    · have hproc : s'.proc r = s.proc r := by simp [hs', State.modify, hne.symm]
      refine h.congr (by rw [hproc]) (inFlight_update (by rw [hs']) hpid ?_ hafter)
        (by rw [hs']; rfl) (by rw [hs']; rfl) (by rw [hs']; rfl)
      intro hfl
      have hhead := (hfl.of_some hc).2
      rw [htodo] at hhead
      exact hne (htab.slot_unique hslot hr (Option.some.inj hhead).symm)
  | @miss cur c pid rest hc htodo hstored hslot hs' =>
    have hsend : s'.sending cur = some { c with
        sent := c.sent ++ [pid]
        todo := rest
        stored := false
        flag := -1 } := by simp [hs']
    refine h.congr (by rw [hs']) (inFlight_update (by rw [hs']) hpid ?_ ?_) (by rw [hs'])
      (by rw [hs']) (by rw [hs'])
    · intro hfl
      have hhead := (hfl.of_some hc).2
      rw [htodo] at hhead
      exact slotOf_eq_none hslot hr (Option.some.inj hhead).symm
    · intro hfl
      have := (hfl.of_some hsend).1
      cases this
  | @ret cur c hc htodo hs' =>
    subst hs'
    refine h.congr rfl (inFlight_update rfl rfl ?_ (not_inFlight_of_none ?_)) rfl rfl rfl
    · intro hfl
      have hhead := (hfl.of_some hc).2
      rw [htodo] at hhead
      cases hhead
    · exact Function.update_self ..
  | @dispatch i hs' =>
    have hflight := inFlight_congr hpid (by rw [hs']; rfl)
    rcases eq_or_ne i r with rfl | hne
    · have hproc : s'.proc i = { s.proc i with running := true, pending := false } := by
        simp [hs', Multicast.dispatch, State.modify]
      have hdue : s'.due i = if (s.proc i).pending = true then s.due i + 1 else s.due i := by
        simp [hs', Multicast.dispatch, huser]
      cases hpending : (s.proc i).pending with
      | false =>
        rw [hpending, if_neg Bool.false_ne_true] at hdue
        refine h.congr ?_ hflight hdue (by rw [hs']; rfl) (by rw [hs']; rfl)
        rw [hproc, ← hpending]
      | true =>
        -- the token goes from the mark to the handler
        rw [hpending, if_pos rfl] at hdue
        have hclear : ¬ (s.proc i).pending = false := by simp [hpending]
        cases h with
        | idle hrec hnone hpend hd => exact absurd hpend hclear
        | out msg hrec hbuf hlt htok =>
          refine .out msg (by rw [hs']; exact hrec) (by rw [hproc]; exact hbuf)
            (by rw [hpid]; exact hlt) ?_
          cases htok with
          | sender cur hcur hsole hpend hd => exact absurd hpend hclear
          | handler hnone hpend hd => exact absurd hpend hclear
          | signal hnone hpend hd =>
            exact .handler (fun cur hcur => hnone cur ((hflight cur).1 hcur))
              (by rw [hproc]) (by rw [hdue, hd])
    · have hproc : s'.proc r = s.proc r := by
        simp [hs', Multicast.dispatch, State.modify, hne.symm]
      refine h.congr (by rw [hproc]) hflight ?_ (by rw [hs']; rfl) (by rw [hs']; rfl)
      simp [hs', Multicast.dispatch, hne.symm]
  | @yield i hs' =>
    refine h.congr ?_ (inFlight_congr hpid (by rw [hs']; rfl)) (by rw [hs']; rfl)
      (by rw [hs']; rfl) (by rw [hs']; rfl)
    rw [hs', State.modify_proc]
    split
    · next hir => rw [hir]
    · rfl
  | @recv i j hrun hpos hslot hs' =>
    have hflight := inFlight_congr hpid (by rw [hs'])
    rcases eq_or_ne i r with rfl | hne
    · obtain rfl := htab.slot_unique hslot hr rfl
      cases h with
      | idle hrec hnone hpend hd => omega
      | out msg hrec hbuf hlt htok =>
        cases htok with
        | sender cur hcur hsole hpend hd => omega
        | signal hnone hpend hd => omega
        | handler hnone hpend hd =>
          -- the message of the token is received
          refine .idle ?_ (fun cur hcur => hnone cur ((hflight cur).1 hcur))
            (by rw [hs']; exact hpend) (by simp [hs', hd])
          simp [hs', hrec, hbuf]
    · refine h.congr (by rw [hs']) hflight ?_ (by rw [hs']) ?_
      · simp [hs', hne.symm]
      · simp [hs', hne.symm]

end Multicast
end Xv6
