/-
# The delivery of signals

The loop of `scheduler` over the pending signals of the process it has selected
(`xv6/proc.c`, lines 448-490), with `uva2ka` (`xv6/vm.c`, lines 347-360).  A flag is
set or clear, and a handler is a word: three values of it are built in, and any
other is an address in the process, for which the loop makes a call on the stack of
the process by hand.  It translates `esp` and puts the offset of `esp - 4` behind it,
so with `esp` at the start of a page the word goes to the wrong page.

`ignoreHandler` and `dflHandler` only print.  `receiverHandler` (lines 94-109) takes a
message for the process, if there is one, and copies its words to the address of a
single byte of its own: that is `Halt.wild`.
-/

import Xv6.Vm.Ram

namespace Xv6
namespace Signal

open Lib Vm Function

def NSIG : ℕ := 8
def SIGIGN : ℕ := 0
def SIGDFL : ℕ := 1
def SIGMSGSENT : ℕ := 4

/-- `struct proc`, with two words of its trap frame. -/
structure Proc where
  pgdir : ℕ
  pendingSignals : ℕ → Bool
  signalHandlers : ℕ → ℕ
  esp : ℕ
  eip : ℕ
  /-- A message waits in the queue of the process. -/
  mail : Bool

/-- The selected process, and physical memory. -/
structure State where
  proc : Proc
  ram : Ram

namespace State

/-- The pending flag of a signal is set to `0`. -/
def clear (s : State) (i : ℕ) : State :=
  { s with proc := { s.proc with
      pendingSignals := update s.proc.pendingSignals i false } }

/-- `receiverHandler`, which writes over its own stack if a message waits. -/
def receiverHandler (s : State) : Except Halt State :=
  if s.proc.mail then .error .wild else .ok s

/-- The default case: a call of `handler`. -/
def call (s : State) (handler : ℕ) : Except Halt State := do
  let virtualAddress ← s.ram.uva2ka s.proc.pgdir s.proc.esp
  let below := (s.proc.esp + (2 ^ 32 - 4)) % 2 ^ 32
  let a2 ← kernelAddr (virtualAddress + below % PGSIZE)
  .ok {
    proc := { s.proc with esp := below, eip := handler }
    ram := putLE s.ram a2 4 s.proc.eip }

/-- A turn of the loop. -/
def deliver (s : State) (i : ℕ) : Except Halt State :=
  if s.proc.pendingSignals i then
    if s.proc.signalHandlers i = SIGIGN ∨ s.proc.signalHandlers i = SIGDFL then .ok (s.clear i)
    else if s.proc.signalHandlers i = SIGMSGSENT then do
      let s ← s.receiverHandler
      .ok (s.clear i)
    else do
      let s ← s.call (s.proc.signalHandlers i)
      .ok (s.clear i)
  else .ok s

/-- The loop of `scheduler` over the signals of the selected process. -/
def dispatch (s : State) : Except Halt State := (List.range NSIG).foldlM deliver s

end State

/-- Signal `i` is pending, with a handler in the process. -/
def Proc.UserHandled (p : Proc) (i : ℕ) : Prop :=
  p.pendingSignals i = true ∧ p.signalHandlers i ≠ SIGIGN ∧ p.signalHandlers i ≠ SIGDFL ∧
    p.signalHandlers i ≠ SIGMSGSENT

instance (p : Proc) (i : ℕ) : Decidable (p.UserHandled i) :=
  inferInstanceAs (Decidable (_ ∧ _))

/-- The handlers of the process that are due, for the signals of a list. -/
def Proc.due (p : Proc) (l : List ℕ) : List ℕ :=
  (l.filter fun i => p.UserHandled i).map p.signalHandlers

theorem Proc.due_cons_pos {p : Proc} {i : ℕ} {l : List ℕ} (h : p.UserHandled i) :
    p.due (i :: l) = p.signalHandlers i :: p.due l := by
  have hfilter : (i :: l).filter (fun i => p.UserHandled i) =
      i :: l.filter (fun i => p.UserHandled i) := List.filter_cons_of_pos (by simpa using h)
  unfold Proc.due
  rw [hfilter, List.map_cons]

theorem Proc.due_cons_neg {p : Proc} {i : ℕ} {l : List ℕ} (h : ¬ p.UserHandled i) :
    p.due (i :: l) = p.due l := by
  have hfilter : (i :: l).filter (fun i => p.UserHandled i) =
      l.filter (fun i => p.UserHandled i) := List.filter_cons_of_neg (by simpa using h)
  unfold Proc.due
  rw [hfilter]

/-- What is due for other signals does not depend on the flag of one. -/
theorem State.due_clear (s : State) {i : ℕ} {l : List ℕ} (hi : i ∉ l) :
    (s.clear i).proc.due l = s.proc.due l := by
  unfold Proc.due
  congr 1
  refine List.filter_congr fun j hj => ?_
  have hne : j ≠ i := fun he => hi (he ▸ hj)
  have hflag : (s.clear i).proc.pendingSignals j = s.proc.pendingSignals j :=
    Function.update_of_ne hne ..
  have hiff : (s.clear i).proc.UserHandled j ↔ s.proc.UserHandled j := by
    unfold Proc.UserHandled
    rw [hflag]
    exact Iff.rfl
  exact decide_eq_decide.2 hiff

/-- The words are on the stack, the first one on top of what was there. -/
structure Stacked (r : Ram) (top : ℕ) (words : List ℕ) (r' : Ram) : Prop where
  word : ∀ j < words.length, getLE r' (top - 4 * (j + 1)) 4 = words.getD j 0
  rest : ∀ a, a < top - 4 * words.length ∨ top ≤ a → r' a = r a

/-- There is room for `k` words in the page `f` of the stack. -/
structure Ready (s : State) (f k : ℕ) : Prop where
  aligned : s.proc.esp % 4 = 0
  esp_lt : s.proc.esp < 2 ^ 32
  room : 4 * k ≤ s.proc.esp % PGSIZE
  page : 0 < k → s.ram.userPage s.proc.pgdir s.proc.esp = some f
  leads : s.ram.Leads s.proc.pgdir (s.proc.esp - 4 * k) s.proc.esp

section

variable {s : State} {f k : ℕ}

/-! ### One call -/

/-- Where the stack ends in memory. -/
def State.top (s : State) (f : ℕ) : ℕ := f + s.proc.esp % PGSIZE

/-- The state after a call. -/
def State.called (s : State) (f handler : ℕ) : State where
  proc := { s.proc with esp := s.proc.esp - 4, eip := handler }
  ram := putLE s.ram (s.top f - 4) 4 s.proc.eip

theorem Ready.call (h : Ready s f (k + 1)) (handler : ℕ) :
    s.call handler = .ok (s.called f handler) := by
  have hlt := h.esp_lt
  have hroom := h.room
  have hle : s.proc.esp % PGSIZE ≤ s.proc.esp := Nat.mod_le _ _
  have hsame : (s.proc.esp - 1) / PGSIZE = s.proc.esp / PGSIZE := by
    unfold PGSIZE at *
    omega
  have hpage : s.ram.userPage s.proc.pgdir (s.proc.esp - 1) = some f := by
    rw [Ram.userPage_congr hsame]
    exact h.page (Nat.succ_pos k)
  have hlo : s.proc.esp - 4 * (k + 1) ≤ s.proc.esp - 1 := by omega
  have hhi : s.proc.esp - 1 < s.proc.esp := by omega
  obtain ⟨pde, e, hpde, -⟩ := Ram.userPage_eq_some hpage
  have htable := h.leads.table_lt _ hlo hhi pde hpde
  have hf := h.leads.page_lt _ hlo hhi f hpage
  rw [PDX_congr hsame] at hpde
  have hka : s.ram.uva2ka s.proc.pgdir s.proc.esp = .ok (P2V f) := by
    rw [Ram.uva2ka_eq hpde htable, h.page (Nat.succ_pos k), Option.elim_some]
  have hbelow : (s.proc.esp + (2 ^ 32 - 4)) % 2 ^ 32 = s.proc.esp - 4 := by omega
  have hoff : f + (s.proc.esp - 4) % PGSIZE = s.top f - 4 := by
    unfold State.top
    unfold PGSIZE at *
    omega
  have hin : f + (s.proc.esp - 4) % PGSIZE < PHYSTOP := by
    obtain ⟨b, rfl⟩ := Ram.userPage_aligned hpage
    unfold PGSIZE PHYSTOP at *
    omega
  unfold State.call State.called
  rw [hka, ok_bind]
  dsimp only
  rw [hbelow, kernelAddr_P2V hin, ok_bind, hoff]

theorem State.called_sameOff (hf : PGSIZE ∣ f) (hroom : 4 ≤ s.proc.esp % PGSIZE) (handler : ℕ) :
    Ram.SameOff f s.ram (s.called f handler).ram := by
  intro page i hpage hne hi
  refine putLE_apart ?_
  have hmod : s.proc.esp % PGSIZE < PGSIZE := Nat.mod_lt _ (by decide)
  unfold State.top
  by_contra hin
  exact page_apart hpage hf hne hi (l := page + i - f) (by omega) (by omega)

/-- There is room for the next word. -/
theorem Ready.called (h : Ready s f (k + 1)) (handler : ℕ) : Ready (s.called f handler) f k := by
  have hlt := h.esp_lt
  have haligned := h.aligned
  have hroom := h.room
  have hle : s.proc.esp % PGSIZE ≤ s.proc.esp := Nat.mod_le _ _
  have hmod : (s.proc.esp - 4) % PGSIZE = s.proc.esp % PGSIZE - 4 := by
    unfold PGSIZE at *
    omega
  have hsame : (s.proc.esp - 4) / PGSIZE = s.proc.esp / PGSIZE := by
    unfold PGSIZE at *
    omega
  have hlo : s.proc.esp - 4 * (k + 1) ≤ s.proc.esp - 4 := by omega
  have hhi : s.proc.esp - 4 < s.proc.esp := by omega
  have hpage : s.ram.userPage s.proc.pgdir (s.proc.esp - 4) = some f := by
    rw [Ram.userPage_congr hsame]
    exact h.page (Nat.succ_pos k)
  have hoff := State.called_sameOff (Ram.userPage_aligned hpage) (by omega) handler (s := s)
  constructor
  case aligned => exact (by omega : (s.proc.esp - 4) % 4 = 0)
  case esp_lt => exact Nat.lt_of_le_of_lt (Nat.sub_le _ _) hlt
  case room =>
    change 4 * k ≤ (s.proc.esp - 4) % PGSIZE
    omega
  case page =>
    intro _
    exact (h.leads.userPage_sameOff hlo hhi hpage hoff hlo hhi).trans hpage
  case leads =>
    refine (h.leads.sameOff hlo hhi hpage hoff).mono fun v hv hv' => ?_
    change s.proc.esp - 4 - 4 * k ≤ v at hv
    change v < s.proc.esp - 4 at hv'
    refine ⟨by omega, by omega, fun u hu hu' => ?_⟩
    change u < s.proc.esp - 4 - 4 * k at hu'
    omega

theorem Ready.clear (h : Ready s f k) (i : ℕ) : Ready (s.clear i) f k :=
  ⟨h.aligned, h.esp_lt, h.room, h.page, h.leads⟩

/-- **A word more on the stack.** -/
theorem Ready.stacked (h : Ready s f (k + 1)) (heip : s.proc.eip < 2 ^ 32) (handler : ℕ)
    {words : List ℕ} (hlen : words.length ≤ k) {r' : Ram}
    (hrest : Stacked (s.called f handler).ram ((s.called f handler).top f) words r') :
    Stacked s.ram (s.top f) (s.proc.eip :: words) r' := by
  have hroom := h.room
  have htop : (s.called f handler).top f = s.top f - 4 := by
    change f + (s.proc.esp - 4) % PGSIZE = f + s.proc.esp % PGSIZE - 4
    unfold PGSIZE at *
    omega
  have hbig : 4 * (k + 1) ≤ s.top f := Nat.le_trans hroom (Nat.le_add_left _ _)
  rw [htop] at hrest
  constructor
  case word =>
    intro j hj
    rw [List.length_cons] at hj
    cases j with
    | zero =>
      -- the words that follow are below it
      have hkept : getLE r' (s.top f - 4) 4 = getLE (s.called f handler).ram (s.top f - 4) 4 :=
        getLE_congr fun i hi => hrest.rest _ (.inr (Nat.le_add_right _ _))
      rw [Nat.zero_add, Nat.mul_one, hkept, List.getD_cons_zero]
      exact (getLE_putLE _ _ _ _).trans (Nat.mod_eq_of_lt heip)
    | succ j =>
      have hword := hrest.word j (by omega)
      rw [List.getD_cons_succ, ← hword]
      congr 1
      omega
  case rest =>
    intro a ha
    rw [List.length_cons] at ha
    rw [hrest.rest a (by omega)]
    exact putLE_apart (by omega)

/-! ### The loop -/

/-- What one signal does. -/
theorem Ready.deliver {i : ℕ} {l : List ℕ} (h : Ready s f (s.proc.due (i :: l)).length)
    (hmail : s.proc.pendingSignals i = true → s.proc.signalHandlers i = SIGMSGSENT →
      s.proc.mail = false) :
    (s.proc.UserHandled i ∧
      s.deliver i = .ok ((s.called f (s.proc.signalHandlers i)).clear i)) ∨
    (¬ s.proc.UserHandled i ∧ s.proc.pendingSignals i = false ∧ s.deliver i = .ok s) ∨
    (¬ s.proc.UserHandled i ∧ s.deliver i = .ok (s.clear i)) := by
  unfold State.deliver
  by_cases hpending : s.proc.pendingSignals i = true
  · rw [if_pos hpending]
    by_cases hign : s.proc.signalHandlers i = SIGIGN ∨ s.proc.signalHandlers i = SIGDFL
    · refine .inr (.inr ⟨?_, if_pos hign⟩)
      rintro ⟨-, hne, hne', -⟩
      exact hign.elim hne hne'
    · rw [if_neg hign]
      by_cases hmsg : s.proc.signalHandlers i = SIGMSGSENT
      · refine .inr (.inr ⟨fun hu => hu.2.2.2 hmsg, ?_⟩)
        rw [if_pos hmsg]
        unfold State.receiverHandler
        rw [if_neg (by rw [hmail hpending hmsg]; exact Bool.false_ne_true), ok_bind]
      · have huser : s.proc.UserHandled i :=
          ⟨hpending, fun he => hign (.inl he), fun he => hign (.inr he), hmsg⟩
        refine .inl ⟨huser, ?_⟩
        have hready : Ready s f ((s.proc.due l).length + 1) := by
          rwa [Proc.due_cons_pos huser] at h
        rw [if_neg hmsg, hready.call, ok_bind]
  · refine .inr (.inl ⟨fun hu => hpending hu.1, Bool.eq_false_iff.2 hpending, ?_⟩)
    rw [if_neg hpending]

/-- The signals of a list have been delivered. -/
structure Dispatched (s : State) (f : ℕ) (l : List ℕ) (s' : State) : Prop where
  pgdir : s'.proc.pgdir = s.proc.pgdir
  pending : ∀ i, s'.proc.pendingSignals i = (s.proc.pendingSignals i && decide (i ∉ l))
  esp : s'.proc.esp = s.proc.esp - 4 * (s.proc.due l).length
  eip : s'.proc.eip = (s.proc.due l).getLastD s.proc.eip
  stacked : Stacked s.ram (s.top f) (s.proc.eip :: s.proc.due l).dropLast s'.ram

theorem State.clear_pending (s : State) (i j : ℕ) {l : List ℕ} :
    ((s.clear i).proc.pendingSignals j && decide (j ∉ l)) =
      (s.proc.pendingSignals j && decide (j ∉ i :: l)) := by
  change (update s.proc.pendingSignals i false j && decide (j ∉ l)) = _
  by_cases hj : j = i
  · subst hj
    simp
  · rw [Function.update_of_ne hj]
    simp [hj]

/-- **The run over a list of signals.** -/
theorem Ready.foldlM_deliver {l : List ℕ} (hl : l.Nodup) (h : Ready s f (s.proc.due l).length)
    (heip : s.proc.eip < 2 ^ 32) (hhandlers : ∀ i, s.proc.signalHandlers i < 2 ^ 32)
    (hmail : ∀ i ∈ l, s.proc.pendingSignals i = true → s.proc.signalHandlers i = SIGMSGSENT →
      s.proc.mail = false) :
    ∃ s', l.foldlM State.deliver s = .ok s' ∧ Dispatched s f l s' := by
  induction l generalizing s with
  | nil =>
    refine ⟨s, rfl, rfl, fun i => by simp, rfl, rfl, ?_⟩
    exact ⟨fun j hj => absurd hj (Nat.not_lt_zero j), fun a _ => rfl⟩
  | cons i l ih =>
    obtain ⟨hi, hl⟩ := List.nodup_cons.1 hl
    -- the flags of the other signals, after that of `i` is cleared
    have hmail' : ∀ t : State, t.proc.pendingSignals = s.proc.pendingSignals →
        t.proc.signalHandlers = s.proc.signalHandlers → t.proc.mail = s.proc.mail →
        ∀ j ∈ l, (t.clear i).proc.pendingSignals j = true →
          (t.clear i).proc.signalHandlers j = SIGMSGSENT → (t.clear i).proc.mail = false := by
      intro t hflags hhand hm j hj hpending hmsg
      have hne : j ≠ i := fun he => hi (he ▸ hj)
      change update t.proc.pendingSignals i false j = true at hpending
      rw [Function.update_of_ne hne, hflags] at hpending
      change t.proc.signalHandlers j = SIGMSGSENT at hmsg
      rw [hhand] at hmsg
      exact hm.trans (hmail j (List.mem_cons_of_mem i hj) hpending hmsg)
    rw [List.foldlM_cons]
    rcases h.deliver (hmail i List.mem_cons_self) with
      ⟨huser, hstep⟩ | ⟨hno, hflag, hstep⟩ | ⟨hno, hstep⟩
    · rw [Proc.due_cons_pos huser] at h
      have hdue : ((s.called f (s.proc.signalHandlers i)).clear i).proc.due l = s.proc.due l := by
        rw [State.due_clear _ hi]
        rfl
      have hready := (h.called (s.proc.signalHandlers i)).clear i
      rw [← hdue] at hready
      obtain ⟨s', hrun, hdone⟩ := ih hl hready (hhandlers i) hhandlers
        (hmail' (s.called f (s.proc.signalHandlers i)) rfl rfl rfl)
      refine ⟨s', by rw [hstep, ok_bind, hrun], hdone.pgdir, ?_, ?_, ?_, ?_⟩
      · intro j
        rw [hdone.pending, State.clear_pending]
        rfl
      · rw [hdone.esp, hdue, Proc.due_cons_pos huser, List.length_cons]
        change s.proc.esp - 4 - 4 * _ = _
        omega
      · rw [hdone.eip, hdue, Proc.due_cons_pos huser, List.getLastD_cons]
        rfl
      · have hrest := hdone.stacked
        rw [hdue] at hrest
        rw [Proc.due_cons_pos huser, List.dropLast_cons_cons]
        exact h.stacked heip (s.proc.signalHandlers i) (by rw [List.length_dropLast, List.length_cons]; omega) hrest
    · rw [Proc.due_cons_neg hno] at h
      obtain ⟨s', hrun, hdone⟩ := ih hl h heip hhandlers fun j hj =>
        hmail j (List.mem_cons_of_mem i hj)
      refine ⟨s', by rw [hstep, ok_bind, hrun], hdone.pgdir, fun j => ?_, ?_, ?_, ?_⟩
      · rw [hdone.pending]
        by_cases hj : j = i
        · rw [hj, hflag, Bool.false_and, Bool.false_and]
        · simp [hj]
      · rw [hdone.esp, Proc.due_cons_neg hno]
      · rw [hdone.eip, Proc.due_cons_neg hno]
      · rw [Proc.due_cons_neg hno]
        exact hdone.stacked
    · rw [Proc.due_cons_neg hno] at h
      have hdue : (s.clear i).proc.due l = s.proc.due l := s.due_clear hi
      have hready := h.clear i
      rw [← hdue] at hready
      obtain ⟨s', hrun, hdone⟩ := ih hl hready heip hhandlers (hmail' s rfl rfl rfl)
      refine ⟨s', by rw [hstep, ok_bind, hrun], hdone.pgdir, fun j => ?_, ?_, ?_, ?_⟩
      · rw [hdone.pending, State.clear_pending]
      · rw [hdone.esp, hdue, Proc.due_cons_neg hno]
        rfl
      · rw [hdone.eip, hdue, Proc.due_cons_neg hno]
        rfl
      · have hrest := hdone.stacked
        rw [hdue] at hrest
        rw [Proc.due_cons_neg hno]
        exact hrest

/-! ### All signals -/

/-- With no word put at the end of a page, all go to one page. -/
theorem room_of_border {esp : ℕ} (haligned : esp % 4 = 0)
    (hborder : ∀ j < k, (esp - 4 * j) % PGSIZE ≠ 0) : 4 * k ≤ esp % PGSIZE := by
  by_contra hlt
  refine hborder (esp % PGSIZE / 4) (by omega) ?_
  unfold PGSIZE at *
  omega

/-- A word of memory that a stack of `k` words in the page `f` has at a user address. -/
theorem Ready.phys_eq (h : Ready s f k) {v : ℕ} (hv : s.proc.esp - 4 * k ≤ v)
    (hv' : v < s.proc.esp) : s.ram.phys s.proc.pgdir v = s.top f - (s.proc.esp - v) := by
  have hroom := h.room
  have hsame : v / PGSIZE = s.proc.esp / PGSIZE := by
    unfold PGSIZE at *
    omega
  unfold Ram.phys State.top
  rw [Ram.userPage_congr hsame, h.page (by omega), Option.getD_some]
  unfold PGSIZE at *
  omega

/-- **Signals nest**: when no word is put at the end of a page, the process goes on in the handler
of its last signal, which returns to that of the one before, and the first returns to where the
process was. -/
theorem dispatch_nests (s : State) (hs : List ℕ) (hdue : s.proc.due (List.range NSIG) = hs)
    (haligned : s.proc.esp % 4 = 0) (hesp : s.proc.esp < 2 ^ 32) (heip : s.proc.eip < 2 ^ 32)
    (hhandlers : ∀ i, s.proc.signalHandlers i < 2 ^ 32)
    (hmail : ∀ i < NSIG, s.proc.pendingSignals i = true →
      s.proc.signalHandlers i = SIGMSGSENT → s.proc.mail = false)
    (hmaps : ∀ v, s.proc.esp - 4 * hs.length ≤ v → v < s.proc.esp →
      s.ram.userPage s.proc.pgdir v ≠ none)
    (hleads : s.ram.Leads s.proc.pgdir (s.proc.esp - 4 * hs.length) s.proc.esp)
    (hborder : ∀ j < hs.length, (s.proc.esp - 4 * j) % PGSIZE ≠ 0) :
    ∃ s', s.dispatch = .ok s' ∧ (∀ i < NSIG, s'.proc.pendingSignals i = false) ∧
      s'.proc.esp = s.proc.esp - 4 * hs.length ∧ s'.proc.eip = hs.getLastD s.proc.eip ∧
      (∀ j < hs.length,
        getLE s'.ram (s'.ram.phys s.proc.pgdir (s.proc.esp - 4 * (j + 1))) 4 =
          (s.proc.eip :: hs).getD j 0) ∧
      ∀ a, (∀ v, s.proc.esp - 4 * hs.length ≤ v → v < s.proc.esp →
        a ≠ s.ram.phys s.proc.pgdir v) → s'.ram a = s.ram a := by
  have hin := room_of_border haligned hborder
  have hroom : 4 * hs.length ≤ s.proc.esp := Nat.le_trans hin (Nat.mod_le _ _)
  obtain ⟨f, hpage⟩ : ∃ f, 0 < hs.length →
      s.ram.userPage s.proc.pgdir (s.proc.esp - 1) = some f := by
    rcases Nat.eq_zero_or_pos hs.length with h0 | hpos
    · exact ⟨0, fun h => absurd h0 (Nat.ne_of_gt h)⟩
    · obtain ⟨f, hf⟩ := Option.ne_none_iff_exists'.1 (hmaps (s.proc.esp - 1) (by omega) (by omega))
      exact ⟨f, fun _ => hf⟩
  have hready : Ready s f hs.length := by
    refine ⟨haligned, hesp, hin, fun hpos => ?_, hleads⟩
    rw [← hpage hpos]
    refine Ram.userPage_congr ?_
    unfold PGSIZE at *
    omega
  subst hdue
  obtain ⟨s', hrun, hdone⟩ := hready.foldlM_deliver List.nodup_range heip hhandlers
    fun i hi => hmail i (List.mem_range.1 hi)
  have hlen : (s.proc.eip :: s.proc.due (List.range NSIG)).dropLast.length =
      (s.proc.due (List.range NSIG)).length := by
    rw [List.length_dropLast, List.length_cons, Nat.add_sub_cancel]
  have hrest := hdone.stacked.rest
  rw [hlen] at hrest
  refine ⟨s', hrun, fun i hi => ?_, hdone.esp, hdone.eip, fun j hj => ?_, fun a ha => ?_⟩
  · rw [hdone.pending i, decide_eq_false (fun h => h (List.mem_range.2 hi)), Bool.and_false]
  · have hlo : s.proc.esp - 4 * (s.proc.due (List.range NSIG)).length ≤
        s.proc.esp - 4 * (j + 1) := by omega
    have hhi : s.proc.esp - 4 * (j + 1) < s.proc.esp := by omega
    have hvpage : s.ram.userPage s.proc.pgdir (s.proc.esp - 4 * (j + 1)) = some f := by
      rw [← hready.page (by omega)]
      refine Ram.userPage_congr ?_
      unfold PGSIZE at *
      omega
    -- all that is written is in the page `f`
    have hoff : Ram.SameOff f s.ram s'.ram := by
      intro page i hdvd hne hi
      refine hrest (page + i) ?_
      have hmod : s.proc.esp % PGSIZE < PGSIZE := Nat.mod_lt _ (by decide)
      unfold State.top
      by_contra hcon
      exact page_apart hdvd (Ram.userPage_aligned hvpage) hne hi (l := page + i - f) (by omega)
        (by omega)
    have hphys : s'.ram.phys s.proc.pgdir (s.proc.esp - 4 * (j + 1)) = s.top f - 4 * (j + 1) := by
      have hsame : s'.ram.phys s.proc.pgdir (s.proc.esp - 4 * (j + 1)) =
          s.ram.phys s.proc.pgdir (s.proc.esp - 4 * (j + 1)) := by
        unfold Ram.phys
        rw [hleads.userPage_sameOff hlo hhi hvpage hoff hlo hhi]
      rw [hsame, hready.phys_eq hlo hhi]
      omega
    rw [hphys, hdone.stacked.word j (by rwa [hlen]), List.getD_eq_getElem?_getD,
      List.getD_eq_getElem?_getD, List.getElem?_dropLast, if_pos (by rw [List.length_cons]; omega)]
  · refine hrest a ?_
    by_contra hcon
    refine ha (s.proc.esp - (s.top f - a)) (by omega) (by omega) ?_
    rw [hready.phys_eq (by omega) (by omega)]
    omega

/-- A process with two signals pending, and two pages from `0` on. -/
def twoPending (esp : ℕ) : State where
  proc := {
    pgdir := 0x1000
    pendingSignals := fun i => i = 2 ∨ i = 3
    signalHandlers := fun i => if i = 2 then 0x200 else if i = 3 then 0x300 else SIGIGN
    esp := esp
    eip := 0x100
    mail := false }
  ram := Ram.threePages

/-- With its stack in the middle of a page. -/
theorem dispatch_nests_two :
    ∃ s', (twoPending 0x800).dispatch = .ok s' ∧ (∀ i < NSIG, s'.proc.pendingSignals i = false) ∧
      s'.proc.esp = 0x7F8 ∧ s'.proc.eip = 0x300 ∧
      (∀ j < 2, getLE s'.ram (s'.ram.phys 0x1000 (0x800 - 4 * (j + 1))) 4 =
        [0x100, 0x200, 0x300].getD j 0) ∧
      ∀ a, (∀ v, 0x7F8 ≤ v → v < 0x800 → a ≠ (twoPending 0x800).ram.phys 0x1000 v) →
        s'.ram a = (twoPending 0x800).ram a := by
  refine dispatch_nests (twoPending 0x800) [0x200, 0x300] rfl rfl (by decide) (by decide)
    (fun i => ?_) (fun _ _ _ _ => rfl) (fun v hv hv' => ?_)
    (Ram.threePages_leads 0x7F8 (by decide : 0x800 ≤ 8192)) (by decide)
  · change (if i = 2 then 0x200 else if i = 3 then 0x300 else SIGIGN) < _
    unfold SIGIGN
    split
    · decide
    · split <;> decide
  · change v < 0x800 at hv'
    change Ram.threePages.userPage 0x1000 v ≠ none
    rw [Ram.threePages_userPage (by omega)]
    exact Option.some_ne_none _

/-- With its stack at the end of a page, the first word goes to the page behind it, and the word
that the handler returns by is not there. -/
theorem dispatch_misses_page :
    ∃ s', (twoPending 0x1000).dispatch = .ok s' ∧ s'.proc.esp = 0xFF8 ∧
      getLE s'.ram (s'.ram.phys 0x1000 0xFFC) 4 = 0 ∧ getLE s'.ram 0x4FFC 4 = 0x100 ∧
      getLE (twoPending 0x1000).ram 0x4FFC 4 = 0 := by
  obtain ⟨s', hrun, hesp, hword, hwrong⟩ : ∃ s', (twoPending 0x1000).dispatch = .ok s' ∧
      s'.proc.esp = 0xFF8 ∧ getLE s'.ram (s'.ram.phys 0x1000 0xFFC) 4 = 0 ∧
      getLE s'.ram 0x4FFC 4 = 0x100 := exists_ok_of_any (by decide +kernel)
  exact ⟨s', hrun, hesp, hword, hwrong, by decide +kernel⟩

end

end Signal
end Xv6
