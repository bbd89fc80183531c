/-
# Who sleeps on a number

`sys_send` wakes up every process that sleeps on the number of the receiver, as a
channel.  `sleep_receiver` makes a process sleep on its own pid, and all other
channels are addresses of the kernel: so whoever sleeps on a small number has that
number as its pid (`Channels`), in every state that is reached.  The message queues
share out the buffers in all these states too.
-/

import Xv6.Request.Model

namespace Xv6
namespace Kernel
namespace PTable

/-- No process has gone to sleep. -/
def Wakes (t t' : PTable) : Prop :=
  ∀ i, (t'.proc i).state = .sleeping →
    (t.proc i).state = .sleeping ∧ (t'.proc i).chan = (t.proc i).chan ∧
      (t'.proc i).pid = (t.proc i).pid

variable {t t' t'' : PTable} {cur : ℕ}

theorem Wakes.refl : Wakes t t := fun _ h => ⟨h, rfl, rfl⟩

theorem Wakes.trans (h : Wakes t t') (h' : Wakes t' t'') : Wakes t t'' := by
  intro i hi
  obtain ⟨hs', hc', hp'⟩ := h' i hi
  obtain ⟨hs, hc, hp⟩ := h i hs'
  exact ⟨hs, hc'.trans hc, hp'.trans hp⟩

/-- Rewriting one slot. -/
theorem wakes_modify {i : ℕ} {f : Proc → Proc}
    (hf : (f (t.proc i)).state = .sleeping → (t.proc i).state = .sleeping ∧
      (f (t.proc i)).chan = (t.proc i).chan ∧ (f (t.proc i)).pid = (t.proc i).pid) :
    Wakes t (t.modify i f) := by
  intro j hj
  by_cases hji : j = i
  · subst hji
    rw [modify_proc_self] at hj ⊢
    exact hf hj
  · rw [modify_proc_of_ne t hji] at hj ⊢
    exact ⟨hj, rfl, rfl⟩

/-- A slot that does not sleep afterwards. -/
theorem wakes_modify_awake (t : PTable) (i : ℕ) (f : Proc → Proc)
    (hf : ∀ p, (f p).state ≠ .sleeping) : Wakes t (t.modify i f) :=
  wakes_modify fun h => absurd h (hf _)

/-- A slot that goes on as it was. -/
theorem wakes_modify_same (t : PTable) (i : ℕ) (f : Proc → Proc)
    (hf : ∀ p, (f p).state = p.state ∧ (f p).chan = p.chan ∧ (f p).pid = p.pid) :
    Wakes t (t.modify i f) :=
  wakes_modify fun h => ⟨(hf _).1.symm.trans h, (hf _).2⟩

theorem wakes_wakeup1 (t : PTable) (chan : Chan) : Wakes t (t.wakeup1 chan) := by
  intro i hi
  unfold wakeup1 at hi ⊢
  dsimp only at hi ⊢
  split at hi
  · cases hi
  · rename_i hno
    rw [if_neg hno]
    exact ⟨hi, rfl, rfl⟩

theorem wakes_kill (t : PTable) (pid : ℤ) : Wakes t (t.kill pid).2 := by
  unfold kill
  split
  · exact Wakes.refl
  · dsimp only
    refine wakes_modify fun h => ?_
    dsimp only at h
    split at h
    · cases h
    · exact ⟨h, rfl, rfl⟩

theorem wakes_reparent (cur : ℕ) (t : PTable) (i : ℕ) : Wakes t (reparent cur t i) := by
  unfold reparent
  split
  · have hmod : Wakes t (t.modify i fun p => { p with parent := some t.initproc }) :=
      wakes_modify_same _ _ _ fun _ => ⟨rfl, rfl, rfl⟩
    dsimp only
    split
    · exact hmod.trans (wakes_wakeup1 _ _)
    · exact hmod
  · exact Wakes.refl

theorem wakes_foldl_reparent (cur : ℕ) (is : List ℕ) (t : PTable) :
    Wakes t (is.foldl (reparent cur) t) := by
  induction is generalizing t with
  | nil => exact Wakes.refl
  | cons i is ih => exact (wakes_reparent cur t i).trans (ih _)

theorem wakes_exit (h : t.exit cur = .ok t') : Wakes t t' := by
  unfold exit at h
  split at h
  · cases h
  · cases h
    exact (wakes_wakeup1 _ _).trans ((wakes_foldl_reparent cur _ _).trans
      (wakes_modify_awake _ _ _ fun _ h => by cases h))

theorem wakes_allocproc (t : PTable) (kstack : Bool) : Wakes t (t.allocproc kstack).2 := by
  unfold allocproc
  split
  · exact Wakes.refl
  · rename_i i hi
    have hembryo : Wakes t { t.modify i fun p => { p with state := .embryo, pid := t.nextpid } with
        nextpid := t.nextpid + 1 } :=
      wakes_modify_awake t i (fun p => { p with state := .embryo, pid := t.nextpid })
        fun _ h => by cases h
    refine hembryo.trans ?_
    dsimp only
    split
    · exact wakes_modify_same _ i (fun p => { p with containerId := 0 }) fun _ => ⟨rfl, rfl, rfl⟩
    · exact wakes_modify_awake _ i (fun p => { p with state := .unused }) fun _ h => by cases h

theorem wakes_fork (t : PTable) (cur : ℕ) (kstack pgdir : Bool) :
    Wakes t (t.fork cur kstack pgdir).2 := by
  have halloc := wakes_allocproc t kstack
  unfold fork
  split
  · rename_i t₁ heq
    rw [heq] at halloc
    exact halloc
  · rename_i np t₁ heq
    rw [heq] at halloc
    refine halloc.trans ?_
    dsimp only
    split
    · exact wakes_modify_awake _ np
        (fun p => { p with parent := some cur, state := .runnable }) fun _ h => by cases h
    · exact wakes_modify_awake _ np (fun p => { p with state := .unused }) fun _ h => by cases h

/-- Who sleeps on a number that is no address of the kernel has it as a pid. -/
def Channels (t : PTable) : Prop :=
  ∀ i a, (t.proc i).state = .sleeping → (t.proc i).chan = .addr a →
    a = (t.proc i).pid ∨ (Vm.KERNBASE : ℤ) ≤ a

theorem Channels.wakes (h : Channels t) (hw : Wakes t t') : Channels t' := by
  intro i a hi ha
  obtain ⟨hs, hc, hp⟩ := hw i hi
  rw [hp]
  exact h i a hs (hc.symm.trans ha)

theorem Channels.sleep (h : Channels t) {chan : Chan}
    (hchan : ∀ a, chan = .addr a → a = (t.proc cur).pid ∨ (Vm.KERNBASE : ℤ) ≤ a) :
    Channels (t.sleep cur chan) := by
  intro i a hi ha
  unfold PTable.sleep at *
  by_cases hic : i = cur
  · subst hic
    rw [modify_proc_self] at ha ⊢
    exact hchan a ha
  · rw [modify_proc_of_ne t hic] at hi ha ⊢
    exact h i a hi ha

theorem Channels.wait (h : Channels t) : Channels (t.wait cur).2 := by
  unfold PTable.wait
  split
  · exact h.wakes (wakes_modify_awake _ _
      (fun p => { p with pid := 0, parent := none, killed := false, state := .unused })
      fun _ h => by cases h)
  · split
    · exact h
    · exact h.sleep fun a ha => (nomatch ha)

end PTable
end Kernel

namespace Request

open Kernel Kernel.PTable

variable {s : Kernel.State} {cur : ℕ}

/-! ### The two tables -/

theorem wakes_sysJoinContainer {containerId : ℤ} {r : ℤ × Kernel.State}
    (h : Kernel.sysJoinContainer s cur containerId = .ok r) : Wakes s.ptable r.2.ptable := by
  unfold Kernel.sysJoinContainer at h
  obtain ⟨⟨stat, containers⟩, -, h⟩ := bind_eq_ok.1 h
  cases h
  exact wakes_modify_same _ cur (fun p => { p with containerId := containerId })
    fun _ => ⟨rfl, rfl, rfl⟩

theorem wakes_sysLeaveContainer {r : ℤ × Kernel.State}
    (h : Kernel.sysLeaveContainer s cur = .ok r) : Wakes s.ptable r.2.ptable := by
  unfold Kernel.sysLeaveContainer at h
  dsimp only at h
  split at h
  · cases h
    exact Wakes.refl
  · obtain ⟨⟨stat, containers⟩, -, h⟩ := bind_eq_ok.1 h
    cases h
    exact wakes_modify_same _ cur (fun p => { p with containerId := 0 }) fun _ => ⟨rfl, rfl, rfl⟩

theorem wakes_sysDestroyContainer {containerId : ℤ} {r : ℤ × Kernel.State}
    (h : Kernel.sysDestroyContainer s cur containerId = .ok r) : Wakes s.ptable r.2.ptable := by
  unfold Kernel.sysDestroyContainer at h
  obtain ⟨containers, -, h⟩ := bind_eq_ok.1 h
  obtain ⟨t, ht, h⟩ := bind_eq_ok.1 h
  cases h
  unfold PTable.destroyContainerProcesses at ht
  split at ht
  · cases ht
  · cases ht
    dsimp only
    split
    · exact wakes_kill _ _
    · exact Wakes.refl

theorem wakes_schedulerRound (s : Kernel.State) :
    Wakes s.ptable (Kernel.schedulerRound s).2.2.ptable := by
  unfold Kernel.schedulerRound
  dsimp only
  split
  · exact Wakes.refl
  · exact wakes_modify_awake _ _ (fun p => { p with state := .running, chan := .addr 0 })
      fun _ h => by cases h

/-- **The steps of the tables keep the channels.** -/
theorem channels_step {s' : Kernel.State} {e : Kernel.Event} (hown : ownChannel e = true)
    (h : Channels s.ptable) (hstep : Kernel.step s e = some s') : Channels s'.ptable := by
  cases e with
  | wakeup chan =>
    cases hstep
    exact h.wakes (wakes_wakeup1 _ _)
  | schedule =>
    cases hstep
    exact h.wakes (wakes_schedulerRound s)
  | call cur c =>
    unfold Kernel.step at hstep
    dsimp only at hstep
    obtain ⟨-, hstep⟩ := Option.ite_none_right_eq_some.1 hstep
    have hexec := ok_of_toOption hstep
    cases c with
    | createContainer =>
      cases hexec
      exact h
    | destroyContainer a =>
      obtain ⟨r, hr, rfl⟩ := map_eq_ok hexec
      exact h.wakes (wakes_sysDestroyContainer hr)
    | joinContainer c =>
      obtain ⟨r, hr, rfl⟩ := map_eq_ok hexec
      exact h.wakes (wakes_sysJoinContainer hr)
    | leaveContainer =>
      obtain ⟨r, hr, rfl⟩ := map_eq_ok hexec
      exact h.wakes (wakes_sysLeaveContainer hr)
    | fork kstack pgdir =>
      cases hexec
      exact h.wakes (wakes_fork _ _ _ _)
    | exit =>
      obtain ⟨t, ht, rfl⟩ := map_eq_ok hexec
      exact h.wakes (wakes_exit ht)
    | wait =>
      cases hexec
      exact h.wait
    | kill pid =>
      cases hexec
      exact h.wakes (wakes_kill _ _)
    | sleep chan =>
      cases hexec
      refine h.sleep fun a ha => .inr ?_
      subst ha
      exact of_decide_eq_true hown
    | yield =>
      cases hexec
      exact h.wakes (wakes_modify_awake _ _ (fun p => { p with state := .runnable })
        fun _ h => by cases h)

/-! ### All steps -/

/-- What holds in every state. -/
structure Inv (s : State) : Prop where
  channels : Channels s.ptable
  messages : ∃ box, Message.Represents s.messages box

variable {s s' : State} {room : ℕ}

theorem inv_boot : Inv boot := by
  refine ⟨fun i a hi _ => ?_, _, Message.represents_messageinit⟩
  exfalso
  by_cases hi0 : i = 0 <;> simp [boot, Kernel.boot, PTable.userinit, hi0, Proc.zero] at hi

/-- The tables and the message queues are the same. -/
structure SameTables (s s' : State) : Prop where
  tables : s'.toState = s.toState
  messages : s'.messages = s.messages

theorem SameTables.inv (h : SameTables s s') (hi : Inv s) : Inv s' := by
  refine ⟨?_, ?_⟩
  · rw [h.tables]
    exact hi.channels
  · rw [h.messages]
    exact hi.messages

theorem sameTables_sigraise {pid sig : ℤ} {r : ℤ × State} (h : s.sigraise pid sig = .ok r) :
    SameTables s r.2 := by
  unfold State.sigraise at h
  split at h
  · cases h
    exact ⟨rfl, rfl⟩
  · split at h
    · cases h
      exact ⟨rfl, rfl⟩
    · cases h

theorem sameTables_sentToProcBuffer {pid : ℤ} {msg : Message.Payload}
    (h : s.sentToProcBuffer pid msg = .ok s') : SameTables s s' := by
  unfold State.sentToProcBuffer at h
  split at h
  · split at h
    · cases h
    · cases h
      exact ⟨rfl, rfl⟩
  · cases h

theorem sameTables_foldlM {msg : Message.Payload} (pids : List ℤ) {x r : ℤ × State}
    (h : pids.foldlM (State.sendTurn msg) x = .ok r) : SameTables x.2 r.2 := by
  induction pids generalizing x with
  | nil =>
    cases h
    exact ⟨rfl, rfl⟩
  | cons pid pids ih =>
    rw [List.foldlM_cons] at h
    obtain ⟨y, hy, hrest⟩ := bind_eq_ok.1 h
    unfold State.sendTurn at hy
    obtain ⟨s₁, hs₁, hy⟩ := bind_eq_ok.1 hy
    obtain ⟨⟨code, s₂⟩, hs₂, hy⟩ := bind_eq_ok.1 hy
    cases hy
    have h₁ := sameTables_sentToProcBuffer hs₁
    have h₂ := sameTables_sigraise hs₂
    have h₃ := ih hrest
    exact ⟨(h₃.tables.trans h₂.tables).trans h₁.tables,
      (h₃.messages.trans h₂.messages).trans h₁.messages⟩

theorem Inv.call {cur : ℕ} {c : Call} {r : ℤ × State} (h : Inv s)
    (hexec : exec room s cur c = .ok r) : Inv r.2 := by
  cases c with
  | send senderPid recPid msg =>
    obtain ⟨⟨code, messages⟩, hsend, hr⟩ := bind_eq_ok.1 hexec
    cases hr
    refine ⟨h.channels.wakes (wakes_wakeup1 _ _), ?_⟩
    obtain ⟨box, hbox⟩ := h.messages
    obtain ⟨q, -, -, ⟨-, hrep⟩ | ⟨-, rfl⟩⟩ := hbox.send_cases hsend
    · exact ⟨_, hrep⟩
    · exact ⟨_, hbox⟩
  | sendMulti senderPid len recPid msg =>
    change s.sysSendMulti room len recPid msg = .ok r at hexec
    unfold State.sysSendMulti at hexec
    split at hexec
    · exact (sameTables_foldlM _ hexec).inv h
    · cases hexec
  | sigraise pid signalNumber => exact (sameTables_sigraise hexec).inv h
  | joinContainer containerId =>
    obtain ⟨t, ht, rfl⟩ := map_eq_ok hexec
    exact ⟨h.channels.wakes (wakes_sysJoinContainer ht), h.messages⟩
  | destroyContainer containerId =>
    obtain ⟨t, ht, rfl⟩ := map_eq_ok hexec
    exact ⟨h.channels.wakes (wakes_sysDestroyContainer ht), h.messages⟩

theorem Inv.step {e : Event} (h : Inv s) (hstep : step room s e = some s') : Inv s' := by
  unfold Request.step at hstep
  cases e with
  | call cur c =>
    dsimp only at hstep
    split at hstep
    · obtain ⟨r, hr, rfl⟩ := Option.map_eq_some_iff.1 hstep
      exact h.call (ok_of_toOption hr)
    · cases hstep
  | tables e =>
    dsimp only at hstep
    split at hstep
    · rename_i hown
      obtain ⟨t, ht, rfl⟩ := Option.map_eq_some_iff.1 hstep
      exact ⟨channels_step hown h.channels ht, h.messages⟩
    · cases hstep
  | sleepReceiver cur =>
    dsimp only at hstep
    split at hstep
    · cases hstep
      refine ⟨h.channels.sleep fun a ha => .inl ?_, h.messages⟩
      cases ha
      rfl
    · cases hstep
  | receive cur =>
    dsimp only at hstep
    split at hstep
    · obtain ⟨r, hr, rfl⟩ := Option.map_eq_some_iff.1 hstep
      obtain ⟨box, hbox⟩ := h.messages
      exact ⟨h.channels, hbox.receive_exists (ok_of_toOption hr)⟩
    · cases hstep
  | clear i sig =>
    cases hstep
    exact ⟨h.channels, h.messages⟩

theorem inv_of_reach (h : Lib.Reach (step room) Lib.anyStep boot s) : Inv s :=
  h.invariant (I := Inv) inv_boot fun _ _ _ hi _ hstep => hi.step hstep

end Request
end Xv6
