/-
# Calls that keep to what they name

The five calls take a number for an index without a look at it, or use a slot that
they have not found.  Where the numbers are good (`Checked`), a call returns, and
either it returns `-1` and changes nothing or it changes only what its numbers name:
the slots of the processes with these pids or in this container, one message queue,
one container.

A call of `destroy_container` for a container with other processes in it does not
return at all: it panics.
-/

import Xv6.Request.Channels

namespace Xv6
namespace Request

open Lib Function
open Kernel (Chan PTable Running Struck)
open Message (Payload Represents isFull sendMessage)
open Signal (NSIG SIGMSGSENT)

/-- The slots that a call names. -/
def Call.slots (s : State) (cur : ℕ) : Call → ℕ → Prop
  | .send _ recPid _, i => ((s.ptable.proc i).pid : ℤ) = recPid
  | .sendMulti _ len recPid _, i => ∃ j < len.toNat, ((s.ptable.proc i).pid : ℤ) = recPid j
  | .sigraise pid _, i => ((s.ptable.proc i).pid : ℤ) = pid
  | .joinContainer _, i => i = cur
  | .destroyContainer containerId, i =>
      (s.ptable.proc cur).containerId = containerId ∧
        (s.ptable.proc i).pid = (s.ptable.proc cur).pid

/-- The message queue that a call names. -/
def Call.queues : Call → ℕ → Prop
  | .send _ recPid _, q => (q : ℤ) = recPid
  | _, _ => False

/-- The container that a call names. -/
def Call.containers : Call → ℕ → Prop
  | .joinContainer containerId, c => (c : ℤ) = containerId
  | .destroyContainer containerId, c => (c : ℤ) = containerId
  | _, _ => False

/-- Nothing else changes. -/
structure Only (s s' : State) (slots queues containers : ℕ → Prop) : Prop where
  slot : ∀ i, ¬ slots i → s'.ptable.proc i = s.ptable.proc i ∧
    s'.msgFromMulticast i = s.msgFromMulticast i ∧ s'.pendingSignals i = s.pendingSignals i
  queue : ∀ box, Represents s.messages box →
    ∃ box', Represents s'.messages box' ∧ ∀ q, ¬ queues q → box' q = box q
  container : ∀ c, ¬ containers c → s'.containers.container c = s.containers.container c
  rest : s'.ptable.nextpid = s.ptable.nextpid ∧ s'.ptable.initproc = s.ptable.initproc ∧
    s'.containers.currentContainer = s.containers.currentContainer

/-- The numbers of a call are good: indices are indices, and the processes are there.  There is a
buffer for a message, room on the stack, and no other process in a container to be destroyed. -/
def Checked (room : ℕ) (s : State) (cur : ℕ) : Call → Prop
  | .send _ recPid _ => 0 ≤ recPid ∧ recPid < NUMOFMESSAGEQUEUES ∧
      (isFull (s.messages.messageQueue recPid.toNat) = true ∨ s.messages.freeMessageBuffer ≠ -1)
  | .sendMulti _ len recPid _ => 0 ≤ len ∧ 8 * len ≤ room ∧
      ∀ j < len.toNat, 0 ≤ recPid j ∧ recPid j < NPROC ∧ s.slotOf (recPid j) ≠ none
  | .sigraise pid signalNumber =>
      s.slotOf pid = none ∨ (0 ≤ signalNumber ∧ signalNumber < NSIG)
  | .joinContainer containerId => 0 ≤ containerId ∧ containerId < NCONTAINER ∧
      ((s.containers.container containerId.toNat).status = .dead ∨
        (s.ptable.proc cur).pid < NPROC)
  | .destroyContainer containerId => 0 ≤ containerId ∧ containerId < NCONTAINER ∧
      ∀ i < NPROC, ¬ Struck s.ptable (s.ptable.proc cur).pid containerId i

section

variable {s s' : State} {cur room : ℕ}

theorem slotOf_eq_some {pid : ℤ} {i : ℕ} (h : s.slotOf pid = some i) :
    ((s.ptable.proc i).pid : ℤ) = pid :=
  beq_iff_eq.1 (PTable.firstSlot_eq_some h).2

/-! ### Sending -/

/-- A send with a good number returns. -/
theorem exists_sendMessage {m : Message.MessageState} {box : ℕ → List Payload} {r : ℕ}
    (h : Represents m box) (hr : r < NUMOFMESSAGEQUEUES)
    (hfree : isFull (m.messageQueue r) = true ∨ m.freeMessageBuffer ≠ -1) (sPid : ℤ)
    (msg : Payload) : ∃ x, sendMessage m sPid r msg = .ok x := by
  by_cases hfull : isFull (m.messageQueue r) = true
  · refine ⟨(-1, m), ?_⟩
    rw [sendMessage, Message.queueNo_natCast hr, ok_bind, if_pos hfull]
    rfl
  · obtain ⟨free, queued, hp, -⟩ := h
    cases free with
    | nil => exact absurd hp.linked (hfree.resolve_left hfull)
    | cons i free => exact ⟨_, hp.sendMessage_eq hr sPid msg⟩

/-- Who is woken up by the number of a receiver is that receiver. -/
theorem wakeup_only (h : Inv s) {r i : ℕ} (hr : r < NUMOFMESSAGEQUEUES)
    (hi : (s.ptable.proc i).pid ≠ r) :
    (s.ptable.wakeup (.addr r)).proc i = s.ptable.proc i := by
  refine if_neg ?_
  rintro ⟨hsleep, hchan⟩
  have hlarge : ¬ (Vm.KERNBASE : ℤ) ≤ (r : ℤ) := by
    unfold NUMOFMESSAGEQUEUES at hr
    unfold Vm.KERNBASE
    omega
  rcases h.channels i r hsleep hchan with hpid | hle
  · exact hi (by omega)
  · exact hlarge hle

theorem confined_send (h : Inv s) {senderPid recPid : ℤ} {msg : Payload}
    (hc : Checked room s cur (.send senderPid recPid msg)) :
    ∃ code s', exec room s cur (.send senderPid recPid msg) = .ok (code, s') ∧
      Only s s' (Call.slots s cur (.send senderPid recPid msg))
        (Call.queues (.send senderPid recPid msg)) fun _ => False := by
  obtain ⟨h0, hlt, hfree⟩ := hc
  obtain ⟨r, rfl⟩ := Int.eq_ofNat_of_zero_le h0
  have hr : r < NUMOFMESSAGEQUEUES := by omega
  obtain ⟨box₀, hbox₀⟩ := h.messages
  obtain ⟨⟨code, m⟩, hsend⟩ := exists_sendMessage hbox₀ hr hfree senderPid msg
  refine ⟨code, { s with messages := m, ptable := s.ptable.wakeup (.addr r) }, ?_, ?_⟩
  · change s.sysSend senderPid r msg = _
    unfold State.sysSend
    rw [hsend]
    rfl
  constructor
  case slot =>
    intro i hi
    refine ⟨wakeup_only h hr fun hpid => hi ?_, rfl, rfl⟩
    exact congrArg Int.ofNat hpid
  case queue =>
    intro box hbox
    obtain ⟨q, hq, -, ⟨-, hrep⟩ | ⟨-, hsame⟩⟩ := hbox.send_cases hsend
    · refine ⟨_, hrep, fun q' hq' => update_of_ne ?_ _ _⟩
      rintro rfl
      exact hq' hq.symm
    · refine ⟨box, ?_, fun _ _ => rfl⟩
      rw [← hsame] at hbox
      exact hbox
  case container => exact fun _ _ => rfl
  case rest => exact ⟨rfl, rfl, rfl⟩

/-! ### Signals and multicast -/

/-- The slots that differ are named. -/
structure OnlySlots (s s' : State) (slots : ℕ → Prop) : Prop extends SameTables s s' where
  slot : ∀ i, ¬ slots i →
    s'.msgFromMulticast i = s.msgFromMulticast i ∧ s'.pendingSignals i = s.pendingSignals i

theorem OnlySlots.trans {s'' : State} {slots slots' slots'' : ℕ → Prop}
    (h : OnlySlots s s' slots) (h' : OnlySlots s' s'' slots') (hle : ∀ i, slots i → slots'' i)
    (hle' : ∀ i, slots' i → slots'' i) : OnlySlots s s'' slots'' where
  tables := h'.tables.trans h.tables
  messages := h'.messages.trans h.messages
  slot i hi := by
    obtain ⟨hbuf, hflag⟩ := h.slot i fun hs => hi (hle i hs)
    obtain ⟨hbuf', hflag'⟩ := h'.slot i fun hs => hi (hle' i hs)
    exact ⟨hbuf'.trans hbuf, hflag'.trans hflag⟩

theorem OnlySlots.only {slots : ℕ → Prop} (h : OnlySlots s s' slots) (queues containers : ℕ → Prop) :
    Only s s' slots queues containers where
  slot i hi := by
    refine ⟨?_, h.slot i hi⟩
    rw [h.tables]
  queue box hbox := by
    refine ⟨box, ?_, fun _ _ => rfl⟩
    rw [h.messages]
    exact hbox
  container c _ := by rw [h.tables]
  rest := by
    rw [h.tables]
    exact ⟨rfl, rfl, rfl⟩

theorem onlySlots_sigraise (sig : ℤ) {pid : ℤ} {i : ℕ} (hi : s.slotOf pid = some i) (h0 : 0 ≤ sig)
    (hlt : sig < NSIG) :
    ∃ s', s.sigraise pid sig = .ok (0, s') ∧
      OnlySlots s s' fun i => ((s.ptable.proc i).pid : ℤ) = pid := by
  refine ⟨s.setPending i sig.toNat true, ?_, ⟨⟨rfl, rfl⟩, fun j hj => ⟨rfl, ?_⟩⟩⟩
  · unfold State.sigraise
    rw [hi]
    exact if_pos ⟨h0, hlt⟩
  · refine update_of_ne ?_ _ _
    rintro rfl
    exact hj (slotOf_eq_some hi)

theorem onlySlots_sentToProcBuffer {pid : ℤ} {i : ℕ} (hi : s.slotOf pid = some i) (h0 : 0 ≤ pid)
    (hlt : pid < NPROC) (msg : Payload) :
    ∃ s', s.sentToProcBuffer pid msg = .ok s' ∧
      OnlySlots s s' fun i => ((s.ptable.proc i).pid : ℤ) = pid := by
  refine ⟨{ s with
    msgFromMulticast := update s.msgFromMulticast i
      (Message.storePayload (s.msgFromMulticast i) msg) }, ?_, ⟨⟨rfl, rfl⟩, fun j hj => ⟨?_, rfl⟩⟩⟩
  · unfold State.sentToProcBuffer
    rw [if_pos ⟨h0, hlt⟩, hi]
  · refine update_of_ne ?_ _ _
    rintro rfl
    exact hj (slotOf_eq_some hi)

/-- A turn of the loop of `sys_send_multi`. -/
theorem onlySlots_sendTurn {x : ℤ × State} {pid : ℤ} (h0 : 0 ≤ pid) (hlt : pid < NPROC)
    (hslot : x.2.slotOf pid ≠ none) (msg : Payload) :
    ∃ y, State.sendTurn msg x pid = .ok y ∧
      OnlySlots x.2 y.2 fun i => ((x.2.ptable.proc i).pid : ℤ) = pid := by
  obtain ⟨i, hi⟩ := Option.ne_none_iff_exists'.1 hslot
  obtain ⟨s₁, hs₁, honly₁⟩ := onlySlots_sentToProcBuffer hi h0 hlt msg
  have hi₁ : s₁.slotOf pid = some i := by
    unfold State.slotOf
    rw [honly₁.tables]
    exact hi
  obtain ⟨s₂, hs₂, honly₂⟩ := onlySlots_sigraise SIGMSGSENT hi₁ (by decide) (by decide)
  rw [honly₁.tables] at honly₂
  refine ⟨(x.1, s₂), ?_, honly₁.trans honly₂ (fun _ h => h) fun _ h => h⟩
  unfold State.sendTurn
  rw [hs₁, ok_bind, hs₂]
  rfl

/-- **The loop**: every turn finds the slot that it names. -/
theorem onlySlots_foldlM (msg : Payload) (pids : List ℤ) {x : ℤ × State}
    (h : ∀ pid ∈ pids, 0 ≤ pid ∧ pid < NPROC ∧ x.2.slotOf pid ≠ none) :
    ∃ y, pids.foldlM (State.sendTurn msg) x = .ok y ∧
      OnlySlots x.2 y.2 fun i => ((x.2.ptable.proc i).pid : ℤ) ∈ pids := by
  induction pids generalizing x with
  | nil => exact ⟨x, rfl, ⟨⟨rfl, rfl⟩, fun _ _ => ⟨rfl, rfl⟩⟩⟩
  | cons pid pids ih =>
    obtain ⟨h0, hlt, hslot⟩ := h pid List.mem_cons_self
    obtain ⟨y, hy, honly⟩ := onlySlots_sendTurn h0 hlt hslot msg
    have hrest : ∀ p ∈ pids, 0 ≤ p ∧ p < NPROC ∧ y.2.slotOf p ≠ none := by
      intro p hp
      unfold State.slotOf
      rw [honly.tables]
      exact h p (List.mem_cons_of_mem pid hp)
    obtain ⟨z, hz, honly'⟩ := ih hrest
    rw [honly.tables] at honly'
    refine ⟨z, by rw [List.foldlM_cons, hy, ok_bind, hz], honly.trans honly' ?_ ?_⟩
    · exact fun i hi => hi ▸ List.mem_cons_self
    · exact fun i hi => List.mem_cons_of_mem pid hi

/-! ### Containers -/

theorem confined_join {containerId : ℤ} (hc : Checked room s cur (.joinContainer containerId)) :
    ∃ code s', exec room s cur (.joinContainer containerId) = .ok (code, s') ∧
      Only s s' (fun i => i = cur) (fun _ => False) fun c => (c : ℤ) = containerId := by
  obtain ⟨h0, hlt, hpid⟩ := hc
  obtain ⟨c, rfl⟩ := Int.eq_ofNat_of_zero_le h0
  have hindex : Kernel.ContainerTable.index c = .ok c := if_pos ⟨h0, hlt⟩
  obtain ⟨stat, containers, hset, hother, hcurrent⟩ : ∃ stat containers,
      s.containers.setProcessToContainer (s.ptable.proc cur).pid c = .ok (stat, containers) ∧
      (∀ c', c' ≠ c → containers.container c' = s.containers.container c') ∧
      containers.currentContainer = s.containers.currentContainer := by
    unfold Kernel.ContainerTable.setProcessToContainer Kernel.ContainerTable.writeProcess
    rw [hindex, ok_bind]
    by_cases hdead : (s.containers.container c).status = .dead
    · rw [if_pos hdead]
      exact ⟨-1, s.containers, rfl, fun _ _ => rfl, rfl⟩
    · rw [if_neg hdead, if_pos (hpid.resolve_left hdead)]
      exact ⟨0, _, rfl, fun c' hc' => update_of_ne hc' _ _, rfl⟩
  refine ⟨stat, { s with
    ptable := s.ptable.modify cur fun p => { p with containerId := c }
    containers := containers }, ?_, ?_⟩
  · change s.onTables (Kernel.sysJoinContainer s.toState cur c) = _
    unfold State.onTables Kernel.sysJoinContainer
    rw [hset]
    rfl
  constructor
  case slot =>
    intro i hi
    dsimp only
    exact ⟨PTable.modify_proc_of_ne _ hi _, rfl, rfl⟩
  case queue => exact fun box hbox => ⟨box, hbox, fun _ _ => rfl⟩
  case container => exact fun c' hc' => hother c' fun he => hc' (congrArg Int.ofNat he)
  case rest => exact ⟨rfl, rfl, hcurrent⟩

theorem confined_destroy {containerId : ℤ}
    (hc : Checked room s cur (.destroyContainer containerId)) :
    ∃ code s', exec room s cur (.destroyContainer containerId) = .ok (code, s') ∧
      Only s s' (Call.slots s cur (.destroyContainer containerId)) (fun _ => False)
        fun c => (c : ℤ) = containerId := by
  obtain ⟨h0, hlt, hlone⟩ := hc
  obtain ⟨c, rfl⟩ := Int.eq_ofNat_of_zero_le h0
  have hindex : Kernel.ContainerTable.index c = .ok c := if_pos ⟨h0, hlt⟩
  obtain ⟨containers, hkernel, hother, hcurrent⟩ : ∃ containers,
      s.containers.destroyContainerKernel c = .ok containers ∧
      (∀ c', c' ≠ c → containers.container c' = s.containers.container c') ∧
      containers.currentContainer = s.containers.currentContainer := by
    unfold Kernel.ContainerTable.destroyContainerKernel
    rw [hindex, ok_bind]
    exact ⟨_, rfl, fun c' hc' => update_of_ne hc' _ _, rfl⟩
  have hprocs : s.ptable.destroyContainerProcesses (s.ptable.proc cur).pid c
      (s.ptable.proc cur).containerId =
      .ok (if (s.ptable.proc cur).containerId = (c : ℤ) then
        (s.ptable.kill (s.ptable.proc cur).pid).2 else s.ptable) := by
    unfold PTable.destroyContainerProcesses
    split
    · rename_i i hi
      obtain ⟨hilt, hstruck⟩ := PTable.firstSlot_eq_some hi
      exact absurd (of_decide_eq_true hstruck) (hlone i hilt)
    · rfl
  refine ⟨0, { s with
    ptable := if (s.ptable.proc cur).containerId = (c : ℤ) then
      (s.ptable.kill (s.ptable.proc cur).pid).2 else s.ptable
    containers := containers }, ?_, ?_⟩
  · change s.onTables (Kernel.sysDestroyContainer s.toState cur c) = _
    unfold State.onTables Kernel.sysDestroyContainer
    dsimp only
    rw [hkernel, ok_bind, hprocs]
    rfl
  constructor
  case slot =>
    intro i hi
    refine ⟨?_, rfl, rfl⟩
    dsimp only
    split
    · rename_i hmember
      unfold PTable.kill
      split
      · rfl
      · rename_i j hj
        dsimp only
        refine PTable.modify_proc_of_ne _ (fun he => hi ⟨hmember, ?_⟩) _
        have hpid := beq_iff_eq.1 (PTable.firstSlot_eq_some hj).2
        rw [he]
        exact Int.ofNat.inj hpid
    · rfl
  case queue => exact fun box hbox => ⟨box, hbox, fun _ _ => rfl⟩
  case container => exact fun c' hc' => hother c' fun he => hc' (congrArg Int.ofNat he)
  case rest =>
    refine ⟨?_, ?_, hcurrent⟩ <;> dsimp only <;> split
    · unfold PTable.kill
      split <;> rfl
    · rfl
    · unfold PTable.kill
      split <;> rfl
    · rfl

/-- **A call whose numbers are good returns**, and it returns `-1` and changes nothing, or it
changes only what the numbers name. -/
theorem calls_confined (room : ℕ) (s : State) (h : Reach (step room) anyStep boot s) (cur : ℕ)
    (c : Call) (hc : Checked room s cur c) :
    ∃ code s', exec room s cur c = .ok (code, s') ∧
      ((code = -1 ∧ s' = s) ∨ Only s s' (c.slots s cur) c.queues c.containers) := by
  cases c with
  | send senderPid recPid msg =>
    obtain ⟨code, s', hexec, honly⟩ := confined_send (inv_of_reach h) hc
    exact ⟨code, s', hexec, .inr honly⟩
  | sendMulti senderPid len recPid msg =>
    obtain ⟨h0, hroom, hpids⟩ := hc
    obtain ⟨⟨flag, s'⟩, hrun, honly⟩ := onlySlots_foldlM msg (x := (0, s))
      ((List.range len.toNat).map recPid) (by
        intro pid hpid
        obtain ⟨j, hj, rfl⟩ := List.mem_map.1 hpid
        exact hpids j (List.mem_range.1 hj))
    refine ⟨flag, s', (if_pos ⟨h0, hroom⟩).trans hrun, .inr ?_⟩
    refine (OnlySlots.trans honly ⟨⟨rfl, rfl⟩, fun _ _ => ⟨rfl, rfl⟩⟩ (fun i hi => ?_)
      (fun i (hi : False) => hi.elim)).only _ _
    obtain ⟨j, hj, hpid⟩ := List.mem_map.1 hi
    exact ⟨j, List.mem_range.1 hj, hpid.symm⟩
  | sigraise pid signalNumber =>
    cases hslot : s.slotOf pid with
    | none =>
      refine ⟨-1, s, ?_, .inl ⟨rfl, rfl⟩⟩
      change s.sigraise pid signalNumber = _
      unfold State.sigraise
      rw [hslot]
    | some i =>
      have hsig := hc.resolve_left (by rw [hslot]; exact Option.some_ne_none i)
      obtain ⟨s', hrun, honly⟩ := onlySlots_sigraise signalNumber hslot hsig.1 hsig.2
      exact ⟨0, s', hrun, .inr (honly.only _ _)⟩
  | joinContainer containerId =>
    obtain ⟨code, s', hexec, honly⟩ := confined_join hc
    exact ⟨code, s', hexec, .inr honly⟩
  | destroyContainer containerId =>
    obtain ⟨code, s', hexec, honly⟩ := confined_destroy hc
    exact ⟨code, s', hexec, .inr honly⟩

/-- The first process, after a fork, sends a message to itself and to its child by multicast. -/
theorem calls_confined_multi :
    ∃ s code s', Reach (step 4096) anyStep boot s ∧ s.slotOf 2 = some 1 ∧
      exec 4096 s 0 (.sendMulti 1 2 (fun j => j + 1) fun _ => 0) = .ok (code, s') ∧
      ((code = -1 ∧ s' = s) ∨ Only s s'
        (Call.slots s 0 (.sendMulti 1 2 (fun j => j + 1) fun _ => 0)) (fun _ => False)
        fun _ => False) := by
  obtain ⟨s, hs, hself, hchild⟩ : ∃ s, Reach (step 4096) anyStep boot s ∧
      s.slotOf 1 = some 0 ∧ s.slotOf 2 = some 1 :=
    exists_reach_of_any [.tables .schedule, .tables (.call 0 (.fork true true))] (by decide +kernel)
  have hpids : ∀ j < (2 : ℤ).toNat, 0 ≤ (j + 1 : ℤ) ∧ (j + 1 : ℤ) < NPROC ∧
      s.slotOf (j + 1) ≠ none := by
    intro j hj
    obtain rfl | rfl : j = 0 ∨ j = 1 := by omega
    · exact ⟨by decide, by decide, by rw [show ((0 : ℕ) : ℤ) + 1 = 1 from rfl, hself]; simp⟩
    · exact ⟨by decide, by decide, by rw [show ((1 : ℕ) : ℤ) + 1 = 2 from rfl, hchild]; simp⟩
  obtain ⟨code, s', hexec, honly⟩ := calls_confined 4096 s hs 0
    (.sendMulti 1 2 (fun j => j + 1) fun _ => 0) ⟨by decide, by decide, hpids⟩
  exact ⟨s, code, s', hs, hchild, hexec, honly⟩

/-- Each of the calls, by the first process, with a number that is not checked. -/
theorem calls_not_confined :
    exec 4096 boot 0 (.send 1 64 fun _ => 0) = .error .wild ∧
    exec 4096 boot 0 (.sendMulti 1 1 (fun _ => 5) fun _ => 0) = .error .wild ∧
    exec 4096 boot 0 (.sigraise 1 8) = .error .wild ∧
    exec 4096 boot 0 (.joinContainer 15) = .error .wild ∧
    exec 4096 boot 0 (.destroyContainer (-1)) = .error .wild := by
  have hqueue : Message.queueNo 64 = .error .wild :=
    if_neg (by unfold NUMOFMESSAGEQUEUES; decide)
  have hfive : boot.slotOf 5 = none := by decide +kernel
  have hone : boot.slotOf 1 = some 0 := by decide +kernel
  refine ⟨?_, ?_, ?_, rfl, rfl⟩
  · change boot.sysSend 1 64 (fun _ => 0) = _
    unfold State.sysSend sendMessage
    rw [hqueue]
    rfl
  · have hturn : State.sendTurn (fun _ => 0) (0, boot) 5 = .error .wild := by
      unfold State.sendTurn State.sentToProcBuffer
      rw [if_pos (by decide), hfive]
      rfl
    change [(5 : ℤ)].foldlM (State.sendTurn fun _ => 0) (0, boot) = _
    rw [List.foldlM_cons, hturn]
    rfl
  · change boot.sigraise 1 8 = _
    unfold State.sigraise
    rw [hone]
    rfl

end

end Request
end Xv6
