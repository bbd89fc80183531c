/-
# What the message calls do with the caller's memory

`fetchint`, `fetchstr`, `argint`, `argptr` and `argstr` (`xv6/syscall.c`, lines 71-138), and
the way `sys_send`, `sys_recv`, `sys_send_multi` and `sys_recv_multi` (`xv6/sysproc.c`, lines
147-235) use them.  The results of `argint` and `argptr` are thrown away: after a
failure the variable holds what was on the stack, given here as `junk`.

`argptr` is asked for `8` bytes, for `MessageSize` bytes or for `len` bytes; the copy
loops of `send_message`, `receive_msg`, `sent_to_proc_buffer` and
`receive_from_procbuffer` go over `MessageSize - 1` words, and `sys_send_multi` over
`len` words.  `touched` is the record of what the kernel reads and writes in the
caller's memory.
-/

import Xv6.Request.Channels

namespace Xv6
namespace Request

open Lib
open Message (Payload isEmpty isFull loadPayload receiveMsg)

/-- The caller: its memory below `sz`, what is behind it, and the stack pointer. -/
structure Caller where
  sz : ℕ
  sz_le : sz ≤ Vm.KERNBASE
  esp : ℕ
  mem : ℕ → Byte
  /-- What the variable for an argument holds before it is set. -/
  junk : ℕ → ℕ

/-- An access to the caller's memory: the word of an argument, or a block that an argument
points to. -/
inductive Access where
  | word (n addr : ℕ)
  | block (n addr len : ℕ)
  deriving DecidableEq

/-- A word as an `int`. -/
def toInt (w : ℕ) : ℤ := if w < 2 ^ 31 then w else (w : ℤ) - 2 ^ 32

namespace Caller

/-- `fetchint`, with the sum of the second test taken as an `uint`. -/
def fetchint (p : Caller) (addr : ℕ) : Option ℕ :=
  if p.sz ≤ addr ∨ p.sz < (addr + 4) % 2 ^ 32 then none else some (getLE p.mem addr 4)

/-- Where argument `n` is. -/
def argAddr (p : Caller) (n : ℕ) : ℕ := (p.esp + 4 + 4 * n) % 2 ^ 32

/-- `argint`. -/
def argint (p : Caller) (n : ℕ) : Option ℕ := p.fetchint (p.argAddr n)

/-- `argptr`: the pointer, if the block of that size lies in the process. -/
def argptr (p : Caller) (n : ℕ) (size : ℤ) : Option ℕ :=
  match p.argint n with
  | none => none
  | some i => if size < 0 ∨ p.sz ≤ i ∨ p.sz < (i + size.toNat) % 2 ^ 32 then none else some i

/-- The loop goes over the addresses from `addr` to the end of the process. -/
def fetchstr (p : Caller) (addr : ℕ) : Option ℕ :=
  if p.sz ≤ addr then none
  else ((List.range' addr (p.sz - addr)).find? (p.mem · = 0)).map (· - addr)

/-- `argstr`: the length of the string, if it ends in the process. -/
def argstr (p : Caller) (n : ℕ) : Option ℕ := (p.argint n).bind p.fetchstr

/-- The variable for an `int` argument. -/
def int (p : Caller) (n : ℕ) : ℤ := toInt ((p.argint n).getD (p.junk n))

/-- The variable for a pointer argument. -/
def ptr (p : Caller) (n : ℕ) (size : ℤ) : ℕ := (p.argptr n size).getD (p.junk n)

/-- What `argint` reads for these arguments. -/
def words (p : Caller) (ns : List ℕ) : List Access :=
  (ns.filter fun n => (p.argint n).isSome).map fun n => .word n (p.argAddr n)

/-- The word `i` of the block at an address. -/
def load (p : Caller) (addr i : ℕ) : ℤ :=
  toInt (getLE (fun k => p.mem ((addr + k) % 2 ^ 32)) (4 * i) 4)

/-- Memory with the words of a message written at an address. -/
def store (p : Caller) (addr : ℕ) (msg : Payload) : ℕ → Byte := fun a =>
  let k := (a + (2 ^ 32 - addr % 2 ^ 32)) % 2 ^ 32
  if h : k / 4 < 15 then leByte ((msg ⟨k / 4, h⟩) % 2 ^ 32).toNat (k % 4) else p.mem a

end Caller

/-- The calls. -/
inductive MessageCall where
  | send
  | recv
  | sendMulti
  | recvMulti

/-- What a call returns, what it has touched, and the state and the memory it leaves. -/
structure Outcome where
  code : ℤ
  touched : List Access
  state : State
  mem : ℕ → Byte

/-- `MessageSize`, bytes for `argptr` and words for the copies. -/
def MessageSize : ℕ := 16

/-- The bytes of the words that the copy loops go over. -/
def COPIED : ℕ := 4 * (MessageSize - 1)

namespace State

/-- The copy is made unless the queue is full. -/
def userSend (s : State) (p : Caller) : Except Halt Outcome := do
  let addr := p.ptr 2 8
  let (code, s') ← s.sysSend (p.int 0) (p.int 1) fun i => p.load addr i
  .ok { code := code
        touched := p.words [0, 1, 2] ++ if code = 0 then [.block 2 addr COPIED] else []
        state := s'
        mem := p.mem }

/-- From the call of `receive_msg` on: before it the process may have slept. -/
def userRecv (s : State) (cur : ℕ) (p : Caller) : Except Halt Outcome := do
  let addr := p.ptr 0 8
  let (code, msg, messages) ← receiveMsg s.messages (s.ptable.proc cur).pid
  .ok { code := code
        touched := p.words [0] ++ if msg.isSome then [.block 0 addr COPIED] else []
        state := { s with messages := messages }
        mem := msg.elim p.mem (p.store addr) }

/-- `sys_send_multi`, whose two arrays of `len` words have to fit the stack. -/
def userSendMulti (room : ℕ) (s : State) (p : Caller) : Except Halt Outcome := do
  let len := p.int 3
  let recTemp := p.ptr 1 len
  let msgTemp := p.ptr 2 MessageSize
  let (code, s') ← s.sysSendMulti room len (p.load recTemp) fun i => p.load msgTemp i
  .ok { code := code
        touched := p.words [0, 3, 1, 2] ++ (List.range len.toNat).flatMap fun i =>
          [.block 1 (recTemp + 4 * i) 4, .block 2 msgTemp COPIED]
        state := s'
        mem := p.mem }

/-- `receive_from_procbuffer` has the buffer of the slot that it finds. -/
def userRecvMulti (s : State) (cur : ℕ) (p : Caller) : Except Halt Outcome :=
  let addr := p.ptr 0 8
  if (s.ptable.proc cur).pid < NPROC then
    match s.slotOf (s.ptable.proc cur).pid with
    | none => .error .wild
    | some i =>
      .ok { code := 0
            touched := p.words [0] ++ [.block 0 addr COPIED]
            state := s
            mem := p.store addr (loadPayload (s.msgFromMulticast i)) }
  else .error .wild

end State

/-- One of the four calls, with the accesses to the caller's memory. -/
def execUser (room : ℕ) (s : State) (cur : ℕ) (p : Caller) : MessageCall → Except Halt Outcome
  | .send => s.userSend p
  | .recv => s.userRecv cur p
  | .sendMulti => s.userSendMulti room p
  | .recvMulti => s.userRecvMulti cur p

/-- The range that `argptr` has validated for an argument. -/
def validated (p : Caller) : MessageCall → ℕ → Option (ℕ × ℕ)
  | .send, 2 => (p.argptr 2 8).map fun i => (i, 8)
  | .recv, 0 => (p.argptr 0 8).map fun i => (i, 8)
  | .sendMulti, 1 => (p.argptr 1 (p.int 3)).map fun i => (i, (p.int 3).toNat)
  | .sendMulti, 2 => (p.argptr 2 MessageSize).map fun i => (i, MessageSize)
  | .recvMulti, 0 => (p.argptr 0 8).map fun i => (i, 8)
  | _, _ => none

/-- All arguments of a call validate. -/
def Valid (p : Caller) : MessageCall → Prop
  | .send => p.argint 0 ≠ none ∧ p.argint 1 ≠ none ∧ p.argptr 2 8 ≠ none
  | .recv => p.argptr 0 8 ≠ none
  | .sendMulti => p.argint 0 ≠ none ∧ p.argint 3 ≠ none ∧ p.argptr 1 (p.int 3) ≠ none ∧
      p.argptr 2 MessageSize ≠ none
  | .recvMulti => p.argptr 0 8 ≠ none

/-- An access lies in the process and in what was validated. -/
def Access.Within (p : Caller) (c : MessageCall) : Access → Prop
  | .word _ addr => addr + 4 ≤ p.sz
  | .block n addr len => addr + len ≤ p.sz ∧
      ∃ start size, validated p c n = some (start, size) ∧ start ≤ addr ∧ addr + len ≤ start + size

/-- The call stays inside the caller's memory, and refuses arguments that do not validate. -/
structure Stays (p : Caller) (c : MessageCall) (o : Outcome) : Prop where
  within : ∀ x ∈ o.touched, x.Within p c
  refused : ¬ Valid p c → o.code = -1

/-- Nothing is copied: the receiver's queue is full; or no message is there; or the list is empty,
and then the arguments are valid. -/
def Quiet (s : State) (cur : ℕ) (p : Caller) : MessageCall → Prop
  | .send => isFull (s.messages.messageQueue (p.int 1).toNat) = true
  | .recv => isEmpty (s.messages.messageQueue (s.ptable.proc cur).pid) = true ∨
      (Message.dequeue (s.messages.messageQueue (s.ptable.proc cur).pid)).1 < 0
  | .sendMulti => Valid p .sendMulti ∧ p.int 3 = 0
  | .recvMulti => False

section

variable {s : State} {p : Caller} {o : Outcome} {cur room : ℕ} {c : MessageCall}

/-! ### Arguments -/

/-- No wrapped sum is small enough. -/
theorem fetchint_isSome (p : Caller) (addr : ℕ) :
    (p.fetchint addr).isSome = true ↔ addr + 4 ≤ p.sz := by
  have hsz : p.sz ≤ 2 ^ 31 := p.sz_le
  unfold Caller.fetchint
  split
  · exact iff_of_false nofun (by omega)
  · exact iff_of_true rfl (by omega)

/-- The word of an argument that `argint` finds is in the process. -/
theorem words_within (ns : List ℕ) : ∀ x ∈ p.words ns, x.Within p c := by
  intro x hx
  obtain ⟨n, hn, rfl⟩ := List.mem_map.1 hx
  have hsome : (p.argint n).isSome = true := by simpa using (List.mem_filter.1 hn).2
  exact (fetchint_isSome p _).1 hsome

/-- What the copy loops touch is more than was validated for any argument but the list. -/
theorem not_within_copied {n addr : ℕ}
    (hsmall : ∀ r, validated p c n = some r → r.2 ≤ MessageSize) :
    ¬ Access.Within p c (.block n addr COPIED) := by
  rintro ⟨-, start, size, hvalid, hle, hend⟩
  have hsize := hsmall _ hvalid
  unfold COPIED MessageSize at *
  dsimp only at hsize
  omega

/-- So a call that copies a message does not stay inside. -/
theorem not_stays_of_copied {n a : ℕ} (hmem : Access.block n a COPIED ∈ o.touched)
    (hsmall : ∀ r, validated p c n = some r → r.2 ≤ MessageSize) : ¬ Stays p c o :=
  fun h => not_within_copied hsmall (h.within _ hmem)

theorem map_small {x : Option ℕ} {size : ℕ} (hsize : size ≤ MessageSize) :
    ∀ r, x.map (fun i => (i, size)) = some r → r.2 ≤ MessageSize := by
  intro r hr
  obtain ⟨i, -, rfl⟩ := Option.map_eq_some_iff.1 hr
  exact hsize

/-! ### The calls -/

theorem sendMessage_code {m m' : Message.MessageState} {sPid rPid code : ℤ} {msg : Payload}
    (h : Message.sendMessage m sPid rPid msg = .ok (code, m')) :
    (isFull (m.messageQueue rPid.toNat) = true ∧ code = -1) ∨
      (¬ isFull (m.messageQueue rPid.toNat) = true ∧ code = 0) := by
  unfold Message.sendMessage Message.queueNo at h
  split at h
  · rw [ok_bind] at h
    split at h
    · rename_i hfull
      exact .inl ⟨hfull, (congrArg Prod.fst (Except.ok.inj h)).symm⟩
    · rename_i hfull
      obtain ⟨x, -, h⟩ := bind_eq_ok.1 h
      exact .inr ⟨hfull, (congrArg Prod.fst (Except.ok.inj h)).symm⟩
  · cases h

theorem receiveMsg_code {m : Message.MessageState} {r : ℕ}
    {x : ℤ × Option Payload × Message.MessageState} (h : receiveMsg m r = .ok x) :
    ((isEmpty (m.messageQueue r) = true ∨ (Message.dequeue (m.messageQueue r)).1 < 0) ∧
      x.1 = -1 ∧ x.2.1 = none) ∨
    (¬ (isEmpty (m.messageQueue r) = true ∨ (Message.dequeue (m.messageQueue r)).1 < 0) ∧
      x.2.1.isSome = true) := by
  unfold receiveMsg Message.queueNo at h
  split at h
  · rw [ok_bind, Int.toNat_natCast] at h
    split at h
    · rename_i hempty
      cases h
      exact .inl ⟨.inl hempty, rfl, rfl⟩
    · rename_i hempty
      dsimp only at h
      split at h
      · rename_i hneg
        cases h
        exact .inl ⟨.inr hneg, rfl, rfl⟩
      · rename_i hneg
        obtain ⟨i, -, h⟩ := bind_eq_ok.1 h
        cases h
        exact .inr ⟨fun hor => hor.elim hempty hneg, rfl⟩
  · cases h

theorem stays_send (h : s.userSend p = .ok o) : Stays p .send o ↔ Quiet s cur p .send := by
  unfold State.userSend at h
  dsimp only at h
  obtain ⟨⟨code, s'⟩, hsend, h⟩ := bind_eq_ok.1 h
  cases h
  unfold State.sysSend at hsend
  obtain ⟨⟨code', m⟩, hmsg, hsend⟩ := bind_eq_ok.1 hsend
  cases hsend
  rcases sendMessage_code hmsg with ⟨hfull, rfl⟩ | ⟨hfull, rfl⟩
  · refine iff_of_true ⟨fun x hx => ?_, fun _ => rfl⟩ hfull
    rw [if_neg (by decide : ¬ (-1 : ℤ) = 0), List.append_nil] at hx
    exact words_within _ x hx
  · refine iff_of_false (not_stays_of_copied (n := 2) (a := p.ptr 2 8) ?_
      (map_small (by decide))) hfull
    rw [if_pos rfl]
    exact List.mem_append_right _ List.mem_cons_self

theorem stays_recv (h : s.userRecv cur p = .ok o) : Stays p .recv o ↔ Quiet s cur p .recv := by
  unfold State.userRecv at h
  dsimp only at h
  obtain ⟨⟨code, msg, m⟩, hrecv, h⟩ := bind_eq_ok.1 h
  cases h
  rcases receiveMsg_code hrecv with ⟨hnone, hcode, hmsg⟩ | ⟨hsome, hmsg⟩
  · obtain rfl : code = -1 := hcode
    obtain rfl : msg = none := hmsg
    refine iff_of_true ⟨fun x hx => ?_, fun _ => rfl⟩ hnone
    dsimp only at hx
    rw [if_neg (by decide), List.append_nil] at hx
    exact words_within _ x hx
  · refine iff_of_false (not_stays_of_copied (n := 0) (a := p.ptr 0 8) ?_
      (map_small (by decide))) hsome
    dsimp only at hmsg ⊢
    rw [if_pos hmsg]
    exact List.mem_append_right _ List.mem_cons_self

theorem stays_sendMulti (h : s.userSendMulti room p = .ok o) :
    Stays p .sendMulti o ↔ Quiet s cur p .sendMulti := by
  unfold State.userSendMulti at h
  dsimp only at h
  obtain ⟨⟨code, s'⟩, hsend, h⟩ := bind_eq_ok.1 h
  cases h
  have hlen : 0 ≤ p.int 3 := by
    by_contra hneg
    unfold State.sysSendMulti at hsend
    rw [if_neg fun hand => hneg hand.1] at hsend
    cases hsend
  by_cases hzero : p.int 3 = 0
  · have hcode : code = 0 := by
      unfold State.sysSendMulti at hsend
      rw [hzero] at hsend
      split at hsend
      · exact (congrArg Prod.fst (Except.ok.inj hsend)).symm
      · cases hsend
    subst hcode
    constructor
    · intro hstays
      refine ⟨?_, hzero⟩
      by_contra hinvalid
      exact (by decide : ¬ (0 : ℤ) = -1) (hstays.refused hinvalid)
    · rintro ⟨hvalid, -⟩
      refine ⟨fun x hx => ?_, fun hno => absurd hvalid hno⟩
      dsimp only at hx
      rw [hzero] at hx
      exact words_within _ x (by simpa using hx)
  · refine iff_of_false (not_stays_of_copied (n := 2) (a := p.ptr 2 MessageSize) ?_
      (map_small (Nat.le_refl _))) fun hq => hzero hq.2
    refine List.mem_append_right _ (List.mem_flatMap.2 ⟨0, ?_, ?_⟩)
    · rw [List.mem_range]
      omega
    · exact List.mem_cons_of_mem _ List.mem_cons_self

theorem stays_recvMulti (h : s.userRecvMulti cur p = .ok o) : ¬ Stays p .recvMulti o := by
  unfold State.userRecvMulti at h
  dsimp only at h
  split at h
  · split at h
    · cases h
    · cases h
      exact not_stays_of_copied (n := 0) (a := p.ptr 0 8)
        (List.mem_append_right _ List.mem_cons_self) (map_small (by decide))
  · cases h

/-- **A call stays inside the caller's memory, and refuses arguments that do not validate,
exactly if it copies nothing.** -/
theorem stays_iff_quiet (room : ℕ) (s : State) (cur : ℕ) (p : Caller) (c : MessageCall)
    (o : Outcome) (h : execUser room s cur p c = .ok o) : Stays p c o ↔ Quiet s cur p c := by
  cases c with
  | send => exact stays_send h
  | recv => exact stays_recv h
  | sendMulti => exact stays_sendMulti h
  | recvMulti => exact iff_of_false (stays_recvMulti h) id

/-- A process of one page that makes a call with these arguments, at the end of its stack. -/
def onePage (args : List ℕ) : Caller where
  sz := 4096
  sz_le := by decide
  esp := 2048
  mem := putWords (fun _ => 0) 2052 args.length fun i => args.getD i 0
  junk _ := 0

/-- A process with no message receives none. -/
theorem stays_iff_quiet_recv :
    ∃ o, execUser 4096 boot 0 (onePage [0]) .recv = .ok o ∧ o.code = -1 ∧
      Stays (onePage [0]) .recv o := by
  obtain ⟨o, ho, hcode⟩ : ∃ o, execUser 4096 boot 0 (onePage [0]) .recv = .ok o ∧ o.code = -1 :=
    exists_ok_of_any (by decide +kernel)
  exact ⟨o, ho, hcode,
    (stays_iff_quiet 4096 boot 0 (onePage [0]) .recv o ho).2 (.inl (by decide +kernel))⟩

/-- The same process when it ends within its page, so that what lies behind its end is mapped. -/
def partPage (args : List ℕ) : Caller := { onePage args with sz := 4000, sz_le := by decide }

/-- A message that lies at the end of the process, of which `8` bytes are validated, is read from
behind its end; and one that is not in the process at all is sent too. -/
theorem send_leaves_process :
    (∃ o, execUser 4096 boot 0 (partPage [1, 1, 3992]) .send = .ok o ∧
      (partPage [1, 1, 3992]).argptr 2 8 = some 3992 ∧ .block 2 3992 60 ∈ o.touched) ∧
    ∃ o, execUser 4096 boot 0 (onePage [1, 1, 5000]) .send = .ok o ∧
      (onePage [1, 1, 5000]).argptr 2 8 = none ∧ o.code = 0 :=
  ⟨exists_ok_of_any (by decide +kernel), exists_ok_of_any (by decide +kernel)⟩

/-! ### The limits -/

theorem argptr_eq_some {n i : ℕ} {size : ℤ} (hnonneg : 0 ≤ size) (hsize : size < 2 ^ 31) :
    p.argptr n size = some i ↔ p.argint n = some i ∧ i < p.sz ∧ i + size ≤ p.sz := by
  have hsz : p.sz ≤ 2 ^ 31 := p.sz_le
  unfold Caller.argptr
  cases p.argint n with
  | none => simp
  | some j =>
    dsimp only
    rw [Option.ite_none_left_eq_some, and_comm, Option.some.injEq]
    refine and_congr_right fun hij => ?_
    omega

theorem fetchstr_eq_some {addr len : ℕ} : p.fetchstr addr = some len ↔
    addr + len < p.sz ∧ p.mem (addr + len) = 0 ∧ ∀ j < len, p.mem (addr + j) ≠ 0 := by
  unfold Caller.fetchstr
  rw [Option.ite_none_left_eq_some, Option.map_eq_some_iff]
  simp only [List.find?_range'_eq_some, List.mem_range'_1]
  constructor
  · rintro ⟨-, i, ⟨hi, ⟨hle, hlt⟩, hfirst⟩, rfl⟩
    rw [Nat.add_sub_cancel' hle]
    refine ⟨by omega, of_decide_eq_true hi, fun j hj => ?_⟩
    simpa using hfirst (addr + j) (by omega) (by omega)
  · rintro ⟨hlt, hnul, hfirst⟩
    refine ⟨by omega, addr + len, ⟨decide_eq_true hnul, by omega, fun j hle hj => ?_⟩, by omega⟩
    have := hfirst (j - addr) (by omega)
    rw [Nat.add_sub_cancel' hle] at this
    simpa using this

theorem fetchstr_isSome {addr : ℕ} :
    (p.fetchstr addr).isSome = true ↔ ∃ q < p.sz, addr ≤ q ∧ p.mem q = 0 := by
  unfold Caller.fetchstr
  split
  next h => exact iff_of_false nofun fun ⟨q, hq, hle, _⟩ => by omega
  next h =>
    rw [Option.isSome_map, List.find?_isSome]
    refine exists_congr fun q => ?_
    rw [List.mem_range'_1, decide_eq_true_iff, ← and_assoc]
    exact and_congr_left fun _ => by omega

/-- **The checks of the arguments at the limits.** -/
theorem argument_checks_exact (p : Caller) (n : ℕ) :
    (∀ addr < 2 ^ 32, (p.fetchint addr).isSome = true ↔ ∀ k < 4, (addr + k) % 2 ^ 32 < p.sz) ∧
    ((p.argint n).isSome = true ↔ ∀ k < 4, (p.argAddr n + k) % 2 ^ 32 < p.sz) ∧
    (∀ size < 0, p.argptr n size = none) ∧
    (∀ size : ℤ, 0 ≤ size → size < 2 ^ 31 → ∀ i, p.argptr n size = some i ↔
      p.argint n = some i ∧ i < p.sz ∧ i + size ≤ p.sz) ∧
    (∀ len, p.argstr n = some len ↔ ∃ a, p.argint n = some a ∧ a + len < p.sz ∧
      p.mem (a + len) = 0 ∧ ∀ j < len, p.mem (a + j) ≠ 0) ∧
    ((p.argstr n).isSome = true ↔ ∃ a, p.argint n = some a ∧ ∃ q < p.sz, a ≤ q ∧ p.mem q = 0) := by
  have hsz : p.sz ≤ 2 ^ 31 := p.sz_le
  have hword : ∀ addr < 2 ^ 32,
      (p.fetchint addr).isSome = true ↔ ∀ k < 4, (addr + k) % 2 ^ 32 < p.sz := by
    intro addr haddr
    rw [fetchint_isSome]
    refine ⟨fun h k hk => by omega, fun h => ?_⟩
    have := h 0 (by omega)
    have := h 3 (by omega)
    omega
  refine ⟨hword, hword _ (Nat.mod_lt _ (by omega)), fun size hneg => ?_,
    fun size h0 h31 i => argptr_eq_some h0 h31, fun len => ?_, ?_⟩
  · unfold Caller.argptr
    cases p.argint n with
    | none => rfl
    | some i => exact if_pos (.inl hneg)
  · rw [Caller.argstr, Option.bind_eq_some_iff]
    simp only [fetchstr_eq_some]
  · rw [Caller.argstr]
    cases p.argint n with
    | none => simp
    | some a => simp [fetchstr_isSome]

/-- The last eight bytes of a page, the eight from the one before on, and the empty string. -/
theorem argument_checks_exact_page :
    (onePage [4088]).argptr 0 8 = some 4088 ∧ (onePage [4089]).argptr 0 8 ≠ some 4089 ∧
      (onePage [4095]).argstr 0 = some 0 := by
  refine ⟨?_, fun h => ?_, ?_⟩
  · exact ((argument_checks_exact (onePage [4088]) 0).2.2.2.1 8 (by decide) (by decide) 4088).2
      ⟨by decide +kernel, by decide, by decide⟩
  · have := ((argument_checks_exact (onePage [4089]) 0).2.2.2.1 8 (by decide) (by decide) 4089).1 h
    exact absurd this.2.2 (by decide)
  · exact ((argument_checks_exact (onePage [4095]) 0).2.2.2.2.1 0).2
      ⟨4095, by decide +kernel, by decide, by decide +kernel, nofun⟩

end

end Request
end Xv6
