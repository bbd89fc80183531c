/-
# The container records through the calls

Which calls change `container_table` (`xv6/container_manager.c`, lines 13-31) with
its pages and names: the container calls, `container_malloc`, and `sys_open` when
it registers a name.  All others leave the records alone, and of the memory of the
processes they change what they are asked to (`exec_records`).
-/

import Xv6.Files.Records

namespace Xv6
namespace Files

open Lib

variable {s s' s'' t : State} {p f addr omode cid d : ℕ} {path path' : Name}

/-- The bytes of its own memory that a process changes or gives up by a call. -/
def Call.overwrites (s : State) (p : ℕ) : Call → ℕ → Prop
  | .open addr omode, a => ∃ path ∈ (s.proc p).fetchstr addr,
      (∃ r ∈ ((s.proc p).renaming s.fileTable addr path omode).toOption, r.append = true) ∧
        addr + path.length ≤ a ∧ a < addr + path.length + 3
  | .read _ buf n, a => buf ≤ a ∧ a < buf + n
  | .pipe addr, a => addr ≤ a ∧ a < addr + 8
  | .compute mem sz, a => mem a ≠ (s.proc p).mem a ∨ { s.proc p with sz := sz }.mapped ≤ a
  | .exit, _ => True
  | .destroyContainer cid, _ => (s.proc p).containerId = cid
  | _, _ => False

instance (s : State) (p : ℕ) (call : Call) (a : ℕ) : Decidable (call.overwrites s p a) := by
  unfold Call.overwrites
  split <;> infer_instance

/-- A process of which only some bytes of memory have changed. -/
structure Rewritten (touched : ℕ → Prop) (x y : Proc) : Prop where
  inUse : y.inUse = x.inUse
  pid : y.pid = x.pid
  containerId : y.containerId = x.containerId
  mem : ∀ a, ¬ touched a → y.mem a = x.mem a
  mapped : ∀ a, ¬ touched a → a < x.mapped → a < y.mapped

theorem Rewritten.refl (touched : ℕ → Prop) (x : Proc) : Rewritten touched x x :=
  ⟨rfl, rfl, rfl, fun _ _ => rfl, fun _ _ h => h⟩

/-- Bytes stored at an address. -/
theorem Rewritten.store {touched : ℕ → Prop} (x : Proc) {addr n : ℕ} {bytes : List Char}
    (hlen : bytes.length ≤ n) (htouched : ∀ a, addr ≤ a → a < addr + n → touched a) :
    Rewritten touched x (x.store addr bytes) := by
  refine ⟨rfl, rfl, rfl, fun a ha => x.store_mem fun hin => ?_, fun _ _ h => h⟩
  exact ha (htouched a hin.1 (by omega))

/-- The suffix behind the string. -/
theorem Rewritten.renamed {r : Renaming} (hpath : (s.proc p).fetchstr addr = some path)
    (hr : (s.proc p).renaming s.fileTable addr path omode = .ok r) :
    Rewritten ((Call.open addr omode).overwrites s p) (s.proc p) ((s.proc p).renamed r addr path) := by
  unfold Proc.renamed
  split
  next happend =>
    refine .store _ (Nat.le_refl 3) fun a h₁ h₂ => ⟨path, hpath, ⟨r, ?_, happend⟩, h₁, h₂⟩
    rw [hr]
    rfl
  · exact .refl ..

/-- The records are the same, and of the processes one has changed some of its memory. -/
def RecordsBut (touched : ℕ → Prop) (p : ℕ) (s s' : State) : Prop :=
  ∃ x, Rewritten touched (s.proc p) x ∧ SameRecords (s.setProc p x) s'

theorem RecordsBut.of_same {touched : ℕ → Prop} (h : SameRecords s s') :
    RecordsBut touched p s s' := by
  refine ⟨s.proc p, .refl .., ?_⟩
  rw [State.setProc, Function.update_eq_self]
  exact h

/-! ### The other calls -/

/-- Bytes are stored last, in the memory of the caller. -/
theorem RecordsBut.of_store {touched : ℕ → Prop} {buf n : ℕ} {bytes : List Char}
    (h : SameRecords s s') (hlen : bytes.length ≤ n)
    (htouched : ∀ a, buf ≤ a → a < buf + n → touched a) :
    RecordsBut touched p s (s'.setProc p ((s'.proc p).store buf bytes)) := by
  refine ⟨(s.proc p).store buf bytes, .store _ hlen htouched, h.setProc_both ?_ p⟩
  change (s'.proc p).image.store buf bytes = (s.proc p).image.store buf bytes
  rw [h.image p]

theorem sysWrite_records {fd : ℤ} {buf n : ℕ} {m : ℤ} (h : sysWrite s p fd buf n = .ok (m, s')) :
    SameRecords s s' := by
  obtain rfl | ⟨f, -, hwrite⟩ := sysWrite_eq_ok h
  · exact .refl s'
  · exact .filewrite hwrite

/-- A child is a new process of the host, with the memory of its parent. -/
theorem fork_records (h : fork s p = .ok s') :
    SameRecords s s' ∨ ∃ q child, (s.proc q).inUse = false ∧ child.inUse = true ∧
      child.pid = s.nextpid ∧ child.containerId = 0 ∧
      (child.mem = (s.proc p).mem ∧ child.sz = (s.proc p).sz) ∧
      SameRecords ({ s with nextpid := s.nextpid + 1 }.setProc q child) s' := by
  obtain rfl | ⟨q, x, -, hfree, hloop, rfl⟩ := fork_cases h
  · exact .inl (.refl s')
  · have hend : SameRecords s x := by
      refine foldlM_range_invariant (I := fun _ x => SameRecords s x) NOFILE (.refl s)
        (fun i _ x y hx hy => ?_) hloop
      unfold State.dupFd at hy
      split at hy
      · cases hy
        exact hx
      · exact hx.trans (SameRecords.stable.filedup hy).of_setFd
    refine .inr ⟨q, { x.proc p with
        pid := x.nextpid, containerId := 0, ofile := (x.proc q).ofile, inUse := true }, hfree, rfl,
      hend.nextpid, rfl, ⟨hend.mem p, hend.sz p⟩, hend.containers, hend.spaceMapping,
      hend.filesOfContainer, congrArg (· + 1) hend.nextpid, fun r => ?_⟩
    by_cases hr : r = q
    · rw [hr, setProc_self, setProc_self]
    · rw [setProc_of_ne _ hr, setProc_of_ne _ hr]
      exact hend.image r

/-- A process that exits is gone. -/
theorem exit_records (h : exit s p = .ok s') :
    SameRecords (s.setProc p { s.proc p with inUse := false, pid := 0 }) s' := by
  obtain ⟨x, hloop, rfl⟩ := exit_eq_ok h
  have hend := SameRecords.stable.closeFds hloop
  refine ⟨hend.containers, hend.spaceMapping, hend.filesOfContainer, hend.nextpid, fun r => ?_⟩
  by_cases hr : r = p
  · rw [hr, setProc_self, setProc_self]
    change { (x.proc p).image with inUse := false, pid := 0 } =
      { (s.proc p).image with inUse := false, pid := 0 }
    rw [hend.image p]
  · rw [setProc_of_ne _ hr, setProc_of_ne _ hr]
    exact hend.image r

/-- The calls that are about containers or register names in them, and those that make or end
a process. -/
def Call.Contained : Call → Prop
  | .open _ _ | .createContainer | .destroyContainer _ | .joinContainer _ | .leaveContainer
  | .containerMalloc _ | .fork | .exit => True
  | _ => False

/-- `open` registers a name and writes the suffix behind the string. -/
theorem exec_open (h : exec s p (.open addr omode) = .ok s') :
    s' = s ∨ ∃ r t, s.register r addr (s.proc p).containerId = .ok t ∧ t.proc = s.proc ∧
      RecordsBut ((Call.open addr omode).overwrites s p) p t s' := by
  obtain ⟨n, hopen⟩ := map_snd_eq_ok h
  obtain ⟨-, rfl⟩ | ⟨path, r, t, hpath, hr, -, hreg, hsame⟩ := (sysOpen_opening hopen).records
  · exact .inl rfl
  · have hproc := register_proc hreg
    refine .inr ⟨r, t, hreg, hproc, _, ?_, hsame⟩
    rw [hproc]
    exact .renamed hpath hr

/-- **The other calls leave the records alone.** -/
theorem exec_records {call : Call} (hcall : ¬ call.Contained) (h : exec s p call = .ok s') :
    RecordsBut (call.overwrites s p) p s s' := by
  cases call with
  | «open» addr omode | createContainer | destroyContainer cid | joinContainer cid
  | leaveContainer | containerMalloc units | fork | exit => exact absurd trivial hcall
  | read fd buf n =>
    obtain ⟨m, hread⟩ := map_snd_eq_ok h
    obtain rfl | ⟨f, bytes, s₁, hfile, rfl⟩ := sysRead_cases hread
    · exact .of_same (.refl s')
    · exact .of_store (SameRecords.stable.fileread hfile) (fileread_cases hfile).1
        fun a h₁ h₂ => ⟨h₁, h₂⟩
  | write fd buf n =>
    obtain ⟨m, hwrite⟩ := map_snd_eq_ok h
    exact .of_same (sysWrite_records hwrite)
  | close fd =>
    obtain ⟨m, hclose⟩ := map_snd_eq_ok h
    exact .of_same (SameRecords.stable.sysClose hclose)
  | dup fd =>
    obtain ⟨m, hdup⟩ := map_snd_eq_ok h
    exact .of_same (SameRecords.stable.sysDup hdup)
  | pipe addr =>
    obtain ⟨m, hpipe⟩ := map_snd_eq_ok h
    obtain hsame | ⟨s₁, fd₀, fd₁, hsame, rfl⟩ := SameRecords.stable.sysPipe hpipe
    · exact .of_same hsame
    · exact .of_store hsame (Nat.le_refl 8) fun a h₁ h₂ => ⟨h₁, h₂⟩
  | chdir addr =>
    obtain ⟨m, hchdir⟩ := map_snd_eq_ok h
    obtain ⟨c, -, rfl⟩ | ⟨k, c, -, -, -, rfl⟩ := sysChdir_cases hchdir
    · exact .of_same (.setCache s c)
    · exact .of_same ((SameRecords.setCache s c).trans
        ((SameRecords.setCache _ _).trans (.setProc _ rfl)))
  | mkdir addr | mknod addr major =>
    obtain ⟨m, hmake⟩ := map_snd_eq_ok h
    obtain ⟨c, -, rfl⟩ | ⟨path, k, fs, -, -, rfl⟩ := make_cases hmake
    · exact .of_same (.of_proc_eq rfl rfl rfl rfl rfl)
    · exact .of_same (.of_proc_eq rfl rfl rfl rfl rfl)
  | getFileContainerId addr =>
    obtain ⟨n, hget⟩ := map_snd_eq_ok h
    obtain ⟨m, rfl⟩ := sysGetFileContainerId_eq_ok hget
    exact .of_same (.of_proc_eq rfl rfl rfl rfl rfl)
  | compute mem sz =>
    cases h
    refine ⟨{ s.proc p with mem := mem, sz := sz }, ⟨rfl, rfl, rfl, fun a ha => ?_, fun a ha _ => ?_⟩,
      .refl _⟩
    · exact not_ne_iff.1 fun hne => ha (.inl hne)
    · exact Nat.lt_of_not_le fun hle => ha (.inr hle)

end Files
end Xv6
