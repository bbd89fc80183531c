/-
# Pipes and the container checks

`sys_read`, `sys_write` and `sys_close` compare `f->ip->container_id` with the
caller's container (`xv6/sysfile.c`, lines 89-145) before they look at what kind of
file it is.  `pipealloc` (`xv6/pipe.c`, lines 22-57) sets no inode, and neither
`filealloc` nor `fileclose` clears the field (`xv6/file.c`, lines 28-80): a pipe has
the inode of the last file that used the entry, or a null pointer, through which
the kernel reads the caller's memory.  The calls do what the pipe does where that word
lets the caller through, or the pipe refuses the call anyway, and nowhere else
(`pipe_calls_exact`, `pipe_calls_refused`).
-/

import Xv6.Lib.Run
import Xv6.Files.References

namespace Xv6
namespace Files

open Lib State

variable {s s' : State} {p f : ℕ} {fd : ℤ}

/-! ### What the pipe does -/

/-- `piperead` by a process, into its memory: the buffer is checked, and only the reading end
can be read. -/
def readPipe (s : State) (p f buf n : ℕ) : Except Halt (ℤ × State) :=
  if (s.proc p).argptr buf n = false then .ok (-1, s)
  else if (s.file f).readable = false then .ok (-1, s)
  else do
    let (r, bytes, s) ← s.piperead (s.file f).pipe n
    .ok (r, s.setProc p ((s.proc p).store buf bytes))

/-- `pipewrite` by a process, from its memory: the buffer is checked, and only the writing end
can be written. -/
def writePipe (s : State) (p f buf n : ℕ) : Except Halt (ℤ × State) :=
  if (s.proc p).argptr buf n = false then .ok (-1, s)
  else if (s.file f).writable = false then .ok (-1, s)
  else s.pipewrite (s.file f).pipe ((s.proc p).load buf n)

/-- `fileclose` of the entry, after the descriptor has been taken out. -/
def closePipe (s : State) (p f : ℕ) (fd : ℤ) : Except Halt (ℤ × State) := do
  let s ← (s.setFd p fd.toNat none).fileclose f
  .ok (0, s)

/-! ### The checks -/

/-- The word read through `f->ip` is the host's id or the caller's. -/
def WordPasses (s : State) (p f : ℕ) : Prop :=
  s.tagOf p f = .ok 0 ∨ s.tagOf p f = .ok (s.proc p).containerId

/-- The word read through `f->ip` is the caller's id. -/
def WordOwn (s : State) (p f : ℕ) : Prop := s.tagOf p f = .ok (s.proc p).containerId

instance (s : State) (p f : ℕ) : Decidable (WordPasses s p f) := inferInstanceAs (Decidable (_ ∨ _))

instance (s : State) (p f : ℕ) : Decidable (WordOwn s p f) := inferInstanceAs (Decidable (_ = _))

theorem setProc_store_nil (s : State) (p buf : ℕ) :
    s.setProc p ((s.proc p).store buf []) = s := by
  rw [Proc.store_nil, State.setProc, Function.update_eq_self]

/-- A read that is let through is one of the pipe. -/
theorem sysRead_pipe {buf n : ℕ} (hfd : s.argfd p fd = some f) (htype : (s.file f).type = .pipe)
    (htag : WordPasses s p f) : sysRead s p fd buf n = readPipe s p f buf n := by
  obtain ⟨tag, hof, hpass⟩ : ∃ tag, s.tagOf p f = .ok tag ∧
      (tag = (s.proc p).containerId ∨ tag = 0) :=
    htag.elim (fun h => ⟨0, h, .inr rfl⟩) fun h => ⟨_, h, .inl rfl⟩
  unfold sysRead readPipe State.fileread
  rw [hfd]
  dsimp only
  rw [hof, ok_bind, if_pos hpass, htype]
  split
  · rfl
  · split
    · rw [ok_bind, setProc_store_nil]
    · rfl

/-- A write that is let through is one of the pipe. -/
theorem sysWrite_pipe {buf n : ℕ} (hfd : s.argfd p fd = some f) (htype : (s.file f).type = .pipe)
    (htag : WordPasses s p f) : sysWrite s p fd buf n = writePipe s p f buf n := by
  obtain ⟨tag, hof, hpass⟩ : ∃ tag, s.tagOf p f = .ok tag ∧
      (tag = 0 ∨ tag = (s.proc p).containerId) :=
    htag.elim (fun h => ⟨0, h, .inl rfl⟩) fun h => ⟨_, h, .inr rfl⟩
  unfold sysWrite writePipe State.filewrite
  rw [hfd]
  dsimp only
  rw [hof, ok_bind, if_pos hpass, htype]

/-- The word does not depend on the descriptors. -/
theorem tagOf_setFd (s : State) (p f i : ℕ) (o : Option ℕ) :
    (s.setFd p i o).tagOf p f = s.tagOf p f := by
  unfold State.tagOf State.setFd
  rw [setProc_self]
  rfl

/-- A close that is let through is one of the entry. -/
theorem sysClose_pipe (hfd : s.argfd p fd = some f) (htag : WordOwn s p f) :
    sysClose s p fd = closePipe s p f fd := by
  have hcid : ((s.setFd p fd.toNat none).proc p).containerId = (s.proc p).containerId := by
    rw [State.setFd, setProc_self]
  unfold sysClose
  rw [hfd]
  dsimp only
  rw [tagOf_setFd, htag, ok_bind, if_pos hcid.symm]
  rfl

/-- The pipe refuses the read: the buffer is no memory of the caller, or the caller can read the
word behind `f->ip` but the end is the writing one. -/
def ReadRefused (s : State) (p f buf n : ℕ) : Prop :=
  (s.proc p).argptr buf n = false ∨ (∃ tag, s.tagOf p f = .ok tag) ∧ (s.file f).readable = false

/-- The pipe refuses the write: the buffer is no memory of the caller, or the caller can read the
word behind `f->ip` but the end is the reading one, or the pipe is full and nobody reads it. -/
def WriteRefused (s : State) (p f buf n : ℕ) : Prop :=
  (s.proc p).argptr buf n = false ∨ (∃ tag, s.tagOf p f = .ok tag) ∧
    ((s.file f).writable = false ∨ 0 < n ∧ PIPESIZE ≤ (s.pipe (s.file f).pipe).data.length ∧
      (s.pipe (s.file f).pipe).readopen = false)

/-- What a call is that is not let through. -/
theorem tagOf_cases (s : State) (p f : ℕ) :
    (∃ tag, s.tagOf p f = .ok tag) ∨ s.tagOf p f = .error (.panic "trap") := by
  unfold State.tagOf
  split
  · exact .inl ⟨_, rfl⟩
  · split
    · exact .inr rfl
    · exact .inl ⟨_, rfl⟩

theorem sysRead_refused {buf n : ℕ} (hfd : s.argfd p fd = some f)
    (harg : (s.proc p).argptr buf n ≠ false) (htag : ¬ WordPasses s p f) :
    sysRead s p fd buf n = (s.tagOf p f).map fun _ => (-1, s) := by
  unfold sysRead
  rw [hfd]
  dsimp only
  rw [if_neg harg]
  rcases tagOf_cases s p f with ⟨tag, hof⟩ | hof
  · rw [hof, ok_bind, if_neg]
    · rfl
    · rintro (rfl | rfl)
      · exact htag (.inr hof)
      · exact htag (.inl hof)
  · rw [hof]
    rfl

theorem sysWrite_refused {buf n : ℕ} (hfd : s.argfd p fd = some f)
    (harg : (s.proc p).argptr buf n ≠ false) (htag : ¬ WordPasses s p f) :
    sysWrite s p fd buf n = (s.tagOf p f).map fun _ => (-1, s) := by
  unfold sysWrite
  rw [hfd]
  dsimp only
  rw [if_neg harg]
  rcases tagOf_cases s p f with ⟨tag, hof⟩ | hof
  · rw [hof, ok_bind, if_neg]
    · rfl
    · rintro (rfl | rfl)
      · exact htag (.inl hof)
      · exact htag (.inr hof)
  · rw [hof]
    rfl

/-- **A read of a pipe is exact** where it is let through, or the pipe refuses it anyway. -/
theorem sysRead_pipe_iff {buf n : ℕ} (hfd : s.argfd p fd = some f)
    (htype : (s.file f).type = .pipe) :
    sysRead s p fd buf n = readPipe s p f buf n ↔ WordPasses s p f ∨ ReadRefused s p f buf n := by
  by_cases htag : WordPasses s p f
  · simp only [sysRead_pipe hfd htype htag, htag, true_or]
  by_cases harg : (s.proc p).argptr buf n = false
  · have : sysRead s p fd buf n = readPipe s p f buf n := by
      unfold sysRead readPipe
      rw [hfd]
      exact (if_pos harg).trans (if_pos harg).symm
    simp only [this, ReadRefused, harg, true_or, or_true]
  rw [sysRead_refused hfd harg htag]
  unfold readPipe ReadRefused
  rw [if_neg harg]
  simp only [htag, harg, false_or]
  cases hreadable : (s.file f).readable with
  | false =>
    rcases tagOf_cases s p f with ⟨tag, hof⟩ | hof
    · simp [hof, Except.map]
    · simp [hof, Except.map]
  | true =>
    rw [if_neg nofun]
    simp only [Bool.true_eq_false, and_false, or_false, iff_false]
    -- the pipe reads no negative number of bytes, and sleeps instead of trapping
    unfold State.piperead
    dsimp only
    rcases tagOf_cases s p f with ⟨tag, hof⟩ | hof
    · rw [hof]
      split
      · exact nofun
      · intro heq
        have := congrArg Prod.fst (Except.ok.inj heq)
        simp only at this
        omega
    · rw [hof]
      split
      · intro heq
        cases Except.error.inj heq
      · exact nofun

/-- **A write to a pipe is exact** where it is let through, or the pipe refuses it anyway. -/
theorem sysWrite_pipe_iff {buf n : ℕ} (hfd : s.argfd p fd = some f)
    (htype : (s.file f).type = .pipe) :
    sysWrite s p fd buf n = writePipe s p f buf n ↔
      WordPasses s p f ∨ WriteRefused s p f buf n := by
  by_cases htag : WordPasses s p f
  · simp only [sysWrite_pipe hfd htype htag, htag, true_or]
  by_cases harg : (s.proc p).argptr buf n = false
  · have : sysWrite s p fd buf n = writePipe s p f buf n := by
      unfold sysWrite writePipe
      rw [hfd]
      exact (if_pos harg).trans (if_pos harg).symm
    simp only [this, WriteRefused, harg, true_or, or_true]
  rw [sysWrite_refused hfd harg htag]
  unfold writePipe WriteRefused
  rw [if_neg harg]
  simp only [htag, harg, false_or]
  cases hwritable : (s.file f).writable with
  | false =>
    rcases tagOf_cases s p f with ⟨tag, hof⟩ | hof
    · simp [hof, Except.map]
    · simp [hof, Except.map]
  | true =>
    rw [if_neg nofun]
    simp only [Bool.true_eq_false, false_or]
    have hlen : ((s.proc p).load buf n).length = n := by simp [Proc.load]
    generalize (s.proc p).load buf n = src at hlen ⊢
    unfold State.pipewrite
    dsimp only
    rcases tagOf_cases s p f with ⟨tag, hof⟩ | hof
    · rw [hof]
      simp only [Except.ok.injEq, exists_eq', true_and]
      split
      next hfit =>
        constructor
        · intro heq
          have := congrArg Prod.fst (Except.ok.inj heq)
          simp only at this
          omega
        · rintro ⟨hpos, hfull, -⟩
          omega
      next hfit =>
        split
        next hopen => simp [hopen, Except.map]
        next hopen =>
          rw [Bool.not_eq_true] at hopen
          constructor
          · intro heq
            have hstate := congrArg Prod.snd (Except.ok.inj heq)
            have hdata := congrArg (fun t : State => (t.pipe (s.file f).pipe).data) hstate
            simp only [State.setPipe, Function.update_self] at hdata
            have hlen' := congrArg List.length hdata
            rw [List.length_append, List.length_take] at hlen'
            exact ⟨by omega, by omega, hopen⟩
          · rintro ⟨hpos, hfull, -⟩
            rw [Nat.sub_eq_zero_of_le hfull, List.take_zero, List.append_nil]
            simp [Except.map, State.setPipe]
    · rw [hof]
      simp only [reduceCtorEq, exists_false, false_and, iff_false]
      split
      · exact nofun
      · split
        · intro heq
          cases Except.error.inj heq
        · exact nofun

/-- **A close of a pipe is exact** just where the word is the caller's id. -/
theorem sysClose_pipe_iff (hfd : s.argfd p fd = some f) :
    sysClose s p fd = closePipe s p f fd ↔ WordOwn s p f := by
  refine ⟨fun heq => ?_, sysClose_pipe hfd⟩
  by_contra htag
  have hcid : ((s.setFd p fd.toNat none).proc p).containerId = (s.proc p).containerId := by
    rw [State.setFd, setProc_self]
  unfold sysClose closePipe at heq
  rw [hfd] at heq
  dsimp only at heq
  rw [tagOf_setFd] at heq
  rcases tagOf_cases s p f with ⟨tag, hof⟩ | hof
  · rw [hof, ok_bind, if_neg (fun h => htag (by rw [WordOwn, hof, h, hcid]))] at heq
    obtain ⟨t, -, ht⟩ := bind_eq_ok.1 heq.symm
    cases congrArg Prod.fst (Except.ok.inj ht)
  · rw [hof] at heq
    unfold State.fileclose at heq
    dsimp only at heq
    split at heq
    · exact absurd (Halt.panic.inj (Except.error.inj heq)) (by decide)
    · split at heq
      · cases heq
      · split at heq <;> cases heq

/-- **When the container checks do not affect pipes.**  Whatever happened to the entry before,
`sys_read` and `sys_write` do what `piperead` and `pipewrite` do just if the word read through the
inode pointer that the entry had last lets the caller through, or the pipe refuses the call as
well; and `sys_close` does what `fileclose` does just if that word is the caller's id. -/
theorem pipe_calls_exact (s : State) (p : ℕ) (fd : ℤ) (f : ℕ) (hfd : s.argfd p fd = some f)
    (htype : (s.file f).type = .pipe) :
    (∀ buf n, (sysRead s p fd buf n = readPipe s p f buf n ↔
        WordPasses s p f ∨ ReadRefused s p f buf n) ∧
      (sysWrite s p fd buf n = writePipe s p f buf n ↔
        WordPasses s p f ∨ WriteRefused s p f buf n)) ∧
      (sysClose s p fd = closePipe s p f fd ↔ WordOwn s p f) :=
  ⟨fun _ _ => ⟨sysRead_pipe_iff hfd htype, sysWrite_pipe_iff hfd htype⟩, sysClose_pipe_iff hfd⟩

/-- A process of the host makes a pipe: it writes to one end, and the other end reads the byte
and is closed. -/
theorem pipe_calls_exact_host :
    ∃ s, Reach step anyStep smallBoot s ∧ s.argfd 0 0 = some 0 ∧ (s.file 0).type = .pipe ∧
      sysRead s 0 0 100 1 = readPipe s 0 0 100 1 ∧ sysClose s 0 0 = closePipe s 0 0 0 ∧
      (readPipe s 0 0 100 1).map Prod.fst = .ok 1 := by
  obtain ⟨s, hs, hfd, htype, hpass, hown, hread⟩ : ∃ s, Reach step anyStep smallBoot s ∧
      s.argfd 0 0 = some 0 ∧ (s.file 0).type = .pipe ∧ WordPasses s 0 0 ∧ WordOwn s 0 0 ∧
      (readPipe s 0 0 100 1).map Prod.fst = .ok 1 :=
    exists_reach_of_any [⟨0, .name []⟩, ⟨0, .pipe 8⟩, ⟨0, .write 1 100 1⟩] (by decide +kernel)
  obtain ⟨hcalls, hclose⟩ := pipe_calls_exact s 0 0 0 hfd htype
  exact ⟨s, hs, hfd, htype, (hcalls 100 1).1.2 (.inl hpass), hclose.2 hown, hread⟩

/-- **A pipe refused.**  The entry of a pipe had a file of container 1 before: a process of the
host cannot read the byte that is in the pipe.  And a process of container 1 cannot close a pipe
it has made: the null pointer leads to a word `0` of its memory. -/
theorem pipe_calls_refused :
    (∃ s, Reach step anyStep smallBoot s ∧ s.argfd 0 0 = some 0 ∧ (s.file 0).type = .pipe ∧
      (sysRead s 0 0 100 1).map Prod.fst = .ok (-1) ∧
      (readPipe s 0 0 100 1).map Prod.fst = .ok 1) ∧
    ∃ s, Reach step anyStep smallBoot s ∧ s.argfd 0 0 = some 0 ∧ (s.file 0).type = .pipe ∧
      (s.proc 0).containerId = 1 ∧ (sysClose s 0 0).map Prod.fst = .ok (-1) ∧
      (closePipe s 0 0 0).map Prod.fst = .ok 0 :=
  ⟨exists_reach_of_any
      [⟨0, .createContainer⟩, ⟨0, .joinContainer 1⟩, ⟨0, .name "foo".toList⟩,
        ⟨0, .open 2 (O_CREATE ||| O_RDWR)⟩, ⟨0, .close 0⟩, ⟨0, .leaveContainer⟩, ⟨0, .pipe 8⟩,
        ⟨0, .write 1 100 1⟩] (by decide +kernel),
    exists_reach_of_any
      [⟨0, .createContainer⟩, ⟨0, .joinContainer 1⟩, ⟨0, .name []⟩, ⟨0, .pipe 8⟩]
      (by decide +kernel)⟩

end Files
end Xv6
