/-
# Every reference is counted

The loops of `fork` and `exit` (`xv6/proc.c`, lines 259-347), the container
calls, and the result over whole runs: `ref` of every entry of the file table is
the number of descriptors that point to it, in every run in which `sys_close` is
called only on files that are marked with the caller's container.

`sys_close` clears the descriptor, and then releases the file only if the
inode's `container_id` is the caller's.  A process of a container that reads a
file of the host can never give it back.

The file that such a close keeps, and the inode that `sys_open` keeps when it
refuses a file, are in no table.  `Tracked` notes them down beside the state, so
that in every run each reference is accounted for (`Sound.step`).
-/

import Xv6.Lib.Run
import Xv6.Files.RefCalls

namespace Xv6
namespace Files

open Lib Function

variable {s s' : State} {p q fd f k : ℕ} {spare : Spare}

/-- A slot of the process table that is not in use has no open files. -/
def Idle (s : State) : Prop := ∀ q, (s.proc q).inUse = false → ∀ fd, (s.proc q).ofile fd = none

theorem Idle.alone (h : Idle s) (huse : (s.proc p).inUse = true) (hs : Alone p s s') :
    Idle s' := by
  intro q hq fd
  by_cases hqp : q = p
  · subst hqp
    rw [hs.inUse, huse] at hq
    cases hq
  · rw [hs.other q hqp] at hq ⊢
    exact h q hq fd

/-! ### `fork` and `exit` -/

/-- The child in slot `q` after some turns of the loop of `fork`. -/
structure Forking (spare : Spare) (s : State) (q n : ℕ) (x : State) : Prop where
  counted : Counted spare x
  other : ∀ r ≠ q, x.proc r = s.proc r
  child : ∃ ofile, x.proc q = { s.proc q with ofile := ofile }
  rest : ∀ fd, n ≤ fd → (x.proc q).ofile fd = none

theorem Forking.dupFd {n : ℕ} {x y : State} (h : Forking spare s q n x) (hq : q < NPROC)
    (hn : n < NOFILE) (hs : State.dupFd p q x n = .ok y) :
    Forking spare s q (n + 1) y := by
  unfold State.dupFd at hs
  split at hs
  · cases hs
    exact { h with rest := fun fd hfd => h.rest fd (Nat.le_of_succ_le hfd) }
  next f hf =>
    obtain ⟨-, -, hlt⟩ := h.counted.slot p n f hf
    have hproc := filedup_proc hs
    refine ⟨h.counted.dup hq hn hlt (h.rest n (Nat.le_refl n)) hs, fun r hr => ?_, ?_,
      fun fd hfd => ?_⟩
    · rw [hproc, setFd_of_ne x hr]
      exact h.other r hr
    · obtain ⟨ofile, hchild⟩ := h.child
      rw [hproc, setFd_self, hchild]
      exact ⟨_, rfl⟩
    · rw [hproc, setFd_ofile, if_neg fun h => by omega]
      exact h.rest fd (Nat.le_of_succ_le hfd)

theorem fork_sound (h : Counted spare s) (hidle : Idle s) (hs : fork s p = .ok s') :
    Counted spare s' ∧ Idle s' := by
  obtain rfl | ⟨q, x, hq, hfree, hloop, rfl⟩ := fork_cases hs
  · exact ⟨h, hidle⟩
  · have hend : Forking spare s q NOFILE x :=
      foldlM_range_invariant (I := Forking spare s q) NOFILE
        ⟨h, fun _ _ => rfl, ⟨_, rfl⟩, fun fd _ => hidle q hfree fd⟩
        (fun i hi x y hx hy => hx.dupFd hq hi hy) hloop
    obtain ⟨ofile, hchild⟩ := hend.child
    constructor
    · have hheld := hend.counted.held (ICache.idup_held x.fs.icache (x.proc p).cwd)
      have hin := hheld.setProc hq
        { x.proc p with
          pid := x.nextpid, containerId := 0, ofile := (x.proc q).ofile, inUse := true }
        spare.inodes rfl fun j => by
          have hold : one ((x.proc q).In j) = 0 := Proc.one_in_eq_zero (by rw [hchild]; exact hfree)
          have hnew : _ = ((x.proc p).cwd :: spare.inodes).count j :=
            Proc.one_in_add_count (x := { x.proc p with
              pid := x.nextpid, containerId := 0, ofile := (x.proc q).ofile, inUse := true })
              rfl spare.inodes
          rw [hnew]
          change _ = _ + one ((x.proc q).In j)
          rw [hold]
          rfl
      exact hin.congr { Same.refl _ with }
    · intro r hr fd
      by_cases hrq : r = q
      · subst hrq
        rw [setProc_self] at hr
        cases hr
      · rw [setProc_of_ne _ hrq] at hr ⊢
        change (x.proc r).inUse = false at hr
        change (x.proc r).ofile fd = none
        rw [hend.other r hrq] at hr ⊢
        exact hidle r hr fd

/-- The caller after some turns of the loop of `exit`. -/
structure Exiting (spare : Spare) (s : State) (p n : ℕ) (x : State) : Prop where
  counted : Counted spare x
  alone : Alone p s x
  done : ∀ fd < n, (x.proc p).ofile fd = none

theorem Exiting.closeFd {n : ℕ} {x y : State} (h : Exiting spare s p n x)
    (hs : State.closeFd p x n = .ok y) : Exiting spare s p (n + 1) y := by
  unfold State.closeFd at hs
  split at hs
  next hnone =>
    cases hs
    refine { h with done := fun fd hfd => ?_ }
    obtain hlt | rfl := Nat.lt_succ_iff_lt_or_eq.1 hfd
    · exact h.done fd hlt
    · exact hnone
  next f hf =>
    obtain ⟨-, -, hlt⟩ := h.counted.slot p n f hf
    have hproc := fileclose_proc hs
    refine ⟨(h.counted.unpoint hf).fileclose hlt hs,
      (h.alone.trans (.setFd x p n none)).trans (.of_proc_eq hproc), fun fd hfd => ?_⟩
    rw [hproc, setFd_ofile]
    split
    · rfl
    · next hne => exact h.done fd (by omega)

theorem exit_sound (h : Counted spare s) (hidle : Idle s) (hp : p < NPROC)
    (huse : (s.proc p).inUse = true) (hs : exit s p = .ok s') : Counted spare s' ∧ Idle s' := by
  obtain ⟨x, hloop, rfl⟩ := exit_eq_ok hs
  have hend : Exiting spare s p NOFILE x :=
    foldlM_range_invariant (I := Exiting spare s p) NOFILE
      ⟨h, .of_proc_eq rfl, fun fd hfd => absurd hfd (Nat.not_lt_zero fd)⟩
      (fun i _ x y hx hy => hx.closeFd hy) hloop
  have hx : (x.proc p).inUse = true := hend.alone.inUse.trans huse
  constructor
  · have hout := hend.counted.setProc hp { x.proc p with inUse := false, pid := 0 }
      ((x.proc p).cwd :: spare.inodes) rfl fun j => by
        rw [Proc.one_in_eq_zero rfl]
        exact (Proc.one_in_add_count hx spare.inodes).symm
    exact (show Counted (spare.addInode (x.proc p).cwd) _ from hout).iput
  · intro q hq fd
    by_cases hqp : q = p
    · subst hqp
      rw [setProc_self]
      change (x.proc q).ofile fd = none
      by_cases hfd : fd < NOFILE
      · exact hend.done fd hfd
      · cases hf : (x.proc q).ofile fd with
        | none => rfl
        | some f => exact absurd (hend.counted.slot q fd f hf).2.1 hfd
    · rw [setProc_of_ne _ hqp] at hq ⊢
      change (x.proc q).inUse = false at hq
      change (x.proc q).ofile fd = none
      rw [hend.alone.other q hqp] at hq ⊢
      exact hidle q hq fd

/-! ### Runs -/

/-- The references held by nothing after a call: those of `spare`, the inode of an open that
was refused, and the file of a close that was. -/
def lostBy (s : State) (e : Event) (spare : Spare) : Spare :=
  match e.call with
  | .open addr omode => spare.keep (refused s e.p addr omode)
  | .close fd => unclosed s e.p fd spare
  | _ => spare

/-- The counts between two calls. -/
structure Sound (spare : Spare) (s : State) : Prop where
  counted : Counted spare s
  idle : Idle s

/-- The current directory of a process is referenced. -/
theorem Sound.cwd_live (h : Sound spare s) (hp : p < NPROC) (huse : (s.proc p).inUse = true) :
    0 < (s.fs.icache.inode (s.proc p).cwd).ref := by
  have hcount := h.counted.cache (s.proc p).cwd
  have hpos := users_pos_of_proc hp (show (s.proc p).In (s.proc p).cwd from ⟨huse, rfl⟩)
  omega

/-- A call other than `fork` and `exit`. -/
theorem Sound.of_alone {lost : Spare} (h : Sound spare s) (huse : (s.proc p).inUse = true)
    (hs : Counted lost s' ∧ Alone p s s') : Sound lost s' :=
  ⟨hs.1, h.idle.alone huse hs.2⟩

/-- The container calls leave files and directories alone. -/
theorem Counted.container (h : Counted spare s) (x : Proc) (t : Kernel.ContainerTable)
    (hofile : x.ofile = (s.proc p).ofile) (hinUse : x.inUse = (s.proc p).inUse)
    (hcwd : x.cwd = (s.proc p).cwd) :
    Counted spare ({ s with containers := t }.setProc p x) ∧
      Alone p s ({ s with containers := t }.setProc p x) :=
  ⟨(h.congr (.setProc s hofile hinUse hcwd)).congr { Same.refl _ with },
    ⟨(Alone.setProc s hinUse).other, (Alone.setProc s hinUse).inUse⟩⟩

theorem Counted.getSpaceInContainer {cid page : ℕ} (h : Counted spare s)
    (hs : s.getSpaceInContainer cid = .ok (page, s')) : Counted spare s' ∧ s'.proc = s.proc := by
  have hfree : s.freelist.tail.Sublist s.freelist := List.tail_sublist _
  obtain ⟨-, ⟨-, rfl⟩ | ⟨-, rfl⟩⟩ := getSpaceInContainer_cases hs
  · exact ⟨h.congr { Same.refl s with freelist := hfree }, rfl⟩
  · exact ⟨h.congr { Same.refl s with freelist := hfree }, rfl⟩

theorem Counted.getFileContainerId {addr : ℕ} {n : ℤ} (h : Counted spare s)
    (hs : sysGetFileContainerId s p addr = .ok (n, s')) : Counted spare s' ∧ Alone p s s' := by
  obtain ⟨m, rfl⟩ := sysGetFileContainerId_eq_ok hs
  exact ⟨h.congr { Same.refl s with freelist := List.drop_sublist m _ }, .of_proc_eq rfl⟩

/-- **One call keeps the counts**, with what it loses among the spare references. -/
theorem Sound.step {e : Event} (h : Sound spare s) (hs : step s e = some s') :
    Sound (lostBy s e spare) s' := by
  obtain ⟨hp, huse, hexec⟩ := step_eq_some hs
  obtain ⟨p, call⟩ := e
  dsimp only at hp huse hexec
  have hcount := h.counted
  cases call with
  | «open» addr omode =>
    obtain ⟨n, hopen⟩ := map_snd_eq_ok hexec
    exact h.of_alone huse (hcount.opening hp (sysOpen_opening hopen))
  | read fd buf n =>
    obtain ⟨m, hread⟩ := map_snd_eq_ok hexec
    exact h.of_alone huse (hcount.sysRead hread)
  | write fd buf n =>
    obtain ⟨m, hwrite⟩ := map_snd_eq_ok hexec
    exact h.of_alone huse (hcount.sysWrite hwrite)
  | close fd =>
    obtain ⟨m, hclose⟩ := map_snd_eq_ok hexec
    exact h.of_alone huse (hcount.sysClose hclose)
  | dup fd =>
    obtain ⟨m, hdup⟩ := map_snd_eq_ok hexec
    exact h.of_alone huse (hcount.sysDup hp hdup)
  | pipe addr =>
    obtain ⟨m, hpipe⟩ := map_snd_eq_ok hexec
    exact h.of_alone huse (hcount.sysPipe hp hpipe)
  | chdir addr =>
    obtain ⟨m, hchdir⟩ := map_snd_eq_ok hexec
    exact h.of_alone huse (hcount.sysChdir hp huse hchdir)
  | mkdir addr | mknod addr major =>
    obtain ⟨m, hmake⟩ := map_snd_eq_ok hexec
    exact h.of_alone huse (hcount.make hmake)
  | fork =>
    obtain ⟨h₁, h₂⟩ := fork_sound hcount h.idle hexec
    exact ⟨h₁, h₂⟩
  | exit =>
    obtain ⟨h₁, h₂⟩ := exit_sound hcount h.idle hp huse hexec
    exact ⟨h₁, h₂⟩
  | createContainer =>
    cases hexec
    exact ⟨hcount.congr { Same.refl _ with }, h.idle⟩
  | destroyContainer cid =>
    have hcount' : Counted _ { s with
        containers := s.containers.modify cid Kernel.ContainerTable.destroyed } :=
      hcount.congr { Same.refl _ with }
    obtain ⟨-, -, ⟨-, hexit⟩ | ⟨-, rfl⟩⟩ := sysDestroyContainer_eq_ok hexec
    · obtain ⟨h₁, h₂⟩ := exit_sound hcount' h.idle hp huse hexit
      exact ⟨h₁, h₂⟩
    · exact ⟨hcount', h.idle⟩
  | joinContainer cid =>
    obtain ⟨t, -, -, rfl⟩ := exec_joinContainer hexec
    exact h.of_alone huse (hcount.container _ t rfl rfl rfl)
  | leaveContainer =>
    obtain rfl | ⟨t, -, rfl⟩ := exec_leaveContainer hexec
    · exact h
    · exact h.of_alone huse (hcount.container _ t rfl rfl rfl)
  | containerMalloc units =>
    obtain rfl | ⟨-, page, hspace⟩ := exec_containerMalloc hexec
    · exact h
    · obtain ⟨h₁, hproc⟩ := hcount.getSpaceInContainer hspace
      exact h.of_alone huse ⟨h₁, .of_proc_eq hproc⟩
  | getFileContainerId addr =>
    obtain ⟨n, hget⟩ := map_snd_eq_ok hexec
    exact h.of_alone huse (hcount.getFileContainerId hget)
  | compute mem sz =>
    cases hexec
    exact h.of_alone huse
      ⟨hcount.congr (.setProc _ rfl rfl rfl), .setProc _ rfl⟩

/-- At the start the first process is in the root directory, and nothing is open. -/
theorem Sound.of_boot (disk : Disk) (ninodes : ℕ) {freelist : List ℕ} (hfree : freelist.Nodup)
    (console : List Char) : Sound {} (boot disk ninodes freelist console) := by
  have hofile : ∀ q fd, ((boot disk ninodes freelist console).proc q).ofile fd = none := by
    intro q fd
    change (update (fun _ => ({} : Proc)) 0 _ q).ofile fd = none
    by_cases hq : q = 0
    · rw [hq, update_self]
    · rw [update_of_ne hq]
  refine ⟨⟨fun q fd f hf => ?_, fun f _ => ?_, fun _ _ _ => rfl, fun k => ?_, fun page w => ?_,
    fun _ _ w => ?_, hfree⟩, fun q _ => hofile q⟩
  · change ((boot disk ninodes freelist console).proc q).ofile fd = some f at hf
    rw [hofile] at hf
    cases hf
  · change 0 = slots (boot disk ninodes freelist console) f + 0
    rw [slots_eq_zero.2 fun q _ fd _ => by rw [hofile]; nofun]
  · have hempty : users { boot disk ninodes freelist console with proc := fun _ => {} } k = 0 := by
      unfold users
      rw [count_eq_zero.2 fun f _ h => absurd h.1 nofun,
        count_eq_zero.2 fun q _ h => absurd h.1 nofun]
    have hone := users_setProc (s := { boot disk ninodes freelist console with proc := fun _ => {} })
      (p := 0) (k := k) (by decide) { inUse := true, pid := 1 }
    rw [hempty, Proc.one_in_eq_zero rfl] at hone
    change ((update (fun _ => ({} : Inode)) 0 { inum := ROOTINO, ref := 1 }) k).ref =
      users (boot disk ninodes freelist console) k + 0
    change users (boot disk ninodes freelist console) k + 0 = 0 + _ at hone
    rw [hone]
    by_cases hk : k = 0
    · subst hk
      rw [update_self, one_of ⟨rfl, rfl⟩]
    · rw [update_of_ne hk, one_of_not fun h : Proc.In _ k => hk h.2.symm]
  · change one (Pipe.isOpen {} w = true) = ends (boot disk ninodes freelist console) page w + 0
    unfold ends
    rw [count_eq_zero.2 fun f _ h => absurd h.1 nofun]
    cases w with
    | false => rfl
    | true => rfl
  · cases w with
    | false => rfl
    | true => rfl

/-- A state with the references that nothing in it holds. -/
structure Tracked where
  state : State
  lost : Spare

/-- The start, with nothing lost. -/
def Tracked.boot (disk : Disk) (ninodes : ℕ) (freelist : List ℕ) (console : List Char) : Tracked :=
  ⟨Files.boot disk ninodes freelist console, {}⟩

/-- A step, with what it loses. -/
def Tracked.step (t : Tracked) (e : Event) : Option Tracked :=
  (Files.step t.state e).map fun s => ⟨s, lostBy t.state e t.lost⟩

/-- `sys_close` finds the caller's container in the inode. -/
def ClosesOwn (t : Tracked) (e : Event) : Prop :=
  match e.call with
  | .close fd =>
      ∀ f ∈ t.state.argfd e.p fd, t.state.tagOf e.p f = .ok (t.state.proc e.p).containerId
  | _ => True

instance (t : Tracked) (e : Event) : Decidable (ClosesOwn t e) := by
  unfold ClosesOwn
  split <;> infer_instance

/-- Such calls lose no file. -/
theorem ClosesOwn.lostBy {t : Tracked} {e : Event} (h : ClosesOwn t e) (spare : Spare) :
    (lostBy t.state e spare).files = spare.files ∧ (lostBy t.state e spare).ends = spare.ends := by
  obtain ⟨p, call⟩ := e
  cases call with
  | «open» addr omode =>
    unfold Files.lostBy
    dsimp only
    cases refused t.state p addr omode with
    | none => exact ⟨rfl, rfl⟩
    | some k => exact ⟨rfl, rfl⟩
  | close fd =>
    unfold Files.lostBy unclosed
    dsimp only
    split
    · exact ⟨rfl, rfl⟩
    next f hf =>
      rw [if_pos (h f hf)]
      exact ⟨rfl, rfl⟩
  | _ => exact ⟨rfl, rfl⟩

/-- What reference counting is for: `ref` is the number of descriptors, an entry without one
is free, and the inodes and pipes hold no reference but those of open files, of current
directories and of refused opens. -/
structure RefsRight (t : Tracked) : Prop where
  ref : ∀ f < NFILE, (t.state.file f).ref = slots t.state f
  free : ∀ f < NFILE, slots t.state f = 0 →
    (t.state.file f).ref = 0 ∧ (t.state.file f).type = .none
  inode : ∀ k, (t.state.fs.icache.inode k).ref = users t.state k + t.lost.inodes.count k
  pipe : ∀ page w, (t.state.pipe page).isOpen w = true ↔
    ∃ f < NFILE, (t.state.file f).End page w

theorem RefsRight.of_counted {t : Tracked} (h : Counted t.lost t.state)
    (hfiles : t.lost.files = []) (hends : t.lost.ends = []) : RefsRight t := by
  have href : ∀ f < NFILE, (t.state.file f).ref = slots t.state f := fun f hf => by
    rw [h.ref f hf, hfiles, List.count_nil, Nat.add_zero]
  refine ⟨href, fun f hf hzero => ?_, h.cache, fun page w => ?_⟩
  · have hnone := (href f hf).trans hzero
    exact ⟨hnone, h.closed f hf hnone⟩
  · have hpipe := h.pipe page w
    rw [hends, List.count_nil] at hpipe
    constructor
    · intro hopen
      rw [one_of hopen] at hpipe
      by_contra hno
      have hzero : ends t.state page w = 0 := count_eq_zero.2 fun f hf hend =>
        hno ⟨f, mem_fileIndices.1 hf, hend⟩
      omega
    · rintro ⟨f, hf, hend⟩
      have hpos : 0 < ends t.state page w :=
        count_pos (P := fun f => (t.state.file f).End page w) (mem_fileIndices.2 hf) hend
      by_contra hclosed
      rw [one_of_not hclosed] at hpipe
      omega

/-- **File reference counting.**  In every run in which `sys_close` is called only on files
marked with the caller's container, every count is right in every state reached. -/
theorem refs_right (disk : Disk) (ninodes : ℕ) (freelist : List ℕ) (hfree : freelist.Nodup)
    (console : List Char) (t : Tracked)
    (h : Reach Tracked.step ClosesOwn (.boot disk ninodes freelist console) t) : RefsRight t := by
  have hinv : Sound t.lost t.state ∧ t.lost.files = [] ∧ t.lost.ends = [] := by
    refine h.invariant (I := fun t => Sound t.lost t.state ∧ t.lost.files = [] ∧ t.lost.ends = [])
      ⟨Sound.of_boot disk ninodes hfree console, rfl, rfl⟩ fun x e y hx hok hs => ?_
    obtain ⟨s', hstep, rfl⟩ := Option.map_eq_some_iff.1 hs
    obtain ⟨hfiles, hends⟩ := hok.lostBy x.lost
    exact ⟨hx.1.step hstep, hfiles.trans hx.2.1, hends.trans hx.2.2⟩
  exact .of_counted hinv.1.counted hinv.2.1 hinv.2.2

/-- A file opened, duplicated, and closed once by the first process. -/
theorem refs_right_dup :
    ∃ t, Reach Tracked.step ClosesOwn (.boot smallDisk 200 (List.range 64) []) t ∧
      (t.state.file 0).ref = 1 ∧ slots t.state 0 = 1 := by
  obtain ⟨t, ht, href⟩ : ∃ t, Reach Tracked.step ClosesOwn
      (.boot smallDisk 200 (List.range 64) []) t ∧ (t.state.file 0).ref = 1 :=
    exists_reach_of_any
      [⟨0, .name "README".toList⟩, ⟨0, .open 2 O_RDONLY⟩, ⟨0, .dup 0⟩, ⟨0, .close 0⟩]
      (by decide +kernel)
  have hright := refs_right smallDisk 200 (List.range 64) List.nodup_range [] t ht
  exact ⟨t, ht, href, (hright.ref 0 (by decide)).symm.trans href⟩

/-- **A file of the host cannot be closed in a container**: the descriptor is gone and the
entry keeps its reference. -/
theorem close_in_container_leaks :
    ∃ t, Reach Tracked.step anyStep (.boot smallDisk 200 (List.range 64) []) t ∧
      (t.state.file 0).ref = 1 ∧ slots t.state 0 = 0 := by
  obtain ⟨t, ht, href, hnone⟩ : ∃ t, Reach Tracked.step anyStep
      (.boot smallDisk 200 (List.range 64) []) t ∧ (t.state.file 0).ref = 1 ∧
      ((List.range NPROC).all fun p =>
        (List.range NOFILE).all fun fd => (t.state.proc p).ofile fd ≠ some 0) = true :=
    exists_reach_of_any
      [⟨0, .createContainer⟩, ⟨0, .joinContainer 1⟩, ⟨0, .name "README".toList⟩,
        ⟨0, .open 2 O_RDONLY⟩, ⟨0, .close 0⟩] (by decide +kernel)
  refine ⟨t, ht, href, slots_eq_zero.2 fun p hp fd hfd => ?_⟩
  have hp := List.all_eq_true.1 hnone p (List.mem_range.2 hp)
  exact of_decide_eq_true (List.all_eq_true.1 hp fd (List.mem_range.2 hfd))

end Files
end Xv6
