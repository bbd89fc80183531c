/-
# Owners in the inode cache

`container_id` of an inode lives in the cache alone (`struct inode`, `xv6/file.h`,
lines 13-29): `iget` leaves in a recycled slot what was there for another inode,
`ilock` does not read it from the disk, and `sys_open` with `O_CREATE` writes it
over an inode that another container made.  As long as no file that a container has
created loses its last reference, and no container creates over a file of another
one, no slot with a container in it is ever recycled (`WellMarked`), and the
`container_id` of every referenced inode is the container whose open created it, over
any sequence of calls and of `iget`, `idup`, `ilock` and `iput` (`owners_in_cache`).
-/

import Xv6.Files.Owners

namespace Xv6
namespace Files

open Lib Function

variable {s s' : State} {fs fs' : FileSys} {p addr omode k i cid : ℕ} {path : Name} {c : ICache}

/-- The cache entry is marked with the container that created the inode in it. -/
def Tagged (fs : FileSys) (k : ℕ) : Prop :=
  (fs.icache.inode k).containerId = (fs.disk (fs.icache.inode k).inum).creator

/-- Every referenced entry is, and nothing dangles. -/
structure Owned (fs : FileSys) : Prop where
  grounded : Grounded fs
  tagged : ∀ k, 0 < (fs.icache.inode k).ref → Tagged fs k

/-- If the slot has to be taken for the inode `i`, then it is marked with the creator of
`i`. -/
def SlotFits (fs : FileSys) (k i : ℕ) : Prop :=
  (fs.icache.inode k).ref = 0 → (fs.icache.inode k).containerId = (fs.disk i).creator

/-- If the inode `i` is there already, then container `cid` has created it. -/
def MarkFits (fs : FileSys) (i cid : ℕ) : Prop :=
  (fs.disk i).type ≠ .free → (fs.disk i).creator = cid

namespace Owned

theorem kept : Kept Owned := fun fs fs' hc h => by
  refine ⟨Grounded.kept fs fs' hc h.grounded, fun k hk => ?_⟩
  obtain ⟨hlive, hinum⟩ := hc.live k hk
  unfold Tagged
  rw [hc.disk, hinum, hc.tag]
  exact h.tagged k hlive

theorem write (h : Owned fs) (i : ℕ) (data : List Char) : Owned (fs.write i data) := by
  refine ⟨h.grounded.write i data, fun k hk => ?_⟩
  unfold Tagged
  rw [FileSys.write_creator]
  exact h.tagged k hk

/-- A lookup that keeps what it found in a slot that fits. -/
theorem look (h : Owned fs) (hc : Held fs.icache (some k) c)
    (htype : (fs.disk (c.inode k).inum).type ≠ .free)
    (hfits : SlotFits fs k (c.inode k).inum) : Owned { fs with icache := c } := by
  refine ⟨h.grounded.look hc htype, fun j hj => ?_⟩
  change 0 < (c.inode j).ref at hj
  change (c.inode j).containerId = (fs.disk (c.inode j).inum).creator
  rw [hc.tag]
  by_cases hlive : 0 < (fs.icache.inode j).ref
  · rw [hc.inum j hlive]
    exact h.tagged j hlive
  · -- a slot that was free is the one that was taken
    by_cases hjk : j = k
    · subst hjk
      exact hfits (by omega)
    · exact absurd (hc.of_live hj hjk) hlive

/-- A new inode: the entries that were referenced before keep theirs. -/
theorem made_other {type : FileType} {major creator dir j : ℕ} (h : Owned fs)
    (hc : Held fs.icache (some k) c) (hdir : (fs.disk dir).type = .dir)
    (hfree : (fs.disk (c.inode k).inum).type = .free) (hlive : 0 < (fs.icache.inode j).ref) :
    (c.inode j).containerId = (madeDisk fs.disk dir (c.inode k).inum (lastElement path)
      (FileSys.newInode type major creator (c.inode k).inum dir) (c.inode j).inum).creator := by
  have hne := ne_of_dir hdir hfree
  have hold : (c.inode j).inum ≠ (c.inode k).inum := by
    intro heq
    rw [← heq, hc.inum j hlive] at hfree
    exact h.grounded.live j hlive hfree
  rw [hc.tag, h.tagged j hlive, hc.inum j hlive]
  rw [hc.inum j hlive] at hold
  by_cases hd : (fs.icache.inode j).inum = dir
  · rw [hd, madeDisk_dir hne]
  · rw [madeDisk_of_ne hd hold]

/-- `create` by `sys_open`, which marks the entry. -/
theorem claim (h : Owned fs) (hs : Created fs path .file 0 cid (some k) fs')
    (hfits : MarkFits fs (fs'.icache.inode k).inum cid) : Owned (fs'.retag k cid) := by
  refine ⟨(h.grounded.created (by decide) hs).retag k cid, fun j hj => ?_⟩
  change 0 < ((fs'.icache.set k _).inode j).ref at hj
  change ((fs'.icache.set k _).inode j).containerId =
    (fs'.disk ((fs'.icache.set k _).inode j).inum).creator
  by_cases hjk : j = k
  · subst hjk
    rw [ICache.set_inode_self]
    dsimp only
    cases hs with
    | found _ _ _ hfile => exact (hfits (by rw [hfile.2]; decide)).symm
    | @made _ dir c _ hdir _ hfree =>
      have hne := ne_of_dir hdir hfree.2
      dsimp only
      rw [madeDisk_new hne]
      rfl
  · rw [ICache.set_inode_of_ne _ hjk] at hj ⊢
    cases hs with
    | @found _ _ c hc _ _ _ =>
      have hj := hc.of_live hj hjk
      dsimp only
      rw [hc.tag, hc.inum j hj]
      exact h.tagged j hj
    | @made _ _ c hc hdir _ hfree => exact h.made_other hc hdir hfree.2 (hc.of_live hj hjk)

/-- `create` by `sys_mkdir` and `sys_mknod`, which drop the entry again. -/
theorem make {type : FileType} {major : ℕ} (h : Owned fs) (htype : type ≠ .free)
    (hfile : type ≠ .file) (hs : Created fs path type major 0 (some k) fs') :
    Owned { fs' with icache := fs'.icache.iput k } := by
  refine ⟨Grounded.kept _ _ (.put _ _) (h.grounded.created htype hs), fun j hj => ?_⟩
  cases hs with
  | found _ _ _ hf => exact absurd hf.1 hfile
  | @made _ dir c hc hdir _ hfree =>
    change 0 < ((c.iput k).inode j).ref at hj
    have hlive : 0 < (fs.icache.inode j).ref := by
      have href := hc.ref j
      have hput := ICache.iput_ref c k j
      omega
    unfold Tagged
    dsimp only
    rw [ICache.iput_inum, ICache.iput_tag]
    exact h.made_other hc hdir hfree.2 hlive

end Owned

/-! ### Files of containers stay open -/

/-- The entries of files that containers have created stay referenced. -/
def KeepsOpen (fs fs' : FileSys) : Prop :=
  ∀ k < NINODE, 0 < (fs.icache.inode k).ref →
    (fs.disk (fs.icache.inode k).inum).creator ≠ 0 → 0 < (fs'.icache.inode k).ref

instance (fs fs' : FileSys) : Decidable (KeepsOpen fs fs') :=
  inferInstanceAs (Decidable (∀ k < NINODE, _))

/-- The owners are right, no free slot has a container in it, and all files that containers have
created are referenced. -/
structure WellMarked (fs : FileSys) : Prop extends Owned fs where
  vacant : ∀ k < NINODE, (fs.icache.inode k).ref = 0 → (fs.icache.inode k).containerId = 0
  opened : ∀ i, (fs.disk i).type ≠ .free → (fs.disk i).creator ≠ 0 →
    ∃ k < NINODE, 0 < (fs.icache.inode k).ref ∧ (fs.icache.inode k).inum = i

namespace WellMarked

/-- **What calm calls drop has no container in it.** -/
theorem calm (h : WellMarked fs) (hc : CalmFs fs fs') (hkeeps : KeepsOpen fs fs') : WellMarked fs' := by
  refine ⟨Owned.kept fs fs' hc h.toOwned, fun k hk hfree => ?_, fun i htype hcreator => ?_⟩
  · rw [hc.tag]
    by_cases hlive : 0 < (fs.icache.inode k).ref
    · by_contra hne
      have hcreator := (h.tagged k hlive).symm
      have hstill := hkeeps k hk hlive (by rw [hcreator]; exact hne)
      omega
    · exact h.vacant k hk (by omega)
  · rw [hc.disk] at htype hcreator
    obtain ⟨k, hk, hlive, rfl⟩ := h.opened i htype hcreator
    have hstill := hkeeps k hk hlive hcreator
    exact ⟨k, hk, hstill, (hc.live k hstill).2⟩

/-- A lookup that holds nothing at its end. -/
theorem unheld (h : WellMarked fs) (hc : Held fs.icache none c) :
    WellMarked { fs with icache := c } := by
  refine h.calm (.unheld hc) fun k _ hlive _ => ?_
  have href : (c.inode k).ref = (fs.icache.inode k).ref := hc.ref k
  dsimp only
  omega

theorem write (h : WellMarked fs) (i : ℕ) (data : List Char) : WellMarked (fs.write i data) := by
  refine ⟨h.toOwned.write i data, h.vacant, fun j htype hcreator => ?_⟩
  rw [FileSys.write_type] at htype
  rw [FileSys.write_creator] at hcreator
  exact h.opened j htype hcreator

/-- The slot that a lookup takes has no container in it, and its inode is not a container's. -/
theorem slotFits (h : WellMarked fs) (hentry : EntryOf fs.icache c k)
    (htype : (fs.disk (c.inode k).inum).type ≠ .free) : SlotFits fs k (c.inode k).inum := by
  intro hfree
  obtain hlive | ⟨hk, hnone⟩ := hentry
  · omega
  · rw [h.vacant k hk hfree]
    by_contra hne
    obtain ⟨j, hj, hlive, hinum⟩ := h.opened _ htype fun heq => hne heq.symm
    exact hnone j hj hlive hinum

/-- **A lookup that keeps what it found.** -/
theorem look (h : WellMarked fs) (hc : Held fs.icache (some k) c) (hentry : EntryOf fs.icache c k)
    (htype : (fs.disk (c.inode k).inum).type ≠ .free) : WellMarked { fs with icache := c } := by
  refine ⟨h.toOwned.look hc htype (h.slotFits hentry htype), fun j hj hfree => ?_,
    fun i hi hcreator => ?_⟩
  · have href := hc.ref j
    dsimp only at hfree ⊢
    rw [hc.tag]
    exact h.vacant j hj (by omega)
  · obtain ⟨j, hj, hlive, rfl⟩ := h.opened i hi hcreator
    have href := hc.ref j
    refine ⟨j, hj, ?_, hc.inum j hlive⟩
    dsimp only
    omega

/-- A new inode that a call has created: what containers had created is referenced as before. -/
theorem opened_of_made {type : FileType} {major creator dir : ℕ} (h : WellMarked fs)
    (hdir : (fs.disk dir).type = .dir) (hfree : (fs.disk (c.inode k).inum).type = .free)
    (hne : i ≠ (c.inode k).inum)
    (htype : (madeDisk fs.disk dir (c.inode k).inum (lastElement path)
      (FileSys.newInode type major creator (c.inode k).inum dir) i).type ≠ .free)
    (hcreator : (madeDisk fs.disk dir (c.inode k).inum (lastElement path)
      (FileSys.newInode type major creator (c.inode k).inum dir) i).creator ≠ 0) :
    ∃ j < NINODE, 0 < (fs.icache.inode j).ref ∧ (fs.icache.inode j).inum = i := by
  have hdn := ne_of_dir hdir hfree
  rw [madeDisk_type hdn, if_neg hne] at htype
  refine h.opened i htype ?_
  by_cases hid : i = dir
  · rw [hid, madeDisk_dir hdn] at hcreator
    rw [hid]
    exact hcreator
  · rwa [madeDisk_of_ne hid hne] at hcreator

/-- **`create` by `sys_open`**, which marks the entry. -/
theorem claim (h : WellMarked fs) (hk : k < NINODE) (hs : Created fs path .file 0 cid (some k) fs')
    (hfits : MarkFits fs (fs'.icache.inode k).inum cid) : WellMarked (fs'.retag k cid) := by
  have hpos : 0 < (fs'.icache.inode k).ref := by
    cases hs with
    | found hc _ _ _ | made hc _ _ _ => exact hc.pos
  have href : ∀ j, ((fs'.retag k cid).icache.inode j).ref = (fs'.icache.inode j).ref :=
    update_field Inode.ref (by rfl)
  have hinum : ∀ j, ((fs'.retag k cid).icache.inode j).inum = (fs'.icache.inode j).inum :=
    update_field Inode.inum (by rfl)
  refine ⟨h.toOwned.claim hs hfits, fun j hj hfree => ?_, fun i htype hcreator => ?_⟩
  · rw [href] at hfree
    have hjk : j ≠ k := by
      rintro rfl
      omega
    change ((fs'.icache.set k _).inode j).containerId = 0
    rw [ICache.set_inode_of_ne _ hjk]
    cases hs with
    | found hc _ _ _ | made hc _ _ _ =>
      have hsame := hc.ref j
      dsimp only at hfree ⊢
      rw [hc.tag]
      exact h.vacant j hj (by omega)
  · change (fs'.disk i).type ≠ .free at htype
    change (fs'.disk i).creator ≠ 0 at hcreator
    suffices ∃ j < NINODE, 0 < (fs'.icache.inode j).ref ∧ (fs'.icache.inode j).inum = i by
      obtain ⟨j, hj, hlive, hi⟩ := this
      exact ⟨j, hj, by rw [href]; exact hlive, by rw [hinum]; exact hi⟩
    by_cases hi : i = (fs'.icache.inode k).inum
    · exact ⟨k, hk, hpos, hi.symm⟩
    · have hold : ∃ j < NINODE, 0 < (fs.icache.inode j).ref ∧ (fs.icache.inode j).inum = i := by
        cases hs with
        | found => exact h.opened i htype hcreator
        | made _ hdir _ hfree => exact h.opened_of_made hdir hfree.2 hi htype hcreator
      obtain ⟨j, hj, hlive, rfl⟩ := hold
      cases hs with
      | found hc _ _ _ | made hc _ _ _ =>
        have hsame := hc.ref j
        refine ⟨j, hj, ?_, hc.inum j hlive⟩
        dsimp only
        omega

/-- `create` by `sys_mkdir` and `sys_mknod`, which drop the entry again. -/
theorem make {type : FileType} {major : ℕ} (h : WellMarked fs) (htype : type ≠ .free)
    (hfile : type ≠ .file) (hs : Created fs path type major 0 (some k) fs') :
    WellMarked { fs' with icache := fs'.icache.iput k } := by
  refine ⟨h.toOwned.make htype hfile hs, fun j hj hfree => ?_, fun i hi hcreator => ?_⟩
  · cases hs with
    | found _ _ _ hf => exact absurd hf.1 hfile
    | @made _ dir c hc _ _ _ =>
      have hput := hc.put
      dsimp only at hfree ⊢
      rw [hput.tag]
      refine h.vacant j hj ?_
      have href := hput.ref j
      simp only [reduceCtorEq, if_false] at href
      omega
  · cases hs with
    | found _ _ _ hf => exact absurd hf.1 hfile
    | @made _ dir c hc hdir _ hf =>
      have hput := hc.put
      dsimp only at hi hcreator ⊢
      have hne : i ≠ (c.inode k).inum := by
        rintro rfl
        rw [madeDisk_new (ne_of_dir hdir hf.2)] at hcreator
        exact hcreator rfl
      obtain ⟨j, hj, hlive, rfl⟩ := h.opened_of_made hdir hf.2 hne hi hcreator
      have href := hput.ref j
      exact ⟨j, hj, by omega, hput.inum j hlive⟩

end WellMarked

/-! ### The calls -/

/-- The mark of an inode is its creator: in its cache entry or, if it has none, in all free ones. -/
structure TagRight (fs : FileSys) (i : ℕ) : Prop where
  live : ∀ k, 0 < (fs.icache.inode k).ref → (fs.icache.inode k).inum = i →
    (fs.icache.inode k).containerId = (fs.disk i).creator
  free : (∀ j < NINODE, 0 < (fs.icache.inode j).ref → (fs.icache.inode j).inum ≠ i) →
    ∀ k < NINODE, (fs.icache.inode k).ref = 0 →
      (fs.icache.inode k).containerId = (fs.disk i).creator

/-- A lookup then finds the creator. -/
theorem TagRight.tag (h : TagRight fs (c.inode k).inum) (hc : Held fs.icache (some k) c)
    (hentry : EntryOf fs.icache c k) :
    (c.inode k).containerId = (fs.disk (c.inode k).inum).creator := by
  rw [hc.tag]
  by_cases hlive : 0 < (fs.icache.inode k).ref
  · exact h.live k hlive (hc.inum k hlive).symm
  · obtain ⟨hk, hnone⟩ := hentry.resolve_left hlive
    exact h.free hnone k hk (Nat.eq_zero_of_not_pos hlive)

theorem WellMarked.tagRight (h : WellMarked fs) (htype : (fs.disk i).type ≠ .free) :
    TagRight fs i where
  live k hlive hinum := by
    rw [← hinum]
    exact h.tagged k hlive
  free hnone k hk hfree := by
    rw [h.vacant k hk hfree]
    by_contra hne
    obtain ⟨j, hj, hlive, hinum⟩ := h.opened i htype fun heq => hne heq.symm
    exact hnone j hj hlive hinum

/-- There are an entry of the file table and a descriptor left. -/
def Places (s : State) (p : ℕ) : Prop :=
  (∃ f < NFILE, (s.file f).ref = 0) ∧ ∃ fd < NOFILE, (s.proc p).ofile fd = none

instance (s : State) (p : ℕ) : Decidable (Places s p) := inferInstanceAs (Decidable (_ ∧ _))

theorem not_places_of_fileFd (h : s.fileFd p = (none, s')) : ¬ Places s p := by
  rintro ⟨⟨f, hf, href⟩, fd, hfd, hnone⟩
  unfold State.fileFd at h
  split at h
  next halloc =>
    have := List.find?_eq_none.1 halloc f (List.mem_range.2 hf)
    simp [href] at this
  · split at h
    next halloc =>
      have := List.find?_eq_none.1 halloc fd (List.mem_range.2 hfd)
      simp [hnone] at this
    · cases h

/-- A call that creates or copies finds under the name that it looks up, if anything, a file that
the caller's container has created; and a process of a container has a place for the file. -/
def CreatesOwn (s : State) (p addr omode : ℕ) : Prop :=
  ∀ path ∈ (s.proc p).fetchstr addr,
    ∀ r ∈ ((s.proc p).renaming s.fileTable addr path omode).toOption,
      (creates omode || r.makeCopy) = true →
        ((s.proc p).containerId ≠ 0 → Places s p) ∧
        ∀ i ∈ inodeOf s.fs.disk s.fs.icache (s.proc p).cwd
          (if r.append then path ++ suffix (s.proc p).containerId else path),
          (s.fs.disk i).type = .file → (s.fs.disk i).creator = (s.proc p).containerId

instance (s : State) (p addr omode : ℕ) : Decidable (CreatesOwn s p addr omode) :=
  inferInstanceAs (Decidable (∀ path ∈ (s.proc p).fetchstr addr, _))

/-- What `sys_chdir` keeps is what `namei` gives. -/
theorem directoryLooked_namei (h : directoryLooked s p addr = some (k, c)) :
    ∃ path, namei s.fs.disk s.fs.icache (s.proc p).cwd path = .ok (some k, c) := by
  obtain ⟨path, -, h⟩ := Option.bind_eq_some_iff.1 h
  obtain ⟨⟨o, c'⟩, hnamei, h⟩ := Option.bind_eq_some_iff.1 h
  refine ⟨path, ?_⟩
  cases hx : namei s.fs.disk s.fs.icache (s.proc p).cwd path with
  | error e =>
    rw [hx] at hnamei
    cases hnamei
  | ok y =>
    rw [hx] at hnamei
    obtain rfl : y = (o, c') := Option.some.inj hnamei
    cases o with
    | none => cases h
    | some j =>
      cases h
      rfl

theorem Looked.file {makeCopy : Bool} {r : Option ℕ} (h : Looked s p path omode makeCopy r s') :
    s'.file = s.file := by
  cases h <;> rfl

/-- The lookup holds a reference on what it returns. -/
theorem Looked.ref {makeCopy : Bool} {r : Option ℕ} (h : Looked s p path omode makeCopy r s') (j : ℕ) :
    (s'.fs.icache.inode j).ref = (s.fs.icache.inode j).ref + if r = some j then 1 else 0 := by
  cases h with
  | failed hc => exact hc.ref j
  | found _ hc _ _ _ => exact hc.ref j
  | @created k fs _ hfs =>
    have href : ((fs.retag k (s.proc p).containerId).icache.inode j).ref =
        (fs.icache.inode j).ref := update_field Inode.ref (by rfl) j
    refine href.trans ?_
    cases hfs with
    | found hc _ _ _ => exact hc.ref j
    | made hc _ _ _ => exact hc.ref j

/-- `create` takes its entry from `iget`. -/
theorem FileSys.create_lt {cwd major creator : ℕ} {type : FileType}
    (h : fs.create cwd path type major creator = .ok (some k, fs')) : k < NINODE := by
  obtain ⟨⟨rp, c₁⟩, -, h⟩ := bind_eq_ok.1 h
  cases rp with
  | none => cases h
  | some dp =>
    obtain ⟨d, -, h⟩ := bind_eq_ok.1 h
    split at h
    · obtain ⟨⟨ip, c₂⟩, hget, h⟩ := bind_eq_ok.1 h
      obtain ⟨t, -, h⟩ := bind_eq_ok.1 h
      split at h
      · cases h
        exact (ICache.iget_spec hget).1
      · cases h
    · obtain ⟨inum, -, h⟩ := bind_eq_ok.1 h
      obtain ⟨⟨ip, c₂⟩, hget, h⟩ := bind_eq_ok.1 h
      obtain ⟨disk, -, h⟩ := bind_eq_ok.1 h
      cases h
      exact (ICache.iget_spec hget).1

namespace WellMarked

/-- The copy. -/
theorem copying {inum : ℕ} (h : WellMarked s.fs) (hlive : 0 < (s.fs.icache.inode (s.proc p).cwd).ref)
    (hs : Copying s p path inum s') : WellMarked s'.fs := by
  cases hs with
  | @lost s₁ c hpage hname =>
    rw [SameOwners.scratch hpage] at hname
    have hc := (namei_spec hname).1
    change WellMarked { s₁.fs with icache := c }
    rw [SameOwners.scratch hpage]
    exact h.unheld hc
  | @full s₁ s₂ c k hpage hname _ hfd =>
    rw [SameOwners.scratch hpage] at hname
    have hc := (namei_spec hname).1.put
    change WellMarked { s₂.fs with icache := s₂.fs.icache.iput k }
    rw [fileFd_fs hfd]
    change WellMarked { s₁.fs with icache := c.iput k }
    rw [SameOwners.scratch hpage]
    exact h.unheld hc
  | @copied s₁ s₂ s₃ c k fd g hpage hname htype hfd hwrote =>
    have hren := scratch_renamed p hpage
    rw [hren.fs, hren.cwd] at hname
    rw [hren.fs] at htype
    obtain ⟨data, hfs⟩ := hwrote.fs_eq
    rw [hfs]
    refine WellMarked.write ?_ _ data
    change WellMarked s₂.fs
    rw [fileFd_fs hfd]
    change WellMarked { s₁.fs with icache := c }
    rw [hren.fs]
    exact h.look (namei_spec hname).1 (namei_entry hlive hname) htype

/-- The lookup of `sys_open`. -/
theorem looked {name : Name} {makeCopy : Bool} {s₁ s₂ : State} (h : WellMarked s.fs)
    (hlive : 0 < (s.fs.icache.inode (s.proc p).cwd).ref) (hfits : CreatesOwn s p addr omode)
    (hpath : (s.proc p).fetchstr addr = some path)
    (hname : s.rename p addr path omode = .ok (name, makeCopy, s₁))
    (hlook : s₁.openInode p name omode makeCopy = .ok (some k, s₂)) :
    WellMarked s₂.fs ∧ ((creates omode || makeCopy) = true ∧
        ((s.proc p).containerId ≠ 0 → Places s p) ∧
        (s₂.fs.disk (s₂.fs.icache.inode k).inum).creator = (s.proc p).containerId ∨
      ∃ c, s₂ = s₁.setCache c ∧ Held s.fs.icache (some k) c) := by
  obtain ⟨x, t, hx, rfl, rfl, -, -, -⟩ := rename_records hname
  have hren := rename_renamed hname
  obtain ⟨hmakes, fs, hcreate, rfl⟩ | ⟨-, o, c, hnamei, hend⟩ := openInode_cases hlook
  · obtain ⟨hplaces, hown⟩ := hfits path hpath x (by rw [hx]; rfl) hmakes
    rw [hren.fs, hren.cwd, hren.containerId] at hcreate
    have hspec := FileSys.create_spec hcreate
    have hmark : MarkFits s.fs (fs.icache.inode k).inum (s.proc p).containerId := by
      intro htype
      obtain ⟨hinode, hfile⟩ | ⟨-, hfree⟩ := FileSys.create_returns hcreate
      · exact hown _ hinode hfile
      · exact absurd hfree htype
    have hclaim := h.claim (FileSys.create_lt hcreate) hspec hmark
    dsimp only [Option.elim]
    rw [hren.containerId]
    refine ⟨hclaim, .inl ⟨hmakes, hplaces, ?_⟩⟩
    have htag := hclaim.tagged k (by
      change 0 < ((fs.icache.set k _).inode k).ref
      rw [ICache.set_inode_self]
      cases hspec with
      | found hc _ _ _ | made hc _ _ _ => exact hc.pos)
    refine htag.symm.trans ?_
    change ((fs.icache.set k _).inode k).containerId = _
    rw [ICache.set_inode_self]
  · obtain ⟨rfl, rfl, hgood⟩ | ⟨hr, -⟩ := hend
    · rw [hren.fs, hren.cwd] at hnamei
      have hc := (namei_spec hnamei).1
      have htype := (hgood k rfl).1
      rw [hren.fs] at htype
      refine ⟨?_, .inr ⟨c, rfl, hc⟩⟩
      change WellMarked { s₁.fs with icache := c }
      rw [hren.fs]
      exact h.look hc (namei_entry hlive hnamei) htype
    · cases hr

/-- **`sys_open`**, where it creates over no other container's file. -/
theorem opening {n : ℤ} (h : WellMarked s.fs) (hlive : 0 < (s.fs.icache.inode (s.proc p).cwd).ref)
    (hfits : CreatesOwn s p addr omode) (hs : Opening s p addr omode n s') : WellMarked s'.fs := by
  cases hs with
  | unnamed => exact h
  | missing hpath hname hlook =>
    have hren := rename_renamed hname
    cases openInode_looked hlook with
    | failed hc =>
      rw [← hren.fs] at h
      exact h.unheld hc
  | @full path path' makeCopy s₁ s₂ s₃ k hpath hname hlook hfd =>
    obtain ⟨h₂, hend⟩ := h.looked hlive hfits hpath hname hlook
    have hren := rename_renamed hname
    change WellMarked { s₃.fs with icache := s₃.fs.icache.iput k }
    rw [fileFd_fs hfd]
    obtain ⟨-, hplaces, hcreator⟩ | ⟨c, rfl, hc⟩ := hend
    · -- without a place the caller is a process of the host, and so is the creator
      have hzero : (s.proc p).containerId = 0 := by
        by_contra hne
        refine not_places_of_fileFd hfd ?_
        obtain ⟨⟨f, hf, href⟩, fd, hfd', hnone⟩ := hplaces hne
        have hlooked := openInode_looked hlook
        obtain ⟨mem, hmem⟩ := hren.self
        refine ⟨⟨f, hf, ?_⟩, fd, hfd', ?_⟩
        · rw [hlooked.file, hren.file]
          exact href
        · rw [hlooked.proc, hmem]
          exact hnone
      refine h₂.calm (.put _ _) fun j _ hpos hne => ?_
      by_cases hjk : j = k
      · subst hjk
        rw [hcreator] at hne
        exact absurd hzero hne
      · change 0 < ((s₂.fs.icache.iput k).inode j).ref
        rw [ICache.iput_ref, if_neg fun heq => hjk (Option.some.inj heq).symm]
        exact hpos
    · change WellMarked { s₁.fs with icache := c.iput k }
      rw [hren.fs]
      exact h.unheld hc.put
  | refused hpath hname hlook hfd _ =>
    rw [fileFd_fs hfd]
    exact (h.looked hlive hfits hpath hname hlook).1
  | @opened path path' s₁ s₂ s₃ k fd f hpath hname hlook hfd _ =>
    change WellMarked s₃.fs
    rw [fileFd_fs hfd]
    exact (h.looked hlive hfits hpath hname hlook).1
  | @copied path path' s₁ s₂ s₃ s₄ k fd f hpath hname hlook hfd _ hcopy =>
    have h₂ := (h.looked hlive hfits hpath hname hlook).1
    refine WellMarked.copying (s := s₃.opened p f k omode) ?_ ?_ hcopy
    · change WellMarked s₃.fs
      rw [fileFd_fs hfd]
      exact h₂
    · have hlooked := openInode_looked hlook
      have hren := rename_renamed hname
      have hcwd : ((s₃.opened p f k omode).proc p).cwd = (s.proc p).cwd := by
        obtain ⟨-, -, -, -, rfl⟩ := fileFd_some hfd
        change (((s₂.setFile f _).setFd p fd (some f)).proc p).cwd = _
        rw [setFd_self]
        change (s₂.proc p).cwd = _
        rw [hlooked.proc, hren.cwd]
      rw [hcwd]
      change 0 < (s₃.fs.icache.inode (s.proc p).cwd).ref
      rw [fileFd_fs hfd, hlooked.ref, hren.fs]
      omega

end WellMarked

/-- No file that a container has created loses its last reference, and nothing is created over a
file of another container. -/
def Careful (s : State) (e : Event) : Prop :=
  (∀ s' ∈ Files.step s e, KeepsOpen s.fs s'.fs) ∧
    match e.call with
    | .open addr omode => CreatesOwn s e.p addr omode
    | _ => True

instance (s : State) (e : Event) : Decidable (Careful s e) := by
  unfold Careful
  rcases e.call with _ | _ <;> infer_instance

/-- **Every careful call leaves the cache well marked.** -/
theorem WellMarked.step {e : Event} {spare : Spare} (h : WellMarked s.fs) (hsound : Sound spare s)
    (hok : Careful s e) (hs : Files.step s e = some s') : WellMarked s'.fs := by
  obtain ⟨hp, huse, hexec⟩ := step_eq_some hs
  have hkeeps := hok.1 s' hs
  have hlive := hsound.cwd_live hp huse
  obtain ⟨p, call⟩ := e
  dsimp only at hexec hp huse hlive
  by_cases hbusy : call.Busy
  · cases call with
    | «open» addr omode =>
      obtain ⟨n, hcall⟩ := map_snd_eq_ok hexec
      exact h.opening hlive hok.2 (sysOpen_opening hcall)
    | write fd buf n =>
      obtain ⟨m, hcall⟩ := map_snd_eq_ok hexec
      obtain ⟨hfs, -⟩ | ⟨f, k, -, -, -, hwrote⟩ := sysWrite_cases hcall
      · rw [hfs]
        exact h
      · obtain ⟨data, hfs⟩ := hwrote.fs_eq
        rw [hfs]
        exact h.write _ data
    | chdir addr =>
      obtain ⟨m, hcall⟩ := map_snd_eq_ok hexec
      obtain ⟨c, hc, rfl⟩ | ⟨k, c, hlooked, hc, hdir, rfl⟩ := sysChdir_cases hcall
      · exact h.unheld hc
      · obtain ⟨path, hnamei⟩ := directoryLooked_namei hlooked
        have h₁ := h.look hc (namei_entry hlive hnamei) (by rw [hdir]; decide)
        refine h₁.calm (.put _ _) fun j hj hpos hne => ?_
        by_cases hjk : 0 < (s.fs.icache.inode j).ref
        · refine hkeeps j hj hjk ?_
          dsimp only at hne
          rwa [hc.inum j hjk] at hne
        · have href := hc.ref j
          have hput := ICache.iput_ref c (s.proc p).cwd j
          change 0 < ((c.iput (s.proc p).cwd).inode j).ref
          dsimp only at hpos
          have hcwd : (s.proc p).cwd ≠ j := by
            rintro rfl
            exact hjk hlive
          rw [if_neg fun heq => hcwd (Option.some.inj heq)] at hput
          omega
    | mkdir addr | mknod addr major =>
      obtain ⟨m, hcall⟩ := map_snd_eq_ok hexec
      obtain ⟨c, hc, rfl⟩ | ⟨path, k, fs, -, hfs, rfl⟩ := make_cases hcall
      · exact h.unheld hc
      · exact h.make (by decide) (by decide) hfs
    | _ => exact absurd hbusy nofun
  · exact h.calm (exec_calm hbusy hlive huse hexec).fs hkeeps

/-- A state with the cache entries that callers of `iget` and `idup` refer to. -/
structure Caching where
  state : State
  held : List ℕ

/-- A call, or one of the functions of the inode cache by itself. -/
inductive CacheAct where
  | call (e : Event)
  | iget (inum : ℕ)
  | idup (k : ℕ)
  | ilock (k : ℕ)
  | iput (k : ℕ)

/-- One step.  `iget` is for inodes that are allocated; the others are for entries that are
held. -/
def Caching.step (t : Caching) : CacheAct → Option Caching
  | .call e => (Files.step t.state e).map (⟨·, t.held⟩)
  | .iget inum =>
      if (t.state.fs.disk inum).type = .free then none
      else (t.state.fs.icache.iget inum).toOption.map fun r =>
        ⟨t.state.setCache r.2, r.1 :: t.held⟩
  | .idup k =>
      if k ∈ t.held then some ⟨t.state.setCache (t.state.fs.icache.idup k), k :: t.held⟩ else none
  | .ilock k =>
      if k ∈ t.held then (t.state.fs.icache.ilock t.state.fs.disk k).toOption.map fun _ => t
      else none
  | .iput k => if k ∈ t.held then some ⟨t.state.iput k, t.held.erase k⟩ else none

/-- Each step keeps the files of containers open, and no call creates over another container's. -/
def Caching.Careful (t : Caching) (a : CacheAct) : Prop :=
  (∀ t' ∈ t.step a, KeepsOpen t.state.fs t'.state.fs) ∧
    match a with
    | .call e => Files.Careful t.state e
    | _ => True

instance (t : Caching) (a : CacheAct) : Decidable (t.Careful a) := by
  unfold Caching.Careful
  cases a <;> infer_instance

/-- The invariant: the cache is well marked, and every reference held is counted. -/
structure Caching.Right (t : Caching) : Prop where
  marked : WellMarked t.state.fs
  sound : ∃ spare, Sound spare t.state ∧ ∀ k, t.held.count k ≤ spare.inodes.count k

namespace Caching.Right

variable {t t' : Caching}

/-- What is held is referenced. -/
theorem live (h : t.Right) (hk : k ∈ t.held) : 0 < (t.state.fs.icache.inode k).ref := by
  obtain ⟨spare, hsound, hheld⟩ := h.sound
  have hcount := hsound.counted.cache k
  have hle := hheld k
  have hpos := List.count_pos_iff.2 hk
  omega

theorem call {e : Event} (h : t.Right) (hok : Files.Careful t.state e)
    (hs : Files.step t.state e = some s') : Caching.Right ⟨s', t.held⟩ := by
  obtain ⟨spare, hsound, hheld⟩ := h.sound
  refine ⟨h.marked.step hsound hok hs, lostBy t.state e spare, hsound.step hs, fun k => ?_⟩
  refine (hheld k).trans ?_
  unfold lostBy unclosed
  split
  · cases refused t.state e.p _ _ with
    | none => exact Nat.le_refl _
    | some j => exact (List.sublist_cons_self j spare.inodes).count_le k
  · split
    · exact Nat.le_refl _
    · split <;> exact Nat.le_refl _
  · exact Nat.le_refl _

theorem iget {inum : ℕ} (h : t.Right) (htype : (t.state.fs.disk inum).type ≠ .free)
    (hs : t.state.fs.icache.iget inum = .ok (k, c)) :
    Caching.Right ⟨t.state.setCache c, k :: t.held⟩ := by
  obtain ⟨-, hc, hinum⟩ := ICache.iget_spec hs
  obtain ⟨spare, hsound, hheld⟩ := h.sound
  rw [← hinum] at htype
  have hentry := EntryOf.of_iget hs (fun j hj => ⟨hj, rfl⟩) fun j hj => .inl hj
  refine ⟨h.marked.look hc hentry htype, spare.addInode k, ⟨hsound.counted.held hc, hsound.idle⟩,
    fun j => ?_⟩
  have hle := hheld j
  rw [List.count_cons, List.count_cons]
  omega

theorem idup (h : t.Right) (hk : k ∈ t.held) :
    Caching.Right ⟨t.state.setCache (t.state.fs.icache.idup k), k :: t.held⟩ := by
  have hc := ICache.idup_held t.state.fs.icache k
  obtain ⟨spare, hsound, hheld⟩ := h.sound
  refine ⟨h.marked.calm (.idup (h.live hk)) fun j _ hj _ => ?_, spare.addInode k,
    ⟨hsound.counted.held hc, hsound.idle⟩, fun j => ?_⟩
  · have href := hc.ref j
    change 0 < ((t.state.fs.icache.idup k).inode j).ref
    omega
  have hle := hheld j
  rw [List.count_cons, List.count_cons]
  omega

theorem iput (h : t.Right) (hk : k ∈ t.held)
    (hkeeps : KeepsOpen t.state.fs (t.state.iput k).fs) :
    Caching.Right ⟨t.state.iput k, t.held.erase k⟩ := by
  obtain ⟨spare, hsound, hheld⟩ := h.sound
  have hmem : k ∈ spare.inodes := List.count_pos_iff.1
    (Nat.lt_of_lt_of_le (List.count_pos_iff.2 hk) (hheld k))
  have hperm := List.perm_cons_erase hmem
  have hcounted : Counted (Spare.addInode (spare.withInodes (spare.inodes.erase k)) k) t.state :=
    { hsound.counted with
      cache := fun j => by rw [hsound.counted.cache j, hperm.count_eq] }
  refine ⟨h.marked.calm (.put _ _) hkeeps, spare.withInodes (spare.inodes.erase k),
    ⟨hcounted.iput, hsound.idle⟩, fun j => ?_⟩
  have hle := hheld j
  rw [hperm.count_eq, (List.perm_cons_erase hk).count_eq, List.count_cons, List.count_cons] at hle
  dsimp only
  omega

theorem step {a : CacheAct} (h : t.Right) (hok : t.Careful a) (hs : t.step a = some t') :
    t'.Right := by
  have hkeeps := hok.1 t' hs
  cases a with
  | call e =>
    obtain ⟨s', hstep, rfl⟩ := Option.map_eq_some_iff.1 hs
    exact h.call hok.2 hstep
  | iget inum =>
    unfold Caching.step at hs
    dsimp only at hs
    obtain ⟨htype, hs⟩ := Option.ite_none_left_eq_some.1 hs
    obtain ⟨⟨k, c⟩, hget, rfl⟩ := Option.map_eq_some_iff.1 hs
    cases hx : t.state.fs.icache.iget inum with
    | error e =>
      rw [hx] at hget
      cases hget
    | ok r =>
      rw [hx] at hget
      cases hget
      exact h.iget htype hx
  | idup k =>
    unfold Caching.step at hs
    dsimp only at hs
    split at hs
    next hk =>
      cases hs
      exact h.idup hk
    · cases hs
  | ilock k =>
    unfold Caching.step at hs
    dsimp only at hs
    split at hs
    · obtain ⟨d, -, rfl⟩ := Option.map_eq_some_iff.1 hs
      exact h
    · cases hs
  | iput k =>
    unfold Caching.step at hs
    dsimp only at hs
    split at hs
    next hk =>
      cases hs
      exact h.iput hk hkeeps
    · cases hs

end Caching.Right

/-- A disk as `mkfs` leaves it: nothing on it dangles, and no container has made any of it. -/
structure Mkfs (disk : Disk) : Prop where
  root : (disk ROOTINO).type ≠ .free
  entry : ∀ d, (disk d).type = .dir → ∀ e ∈ (disk d).entries, e.inum ≠ 0 →
    (disk e.inum).type ≠ .free
  creator : ∀ i, (disk i).creator = 0

theorem Mkfs.grounded {disk : Disk} (h : Mkfs disk) (ninodes : ℕ) (freelist : List ℕ)
    (console : List Char) : Grounded (boot disk ninodes freelist console).fs := by
  refine ⟨h.root, h.entry, fun k hk => ?_⟩
  change 0 < (update (fun _ => ({} : Inode)) 0 { inum := ROOTINO, ref := 1 } k).ref at hk
  change (disk (update (fun _ => ({} : Inode)) 0 { inum := ROOTINO, ref := 1 } k).inum).type
    ≠ .free
  by_cases hk0 : k = 0
  · rw [hk0, update_self]
    exact h.root
  · rw [update_of_ne hk0] at hk
    cases hk

theorem Mkfs.wellMarked {disk : Disk} (h : Mkfs disk) (ninodes : ℕ) (freelist : List ℕ)
    (console : List Char) : WellMarked (boot disk ninodes freelist console).fs := by
  have htag : ∀ k,
      (update (fun _ => ({} : Inode)) 0 { inum := ROOTINO, ref := 1 } k).containerId = 0 :=
    update_field Inode.containerId (by rfl)
  exact ⟨⟨h.grounded ninodes freelist console, fun k _ => (htag k).trans (h.creator _).symm⟩,
    fun k _ _ => htag k, fun i _ hne => absurd (h.creator i) hne⟩

/-- **The cache is well marked** in every run of careful calls. -/
theorem wellMarked_of_reach {disk : Disk} (hdisk : Mkfs disk) {ninodes : ℕ} {freelist : List ℕ}
    (hfree : freelist.Nodup) {console : List Char}
    (h : Reach Files.step Careful (boot disk ninodes freelist console) s) : WellMarked s.fs := by
  have hinv : WellMarked s.fs ∧ ∃ spare, Sound spare s := by
    refine h.invariant (I := fun s => WellMarked s.fs ∧ ∃ spare, Sound spare s)
      ⟨hdisk.wellMarked ninodes freelist console, {}, Sound.of_boot disk ninodes hfree console⟩ ?_
    rintro x e y ⟨hx, spare, hsound⟩ hok hs
    exact ⟨hx.step hsound hok hs, _, hsound.step hs⟩
  exact hinv.1

theorem smallDisk_mkfs : Mkfs smallDisk := by
  have hfree : ∀ i, smallDisk (i + 3) = {} := fun i => rfl
  have hroot : ∀ e ∈ (smallDisk 1).entries, (smallDisk e.inum).type ≠ .free := by decide
  refine ⟨by decide, fun d hd e he hne => ?_, fun i => ?_⟩
  · match d with
    | 0 => cases hd
    | 1 => exact hroot e he
    | 2 => cases hd
    | d + 3 =>
      rw [hfree] at hd
      cases hd
  · match i with
    | 0 => rfl
    | 1 => rfl
    | 2 => rfl
    | i + 3 => rw [hfree]

end Files
end Xv6
