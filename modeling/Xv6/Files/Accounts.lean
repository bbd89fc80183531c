/-
# What `sys_open` leaves behind

`sys_open` ends in six ways after different amounts of work (`xv6/sysfile.c`, lines
403-537).  It registers the name before `create`, and does not take it out again when
the call fails; it takes a descriptor before it compares the owner, and gives neither
the descriptor nor the inode back when it refuses; and `copy_helper_COW` (lines
346-401) opens the original and never closes it.  Where none of the three happens
(`Leakless`), a call that succeeds takes one descriptor and one entry of the file table,
and one that fails leaves all counts as they were (`open_accounts`).
-/

import Xv6.Files.Choice
import Xv6.Files.Fields
import Xv6.Files.Tags

namespace Xv6
namespace Files

open Lib Kernel

variable {s s' t : State} {p k f fd addr omode : ℕ} {path : Name} {makeCopy : Bool} {r : Option ℕ}
  {names : ℕ → List Name}

/-! ### The counts -/

/-- The descriptors of the caller and the reference counts of the file table are the same. -/
structure SameFiles (p : ℕ) (s s' : State) : Prop where
  ofile : (s'.proc p).ofile = (s.proc p).ofile
  ref : ∀ f, (s'.file f).ref = (s.file f).ref

namespace SameFiles

variable {s'' : State}

theorem trans (h : SameFiles p s s') (h' : SameFiles p s' s'') : SameFiles p s s'' :=
  ⟨h'.ofile.trans h.ofile, fun f => (h'.ref f).trans (h.ref f)⟩

theorem of_eq (hproc : s'.proc = s.proc) (hfile : s'.file = s.file) : SameFiles p s s' :=
  ⟨by rw [hproc], fun f => by rw [hfile]⟩

theorem of_renamed (h : Renamed p s s') : SameFiles p s s' := by
  obtain ⟨mem, hmem⟩ := h.self
  exact ⟨by rw [hmem], fun f => by rw [h.file]⟩

theorem of_looked (h : Looked s p path omode makeCopy r s') : SameFiles p s s' := by
  cases h <;> exact of_eq rfl rfl

theorem of_fileFd_none (h : s.fileFd p = (none, s')) : SameFiles p s s' := by
  obtain rfl | ⟨f, -, -, rfl⟩ := fileFd_none h
  · exact of_eq rfl rfl
  · exact ⟨rfl, update_field File.ref (by rfl)⟩

end SameFiles

/-- One descriptor and one entry more. -/
structure OneMore (p fd f : ℕ) (s s' : State) : Prop where
  free : (s.proc p).ofile fd = none
  ofile : (s'.proc p).ofile = Function.update (s.proc p).ofile fd (some f)
  unused : (s.file f).ref = 0
  used : (s'.file f).ref = 1
  ref : ∀ g, g ≠ f → (s'.file g).ref = (s.file g).ref

theorem OneMore.of_fileFd (h : s.fileFd p = (some (fd, f), s')) : OneMore p fd f s s' := by
  obtain ⟨-, -, hfree, hfd, rfl⟩ := fileFd_some h
  refine ⟨hfd, ?_, hfree, ?_, fun g hg => ?_⟩
  · rw [setFd_self]
    rfl
  · change ((s.setFile f _).file f).ref = 1
    rw [setFile_self]
  · change ((s.setFile f _).file g).ref = _
    rw [setFile_of_ne s hg]

theorem OneMore.same_left {s₀ : State} (h : OneMore p fd f s s') (h₀ : SameFiles p s₀ s) :
    OneMore p fd f s₀ s' where
  free := by rw [← h₀.ofile]; exact h.free
  ofile := by rw [← h₀.ofile]; exact h.ofile
  unused := (h₀.ref f).symm.trans h.unused
  used := h.used
  ref g hg := (h.ref g hg).trans (h₀.ref g)

theorem OneMore.same_right {s'' : State} (h : OneMore p fd f s s') (h' : SameFiles p s' s'') :
    OneMore p fd f s s'' where
  free := h.free
  ofile := h'.ofile.trans h.ofile
  unused := h.unused
  used := (h'.ref f).trans h.used
  ref g hg := (h'.ref g).trans (h.ref g hg)

/-- The entry is filled in. -/
theorem SameFiles.opened (s : State) (p f k omode : ℕ) : SameFiles p s (s.opened p f k omode) :=
  ⟨rfl, update_field File.ref (by rfl)⟩

/-! ### The calls that leave nothing behind -/

/-- `copy_helper_COW` opens nothing: the original is not there, or there is no entry of the file
table or no descriptor left for it. -/
def HelperFails (s : State) (p : ℕ) (path : Name) : Prop :=
  inodeOf s.fs.disk s.fs.icache (s.proc p).cwd (State.original path) = none ∨
    s.filealloc = none ∨ s.fdalloc p = none

instance (s : State) (p : ℕ) (path : Name) : Decidable (HelperFails s p path) :=
  inferInstanceAs (Decidable (_ ∨ _ ∨ _))

/-- The name that a call looks up. -/
def lookedUp (names : ℕ → List Name) (cid : ℕ) (path : Name) (omode : ℕ) (byte : Char) : Name :=
  if KeepsName names cid path omode byte then path else path ++ suffix cid

/-- There is one entry of the file table left at most, or one descriptor. -/
def OnePlace (s : State) (p : ℕ) : Prop :=
  (∀ f < NFILE, ∀ g < NFILE, (s.file f).ref = 0 → (s.file g).ref = 0 → f = g) ∨
    ∀ fd < NOFILE, ∀ fd' < NOFILE, (s.proc p).ofile fd = none → (s.proc p).ofile fd' = none →
      fd = fd'

/-- The directory of the name is there, with a regular file of that name or none. -/
def MayMake (disk : Disk) (c : ICache) (cwd : ℕ) (name : Name) : Prop :=
  elements name ≠ [] ∧ ∃ dir ∈ resolve disk (startInum c cwd name) (elements name).dropLast,
    (disk dir).type = .dir ∧
      ∀ i ∈ dirlookup (disk dir).entries (lastElement name), (disk i).type = .file

/-- The tag at the inode `i` is the container's or the host's: that of its entry in the cache or,
if it has none, each that was left in a free one. -/
def TagsPass (c : ICache) (cid i : ℕ) : Prop :=
  ∀ k < NINODE, (0 < (c.inode k).ref ∧ (c.inode k).inum = i ∨ (c.inode k).ref = 0 ∧
      ∀ j < NINODE, 0 < (c.inode j).ref → (c.inode j).inum ≠ i) →
    (c.inode k).containerId = cid ∨ (c.inode k).containerId = 0

/-- The calls that leave nothing behind, by the state before.  One that registers its name finds
places for the file, and makes it; one that makes no file has the right tag at the one that it
finds; and one that copies finds no original, or no places for it. -/
structure Leakless (names : ℕ → List Name) (s : State) (p : ℕ) (path : Name) (omode : ℕ)
    (byte : Char) : Prop where
  registers : Registers names (s.proc p).containerId path omode → Places s p ∧
    MayMake s.fs.disk s.fs.icache (s.proc p).cwd
      (lookedUp names (s.proc p).containerId path omode byte)
  tag : creates omode = false → ¬ Copies names (s.proc p).containerId path omode → Places s p →
    ∀ i ∈ inodeOf s.fs.disk s.fs.icache (s.proc p).cwd
      (lookedUp names (s.proc p).containerId path omode byte),
      ((s.fs.disk i).type = .dir → omode = O_RDONLY) →
        TagsPass s.fs.icache (s.proc p).containerId i
  copies : Copies names (s.proc p).containerId path omode → OnePlace s p ∨
    inodeOf s.fs.disk s.fs.icache (s.proc p).cwd path = none ∧ (elements path).getLast? ≠
      some (lastElement (path ++ suffix (s.proc p).containerId))

/-! ### The places -/

theorem SameFiles.places (h : SameFiles p s s') (hs : Places s p) : Places s' p := by
  obtain ⟨⟨f, hf, href⟩, fd, hfd, hnone⟩ := hs
  exact ⟨⟨f, hf, (h.ref f).trans href⟩, fd, hfd, by rw [h.ofile]; exact hnone⟩

/-- The one place has been taken. -/
theorem OneMore.full (h : OneMore p fd f s s') (hf : f < NFILE) (hfd : fd < NOFILE)
    (hone : OnePlace s p) : s'.filealloc = none ∨ s'.fdalloc p = none := by
  obtain hone | hone := hone
  · refine .inl (List.find?_eq_none.2 fun g hg => ?_)
    rw [List.mem_range] at hg
    by_cases hgf : g = f
    · simp [hgf, h.used]
    · have hused : (s.file g).ref ≠ 0 := fun hfree => hgf (hone g hg f hf hfree h.unused)
      simpa [h.ref g hgf] using hused
  · refine .inr (List.find?_eq_none.2 fun fd' hfd' => ?_)
    rw [List.mem_range] at hfd'
    rw [h.ofile]
    by_cases heq : fd' = fd
    · simp [heq]
    · have hused : (s.proc p).ofile fd' ≠ none := fun hfree => heq (hone fd' hfd' fd hfd hfree h.free)
      simpa [heq] using hused

/-! ### The lookup -/

theorem walk_lt {disk : Disk} {c c' : ICache} {k' : ℕ} (elems : List Name) (hk : k < NINODE)
    (h : walk disk c k elems = .ok (some k', c')) : k' < NINODE := by
  induction elems generalizing c k with
  | nil =>
    cases h
    exact hk
  | cons name rest ih =>
    obtain ⟨d, -, h⟩ := bind_eq_ok.1 h
    split at h
    · cases h
    · split at h
      · cases h
      · obtain ⟨⟨next, c₁⟩, hget, h⟩ := bind_eq_ok.1 h
        exact ih (ICache.iget_spec hget).1 h

theorem namei_lt {disk : Disk} {c c' : ICache} {cwd k' : ℕ} (hcwd : cwd < NINODE)
    (h : namei disk c cwd path = .ok (some k', c')) : k' < NINODE := by
  obtain ⟨⟨k, c₁⟩, hstart, h⟩ := bind_eq_ok.1 h
  refine walk_lt _ ?_ h
  unfold startOf at hstart
  split at hstart
  · exact (ICache.iget_spec hstart).1
  · cases hstart
    exact hcwd

theorem TagsPass.tag {c c' : ICache} {cid : ℕ} (hk : k < NINODE) (hc : Held c (some k) c') (hentry : EntryOf c c' k)
    (h : TagsPass c cid (c'.inode k).inum) :
    (c'.inode k).containerId = cid ∨ (c'.inode k).containerId = 0 := by
  rw [hc.tag]
  by_cases hlive : 0 < (c.inode k).ref
  · exact h k hk (.inl ⟨hlive, (hc.inum k hlive).symm⟩)
  · exact h k hk (.inr ⟨Nat.eq_zero_of_not_pos hlive, (hentry.resolve_left hlive).2⟩)

/-- `create` gives nothing only if the name cannot be made. -/
theorem FileSys.create_none {fs fs' : FileSys} {cwd creator : ℕ}
    (h : fs.create cwd path .file 0 creator = .ok (none, fs')) :
    ¬ MayMake fs.disk fs.icache cwd path := by
  rintro ⟨hne, dir, hdir, htype, hfile⟩
  obtain ⟨⟨rp, c₁⟩, hparent, h⟩ := bind_eq_ok.1 h
  cases rp with
  | none =>
    obtain ⟨⟨k, c⟩, hstart, hparent⟩ := bind_eq_ok.1 hparent
    obtain ⟨hheld, hinum⟩ := startOf_spec hstart
    dsimp only at hparent
    rw [if_neg hne] at hparent
    obtain ⟨⟨r, c₂⟩, hwalk, hparent⟩ := bind_eq_ok.1 hparent
    obtain ⟨-, hres, -⟩ := walk_spec _ hheld hwalk
    rw [hinum, hdir] at hres
    cases r with
    | none => cases hres
    | some dp =>
      obtain ⟨d, hlock, hparent⟩ := bind_eq_ok.1 hparent
      obtain ⟨rfl, -⟩ := ICache.ilock_eq_ok hlock
      have hdp : (c₂.inode dp).inum = dir := Option.some.inj hres
      rw [hdp, if_neg (not_not.2 htype)] at hparent
      cases hparent
  | some dp =>
    obtain ⟨hheld, hdp⟩ := nameiparent_spec hparent
    obtain ⟨-, -, hres⟩ := hdp dp rfl
    rw [hdir, Option.some.injEq] at hres
    obtain ⟨d, hlock, h⟩ := bind_eq_ok.1 h
    obtain ⟨rfl, -⟩ := ICache.ilock_eq_ok hlock
    rw [← hres] at h
    split at h
    next inum hlookup =>
      obtain ⟨⟨ip, c₂⟩, hget, h⟩ := bind_eq_ok.1 h
      obtain ⟨-, hinum⟩ := hheld.move hget
      obtain ⟨t, hlock', h⟩ := bind_eq_ok.1 h
      obtain ⟨rfl, -⟩ := ICache.ilock_eq_ok hlock'
      rw [hinum, if_pos ⟨rfl, hfile inum hlookup⟩] at h
      cases h
    · obtain ⟨inum, -, h⟩ := bind_eq_ok.1 h
      obtain ⟨⟨ip, c₂⟩, -, h⟩ := bind_eq_ok.1 h
      obtain ⟨disk, -, h⟩ := bind_eq_ok.1 h
      cases h

/-- A path that led nowhere does so after a new file, unless it ends with its name. -/
theorem resolve_madeDisk_none {disk : Disk} {dir inum i : ℕ} {name : Name} {d : Dinode}
    {elems : List Name} (hdir : (disk dir).type = .dir) (hfree : (disk inum).type = .free)
    (hinum : inum ≠ 0) (hnone : dirlookup (disk dir).entries name = none) (hd : d.type = .file)
    (hlast : elems.getLast? ≠ some name)
    (h : resolve disk i elems = none) : resolve (madeDisk disk dir inum name d) i elems = none := by
  have hne := ne_of_dir hdir hfree
  induction elems generalizing i with
  | nil => cases h
  | cons first rest ih =>
    have hnew : rest ≠ [] → resolve (madeDisk disk dir inum name d) inum rest = none := by
      intro hrest
      obtain ⟨x, xs, rfl⟩ := List.exists_cons_of_ne_nil hrest
      unfold resolve
      rw [madeDisk_new hne, hd]
      rfl
    unfold resolve at h ⊢
    rw [madeDisk_type hne]
    by_cases hi : i = inum
    · rw [if_pos hi, hd]
      rfl
    · rw [if_neg hi]
      split
      next htype =>
        rw [if_pos htype] at h
        -- what the directory answers for the first name
        cases hlook : dirlookup (madeDisk disk dir inum name d i).entries first with
        | none => rfl
        | some j =>
          rw [Option.bind_some]
          by_cases hold : dirlookup (disk i).entries first = some j
          · rw [hold, Option.bind_some] at h
            by_cases hrest : rest = []
            · subst hrest
              cases h
            · refine ih ?_ h
              rwa [List.getLast?_cons_of_ne_nil hrest] at hlast
          · obtain rfl : i = dir := by
              by_contra hid
              rw [madeDisk_of_ne hid hi] at hlook
              exact hold hlook
            rw [madeDisk_dir hne] at hlook
            have hfirst : first = name := by
              by_contra hfirst
              rw [dirlookup_linked_of_ne fun heq => hfirst heq.symm] at hlook
              exact hold hlook
            subst hfirst
            obtain rfl : inum = j :=
              Option.some.inj ((dirlookup_linked_self hinum hnone).symm.trans hlook)
            refine hnew fun hrest => hlast ?_
            rw [hrest]
            rfl
      · rfl

/-- A copy that opens nothing leaves the files. -/
theorem Copying.sameFiles {i : ℕ} (h : Copying s p path i s') (hfails : HelperFails s p path) :
    SameFiles p s s' := by
  cases h with
  | lost hpage _ => exact (SameFiles.of_renamed (scratch_renamed p hpage)).trans (.of_eq rfl rfl)
  | @full s₁ s₂ c k hpage _ _ hfd =>
    have hfirst := SameFiles.of_renamed (scratch_renamed p hpage)
    have hcache : SameFiles p s₁ (s₁.setCache c) := .of_eq rfl rfl
    exact ((hfirst.trans hcache).trans (.of_fileFd_none hfd)).trans (.of_eq rfl rfl)
  | @copied s₁ s₂ s₃ c k fd g hpage hname _ hfd _ =>
    exfalso
    have hren := scratch_renamed p hpage
    obtain hnone | hnone | hnone := hfails
    · have hinode := (namei_spec hname).2.1
      rw [hren.fs, hren.cwd, hnone] at hinode
      cases hinode
    · have halloc : (s₁.setCache c).filealloc = none := by
        unfold State.filealloc at hnone ⊢
        change ((List.range NFILE).find? fun f => (s₁.file f).ref = 0) = none
        rw [hren.file]
        exact hnone
      unfold State.fileFd at hfd
      rw [halloc] at hfd
      cases hfd
    · have halloc : (s₁.setCache c).fdalloc p = none := by
        obtain ⟨mem, hmem⟩ := hren.self
        unfold State.fdalloc at hnone ⊢
        change ((List.range NOFILE).find? fun fd => ((s₁.proc p).ofile fd).isNone) = none
        rw [hmem]
        exact hnone
      unfold State.fileFd at hfd
      rw [halloc] at hfd
      split at hfd <;> cases hfd

/-- A path that led nowhere does so after `create`, unless it ends with the name of the new file. -/
theorem FileSys.create_keeps_none {fs fs' : FileSys} {cwd creator cid : ℕ} {name : Name}
    (hlive : 0 < (fs.icache.inode cwd).ref)
    (hlast : (elements path).getLast? ≠ some (lastElement name))
    (hnone : inodeOf fs.disk fs.icache cwd path = none)
    (h : fs.create cwd name .file 0 creator = .ok (some k, fs')) :
    inodeOf (fs'.retag k cid).disk (fs'.retag k cid).icache cwd path = none := by
  unfold inodeOf startInum at hnone ⊢
  have hinum : ((fs'.retag k cid).icache.inode cwd).inum = (fs'.icache.inode cwd).inum :=
    update_field Inode.inum (by rfl) cwd
  rw [hinum]
  obtain ⟨hr, -⟩ | ⟨k', dir, c, hk, hheld, hdir, -, -, hcase⟩ := FileSys.create_eq_ok h
  · cases hr
  · obtain ⟨-, -, rfl⟩ | ⟨hlookup, hfree, rfl⟩ := hcase
    · dsimp only
      rw [hheld.inum cwd hlive]
      exact hnone
    · dsimp only
      rw [hheld.inum cwd hlive]
      exact resolve_madeDisk_none hdir hfree.2 (by omega) hlookup rfl hlast hnone

/-- The first half of `sys_open`, by the names. -/
structure Naming (names : ℕ → List Name) (s : State) (p addr : ℕ) (path : Name) (omode : ℕ)
    (name : Name) (makeCopy : Bool) (s₁ : State) : Prop where
  renamed : Renamed p s s₁
  name : name = lookedUp names (s.proc p).containerId path omode
    ((s.proc p).mem (addr + path.length - 2))
  copies : makeCopy = true ↔ Copies names (s.proc p).containerId path omode
  unregistered : ¬ Registers names (s.proc p).containerId path omode →
    registered s p addr omode = none

namespace Naming

variable {name : Name} {s₁ s₂ s₃ : State}

theorem of_rename (hcid : (s.proc p).containerId < NCONTAINER)
    (hhost : (s.proc p).Sees s.fileTable names 0)
    (hown : (s.proc p).Sees s.fileTable names (s.proc p).containerId)
    (hpath : (s.proc p).fetchstr addr = some path)
    (hname : s.rename p addr path omode = .ok (name, makeCopy, s₁)) :
    Naming names s p addr path omode name makeCopy s₁ := by
  obtain ⟨r, -, hr, rfl, rfl, -, -, -⟩ := rename_records hname
  obtain ⟨happend, hcopy, hreg⟩ :=
    renaming_names (nul_not_mem_of_fetchstr hpath) hcid hhost hown hr
  refine ⟨rename_renamed hname, ?_, hcopy, fun hno => ?_⟩
  · unfold lookedUp
    by_cases hkeep : KeepsName names (s.proc p).containerId path omode
        ((s.proc p).mem (addr + path.length - 2))
    · rw [if_pos hkeep, happend.2 hkeep, if_neg Bool.false_ne_true]
    · rw [if_neg hkeep, Bool.eq_true_of_not_eq_false fun hno => hkeep (happend.1 hno), if_pos rfl]
  · rw [registered_eq hpath hr, if_neg fun hyes => hno (hreg.1 hyes)]

/-- A name that is registered is made. -/
theorem makes (h : Naming names s p addr path omode name makeCopy s₁)
    (hreg : Registers names (s.proc p).containerId path omode)
    (hlook : s₁.openInode p name omode makeCopy = .ok (none, s₂)) :
    ¬ MayMake s.fs.disk s.fs.icache (s.proc p).cwd (lookedUp names (s.proc p).containerId path omode
      ((s.proc p).mem (addr + path.length - 2))) := by
  obtain ⟨-, fs, hcreate, -⟩ | ⟨hno, -⟩ := openInode_cases hlook
  · rw [h.renamed.fs, h.renamed.cwd, h.name] at hcreate
    exact FileSys.create_none hcreate
  · rw [Bool.or_eq_false_iff] at hno
    obtain hcopies | ⟨-, hcreate⟩ := hreg
    · rw [h.copies.2 hcopies] at hno
      cases hno.2
    · rw [hcreate] at hno
      cases hno.1

/-- The caller may use what the lookup finds. -/
theorem tagPasses (h : Naming names s p addr path omode name makeCopy s₁)
    (hcwd : (s.proc p).cwd < NINODE) (hlive : 0 < (s.fs.icache.inode (s.proc p).cwd).ref)
    (hleakless : Leakless names s p path omode ((s.proc p).mem (addr + path.length - 2)))
    (hbefore : SameFiles p s s₂) (hlook : s₁.openInode p name omode makeCopy = .ok (some k, s₂))
    (hfd : s₂.fileFd p = (some (fd, f), s₃)) : TagPasses s₃ p k := by
  have hcid : (s₃.proc p).containerId = (s.proc p).containerId := by
    obtain ⟨-, -, -, -, rfl⟩ := fileFd_some hfd
    rw [setFd_self]
    change (s₂.proc p).containerId = _
    rw [(openInode_looked hlook).proc, h.renamed.containerId]
  unfold TagPasses
  rw [fileFd_fs hfd, hcid]
  obtain ⟨-, fs, -, rfl⟩ | ⟨hno, o, c, hnamei, hend⟩ := openInode_cases hlook
  · left
    change ((fs.icache.set k _).inode k).containerId = _
    rw [ICache.set_inode_self]
    exact h.renamed.containerId p
  · obtain ⟨rfl, rfl, hgood⟩ | ⟨hr, -⟩ := hend
    · rw [Bool.or_eq_false_iff] at hno
      rw [h.renamed.fs, h.renamed.cwd, h.name] at hnamei
      obtain ⟨hheld, hinode, -⟩ := namei_spec hnamei
      obtain ⟨hf, hfd', href, hnone, -⟩ := fileFd_some hfd
      have hplaces : Places s p :=
        ⟨⟨f, hf, (hbefore.ref f).symm.trans href⟩, fd, hfd', by rw [← hbefore.ofile]; exact hnone⟩
      have hdir := (hgood k rfl).2
      rw [h.renamed.fs] at hdir
      have hcopies : ¬ Copies names (s.proc p).containerId path omode := fun hyes => by
        rw [h.copies.2 hyes] at hno
        cases hno.2
      exact (hleakless.tag hno.1 hcopies hplaces _ hinode.symm hdir).tag
        (namei_lt hcwd hnamei) hheld (namei_entry hlive hnamei)
    · cases hr

/-- The helper opens nothing. -/
theorem helperFails (h : Naming names s p addr path omode name true s₁)
    (hlive : 0 < (s.fs.icache.inode (s.proc p).cwd).ref)
    (hleakless : Leakless names s p path omode ((s.proc p).mem (addr + path.length - 2)))
    (hbefore : SameFiles p s s₂) (hlook : s₁.openInode p name omode true = .ok (some k, s₂))
    (hfd : s₂.fileFd p = (some (fd, f), s₃)) : HelperFails (s₃.opened p f k omode) p name := by
  have hcopies := h.copies.1 rfl
  obtain ⟨hf, hfd', -⟩ := fileFd_some hfd
  obtain hone | ⟨hnone, hlast⟩ := hleakless.copies hcopies
  · have hmore := ((OneMore.of_fileFd hfd).same_left hbefore).same_right
      (.opened s₃ p f k omode)
    exact .inr (hmore.full hf hfd' hone)
  · have hname : name = path ++ suffix (s.proc p).containerId := by
      rw [h.name, lookedUp, if_neg]
      obtain ⟨hzero, hexisting, hread, hwrite, -⟩ := hcopies
      simp [KeepsName, hzero, hexisting, hread, hwrite]
    have horiginal : State.original name = path := by
      rw [hname, State.original, List.length_append]
      exact List.take_left' rfl
    have hproc : ((s₃.opened p f k omode).proc p).cwd = (s.proc p).cwd := by
      obtain ⟨-, -, -, -, rfl⟩ := fileFd_some hfd
      change (((s₂.setFile f _).setFd p fd (some f)).proc p).cwd = _
      rw [setFd_self]
      change (s₂.proc p).cwd = _
      rw [(openInode_looked hlook).proc, h.renamed.cwd]
    have hfs : (s₃.opened p f k omode).fs = s₂.fs := (fileFd_fs hfd : s₃.fs = s₂.fs)
    left
    rw [hfs, hproc, horiginal]
    obtain ⟨-, fs, hcreate, rfl⟩ | ⟨hno, -⟩ := openInode_cases hlook
    · rw [h.renamed.fs, h.renamed.cwd] at hcreate
      rw [← hname] at hlast
      exact FileSys.create_keeps_none hlive hlast hnone hcreate
    · simp at hno

end Naming

/-- A call that registers no name leaves the tables. -/
theorem Opening.tables {n : ℤ} (h : Opening s p addr omode n s')
    (hnone : registered s p addr omode = none) :
    s'.containers = s.containers ∧ s'.filesOfContainer = s.filesOfContainer := by
  obtain ⟨-, rfl⟩ | ⟨path, x, t, hpath, hx, -, hreg, hsame⟩ := h.records
  · exact ⟨rfl, rfl⟩
  · rw [registered_eq hpath hx] at hnone
    unfold State.register at hreg
    split at hreg
    next hregister =>
      rw [if_pos hregister] at hnone
      cases hnone
    · cases hreg
      exact ⟨hsame.containers, hsame.filesOfContainer⟩

/-- Nothing has changed in what `sys_open` takes. -/
structure SameCounts (p : ℕ) (s s' : State) : Prop extends SameFiles p s s' where
  inode : ∀ j, (s'.fs.icache.inode j).ref = (s.fs.icache.inode j).ref
  containers : s'.containers = s.containers
  filesOfContainer : s'.filesOfContainer = s.filesOfContainer

end Files
end Xv6
