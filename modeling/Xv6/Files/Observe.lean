/-
# A process observes its view

As long as the kernel has room (`Room`) and the inode to which the name leads is
marked with its creator (`Marked`), `sys_open` with `O_RDONLY` and the reads after
it give a process exactly its view (`observe_eq_view`).
-/

import Xv6.Files.Choice
import Xv6.Files.Tags
import Xv6.Files.View

namespace Xv6
namespace Files

open Lib

variable {s : State} {q f k i addr : ℕ} {path path' : Name}

/-- There is room for an open: two pages, two cache entries and a file. -/
def Room (s : State) : Prop :=
  2 ≤ s.freelist.length ∧ TwoFree s.fs.icache ∧ s.filealloc.isSome = true

instance (c : ICache) : Decidable (TwoFree c) := inferInstanceAs (Decidable (∃ i < NINODE, _))

instance (s : State) : Decidable (Room s) := inferInstanceAs (Decidable (_ ∧ _))

/-- The cache entry to which the name leads is marked with the creator of its inode, or not at
all if that is the caller's container. -/
def Marked (s : State) (q addr : ℕ) : Prop :=
  ∀ x ∈ looked s q addr O_RDONLY,
    (x.2.fs.icache.inode x.1).containerId =
        (x.2.fs.disk (x.2.fs.icache.inode x.1).inum).creator ∨
      (x.2.fs.icache.inode x.1).containerId = 0 ∧
        (x.2.fs.disk (x.2.fs.icache.inode x.1).inum).creator = (s.proc q).containerId

/-- Nothing on the way of a lookup is free. -/
theorem Grounded.lockable {fs : FileSys} (h : Grounded fs) (names : List Name)
    (hi : (fs.disk i).type ≠ .free) : Lockable fs.disk i names := by
  induction names generalizing i with
  | nil => trivial
  | cons name rest ih =>
    refine ⟨hi, fun hdir j hj => ih ?_⟩
    obtain ⟨e, he, rfl, hne, -⟩ := mem_of_dirlookup hj
    exact h.entry i hdir e he hne

/-- Nor is what it finds. -/
theorem Grounded.resolve_type {fs : FileSys} {names : List Name} {j : ℕ} (h : Grounded fs)
    (hi : (fs.disk i).type ≠ .free) (hres : resolve fs.disk i names = some j) :
    (fs.disk j).type ≠ .free := by
  induction names generalizing i with
  | nil =>
    cases hres
    exact hi
  | cons name rest ih =>
    unfold resolve at hres
    obtain ⟨hdir, hres⟩ := Option.ite_none_right_eq_some.1 hres
    obtain ⟨next, hlookup, hres⟩ := Option.bind_eq_some_iff.1 hres
    obtain ⟨e, he, rfl, hne, -⟩ := mem_of_dirlookup hlookup
    exact ih (h.entry i hdir e he hne) hres

/-- The lookup of an open for reading ends where the path leads. -/
theorem openInode_rdonly (h : Grounded s.fs) (hcwd : 0 < (s.fs.icache.inode (s.proc q).cwd).ref)
    (hroom : TwoFree s.fs.icache) (path : Name) :
    ∃ r c, s.openInode q path O_RDONLY false = .ok (r, s.setCache c) ∧ Held s.fs.icache r c ∧
      r.map (fun k => (c.inode k).inum) =
        inodeFrom s.fs.disk (s.fs.icache.inode (s.proc q).cwd).inum path ∧
      ∀ k ∈ r, (s.fs.disk (c.inode k).inum).type ≠ .free := by
  have hstart : (s.fs.disk (startInum s.fs.icache (s.proc q).cwd path)).type ≠ .free := by
    unfold startInum
    split
    · exact h.root
    · exact h.live _ hcwd
  obtain ⟨r, c, hnamei⟩ := namei_returns hroom (h.lockable (elements path) hstart)
  obtain ⟨hc, hinode, -⟩ := namei_spec hnamei
  have htype : ∀ k ∈ r, (s.fs.disk (c.inode k).inum).type ≠ .free := by
    rintro k rfl
    exact h.resolve_type hstart hinode.symm
  refine ⟨r, c, ?_, hc, hinode, htype⟩
  unfold State.openInode
  dsimp only
  rw [if_neg (by decide), hnamei, ok_bind]
  cases r with
  | none => rfl
  | some k =>
    have hlock := ICache.ilock_returns hc.pos (htype k rfl)
    dsimp only
    rw [hlock, ok_bind, if_neg fun h => h.2 rfl]

/-- **The entry is marked as it should be** if the marks of the inodes are, to which the name leads
with the suffix and without. -/
theorem Marked.of_tagRight (hcwd : 0 < (s.fs.icache.inode (s.proc q).cwd).ref)
    (h : ∀ path ∈ (s.proc q).fetchstr addr, ∀ name, name = path ∨ (s.proc q).containerId ≠ 0 ∧
      name = path ++ suffix (s.proc q).containerId →
        ∀ i ∈ inodeOf s.fs.disk s.fs.icache (s.proc q).cwd name, TagRight s.fs i) :
    Marked s q addr := by
  rintro ⟨k, s₂⟩ hlooked
  obtain ⟨⟨name, makeCopy, s₁⟩, hnamed, hlooked⟩ := Option.bind_eq_some_iff.1 hlooked
  obtain ⟨path, hpath, hname⟩ := Option.bind_eq_some_iff.1 hnamed
  obtain ⟨⟨o, s₃⟩, hinode, hlooked⟩ := Option.bind_eq_some_iff.1 hlooked
  obtain ⟨k', rfl, heq⟩ := Option.map_eq_some_iff.1 hlooked
  cases heq
  have hname := ok_of_toOption hname
  obtain ⟨r, -, hr, hpath', rfl, -, -, -⟩ := rename_records hname
  have hren := rename_renamed hname
  have hcopy := (renaming_rdonly hr).2.1
  obtain ⟨hnew, -⟩ | ⟨-, o, c, hnamei, hend⟩ := openInode_cases (ok_of_toOption hinode)
  · rw [hcopy] at hnew
    cases hnew
  · obtain ⟨rfl, rfl, -⟩ | ⟨hr, -⟩ := hend
    · rw [hren.fs, hren.cwd] at hnamei
      have hleads := (namei_spec hnamei).2.1.symm
      have hor : name = path ∨ (s.proc q).containerId ≠ 0 ∧
          name = path ++ suffix (s.proc q).containerId := by
        rw [hpath']
        split
        next happend =>
          refine .inr ⟨fun hzero => ?_, rfl⟩
          rw [append_host hzero hr] at happend
          cases happend
        · exact .inl rfl
      have htag := (h path hpath name hor _ hleads).tag (namei_spec hnamei).1
        (namei_entry hcwd hnamei)
      refine .inl ?_
      change (c.inode k).containerId = (s₁.fs.disk (c.inode k).inum).creator
      rw [hren.fs]
      exact htag
    · cases hr

theorem WellMarked.inodeOf_type {fs : FileSys} {cwd : ℕ} (h : WellMarked fs)
    (hcwd : 0 < (fs.icache.inode cwd).ref)
    (hi : inodeOf fs.disk fs.icache cwd path = some i) : (fs.disk i).type ≠ .free := by
  refine h.grounded.resolve_type ?_ hi
  unfold startInum
  split
  · exact h.grounded.root
  · exact h.grounded.live _ hcwd

/-- Which files are let through, if the entry is marked as it should be. -/
theorem Marked.tagPasses_iff {s₁ : State} (h : Marked s q addr)
    (hlk : looked s q addr O_RDONLY = some (k, s₁))
    (hcid : (s₁.proc q).containerId = (s.proc q).containerId) :
    TagPasses s₁ q k ↔
      (s₁.fs.disk (s₁.fs.icache.inode k).inum).creator = (s.proc q).containerId ∨
        (s₁.fs.disk (s₁.fs.icache.inode k).inum).creator = 0 := by
  unfold TagPasses
  rw [hcid]
  obtain htag | ⟨hzero, hown⟩ := h _ hlk
  · dsimp only at htag
    rw [htag]
  · exact ⟨fun _ => .inl hown, fun _ => .inr hzero⟩

/-- The descriptor, if there is a file for it and the inode is let through. -/
theorem openFd_some {fd : ℕ} (path : Name) (omode : ℕ) (makeCopy : Bool)
    (hf : s.filealloc = some f) (hfd : s.fdalloc q = some fd) (htag : TagPasses s q k) :
    s.openFd q k path omode makeCopy = (some ⟨fd, f, path, makeCopy⟩,
      ((s.setFile f { s.file f with ref := 1 }).setFd q fd (some f)).opened q f k omode) := by
  have hfileFd : s.fileFd q =
      (some (fd, f), (s.setFile f { s.file f with ref := 1 }).setFd q fd (some f)) := by
    unfold State.fileFd
    rw [hf, hfd]
  have htag' : TagPasses ((s.setFile f { s.file f with ref := 1 }).setFd q fd (some f)) q k := by
    unfold TagPasses
    rw [setFd_self]
    exact htag
  unfold State.openFd
  rw [hfileFd]
  exact if_pos htag'

/-- It can be read. -/
theorem opened_readable {fd : ℕ} (hfd : s.fdalloc q = some fd) (htag : TagPasses s q k)
    (href : 0 < (s.fs.icache.inode k).ref) (f : ℕ)
    (htype : (s.fs.disk (s.fs.icache.inode k).inum).type ≠ .free) :
    ∃ s', ((s.setFile f { s.file f with ref := 1 }).setFd q fd (some f)).opened q f k O_RDONLY = s' ∧
      Readable s' q fd f k (s.fs.disk (s.fs.icache.inode k).inum) ∧ (s'.file f).off = 0 ∧
      s'.console = s.console ∧ (s'.proc q).mem = (s.proc q).mem ∧
      (s'.proc q).sz = (s.proc q).sz := by
  have hproc : (((s.setFile f { s.file f with ref := 1 }).setFd q fd (some f)).opened q f k
      O_RDONLY).proc q = { s.proc q with ofile := Function.update (s.proc q).ofile fd (some f) } :=
    setFd_self ..
  refine ⟨_, rfl, ⟨?_, ?_, ?_, ?_, href, rfl, htype⟩, ?_, rfl, by rw [hproc],
    by rw [hproc]⟩
  · have hlt : fd < NOFILE := (fdalloc_eq_some hfd).1
    unfold State.argfd
    rw [hproc, if_neg (by omega), Int.toNat_natCast]
    exact Function.update_self ..
  · rw [State.opened, State.fill, setFile_self]
    exact ⟨rfl, rfl⟩
  · rw [State.opened, State.fill, setFile_self]
    rfl
  · unfold TagPasses
    rw [hproc]
    exact htag
  · rw [State.opened, State.fill, setFile_self]

theorem openFd_none {omode : ℕ} {makeCopy : Bool} (hf : s.filealloc = some f)
    (hfail : s.fdalloc q = none ∨ ¬ TagPasses s q k) :
    ∃ s', s.openFd q k path omode makeCopy = (none, s') := by
  unfold State.openFd
  cases hfd : s.fdalloc q with
  | none =>
    have hfileFd : s.fileFd q = (none, s.setFile f { s.file f with type := .none }) := by
      unfold State.fileFd
      rw [hf, hfd]
    rw [hfileFd]
    exact ⟨_, rfl⟩
  | some fd =>
    have hfileFd : s.fileFd q =
        (some (fd, f), (s.setFile f { s.file f with ref := 1 }).setFd q fd (some f)) := by
      unfold State.fileFd
      rw [hf, hfd]
    have htag : ¬ TagPasses ((s.setFile f { s.file f with ref := 1 }).setFd q fd (some f)) q k := by
      unfold TagPasses
      rw [setFd_self]
      exact hfail.resolve_left (by rw [hfd]; nofun)
    rw [hfileFd]
    exact ⟨_, if_neg htag⟩

section

variable {s₁ : State} (h : Grounded s.fs) (hcwd : 0 < (s.fs.icache.inode (s.proc q).cwd).ref)
  (hroom : Room s) (hpath : (s.proc q).fetchstr addr = some path)
  (hname : s.rename q addr path O_RDONLY = .ok (path', false, s₁))

include h hcwd hroom hname

/-- The lookup, from where the name was chosen. -/
theorem lookup_rdonly :
    ∃ r c, s₁.openInode q path' O_RDONLY false = .ok (r, s₁.setCache c) ∧ Held s.fs.icache r c ∧
      r.map (fun k => (c.inode k).inum) =
        inodeFrom s.fs.disk (s.fs.icache.inode (s.proc q).cwd).inum path' ∧
      ∀ k ∈ r, (s.fs.disk (c.inode k).inum).type ≠ .free := by
  have hren := rename_renamed hname
  have hfs := hren.fs
  have hproc := hren.cwd q
  rw [← hfs] at h ⊢
  rw [← hproc]
  exact openInode_rdonly h (by rw [hfs, hproc]; exact hcwd) (by rw [hfs]; exact hroom.2.1) path'

include hpath

/-- An open of a name that leads nowhere. -/
theorem sysOpen_missing
    (hnone : inodeFrom s.fs.disk (s.fs.icache.inode (s.proc q).cwd).inum path' = none) :
    ∃ s', sysOpen s q addr O_RDONLY = .ok (-1, s') := by
  obtain ⟨r, c, hlook, -, hinode, -⟩ := lookup_rdonly h hcwd hroom hname
  rw [hnone, Option.map_eq_none_iff] at hinode
  subst hinode
  refine ⟨s₁.setCache c, ?_⟩
  unfold sysOpen State.openFile
  rw [hpath]
  dsimp only
  rw [hname, ok_bind]
  dsimp only
  rw [hlook, ok_bind]
  rfl

/-- An open of a name that leads to an inode: it returns a descriptor of it if there is one,
and the inode is let through. -/
theorem sysOpen_found
    (hsome : inodeFrom s.fs.disk (s.fs.icache.inode (s.proc q).cwd).inum path' = some i) :
    ∃ k c, looked s q addr O_RDONLY = some (k, s₁.setCache c) ∧ (c.inode k).inum = i ∧
      (((s₁.proc q).freeFd = none ∨ ¬ TagPasses (s₁.setCache c) q k) →
        ∃ s', sysOpen s q addr O_RDONLY = .ok (-1, s')) ∧
      ∀ fd : ℕ, (s₁.proc q).freeFd = some fd → TagPasses (s₁.setCache c) q k →
        ∃ f s', sysOpen s q addr O_RDONLY = .ok ((fd : ℤ), s') ∧
          Readable s' q fd f k (s.fs.disk i) ∧ (s'.file f).off = 0 ∧ s'.console = s₁.console ∧
          (s'.proc q).mem = (s₁.proc q).mem ∧ (s'.proc q).sz = (s₁.proc q).sz := by
  have hren := rename_renamed hname
  obtain ⟨r, c, hlook, hc, hinode, htype⟩ := lookup_rdonly h hcwd hroom hname
  rw [hsome] at hinode
  obtain ⟨k, rfl, rfl⟩ := Option.map_eq_some_iff.1 hinode
  obtain ⟨f, hf⟩ := Option.isSome_iff_exists.1 hroom.2.2
  have halloc : (s₁.setCache c).filealloc = some f := by
    unfold State.filealloc at hf ⊢
    rw [← hf]
    change (List.range NFILE).find? (fun f => (s₁.file f).ref = 0) = _
    rw [hren.file]
  have hopen : s.openFile q addr O_RDONLY =
      .ok ((s₁.setCache c).openFd q k path' O_RDONLY false) := by
    unfold State.openFile
    rw [hpath]
    dsimp only
    rw [hname, ok_bind]
    dsimp only
    rw [hlook, ok_bind]
  refine ⟨k, c, by simp [looked, named, hpath, hname, hlook, Except.toOption], rfl,
    fun hfail => ?_, fun fd hfd htag => ?_⟩
  · obtain ⟨s', hnone⟩ := openFd_none halloc hfail
    refine ⟨s', ?_⟩
    unfold sysOpen
    rw [hopen, ok_bind, hnone]
  · have hfd : (s₁.setCache c).fdalloc q = some fd := hfd
    have hsome := openFd_some path' O_RDONLY false halloc hfd htag
    obtain ⟨s', hs', hreadable⟩ := opened_readable hfd htag hc.pos f (by
      change (s₁.fs.disk (c.inode k).inum).type ≠ .free
      rw [hren.fs]
      exact htype k rfl)
    rw [hs'] at hsome
    refine ⟨f, s', by unfold sysOpen; rw [hopen, ok_bind, hsome]; rfl, ?_⟩
    rw [← hren.fs]
    exact hreadable

end

/-- **What a process observes is its view.** -/
theorem observe_eq_view (h : Grounded s.fs) (hcwd : 0 < (s.fs.icache.inode (s.proc q).cwd).ref)
    (hroom : Room s) (hmarked : Marked s q addr) (reads : List (ℕ × ℕ)) :
    observe s q addr reads = view (s.proc q) s.fileTable s.fs.disk s.console
      (s.fs.icache.inode (s.proc q).cwd).inum addr reads := by
  have hnothing : (∃ s', sysOpen s q addr O_RDONLY = .ok (-1, s')) →
      observe s q addr reads = .ok (nothing reads) := by
    rintro ⟨s', hopen⟩
    unfold observe
    rw [hopen, ok_bind]
    dsimp only
    rw [readAll_nothing, ok_bind]
    rfl
  unfold view
  cases hpath : (s.proc q).fetchstr addr with
  | none =>
    refine hnothing ⟨s, ?_⟩
    unfold sysOpen State.openFile
    rw [hpath]
    rfl
  | some path =>
    dsimp only
    obtain ⟨e, hview, hname⟩ | ⟨path', s₁, hview, hname, hconsole⟩ := rename_rdonly path hroom.1
    · unfold observe sysOpen State.openFile
      rw [hpath]
      dsimp only
      rw [hname, hview]
      rfl
    · rw [hview, ok_bind]
      dsimp only
      have hcid := (rename_renamed hname).containerId q
      cases hinode : inodeFrom s.fs.disk (s.fs.icache.inode (s.proc q).cwd).inum path' with
      | none => exact hnothing (sysOpen_missing h hcwd hroom hpath hname hinode)
      | some i =>
        obtain ⟨k, c, hlk, hinum, hfail, hopens⟩ :=
          sysOpen_found h hcwd hroom hpath hname hinode
        have hpass := hmarked.tagPasses_iff hlk hcid
        have hdisk : (s₁.setCache c).fs.disk ((s₁.setCache c).fs.icache.inode k).inum =
            s.fs.disk i := by
          rw [← hinum, ← (rename_renamed hname).fs]
          rfl
        rw [hdisk, ← hcid] at hpass
        cases hfd : (s₁.proc q).freeFd with
        | none => exact hnothing (hfail (.inl hfd))
        | some fd =>
          dsimp only
          split
          next hcreator =>
            obtain ⟨f, s', hopen, hreadable, hoff, hconsole', hmem, hsz⟩ :=
              hopens fd hfd (hpass.2 hcreator)
            unfold observe
            rw [hopen, ok_bind]
            dsimp only
            rw [hreadable.readAll_eq, hoff, hconsole', hconsole,
              readsFrom_congr (fun _ _ _ => rfl) hmem hsz]
          · next hcreator => exact hnothing (hfail (.inr fun htag => hcreator (hpass.1 htag)))

end Files
end Xv6
