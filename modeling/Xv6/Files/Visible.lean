/-
# What `ls` shows and what `open` opens

`ls` in a container shows a name when the directory has it without a suffix, or
with the container's and `get_file_container_id` does not take it for the
host's.  `sys_open` for reading looks the name up as it is when it takes it for
the host's and the container has not registered a copy (`plainly`), and with the
suffix otherwise.  The two agree in a directory whose names fall apart in two
kinds (`Apart`): those without a suffix, which are all looked up as they are,
and those with the container's, which are shown just if they are looked up so.

A copy made by a first write is shown beside the original, so its name is
printed twice; and a directory of the host that is not among the initial files
is shown in every container, though none can open it.
-/

import Xv6.Files.Ls
import Xv6.Files.Observe
import Xv6.Files.Reading

namespace Xv6
namespace Files

open Lib State

variable {s s' : State} {p q addr : ℕ} {x name : Name} {names : ℕ → List Name} {c : ℕ}
  {entries : List Dirent}

theorem dirlookup_isSome : (dirlookup entries name).isSome ↔
    ∃ e ∈ entries, e.inum ≠ 0 ∧ e.name = name := by
  rw [Option.isSome_iff_ne_none, ne_eq, dirlookup_eq_none]
  simp

/-! ### A run of `ls` -/

/-- `get_file_container_id` has answered `a` for a name, at some moment. -/
def Answered (names : ℕ → List Name) (p : ℕ) (name : Name) (a : ℤ) : Prop :=
  ∃ (t t' : State) (addr : ℕ), (t.proc p).fetchstr addr = some name ∧
    (t.proc p).Sees t.fileTable names 0 ∧ sysGetFileContainerId t p addr = .ok (a, t')

/-- The process `p` has run `ls` without arguments from the state `s`, and `out` is what it has
printed. -/
def Listing (names : ℕ → List Name) (s : State) (p : ℕ) (out : List Name) : Prop :=
  ∃ (addr k : ℕ) (n : ℤ) (s' s₂ : State) (fileCid : Name → ℤ),
    Request names s p addr ['.'] ∧ sysOpen s p addr O_RDONLY = .ok (n, s') ∧ 0 ≤ n ∧
    looked s p addr O_RDONLY = some (k, s₂) ∧
    (∀ e ∈ (s₂.fs.disk (s₂.fs.icache.inode k).inum).entries, e.inum ≠ 0 → ∀ x,
      e.name = x ++ suffix (s.proc p).containerId → Answered names p e.name (fileCid e.name)) ∧
    out = ls (s.proc p).containerId fileCid ['.']
      (s₂.fs.disk (s₂.fs.icache.inode k).inum).entries

/-- A name that `sys_open` looks up for reading as it is: always in the host, and in a container
if it is taken for the host's and no copy is registered. -/
def plainly (names : ℕ → List Name) (c : ℕ) (x : Name) : Bool :=
  c = 0 || (hostName (names 0) x && !(names c).any (x ++ suffix c).isPrefixOf)

/-- The names in a directory fall apart in those that a process of the container `c` looks up as
they are and those that it looks up with its suffix. -/
structure Apart (names : ℕ → List Name) (c : ℕ) (entries : List Dirent) : Prop where
  plain : ∀ e ∈ entries, e.inum ≠ 0 → ¬ Suffixed e.name → plainly names c e.name = true
  own : ∀ e ∈ entries, e.inum ≠ 0 → ∀ x, e.name = x ++ suffix c →
    hostName (names 0) e.name = plainly names c x

/-- A name that an entry can have, without a suffix. -/
structure Ordinary (names : ℕ → List Name) (c : ℕ) (x : Name) : Prop where
  nonempty : x ≠ []
  slash : '/' ∉ x
  plain : ¬ Suffixed x
  fits : (openName names c x).length ≤ DIRSIZ

theorem openName_eq (hplain : ¬ Suffixed x) (hinside : LooksInside (names 0) c x O_RDONLY) :
    openName names c x = if plainly names c x then x else x ++ suffix c := by
  have happend : (chosen names c x O_RDONLY).append = !plainly names c x := by
    unfold chosen plainly
    dsimp only
    by_cases hc : c = 0
    · rw [if_pos hc, decide_eq_true hc, if_neg (by decide : ¬ creates O_RDONLY = true)]
      subst hc
      simp
    · rw [if_neg hc, decide_eq_false hc, if_neg (by decide : ¬ creates O_RDONLY = true)]
      cases hhost : hostName (names 0) x with
      | true => simp [decorated, hc]
      | false =>
        have hlen : 2 ≤ x.length := by
          rcases hinside with hlen | hzero | hcreates | htrue
          · exact hlen
          · exact absurd hzero hc
          · exact absurd hcreates (by decide)
          · rw [hhost] at htrue
            cases htrue
        have hdollar : (x.getD (x.length - 2) NUL != '$') = true :=
          bne_iff_ne.2 fun h => hplain ⟨hlen, h⟩
        rw [if_neg Bool.false_ne_true, hdollar, bne_iff_ne.2 hc]
        rfl
  rw [openName, happend]
  cases plainly names c x <;> rfl

/-- A name without slashes leads where the current directory says. -/
theorem inodeOf_openName (hc : c < NCONTAINER) (hx : x ≠ []) (hslash : '/' ∉ x)
    (hfits : (openName names c x).length ≤ DIRSIZ) :
    inodeOf s.fs.disk s.fs.icache (s.proc p).cwd (openName names c x) =
      if (s.fs.disk (s.here p)).type = .dir then
        dirlookup (s.fs.disk (s.here p)).entries (openName names c x)
      else none := by
  refine inodeOf_here ?_ ?_ hfits
  · unfold openName
    split
    · exact fun h => hx (List.append_eq_nil_iff.1 h).1
    · exact hx
  · unfold openName
    split
    · exact fun h => (List.mem_append.1 h).elim hslash (slash_not_mem_suffix hc)
    · exact hslash

namespace Apart

/-- **In a directory whose names fall apart, `ls` shows what `open` opens.** -/
theorem mem_ls_iff {fileCid : Name → ℤ} (h : Apart names c entries)
    (hasked : ∀ e ∈ entries, e.inum ≠ 0 → ∀ y, e.name = y ++ suffix c →
      (fileCid e.name ≠ 0 ↔ hostName (names 0) e.name = false))
    (hplain : ¬ Suffixed x) (hinside : LooksInside (names 0) c x O_RDONLY) :
    x ∈ ls c fileCid ['.'] entries ↔
      ∃ e ∈ entries, e.inum ≠ 0 ∧ e.name = openName names c x := by
  rw [mem_ls, openName_eq hplain hinside]
  cases hp : plainly names c x with
  | true =>
    -- an entry with the suffix is taken for the host's, so it is not shown
    rw [if_pos rfl]
    constructor
    · rintro (⟨e, he, hne, hname, -⟩ | ⟨e, he, hne, hname, hcid⟩)
      · exact ⟨e, he, hne, hname⟩
      · have hfalse := (hasked e he hne x hname).1 hcid
        rw [h.own e he hne x hname, hp] at hfalse
        cases hfalse
    · rintro ⟨e, he, hne, hname⟩
      exact .inl ⟨e, he, hne, hname, hplain⟩
  | false =>
    rw [if_neg Bool.false_ne_true]
    constructor
    · rintro (⟨e, he, hne, rfl, -⟩ | ⟨e, he, hne, hname, -⟩)
      · rw [h.plain e he hne hplain] at hp
        cases hp
      · exact ⟨e, he, hne, hname⟩
    · rintro ⟨e, he, hne, hname⟩
      have hown := h.own e he hne x hname
      rw [hp] at hown
      exact .inr ⟨e, he, hne, hname, (hasked e he hne x hname).2 hown⟩

/-- No name of such a directory is shown twice. -/
theorem nodup_ls {fileCid : Name → ℤ} (h : Apart names c entries) (hdiffer : NamesDiffer entries)
    (hasked : ∀ e ∈ entries, e.inum ≠ 0 → ∀ y, e.name = y ++ suffix c →
      (fileCid e.name ≠ 0 ↔ hostName (names 0) e.name = false)) :
    (ls c fileCid ['.'] entries).Nodup := by
  refine Files.nodup_ls hdiffer fun e he e' he' hne hne' hplain hcid hname => ?_
  have hfalse := (hasked e' he' hne' e.name hname).1 hcid
  rw [h.own e' he' hne' e.name hname, h.plain e he hne hplain] at hfalse
  cases hfalse

end Apart

/-- `ls` reads the directory that its process is in, if "." is looked up as it is. -/
theorem looked_dot {k : ℕ} {s₂ : State} (h : Request names s p addr ['.'])
    (hplain : (s.fs.disk (s.here p)).type = .dir →
      plainly names (s.proc p).containerId ['.'] = true)
    (hself : (s.fs.disk (s.here p)).type = .dir →
      dirlookup (s.fs.disk (s.here p)).entries ['.'] = some (s.here p))
    (hlooked : looked s p addr O_RDONLY = some (k, s₂)) :
    (s.fs.disk (s.here p)).type = .dir ∧ s₂.fs.disk = s.fs.disk ∧
      (s₂.fs.icache.inode k).inum = s.here p := by
  obtain ⟨⟨name, makeCopy, s₁⟩, hnamed, hlooked⟩ := Option.bind_eq_some_iff.1 hlooked
  obtain ⟨path, hpath, hname⟩ := Option.bind_eq_some_iff.1 hnamed
  obtain rfl : ['.'] = path := Option.some.inj (h.string.symm.trans hpath)
  obtain ⟨⟨r, s₃⟩, hinode, hlooked⟩ := Option.bind_eq_some_iff.1 hlooked
  obtain ⟨k', rfl, heq⟩ := Option.map_eq_some_iff.1 hlooked
  cases heq
  obtain ⟨-, -, -, hdisk, hleads⟩ :=
    h.openInode (ok_of_toOption hname) (ok_of_toOption hinode)
  have hopen := openName_eq (c := (s.proc p).containerId) (by decide : ¬ Suffixed ['.']) h.inside
  have hfits : (openName names (s.proc p).containerId ['.']).length ≤ DIRSIZ := by
    rw [hopen]
    split
    · decide
    · exact (by decide : 3 ≤ DIRSIZ)
  rw [inodeOf_openName h.cid_lt (by decide) (by decide) hfits] at hleads
  split at hleads
  next hdir =>
    rw [hopen, if_pos (hplain hdir), hself hdir] at hleads
    exact ⟨hdir, hdisk, Option.some.inj hleads⟩
  · cases hleads

/-! ### Marks and creators -/

/-- A careful call, or a link. -/
def DirCareful (s : State) : DirAct → Prop
  | .call e => Careful s e
  | .link _ _ _ => True

instance (s : State) (a : DirAct) : Decidable (DirCareful s a) := by
  unfold DirCareful
  cases a <;> infer_instance

/-- What lies under a name without a suffix, or with that of container `c`, was created by the host
or by this container. -/
def Belongs (disk : Disk) (c : ℕ) (entries : List Dirent) : Prop :=
  ∀ e ∈ entries, e.inum ≠ 0 → ¬ Suffixed e.name ∨ (∃ x, e.name = x ++ suffix c) →
    (disk e.inum).creator = c ∨ (disk e.inum).creator = 0

theorem enteredDisk_creator (disk : Disk) (dir i : ℕ) (e : Dirent) :
    (enteredDisk disk dir e i).creator = (disk i).creator :=
  Lib.update_field Dinode.creator (by rfl) i

/-- A link leaves the marks. -/
theorem WellMarked.entered {fs : FileSys} {k : ICache} {dir inum : ℕ} (h : WellMarked fs)
    (hk : Held fs.icache none k) (hinum : (fs.disk inum).type ≠ .free)
    (hdir : (fs.disk dir).type = .dir) :
    WellMarked { fs with icache := k, disk := enteredDisk fs.disk dir ⟨inum, name⟩ } := by
  have hcalm := h.unheld hk
  refine ⟨⟨h.grounded.entered hk hinum hdir, fun j hj => ?_⟩, hcalm.vacant, fun i hi hcreator => ?_⟩
  · unfold Tagged
    dsimp only
    rw [enteredDisk_creator]
    exact hcalm.tagged j hj
  · dsimp only at hi hcreator
    rw [enteredDisk_type] at hi
    rw [enteredDisk_creator] at hcreator
    exact hcalm.opened i hi hcreator

/-- **The cache is well marked** after any careful calls and links. -/
theorem wellMarked_of_dirReach {disk : Disk} (hdisk : MkfsTidy disk) {ninodes : ℕ}
    {freelist : List ℕ} (hfree : freelist.Nodup) {console : List Char}
    (h : Reach dirStep DirCareful (boot disk ninodes freelist console) s) :
    Catalogued s ∧ WellMarked s.fs := by
  refine h.invariant (I := fun s => Catalogued s ∧ WellMarked s.fs)
    ⟨.of_boot hdisk ninodes hfree console, hdisk.toMkfs.wellMarked ninodes freelist console⟩ ?_
  rintro x a y ⟨hcat, hmarked⟩ hok hs
  refine ⟨hcat.step hs, ?_⟩
  cases a with
  | call e =>
    obtain ⟨spare, hsound⟩ := hcat.sound
    exact hmarked.step hsound hok hs
  | link p old new =>
    unfold dirStep at hs
    dsimp only at hs
    obtain ⟨-, hs⟩ := Option.ite_none_right_eq_some.1 hs
    obtain ⟨⟨n, z⟩, hlink, rfl⟩ := map_eq_ok (ok_of_toOption hs)
    obtain ⟨k, hk, rfl⟩ | ⟨k, path, dir, inum, hk, -, hdir, hinum, -, rfl⟩ := sysLink_cases hlink
    · exact hmarked.unheld hk
    · exact hmarked.entered hk hinum hdir

/-- A process is let through to what belongs to it. -/
theorem Request.tagPasses {k : ℕ} {s₂ : State} (h : Request names s q addr x)
    (hmarked : WellMarked s.fs) (hcwd : 0 < (s.fs.icache.inode (s.proc q).cwd).ref)
    (hcreator : ∀ i ∈ inodeOf s.fs.disk s.fs.icache (s.proc q).cwd
      (openName names (s.proc q).containerId x),
      (s.fs.disk i).creator = (s.proc q).containerId ∨ (s.fs.disk i).creator = 0)
    (hlooked : looked s q addr O_RDONLY = some (k, s₂)) : TagPasses s₂ q k := by
  obtain ⟨⟨name, makeCopy, s₁⟩, hnamed, hlooked⟩ := Option.bind_eq_some_iff.1 hlooked
  obtain ⟨path, hpath, hname⟩ := Option.bind_eq_some_iff.1 hnamed
  obtain rfl : x = path := Option.some.inj (h.string.symm.trans hpath)
  obtain ⟨⟨r, s₃⟩, hinode, hlooked⟩ := Option.bind_eq_some_iff.1 hlooked
  obtain ⟨k', rfl, heq⟩ := Option.map_eq_some_iff.1 hlooked
  cases heq
  have hname := ok_of_toOption hname
  have hren := rename_renamed hname
  obtain ⟨rfl, -, -, -, hleads⟩ := h.openInode hname (ok_of_toOption hinode)
  obtain ⟨c, hnamei, rfl⟩ := openInode_rdonly_eq (ok_of_toOption hinode)
  rw [hren.fs, hren.cwd] at hnamei
  have htype := hmarked.inodeOf_type hcwd (namei_spec hnamei).2.1.symm
  have htag := (hmarked.tagRight htype).tag (namei_spec hnamei).1 (namei_entry hcwd hnamei)
  unfold TagPasses
  change (c.inode k).containerId = (s₁.proc q).containerId ∨ (c.inode k).containerId = 0
  rw [hren.containerId, htag]
  exact hcreator _ hleads.symm

/-! ### The agreement -/

/-- A run of `ls` from what its calls return. -/
theorem listing_of_entries {b : ℕ} {n : ℤ} (hreq : Request names s p addr ['.']) (hn : 0 ≤ n)
    (hopen : (sysOpen s p addr O_RDONLY).map Prod.fst = .ok n)
    (hlooked : (looked s p addr O_RDONLY).map
      (fun r => (r.2.fs.disk (r.2.fs.icache.inode r.1).inum).entries) = some entries)
    (hasked : ∀ e ∈ entries, Suffixed e.name → (s.proc p).fetchstr b = some e.name)
    (hanswer : (sysGetFileContainerId s p b).map Prod.fst = .ok (-1)) :
    Listing names s p (ls (s.proc p).containerId (fun _ => -1) ['.'] entries) := by
  obtain ⟨s', hopen⟩ := map_fst_eq_ok hopen
  obtain ⟨⟨k, s₂⟩, hat, rfl⟩ := Option.map_eq_some_iff.1 hlooked
  obtain ⟨t', hanswer⟩ := map_fst_eq_ok hanswer
  refine ⟨addr, k, n, s', s₂, fun _ => -1, hreq, hopen, hn, hat, fun e he hne x hname => ?_, rfl⟩
  exact ⟨s, t', b, hasked e he (hname ▸ suffixed_append x _), hreq.host, hanswer⟩

/-- The memory of a process that lists its directory: the string `own` at address `2`, and after
it "." and the name that it opens. -/
def Call.listing (own x : Name) : Call :=
  .compute (fun a => (NUL :: NUL :: (own ++ [NUL, '.', NUL] ++ x)).getD a NUL) PGSIZE

end Files
end Xv6
