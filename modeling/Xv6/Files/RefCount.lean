/-
# Reference counts

`ref` of an open file counts descriptors, `ref` of a cached inode counts open
files and current directories, and the two flags of a pipe say which of its
ends is open.  A call that is under way holds references of its own: the inode
that a lookup returned, the entry that `filealloc` returned.  `Counted spare s`
says that all counts are right with the references in `spare` added.  Each
operation of `xv6/file.c`, `xv6/pipe.c` and `xv6/fs.c` moves a reference between
`spare` and the tables.
-/

import Xv6.Files.References

namespace Xv6
namespace Files

open Lib Function

variable {s s' : State} {p q fd f k page : ℕ} {w : Bool}

/-- An end of the pipe is open: the writing one or the reading one. -/
def Pipe.isOpen (pipe : Pipe) (w : Bool) : Bool := if w then pipe.writeopen else pipe.readopen

/-- The open file is that end of the pipe in a page. -/
def File.End (file : File) (page : ℕ) (w : Bool) : Prop :=
  file.type = .pipe ∧ file.pipe = page ∧ file.writable = w

instance (file : File) (page : ℕ) (w : Bool) : Decidable (file.End page w) :=
  inferInstanceAs (Decidable (_ ∧ _ ∧ _))

theorem File.one_uses_eq_zero {x : File} {t : FdType} (h : x.type = t) (ht : t ≠ .inode) :
    one (x.Uses k) = 0 := one_of_not fun hu => ht (h.symm.trans hu.1)

theorem File.one_end_eq_zero {x : File} {t : FdType} (h : x.type = t) (ht : t ≠ .pipe) :
    one (x.End page w) = 0 := one_of_not fun hu => ht (h.symm.trans hu.1)

/-- An entry that is an end of a pipe accounts for that end. -/
theorem File.one_end_add_count {x : File} {e : ℕ × Bool} (htype : x.type = .pipe)
    (hpipe : x.pipe = e.1) (hw : x.writable = e.2) (l : List (ℕ × Bool)) :
    l.count (page, w) + one (x.End page w) = (e :: l).count (page, w) := by
  have hiff : x.End page w ↔ e = (page, w) := by
    rw [File.End, htype, hpipe, hw, Prod.ext_iff]
    exact and_iff_right rfl
  rw [count_cons_one, one_congr hiff]

/-- A process accounts for its current directory. -/
theorem Proc.one_in_add_count {x : Proc} (hx : x.inUse = true) (l : List ℕ) :
    l.count k + one (x.In k) = (x.cwd :: l).count k := by
  have hiff : x.In k ↔ x.cwd = k := and_iff_right hx
  rw [count_cons_one, one_congr hiff]

theorem Proc.one_in_eq_zero {x : Proc} (hx : x.inUse = false) : one (x.In k) = 0 :=
  one_of_not fun h => Bool.false_ne_true (hx.symm.trans h.1)

/-- The open files that are that end of the pipe in a page. -/
def ends (s : State) (page : ℕ) (w : Bool) : ℕ :=
  count fileIndices fun f => (s.file f).End page w

theorem ends_setFile (hf : f < NFILE) (x : File) :
    ends (s.setFile f x) page w + one ((s.file f).End page w) =
      ends s page w + one (x.End page w) :=
  count_update (File.End · page w) s.file (mem_fileIndices.2 hf) x

/-- References held by a call under way. -/
structure Spare where
  files : List ℕ := []
  inodes : List ℕ := []
  ends : List (ℕ × Bool) := []

namespace Spare

/-- One more entry of the file table. -/
abbrev addFile (spare : Spare) (f : ℕ) : Spare := { spare with files := f :: spare.files }

/-- One more inode. -/
abbrev addInode (spare : Spare) (k : ℕ) : Spare := { spare with inodes := k :: spare.inodes }

/-- One more end of a pipe. -/
abbrev addEnd (spare : Spare) (page : ℕ) (w : Bool) : Spare :=
  { spare with ends := (page, w) :: spare.ends }

/-- The inode that a lookup returned, if any. -/
abbrev keep (spare : Spare) : Option ℕ → Spare
  | none => spare
  | some k => spare.addInode k

/-- With other entries of the file table. -/
abbrev withFiles (spare : Spare) (files : List ℕ) : Spare := { spare with files := files }

/-- With other inodes. -/
abbrev withInodes (spare : Spare) (inodes : List ℕ) : Spare := { spare with inodes := inodes }

end Spare

/-- **Every count is the number of references there are.**  A page on the free list is no
pipe. -/
structure Counted (spare : Spare) (s : State) : Prop where
  slot : ∀ p fd f, (s.proc p).ofile fd = some f → p < NPROC ∧ fd < NOFILE ∧ f < NFILE
  ref : ∀ f < NFILE, (s.file f).ref = slots s f + spare.files.count f
  closed : ∀ f < NFILE, (s.file f).ref = 0 → (s.file f).type = .none
  cache : ∀ k, (s.fs.icache.inode k).ref = users s k + spare.inodes.count k
  pipe : ∀ page w, one ((s.pipe page).isOpen w = true) = ends s page w + spare.ends.count (page, w)
  free : ∀ page ∈ s.freelist, ∀ w, (s.pipe page).isOpen w = false
  nodup : s.freelist.Nodup

/-- The two states do not differ in anything that is counted. -/
structure Same (s s' : State) : Prop where
  ref : ∀ f, (s'.file f).ref = (s.file f).ref
  type : ∀ f, (s'.file f).type = (s.file f).type
  ip : ∀ f, (s'.file f).ip = (s.file f).ip
  page : ∀ f, (s'.file f).pipe = (s.file f).pipe
  writable : ∀ f, (s'.file f).writable = (s.file f).writable
  ofile : ∀ q, (s'.proc q).ofile = (s.proc q).ofile
  inUse : ∀ q, (s'.proc q).inUse = (s.proc q).inUse
  cwd : ∀ q, (s'.proc q).cwd = (s.proc q).cwd
  cache : ∀ k, (s'.fs.icache.inode k).ref = (s.fs.icache.inode k).ref
  pipe : ∀ page w, (s'.pipe page).isOpen w = (s.pipe page).isOpen w
  freelist : s'.freelist.Sublist s.freelist

namespace Same

theorem refl (s : State) : Same s s :=
  ⟨fun _ => rfl, fun _ => rfl, fun _ => rfl, fun _ => rfl, fun _ => rfl, fun _ => rfl,
    fun _ => rfl, fun _ => rfl, fun _ => rfl, fun _ _ => rfl, List.Sublist.refl _⟩

/-- A process whose descriptors and directory stay. -/
theorem setProc (s : State) {x : Proc} (hofile : x.ofile = (s.proc p).ofile)
    (hinUse : x.inUse = (s.proc p).inUse) (hcwd : x.cwd = (s.proc p).cwd) :
    Same s (s.setProc p x) :=
  { refl s with
    ofile := update_field Proc.ofile hofile
    inUse := update_field Proc.inUse hinUse
    cwd := update_field Proc.cwd hcwd }

end Same

theorem slots_eq_of_same (h : Same s s') : slots s' f = slots s f :=
  slots_congr fun q fd => by rw [h.ofile]

theorem users_eq_of_same (h : Same s s') : users s' k = users s k :=
  users_congr (fun f => by unfold File.Uses; rw [h.type, h.ip])
    fun q => by unfold Proc.In; rw [h.inUse, h.cwd]

theorem ends_eq_of_same (h : Same s s') : ends s' page w = ends s page w :=
  count_congr fun f _ => by unfold File.End; rw [h.type, h.page, h.writable]

namespace Counted

variable {spare spare' : Spare}

theorem congr (h : Counted spare s) (hs : Same s s') : Counted spare s' where
  slot p fd f hfd := by
    rw [hs.ofile] at hfd
    exact h.slot p fd f hfd
  ref f hf := by
    rw [hs.ref, slots_eq_of_same hs]
    exact h.ref f hf
  closed f hf href := by
    rw [hs.ref] at href
    rw [hs.type]
    exact h.closed f hf href
  cache k := by
    rw [hs.cache, users_eq_of_same hs]
    exact h.cache k
  pipe page w := by
    rw [hs.pipe, ends_eq_of_same hs]
    exact h.pipe page w
  free page hpage w := by
    rw [hs.pipe]
    exact h.free page (hs.freelist.subset hpage) w
  nodup := h.nodup.sublist hs.freelist

/-! ### The file table -/

/-- **An entry of the file table is rewritten**: what it no longer refers to is spare. -/
theorem setFile (h : Counted spare s) (hf : f < NFILE) (x : File)
    (href : x.ref + spare.files.count f = (s.file f).ref + spare'.files.count f)
    (hother : ∀ g ≠ f, spare'.files.count g = spare.files.count g)
    (hclosed : x.ref = 0 → x.type = .none)
    (hcache : ∀ k, spare'.inodes.count k + one (x.Uses k) =
      spare.inodes.count k + one ((s.file f).Uses k))
    (hpipe : ∀ page w, spare'.ends.count (page, w) + one (x.End page w) =
      spare.ends.count (page, w) + one ((s.file f).End page w)) :
    Counted spare' (s.setFile f x) where
  slot := h.slot
  ref g hg := by
    have hold := h.ref g hg
    rw [show slots (s.setFile f x) g = slots s g from slots_congr fun _ _ => rfl]
    by_cases hgf : g = f
    · subst hgf
      rw [setFile_self]
      omega
    · rw [setFile_of_ne s hgf, hother g hgf]
      exact hold
  closed g hg hzero := by
    by_cases hgf : g = f
    · subst hgf
      rw [setFile_self] at hzero ⊢
      exact hclosed hzero
    · rw [setFile_of_ne s hgf] at hzero ⊢
      exact h.closed g hg hzero
  cache k := by
    have hold := h.cache k
    have hmove := hcache k
    have hcount := users_setFile (s := s) (k := k) hf x
    change (s.fs.icache.inode k).ref = _
    omega
  pipe page w := by
    have hold := h.pipe page w
    have hmove := hpipe page w
    have hcount : ends (s.setFile f x) page w + _ = _ := ends_setFile hf x
    change one ((s.pipe page).isOpen w = true) = _
    omega
  free := h.free
  nodup := h.nodup

/-- `filealloc`. -/
theorem alloc (h : Counted spare s) (hf : f < NFILE) (href : (s.file f).ref = 0) :
    Counted (spare.addFile f)
      (s.setFile f { s.file f with ref := 1 }) := by
  refine h.setFile hf _ ?_ (fun g hg => ?_) (fun h => absurd h Nat.one_ne_zero)
    (fun _ => rfl) fun _ _ => rfl
  · rw [List.count_cons_self, href]
    dsimp only
    omega
  · exact List.count_cons_of_ne hg.symm

/-- The entry is free again: it was not filled in. -/
theorem unalloc (h : Counted (spare.addFile f) s) (hf : f < NFILE)
    (href : (s.file f).ref = 1) (htype : (s.file f).type = .none) {x : File}
    (hx : x.ref = 0) (hxtype : x.type = .none) : Counted spare (s.setFile f x) := by
  refine h.setFile hf x ?_ (fun g hg => ?_) (fun _ => hxtype) (fun k => ?_) fun page w => ?_
  · rw [List.count_cons_self, hx, href]
    omega
  · exact (List.count_cons_of_ne hg.symm).symm
  · rw [File.one_uses_eq_zero hxtype (by decide), File.one_uses_eq_zero htype (by decide)]
  · rw [File.one_end_eq_zero hxtype (by decide), File.one_end_eq_zero htype (by decide)]

/-- A free entry may be rewritten as long as it stays one. -/
theorem rewrite (h : Counted spare s) (hf : f < NFILE) (href : (s.file f).ref = 0) {x : File}
    (hx : x.ref = 0) (hxtype : x.type = .none) : Counted spare (s.setFile f x) := by
  have htype := h.closed f hf href
  refine h.setFile hf x (by rw [hx, href]) (fun _ _ => rfl) (fun _ => hxtype) (fun k => ?_)
    fun page w => ?_
  · rw [File.one_uses_eq_zero hxtype (by decide), File.one_uses_eq_zero htype (by decide)]
  · rw [File.one_end_eq_zero hxtype (by decide), File.one_end_eq_zero htype (by decide)]

/-- The entry takes over the reference on an inode. -/
theorem fill (h : Counted (spare.addInode k) s) (hf : f < NFILE)
    (href : (s.file f).ref ≠ 0) (htype : (s.file f).type = .none) (readable writable : Bool)
    (cid : ℕ) : Counted spare (s.fill f k readable writable cid) := by
  refine h.setFile hf _ rfl (fun _ _ => rfl) (fun h => absurd h href) (fun j => ?_)
    fun page w => ?_
  · rw [File.one_uses_eq_zero htype (by decide)]
    rw [count_cons_one]
    exact congrArg _ (one_congr ((and_iff_right rfl).trans Option.some_inj))
  · rw [File.one_end_eq_zero htype (by decide),
      File.one_end_eq_zero (t := .inode) rfl (by decide)]

/-- `filedup`. -/
theorem filedup (h : Counted spare s) (hf : f < NFILE) (hs : s.filedup f = .ok s') :
    Counted (spare.addFile f) s' := by
  unfold State.filedup at hs
  split at hs
  · cases hs
  · cases hs
    refine h.setFile hf _ ?_ (fun g hg => ?_) (fun h => absurd h (Nat.succ_ne_zero _))
      (fun _ => rfl) fun _ _ => rfl
    · rw [List.count_cons_self]
      dsimp only
      omega
    · exact List.count_cons_of_ne hg.symm

/-! ### Inodes -/

/-- A lookup holds a reference on what it returned. -/
theorem held (h : Counted spare s) {c : ICache} (hc : Held s.fs.icache (some k) c) :
    Counted (spare.addInode k) (s.setCache c) :=
  { h with
    cache := fun j => by
      have hnew : (c.inode j).ref = _ + one (some k = some j) := hc.ref j
      change (c.inode j).ref = users s j + (k :: spare.inodes).count j
      rw [hnew, h.cache j, count_cons_one, one_congr Option.some_inj, Nat.add_assoc] }

theorem unheld (h : Counted spare s) {c : ICache} (hc : Held s.fs.icache none c) :
    Counted spare (s.setCache c) :=
  h.congr { Same.refl s with cache := fun k => hc.ref k }

/-- `iput`. -/
theorem iput (h : Counted (spare.addInode k) s) :
    Counted spare (s.iput k) :=
  { h with
    cache := fun j => by
      have hold := h.cache j
      have hnew : _ = _ - one (some k = some j) := s.fs.icache.iput_ref k j
      rw [count_cons_one] at hold
      rw [one_congr Option.some_inj] at hnew
      change ((s.fs.icache.iput k).inode j).ref = users s j + spare.inodes.count j
      omega }

/-! ### Descriptors -/

/-- **A descriptor is set**: what it no longer points to is spare. -/
theorem setFd (h : Counted spare s) (hp : p < NPROC) (hfd : fd < NOFILE) (o : Option ℕ)
    (files : List ℕ) (hlt : ∀ f ∈ o, f < NFILE)
    (hmove : ∀ f, files.count f + one (o = some f) =
      spare.files.count f + one ((s.proc p).ofile fd = some f)) :
    Counted (spare.withFiles files) (s.setFd p fd o) :=
  { h with
    slot := fun q fd' g hg => by
      rw [setFd_ofile] at hg
      split at hg
      next heq =>
        rw [heq.1, heq.2]
        exact ⟨hp, hfd, hlt g hg⟩
      · exact h.slot q fd' g hg
    ref := fun g hg => by
      have hold := h.ref g hg
      have hcount := slots_setFd (s := s) (f := g) hp hfd o
      have hmove := hmove g
      change (s.file g).ref = _ + files.count g
      omega
    cache := fun k => by
      rw [users_setFd]
      exact h.cache k }

/-- A descriptor takes over the reference on an entry. -/
theorem point (h : Counted (spare.addFile f) s) (hp : p < NPROC)
    (hfd : fd < NOFILE) (hf : f < NFILE) (hnone : (s.proc p).ofile fd = none) :
    Counted spare (s.setFd p fd (some f)) := by
  refine h.setFd hp hfd (some f) spare.files (fun g hg => Option.some.inj hg ▸ hf) fun g => ?_
  have hno : one (none = some g) = 0 := one_of_not nofun
  rw [hnone, hno, count_cons_one, one_congr Option.some_inj, Nat.add_zero]

/-- A descriptor gives its reference up. -/
theorem unpoint (h : Counted spare s) (hsome : (s.proc p).ofile fd = some f) :
    Counted (spare.addFile f) (s.setFd p fd none) := by
  obtain ⟨hp, hfd, -⟩ := h.slot p fd f hsome
  refine h.setFd hp hfd none (f :: spare.files) nofun fun g => ?_
  have hno : one (none = some g) = 0 := one_of_not nofun
  rw [hsome, hno, count_cons_one, one_congr Option.some_inj, Nat.add_zero]

/-- **A process is rewritten**, with the descriptors it has. -/
theorem setProc (h : Counted spare s) (hp : p < NPROC) (x : Proc) (inodes : List ℕ)
    (hofile : x.ofile = (s.proc p).ofile)
    (hcache : ∀ k, inodes.count k + one (x.In k) =
      spare.inodes.count k + one ((s.proc p).In k)) :
    Counted (spare.withInodes inodes) (s.setProc p x) := by
  have hsame : ∀ q, ((s.setProc p x).proc q).ofile = (s.proc q).ofile :=
    update_field Proc.ofile hofile
  exact { h with
    slot := fun q fd f hfd => h.slot q fd f (by rwa [hsame] at hfd)
    ref := fun f hf => by
      rw [slots_congr (s := s) fun q fd => by rw [hsame]]
      exact h.ref f hf
    cache := fun k => by
      have hold := h.cache k
      have hmove := users_setProc (s := s) (k := k) hp x
      have hcount := hcache k
      change (s.fs.icache.inode k).ref = _ + inodes.count k
      omega }

/-- `fdalloc` and `filedup`. -/
theorem dup (h : Counted spare s) (hp : p < NPROC) (hfd : fd < NOFILE) (hf : f < NFILE)
    (hnone : (s.proc p).ofile fd = none) (hs : (s.setFd p fd (some f)).filedup f = .ok s') :
    Counted spare s' := by
  -- the count may as well go up before the descriptor is there
  obtain ⟨s₁, hdup, rfl⟩ : ∃ s₁, s.filedup f = .ok s₁ ∧ s' = s₁.setFd p fd (some f) := by
    unfold State.filedup at hs ⊢
    obtain ⟨href, hs⟩ := ite_error_eq_ok.1 hs
    refine ⟨_, if_neg href, ?_⟩
    exact (Except.ok.inj hs).symm
  have hproc : s₁.proc = s.proc := by
    unfold State.filedup at hdup
    split at hdup
    · cases hdup
    · cases hdup
      rfl
  exact (h.filedup hf hdup).point hp hfd hf (by rw [hproc]; exact hnone)

/-! ### Pipes -/

/-- A page from the free list becomes a pipe with both ends open. -/
theorem pipe_open (h : Counted spare s) {rest : List ℕ} (hfree : s.freelist = page :: rest) :
    Counted ((spare.addEnd page true).addEnd page false)
      ({ s with freelist := rest }.setPipe page { readopen := true, writeopen := true }) where
  __ := h
  pipe pg w := by
    have hold := h.pipe pg w
    change one ((update s.pipe page _ pg).isOpen w = true) = ends s pg w + _
    by_cases hpg : pg = page
    · subst hpg
      rw [h.free pg (hfree ▸ List.mem_cons_self) w, one_of_not Bool.false_ne_true] at hold
      rw [update_self]
      cases w with
      | false =>
        rw [one_of (show Pipe.isOpen ⟨[], true, true⟩ false = true from rfl),
          List.count_cons_self, List.count_cons_of_ne (by simp)]
        omega
      | true =>
        rw [one_of (show Pipe.isOpen ⟨[], true, true⟩ true = true from rfl),
          List.count_cons_of_ne (by simp), List.count_cons_self]
        omega
    · rw [update_of_ne hpg, List.count_cons_of_ne (fun h => hpg (congrArg Prod.fst h).symm),
        List.count_cons_of_ne (fun h => hpg (congrArg Prod.fst h).symm)]
      exact hold
  free pg hpg w := by
    have hnodup := h.nodup
    rw [hfree, List.nodup_cons] at hnodup
    change (update s.pipe page _ pg).isOpen w = false
    rw [update_of_ne fun heq : pg = page => hnodup.1 (heq ▸ hpg)]
    exact h.free pg (hfree ▸ List.mem_cons_of_mem page hpg) w
  nodup := by
    have hnodup := h.nodup
    rw [hfree, List.nodup_cons] at hnodup
    exact hnodup.2

/-- An entry that was not filled in takes over the reference on an end of a pipe. -/
theorem setEnd (h : Counted (spare.addEnd page w) s) (hf : f < NFILE)
    (htype : (s.file f).type = .none) (files : List ℕ) (x : File) (hx : x.End page w)
    (hpos : x.ref ≠ 0)
    (href : x.ref + spare.files.count f = (s.file f).ref + files.count f)
    (hother : ∀ g ≠ f, files.count g = spare.files.count g) :
    Counted (spare.withFiles files) (s.setFile f x) := by
  refine h.setFile hf x href hother (fun h => absurd h hpos) (fun k => ?_) fun page w => ?_
  · rw [File.one_uses_eq_zero hx.1 (by decide), File.one_uses_eq_zero htype (by decide)]
  · rw [File.one_end_eq_zero htype (by decide)]
    exact File.one_end_add_count hx.1 hx.2.1 hx.2.2 spare.ends

/-- `pipeclose`. -/
theorem pipeclose (h : Counted (spare.addEnd page w) s) :
    Counted spare (s.pipeclose page w) := by
  have hopen : (s.pipe page).isOpen w = true := by
    have hold := h.pipe page w
    rw [List.count_cons_self] at hold
    by_contra hclosed
    rw [one_of_not hclosed] at hold
    omega
  have hlisted : page ∉ s.freelist := fun hmem =>
    Bool.false_ne_true ((h.free page hmem w).symm.trans hopen)
  obtain ⟨pipe', hpipe', hclose⟩ : ∃ pipe' : Pipe,
      (∀ w', pipe'.isOpen w' = if w' = w then false else (s.pipe page).isOpen w') ∧
      s.pipeclose page w = if pipe'.readopen = false ∧ pipe'.writeopen = false
        then (s.setPipe page pipe').kfree page else s.setPipe page pipe' := by
    cases w with
    | false => exact ⟨_, by rintro ⟨⟩ <;> rfl, rfl⟩
    | true => exact ⟨_, by rintro ⟨⟩ <;> rfl, rfl⟩
  have hset : Counted spare (s.setPipe page pipe') :=
    { h with
      pipe := fun pg w' => by
        have hold := h.pipe pg w'
        change one ((update s.pipe page pipe' pg).isOpen w' = true) = ends s pg w' + _
        by_cases hpg : pg = page
        · subst hpg
          rw [update_self, hpipe']
          by_cases hw : w' = w
          · subst hw
            rw [hopen, one_of rfl, List.count_cons_self] at hold
            rw [if_pos rfl, one_of_not Bool.false_ne_true]
            omega
          · rw [if_neg hw]
            rw [List.count_cons_of_ne fun h => hw (congrArg Prod.snd h).symm] at hold
            exact hold
        · rw [update_of_ne hpg]
          rw [List.count_cons_of_ne fun h => hpg (congrArg Prod.fst h).symm] at hold
          exact hold
      free := fun pg hpg w' => by
        change (update s.pipe page pipe' pg).isOpen w' = false
        rw [update_of_ne fun heq : pg = page => hlisted (heq ▸ hpg)]
        exact h.free pg hpg w'
      nodup := h.nodup }
  rw [hclose]
  split
  next hboth =>
    refine { hset with free := fun pg hpg w' => ?_, nodup := List.nodup_cons.2 ⟨hlisted, h.nodup⟩ }
    obtain rfl | hpg := List.mem_cons.1 hpg
    · change (update s.pipe pg pipe' pg).isOpen w' = false
      rw [update_self]
      cases w' with
      | false => exact hboth.1
      | true => exact hboth.2
    · exact hset.free pg hpg w'
  · exact hset

/-- **`fileclose`** drops one reference, and what the entry refers to with the last one. -/
theorem fileclose (h : Counted (spare.addFile f) s) (hf : f < NFILE)
    (hs : s.fileclose f = .ok s') : Counted spare s' := by
  have hother : ∀ g ≠ f, spare.files.count g = (f :: spare.files).count g := fun g hg =>
    (List.count_cons_of_ne hg.symm).symm
  unfold State.fileclose at hs
  dsimp only at hs
  split at hs
  · cases hs
  · split at hs
    · cases hs
      refine h.setFile hf _ ?_ hother (fun h => ?_) (fun _ => rfl) fun _ _ => rfl
      · rw [List.count_cons_self]
        dsimp only
        omega
      · dsimp only at h
        omega
    · have hone : (s.file f).ref = 1 := by omega
      have href : 0 + (f :: spare.files).count f = (s.file f).ref + spare.files.count f := by
        rw [List.count_cons_self, hone]
        omega
      split at hs
      next htype =>
        cases hs
        refine pipeclose (h.setFile hf _ href hother (fun _ => rfl) (fun k => ?_) fun page w => ?_)
        · rw [File.one_uses_eq_zero htype (by decide),
            File.one_uses_eq_zero (t := .none) rfl (by decide)]
        · rw [File.one_end_eq_zero (t := .none) rfl (by decide)]
          exact (File.one_end_add_count htype rfl rfl spare.ends).symm
      next k htype hip =>
        cases hs
        refine iput (h.setFile hf _ href hother (fun _ => rfl) (fun j => ?_) fun page w => ?_)
        · rw [File.one_uses_eq_zero (t := .none) rfl (by decide)]
          have hiff : (s.file f).Uses j ↔ k = j := by
            rw [File.Uses, hip, Option.some_inj]
            exact and_iff_right htype
          rw [count_cons_one, one_congr hiff, Nat.add_zero]
        · rw [File.one_end_eq_zero htype (by decide),
            File.one_end_eq_zero (t := .none) rfl (by decide)]
      next hpipe hinode =>
        cases hs
        refine h.setFile hf _ href hother (fun _ => rfl) (fun k => ?_) fun page w => ?_
        · rw [one_of_not fun h : (s.file f).Uses k => hinode k h.1 h.2,
            File.one_uses_eq_zero (t := .none) rfl (by decide)]
        · rw [one_of_not fun h : (s.file f).End page w => hpipe h.1,
            File.one_end_eq_zero (t := .none) rfl (by decide)]

end Counted

end Files
end Xv6
