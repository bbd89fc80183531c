/-
# Reference counts through `sys_open`

What `sys_open` does to the counts (`Counted`) and to the other processes
(`Alone`).  Every way through it leaves the counts right but one: when it
refuses a file of another container it keeps the inode it has looked up
(`refused`).
-/

import Xv6.Files.Opening
import Xv6.Files.RefCount

namespace Xv6
namespace Files

open Lib

variable {s s' : State} {p q fd f k addr omode : ℕ} {spare : Spare}

/-- Nothing of the other processes has changed, and the caller is where it was. -/
structure Alone (p : ℕ) (s s' : State) : Prop where
  other : ∀ q ≠ p, s'.proc q = s.proc q
  inUse : (s'.proc p).inUse = (s.proc p).inUse

namespace Alone

theorem of_proc_eq (h : s'.proc = s.proc) : Alone p s s' :=
  ⟨fun q _ => by rw [h], by rw [h]⟩

theorem trans {s'' : State} (h : Alone p s s') (h' : Alone p s' s'') : Alone p s s'' :=
  ⟨fun q hq => (h'.other q hq).trans (h.other q hq), h'.inUse.trans h.inUse⟩

theorem setProc (s : State) {x : Proc} (hx : x.inUse = (s.proc p).inUse) :
    Alone p s (s.setProc p x) :=
  ⟨fun _ hq => setProc_of_ne s hq x, by rw [setProc_self, hx]⟩

theorem setFd (s : State) (p fd : ℕ) (o : Option ℕ) : Alone p s (s.setFd p fd o) := setProc s rfl

theorem of_renamed (h : Renamed p s s') : Alone p s s' := by
  obtain ⟨mem, hmem⟩ := h.self
  exact ⟨h.other, by rw [hmem]⟩

end Alone

theorem Same.of_renamed (h : Renamed p s s') : Same s s' := by
  refine { Same.refl s with
    ref := fun f => by rw [h.file]
    type := fun f => by rw [h.file]
    ip := fun f => by rw [h.file]
    page := fun f => by rw [h.file]
    writable := fun f => by rw [h.file]
    ofile := fun q => ?_, inUse := fun q => ?_, cwd := h.cwd
    cache := fun k => by rw [h.fs]
    pipe := fun page w => by rw [h.pipe]
    freelist := h.freelist.sublist }
  · obtain ⟨mem, hmem⟩ := h.proc q
    rw [hmem]
  · obtain ⟨mem, hmem⟩ := h.proc q
    rw [hmem]

theorem Same.of_wrote {inum : ℕ} (h : Wrote inum s s') : Same s s' := by
  have hfile : ∀ f, ∃ off, s'.file f = { s.file f with off := off } := h.file
  refine { Same.refl s with
    ref := fun f => ?_, type := fun f => (h.uses f).1, ip := fun f => (h.uses f).2
    page := fun f => ?_, writable := fun f => ?_
    ofile := fun q => by rw [h.proc]
    inUse := fun q => by rw [h.proc]
    cwd := fun q => by rw [h.proc]
    cache := fun k => by rw [h.icache]
    pipe := fun page w => by rw [h.pipe]
    freelist := by rw [h.freelist] }
  · obtain ⟨off, hoff⟩ := hfile f
    rw [hoff]
  · obtain ⟨off, hoff⟩ := hfile f
    rw [hoff]
  · obtain ⟨off, hoff⟩ := hfile f
    rw [hoff]

/-! ### `open` -/

theorem Looked.proc {path : Name} {makeCopy : Bool} {r : Option ℕ}
    (h : Looked s p path omode makeCopy r s') : s'.proc = s.proc := by
  cases h <;> rfl

/-- The lookup holds what it returns. -/
theorem Counted.looked {path : Name} {makeCopy : Bool} {r : Option ℕ} (h : Counted spare s)
    (hs : Looked s p path omode makeCopy r s') :
    Counted (spare.keep r) s' := by
  cases hs with
  | failed hc => exact h.unheld hc
  | found _ hc _ _ _ => exact h.held hc
  | @created k fs _ hfs =>
    obtain ⟨c, hc, hcache⟩ : ∃ c, Held s.fs.icache (some k) c ∧ fs.icache = c := by
      cases hfs with
      | found hc _ _ _ => exact ⟨_, hc, rfl⟩
      | made hc _ _ _ => exact ⟨_, hc, rfl⟩
    refine (h.held hc).congr { Same.refl (s.setCache c) with cache := fun j => ?_ }
    rw [← hcache]
    exact update_field Inode.ref (by rfl) j

theorem fileFd_alone {r : Option (ℕ × ℕ)} (h : s.fileFd p = (r, s')) : Alone p s s' := by
  cases r with
  | none =>
    obtain rfl | ⟨f, -, -, rfl⟩ := fileFd_none h
    · exact .of_proc_eq rfl
    · exact .of_proc_eq rfl
  | some r =>
    obtain ⟨-, -, -, -, rfl⟩ := fileFd_some h
    exact (show Alone p s (s.setFile r.2 _) from .of_proc_eq rfl).trans (.setFd _ p _ _)

theorem Counted.fileFd_none (h : Counted spare s) (hs : s.fileFd p = (none, s')) :
    Counted spare s' := by
  obtain rfl | ⟨f, hf, href, rfl⟩ := Files.fileFd_none hs
  · exact h
  · exact h.rewrite hf href href rfl

/-- The descriptor points to an entry that is not filled in yet. -/
theorem Counted.fileFd_some (h : Counted spare s) (hp : p < NPROC)
    (hs : s.fileFd p = (some (fd, f), s')) :
    Counted spare s' ∧ f < NFILE ∧ (s'.file f).ref = 1 ∧ (s'.file f).type = .none := by
  obtain ⟨hf, hfd, href, hnone, rfl⟩ := Files.fileFd_some hs
  refine ⟨(h.alloc hf href).point hp hfd hf hnone, hf, ?_, ?_⟩
  · change ((s.setFile f _).file f).ref = 1
    rw [setFile_self]
  · change ((s.setFile f _).file f).type = .none
    rw [setFile_self]
    exact h.closed f hf href

/-- `copy_helper_COW`, which keeps the original open. -/
theorem Counted.copying {path : Name} {i : ℕ} (h : Counted spare s) (hp : p < NPROC)
    (hs : Copying s p path i s') : Counted spare s' ∧ Alone p s s' := by
  cases hs with
  | @lost s₁ c hpage hname =>
    have hren := scratch_renamed p hpage
    obtain ⟨hc, -, -⟩ := namei_spec hname
    exact ⟨(h.congr (.of_renamed hren)).unheld hc,
      (Alone.of_renamed hren).trans (.of_proc_eq rfl)⟩
  | @full s₁ s₂ c j hpage hname _ hfd =>
    have hren := scratch_renamed p hpage
    obtain ⟨hc, -, -⟩ := namei_spec hname
    have hheld := ((h.congr (.of_renamed hren)).held hc).fileFd_none hfd
    have halone : Alone p (s₁.setCache c) s₂ := fileFd_alone hfd
    exact ⟨hheld.iput, (Alone.of_renamed hren).trans ⟨halone.other, halone.inUse⟩⟩
  | @copied s₁ s₂ _ c j fd g hpage hname _ hfd hwrote =>
    have hren := scratch_renamed p hpage
    obtain ⟨hc, -, -⟩ := namei_spec hname
    obtain ⟨hheld, hg, hgref, hgtype⟩ := ((h.congr (.of_renamed hren)).held hc).fileFd_some hp hfd
    have hfill := hheld.fill hg (by rw [hgref]; exact Nat.one_ne_zero) hgtype true false
      (s₂.proc p).containerId
    have halone : Alone p (s₁.setCache c) s₂ := fileFd_alone hfd
    refine ⟨hfill.congr (.of_wrote hwrote), (Alone.of_renamed hren).trans ?_⟩
    exact Alone.trans ⟨halone.other, halone.inUse⟩ (.of_proc_eq hwrote.proc)

/-- The inode that `sys_open` keeps when it refuses the file. -/
def refused (s : State) (p addr omode : ℕ) : Option ℕ := do
  let path ← (s.proc p).fetchstr addr
  let (path, makeCopy, s) ← (s.rename p addr path omode).toOption
  let (k, s) ← (s.openInode p path omode makeCopy).toOption
  let k ← k
  if (s.fileFd p).1.isSome ∧ ¬ TagPasses (s.fileFd p).2 p k then some k else none

/-- The way to the end of the lookup. -/
theorem Counted.to_looked {path path' : Name} {makeCopy : Bool} {s₁ : State} {r : Option ℕ}
    (h : Counted spare s) (hname : s.rename p addr path omode = .ok (path', makeCopy, s₁))
    (hlook : s₁.openInode p path' omode makeCopy = .ok (r, s')) :
    Counted (spare.keep r) s' ∧ Alone p s s' := by
  have hren := rename_renamed hname
  have hl := openInode_looked hlook
  exact ⟨(h.congr (.of_renamed hren)).looked hl, (Alone.of_renamed hren).trans (.of_proc_eq hl.proc)⟩

theorem Counted.opening {n : ℤ} (h : Counted spare s) (hp : p < NPROC)
    (hs : Opening s p addr omode n s') :
    Counted (spare.keep (refused s p addr omode)) s' ∧
      Alone p s s' := by
  cases hs with
  | unnamed hpath =>
    have hno : refused s p addr omode = none := by simp [refused, hpath]
    rw [hno]
    exact ⟨h, .of_proc_eq rfl⟩
  | missing hpath hname hlook =>
    have hno : refused s p addr omode = none := by
      simp [refused, hpath, hname, hlook, Except.toOption]
    rw [hno]
    exact h.to_looked hname hlook
  | full hpath hname hlook hfd =>
    have hno : refused s p addr omode = none := by
      simp [refused, hpath, hname, hlook, hfd, Except.toOption]
    obtain ⟨hlooked, halone⟩ := h.to_looked hname hlook
    rw [hno]
    exact ⟨(hlooked.fileFd_none hfd).iput,
      halone.trans ((fileFd_alone hfd).trans (.of_proc_eq rfl))⟩
  | @refused path path' makeCopy s₁ s₂ s₃ k fd f hpath hname hlook hfd htag =>
    have hk : Files.refused s p addr omode = some k := by
      simp [Files.refused, hpath, hname, hlook, hfd, htag, Except.toOption]
    obtain ⟨hlooked, halone⟩ := h.to_looked hname hlook
    obtain ⟨hheld, -, -, -⟩ := hlooked.fileFd_some hp hfd
    rw [hk]
    exact ⟨hheld, halone.trans (fileFd_alone hfd)⟩
  | opened hpath hname hlook hfd htag =>
    have hno : refused s p addr omode = none := by
      simp [refused, hpath, hname, hlook, hfd, htag, Except.toOption]
    obtain ⟨hlooked, halone⟩ := h.to_looked hname hlook
    obtain ⟨hheld, hf, href, htype⟩ := hlooked.fileFd_some hp hfd
    rw [hno]
    exact ⟨hheld.fill hf (by rw [href]; exact Nat.one_ne_zero) htype _ _ _,
      halone.trans ((fileFd_alone hfd).trans (.of_proc_eq rfl))⟩
  | @copied path path' s₁ s₂ s₃ s₄ k fd f hpath hname hlook hfd htag hcopy =>
    have hno : refused s p addr omode = none := by
      simp [refused, hpath, hname, hlook, hfd, htag, Except.toOption]
    obtain ⟨hlooked, halone⟩ := h.to_looked hname hlook
    obtain ⟨hheld, hf, href, htype⟩ := hlooked.fileFd_some hp hfd
    have hfill := hheld.fill hf (by rw [href]; exact Nat.one_ne_zero) htype
      (omode &&& O_WRONLY == 0) (writes omode) (s₃.proc p).containerId
    obtain ⟨hdone, halone'⟩ := hfill.copying hp hcopy
    rw [hno]
    exact ⟨hdone, halone.trans ((fileFd_alone hfd).trans ⟨halone'.other, halone'.inUse⟩)⟩

end Files
end Xv6
