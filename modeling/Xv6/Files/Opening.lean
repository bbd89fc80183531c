/-
# The ways through `sys_open`

`Opening` and `Copying` list the ways in which `sys_open` and its copy of a
host file can go (`xv6/sysfile.c`, lines 346-537), with the states in between.
A refused file is the odd one out: the descriptor has been taken by then, and
neither it nor the inode is given back.
-/

import Xv6.Files.OpenSteps
import Xv6.Files.References

namespace Xv6
namespace Files

variable {s s' : State} {p addr omode f : ℕ} {path : Name}

/-- How `copy_helper_COW` can go, for a copy in the inode `i`. -/
inductive Copying (s : State) (p : ℕ) (path : Name) (i : ℕ) : State → Prop where
  | lost {s₁ : State} {c : ICache} (hpage : s.scratch 1 = .ok s₁)
      (hname : namei s₁.fs.disk s₁.fs.icache (s₁.proc p).cwd (State.original path) = .ok (none, c)) :
      Copying s p path i (s₁.setCache c)
  | full {s₁ s₂ : State} {c : ICache} {k : ℕ} (hpage : s.scratch 1 = .ok s₁)
      (hname : namei s₁.fs.disk s₁.fs.icache (s₁.proc p).cwd (State.original path) = .ok (some k, c))
      (htype : (s₁.fs.disk (c.inode k).inum).type ≠ .free)
      (hfd : (s₁.setCache c).fileFd p = (none, s₂)) : Copying s p path i (s₂.iput k)
  | copied {s₁ s₂ s₃ : State} {c : ICache} {k fd g : ℕ} (hpage : s.scratch 1 = .ok s₁)
      (hname : namei s₁.fs.disk s₁.fs.icache (s₁.proc p).cwd (State.original path) = .ok (some k, c))
      (htype : (s₁.fs.disk (c.inode k).inum).type ≠ .free)
      (hfd : (s₁.setCache c).fileFd p = (some (fd, g), s₂))
      (hwrote : Wrote i (s₂.fill g k true false (s₂.proc p).containerId) s₃) :
      Copying s p path i s₃

/-- The entry `f` of the copy is not the one that is taken for the original, so the loop writes
to the inode of the copy. -/
theorem copyHelperCOW_copying {k : ℕ} (href : (s.file f).ref ≠ 0)
    (htype : (s.file f).type = .inode) (hip : (s.file f).ip = some k)
    (hlive : 0 < (s.fs.icache.inode k).ref) (h : s.copyHelperCOW p path f = .ok s') :
    Copying s p path (s.fs.icache.inode k).inum s' := by
  obtain ⟨s₁, hpage, h⟩ := bind_eq_ok.1 h
  have hren := scratch_renamed p hpage
  obtain ⟨-, h⟩ := ite_error_eq_ok.1 h
  obtain ⟨⟨j, c⟩, hname, h⟩ := bind_eq_ok.1 h
  cases j with
  | none =>
    cases h
    exact .lost hpage hname
  | some j =>
    obtain ⟨d, hlock, h⟩ := bind_eq_ok.1 h
    obtain ⟨rfl, hfree⟩ := ICache.ilock_eq_ok hlock
    split at h
    next s₂ hfd =>
      cases h
      exact .full hpage hname hfree hfd
    next fd g s₂ hfd =>
      refine .copied hpage hname hfree hfd ?_
      obtain ⟨-, -, hgfree, -, hs₂⟩ := fileFd_some hfd
      have hne : f ≠ g := by
        rintro rfl
        change (s₁.file f).ref = 0 at hgfree
        rw [hren.file] at hgfree
        exact href hgfree
      have hfile : (s₂.fill g j true false (s₂.proc p).containerId).file f = s.file f := by
        rw [State.fill, setFile_of_ne s₂ hne, hs₂]
        change ((s₁.setCache c).setFile g _).file f = s.file f
        rw [setFile_of_ne _ hne]
        exact congrFun hren.file f
      have hg : ((s₂.fill g j true false (s₂.proc p).containerId).file g).type = .inode := by
        rw [State.fill, setFile_self]
      have hwrote := copyLoop_wrote hg (by rw [hfile]; exact htype)
        (by rw [hfile]; exact hip) h
      have hinum : ((s₂.fill g j true false (s₂.proc p).containerId).fs.icache.inode k).inum =
          (s.fs.icache.inode k).inum := by
        rw [hs₂]
        change (c.inode k).inum = _
        rw [(namei_spec hname).1.inum k (by rw [hren.fs]; exact hlive), hren.fs]
      rw [hinum] at hwrote
      exact hwrote

/-- The caller may use the inode at `k`: it is its container's, or marked as the host's. -/
def TagPasses (s : State) (p k : ℕ) : Prop :=
  (s.fs.icache.inode k).containerId = (s.proc p).containerId ∨
    (s.fs.icache.inode k).containerId = 0

instance (s : State) (p k : ℕ) : Decidable (TagPasses s p k) := inferInstanceAs (Decidable (_ ∨ _))

/-- The entry filled in for an open that succeeds. -/
def State.opened (s : State) (p f k omode : ℕ) : State :=
  s.fill f k (omode &&& O_WRONLY == 0) (writes omode) (s.proc p).containerId

/-- How `sys_open` can go: `s₁` is the state after the name was chosen, `s₂` the one after
the lookup, and `s₃` the one with the descriptor. -/
inductive Opening (s : State) (p addr omode : ℕ) : ℤ → State → Prop where
  | unnamed (hpath : (s.proc p).fetchstr addr = none) : Opening s p addr omode (-1) s
  | missing {path path' : Name} {makeCopy : Bool} {s₁ s₂ : State}
      (hpath : (s.proc p).fetchstr addr = some path)
      (hname : s.rename p addr path omode = .ok (path', makeCopy, s₁))
      (hlook : s₁.openInode p path' omode makeCopy = .ok (none, s₂)) :
      Opening s p addr omode (-1) s₂
  | full {path path' : Name} {makeCopy : Bool} {s₁ s₂ s₃ : State} {k : ℕ}
      (hpath : (s.proc p).fetchstr addr = some path)
      (hname : s.rename p addr path omode = .ok (path', makeCopy, s₁))
      (hlook : s₁.openInode p path' omode makeCopy = .ok (some k, s₂))
      (hfd : s₂.fileFd p = (none, s₃)) : Opening s p addr omode (-1) (s₃.iput k)
  | refused {path path' : Name} {makeCopy : Bool} {s₁ s₂ s₃ : State} {k fd f : ℕ}
      (hpath : (s.proc p).fetchstr addr = some path)
      (hname : s.rename p addr path omode = .ok (path', makeCopy, s₁))
      (hlook : s₁.openInode p path' omode makeCopy = .ok (some k, s₂))
      (hfd : s₂.fileFd p = (some (fd, f), s₃)) (htag : ¬ TagPasses s₃ p k) :
      Opening s p addr omode (-1) s₃
  | opened {path path' : Name} {s₁ s₂ s₃ : State} {k fd f : ℕ}
      (hpath : (s.proc p).fetchstr addr = some path)
      (hname : s.rename p addr path omode = .ok (path', false, s₁))
      (hlook : s₁.openInode p path' omode false = .ok (some k, s₂))
      (hfd : s₂.fileFd p = (some (fd, f), s₃)) (htag : TagPasses s₃ p k) :
      Opening s p addr omode fd (s₃.opened p f k omode)
  | copied {path path' : Name} {s₁ s₂ s₃ s₄ : State} {k fd f : ℕ}
      (hpath : (s.proc p).fetchstr addr = some path)
      (hname : s.rename p addr path omode = .ok (path', true, s₁))
      (hlook : s₁.openInode p path' omode true = .ok (some k, s₂))
      (hfd : s₂.fileFd p = (some (fd, f), s₃)) (htag : TagPasses s₃ p k)
      (hcopy : Copying (s₃.opened p f k omode) p path' (s₃.fs.icache.inode k).inum s₄) :
      Opening s p addr omode fd s₄

/-- The entry is filled in for an inode that is referenced. -/
theorem openFd_filled {path' : Name} {makeCopy : Bool} {s₁ s₂ s₃ : State} {k fd : ℕ}
    (hlook : s₁.openInode p path' omode makeCopy = .ok (some k, s₂))
    (hfd : s₂.fileFd p = (some (fd, f), s₃)) :
    ((s₃.opened p f k omode).file f).ref ≠ 0 ∧
      ((s₃.opened p f k omode).file f).type = .inode ∧
      ((s₃.opened p f k omode).file f).ip = some k ∧
      0 < ((s₃.opened p f k omode).fs.icache.inode k).ref := by
  have hpos := (openInode_looked hlook).pos
  obtain ⟨-, -, -, -, rfl⟩ := fileFd_some hfd
  have hfile : ((s₂.setFile f { s₂.file f with ref := 1 }).setFd p fd (some f)).file f =
      { s₂.file f with ref := 1 } := setFile_self ..
  rw [State.opened, State.fill, setFile_self, hfile]
  exact ⟨Nat.one_ne_zero, rfl, rfl, hpos⟩

/-- **`sys_open` goes in one of six ways.** -/
theorem sysOpen_opening {n : ℤ} (h : sysOpen s p addr omode = .ok (n, s')) :
    Opening s p addr omode n s' := by
  obtain ⟨⟨o, s₀⟩, hopen, h⟩ := bind_eq_ok.1 h
  unfold State.openFile at hopen
  split at hopen
  next hpath =>
    cases hopen
    cases h
    exact .unnamed hpath
  next path hpath =>
    obtain ⟨⟨path', makeCopy, s₁⟩, hname, hopen⟩ := bind_eq_ok.1 hopen
    obtain ⟨⟨k, s₂⟩, hlook, hopen⟩ := bind_eq_ok.1 hopen
    cases k with
    | none =>
      cases hopen
      cases h
      exact .missing hpath hname hlook
    | some k =>
      have hopen := Except.ok.inj hopen
      unfold State.openFd at hopen
      split at hopen
      next s₃ hfd =>
        cases hopen
        cases h
        exact .full hpath hname hlook hfd
      next fd f s₃ hfd =>
        dsimp only at hopen
        split at hopen
        next htag =>
          cases hopen
          obtain ⟨s₄, hcopy, h⟩ := bind_eq_ok.1 h
          cases h
          cases makeCopy with
          | true =>
            obtain ⟨href, htype, hip, hlive⟩ := openFd_filled hlook hfd
            exact .copied hpath hname hlook hfd htag
              (copyHelperCOW_copying href htype hip hlive hcopy)
          | false =>
            cases hcopy
            exact .opened hpath hname hlook hfd htag
        next htag =>
          cases hopen
          cases h
          exact .refused hpath hname hlook hfd htag

end Files
end Xv6
