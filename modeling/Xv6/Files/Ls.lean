/-
# `ls`

The program `ls` (`xv6/ls.c`, lines 77-145) prints the names in a directory that
it takes for its own container's: one that ends by `$` and a digit only if the
digit is the container's and `get_file_container_id` (`xv6/sysfile.c`, lines
655-671) does not answer `0`, and then without these two bytes, and any other
one as it is.  `sys_open` makes the same decision from the other side, by the
names that are registered.

`ls` copies a name behind the path in its buffer, so the byte that it looks at,
two before the end, may be one of the path.  `get_file_container_id` answers
`0` for a name of the host and `-1` for any other; the page it takes for a copy
of the name is lost.
-/

import Xv6.Files.Directories
import Xv6.Files.Resolve

namespace Xv6
namespace Files

open State

variable {s s' s₁ : State} {p q addr : ℕ} {x path name : Name} {names : ℕ → List Name} {c : ℕ}
  {entries : List Dirent}

/-- The line that `ls` prints for an entry of the directory `dir`, where `fileCid` are the
answers of `get_file_container_id`. -/
def lsLine (cid : ℕ) (fileCid : Name → ℤ) (dir name : Name) : Option Name :=
  let buf := dir ++ '/' :: name
  if buf.getD (buf.length - 2) NUL = '$' then
    if buf.getD (buf.length - 1) NUL = Char.ofNat ('0'.toNat + cid) ∧ fileCid name ≠ 0 then
      some (name.take (name.length - 2))
    else none
  else some name

/-- The lines that `ls` prints for a directory. -/
def ls (cid : ℕ) (fileCid : Name → ℤ) (dir : Name) (entries : List Dirent) : List Name :=
  entries.filterMap fun e => if e.inum = 0 then none else lsLine cid fileCid dir e.name

/-! ### What is printed -/

/-- The name has a `$` two bytes before its end. -/
def Suffixed (name : Name) : Prop := 2 ≤ name.length ∧ name.getD (name.length - 2) NUL = '$'

instance (name : Name) : Decidable (Suffixed name) := inferInstanceAs (Decidable (_ ∧ _))

theorem suffixed_append (x : Name) (c : ℕ) : Suffixed (x ++ suffix c) := by
  have hlen : (x ++ suffix c).length = x.length + 2 := by
    rw [List.length_append]
    rfl
  refine ⟨by omega, ?_⟩
  rw [hlen, Nat.add_sub_cancel, List.getD_append_right _ _ _ _ (Nat.le_refl _), Nat.sub_self]
  rfl

/-- A name that ends as those of a container is one of them. -/
theorem Suffixed.eq_append (h : Suffixed name)
    (hlast : name.getD (name.length - 1) NUL = Char.ofNat ('0'.toNat + c)) :
    name = name.take (name.length - 2) ++ suffix c := by
  obtain ⟨hlen, hdollar⟩ := h
  have hdrop : name.drop (name.length - 2) = suffix c := by
    refine List.ext_getElem ?_ fun i h₁ h₂ => ?_
    · rw [List.length_drop]
      change name.length - (name.length - 2) = 2
      omega
    · rw [List.length_drop] at h₁
      rw [List.getElem_drop]
      have hi : i = 0 ∨ i = 1 := by omega
      rcases hi with rfl | rfl
      · rw [List.getD_eq_getElem _ _ (by omega)] at hdollar
        exact hdollar
      · rw [List.getD_eq_getElem _ _ (by omega)] at hlast
        have hidx : name.length - 2 + 1 = name.length - 1 := by omega
        simp only [hidx, hlast]
        rfl
  rw [← hdrop, List.take_append_drop]

/-- In the current directory the two bytes are those of the name. -/
theorem lsLine_dot (cid : ℕ) (fileCid : Name → ℤ) (name : Name) :
    lsLine cid fileCid ['.'] name =
      if Suffixed name then
        if name.getD (name.length - 1) NUL = Char.ofNat ('0'.toNat + cid) ∧ fileCid name ≠ 0 then
          some (name.take (name.length - 2))
        else none
      else some name := by
  match name with
  | [] => rfl
  | [ch] => rfl
  | a :: b :: rest =>
    have hbuf : ∀ i, (['.'] ++ '/' :: a :: b :: rest).getD (i + 2) NUL =
      (a :: b :: rest).getD i NUL := fun _ => rfl
    have hlen : (['.'] ++ '/' :: a :: b :: rest).length = (a :: b :: rest).length + 2 := rfl
    have htwo : 2 ≤ (a :: b :: rest).length := by simp
    unfold lsLine Suffixed
    dsimp only
    rw [hlen, show (a :: b :: rest).length + 2 - 2 = (a :: b :: rest).length - 2 + 2 by omega,
      show (a :: b :: rest).length + 2 - 1 = (a :: b :: rest).length - 1 + 2 by omega,
      hbuf, hbuf]
    simp only [htwo, true_and]

/-- **What `ls` prints** for the current directory: the plain names, and its container's own
without their suffix. -/
theorem mem_ls {fileCid : Name → ℤ} : x ∈ ls c fileCid ['.'] entries ↔
    (∃ e ∈ entries, e.inum ≠ 0 ∧ e.name = x ∧ ¬ Suffixed x) ∨
      ∃ e ∈ entries, e.inum ≠ 0 ∧ e.name = x ++ suffix c ∧ fileCid e.name ≠ 0 := by
  unfold ls
  rw [List.mem_filterMap]
  constructor
  · rintro ⟨e, he, hline⟩
    obtain ⟨hne, hline⟩ := Option.ite_none_left_eq_some.1 hline
    rw [lsLine_dot] at hline
    split at hline
    next hsuf =>
      obtain ⟨hlast, hline⟩ := Option.ite_none_right_eq_some.1 hline
      cases hline
      exact .inr ⟨e, he, hne, hsuf.eq_append hlast.1, hlast.2⟩
    next hsuf =>
      cases hline
      exact .inl ⟨e, he, hne, rfl, hsuf⟩
  · rintro (⟨e, he, hne, rfl, hsuf⟩ | ⟨e, he, hne, hname, hcid⟩)
    · refine ⟨e, he, ?_⟩
      rw [if_neg hne, lsLine_dot, if_neg hsuf]
    · refine ⟨e, he, ?_⟩
      have hlen : e.name.length = x.length + 2 := by
        rw [hname, List.length_append]
        rfl
      have hlast : e.name.getD (e.name.length - 1) NUL = Char.ofNat ('0'.toNat + c) := by
        rw [hlen, hname, List.getD_append_right _ _ _ _ (by omega)]
        rw [show x.length + 2 - 1 - x.length = 1 by omega]
        rfl
      rw [if_neg hne, lsLine_dot, if_pos (hname ▸ suffixed_append x c), if_pos ⟨hlast, hcid⟩, hlen,
        hname, Nat.add_sub_cancel, List.take_left]

/-- **No name is printed twice**, unless a plain one has a copy beside it. -/
theorem nodup_ls {fileCid : Name → ℤ} (hdiffer : NamesDiffer entries)
    (halone : ∀ e ∈ entries, ∀ e' ∈ entries, e.inum ≠ 0 → e'.inum ≠ 0 → ¬ Suffixed e.name →
      fileCid e'.name ≠ 0 → e'.name ≠ e.name ++ suffix c) :
    (ls c fileCid ['.'] entries).Nodup := by
  unfold ls
  refine List.pairwise_filterMap.2 ?_
  refine List.Pairwise.imp_of_mem (fun {e e'} he he' hne => ?_) hdiffer
  intro b hb b' hb'
  obtain ⟨hz, hb⟩ := Option.ite_none_left_eq_some.1 hb
  obtain ⟨hz', hb'⟩ := Option.ite_none_left_eq_some.1 hb'
  have hdiff := hne hz hz'
  rw [lsLine_dot] at hb hb'
  rintro rfl
  split at hb
  next hsuf =>
    obtain ⟨hlast, hb⟩ := Option.ite_none_right_eq_some.1 hb
    have hname := hsuf.eq_append hlast.1
    rw [Option.some.inj hb] at hname
    split at hb'
    next hsuf' =>
      obtain ⟨hlast', hb'⟩ := Option.ite_none_right_eq_some.1 hb'
      have hname' := hsuf'.eq_append hlast'.1
      rw [Option.some.inj hb'] at hname'
      exact hdiff (hname.trans hname'.symm)
    next hsuf' =>
      rw [← Option.some.inj hb'] at hname
      exact halone e' he' e he hz' hz hsuf' hlast.2 hname
  next hsuf =>
    rw [← Option.some.inj hb] at hb'
    split at hb'
    next hsuf' =>
      obtain ⟨hlast', hb'⟩ := Option.ite_none_right_eq_some.1 hb'
      have hname' := hsuf'.eq_append hlast'.1
      rw [Option.some.inj hb'] at hname'
      exact halone e he e' he' hz hz' hsuf hlast'.2 hname'
    · exact hdiff (Option.some.inj hb').symm

end Files
end Xv6
