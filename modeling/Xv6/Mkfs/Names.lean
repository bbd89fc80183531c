/-
# Names in the root directory

`mkfs` writes an entry of 16 bytes for each file (`xv6/mkfs.c`, lines 119-153):
the number of its inode and the name, cut to `DIRSIZ` bytes or filled up with
zeros.  `dirlookup` of the kernel (`xv6/fs.c`, lines 525-549) reads the entries
back one by one and compares names with `strncmp`, and `namex` (lines 617-660)
takes a path apart.  For names without a zero or a slash the two agree:
`dirScan_found` and `namei_found`.
-/

import Xv6.Mkfs.Files

namespace Xv6
namespace Mkfs

open Lib Fs

variable {name : List Byte}

/-! ### Entries -/

/-- A name as it is stored. -/
def padded (name : List Byte) : List Byte :=
  name.take DIRSIZ ++ List.replicate (DIRSIZ - name.length) 0

theorem length_padded (name : List Byte) : (padded name).length = DIRSIZ := by
  rw [padded, List.length_append, List.length_take, List.length_replicate]
  omega

/-- **An entry is read back.** -/
theorem direntOf_direntBytes {i : ℕ} (hi : i < 2 ^ 16) (name : List Byte) :
    direntOf (direntBytes i name) = (i, padded name) := by
  have hnum : getLE (fun k => (direntBytes i name).getD k 0) 0 2 = i % 256 ^ 2 := by
    refine getLE_of_leByte fun k hk => ?_
    rcases Nat.lt_or_ge k 1 with hk0 | hk1
    · obtain rfl : k = 0 := by omega
      rfl
    · obtain rfl : k = 1 := by omega
      rfl
  have hmod : i % 256 ^ 2 = i := Nat.mod_eq_of_lt hi
  rw [direntOf, hnum, hmod]
  rfl

theorem cstring_take (h : (0 : Byte) ∉ name) : cstring (name.take DIRSIZ) = name.take DIRSIZ := by
  refine List.takeWhile_eq_self_iff.2 fun x hx => ?_
  rw [decide_eq_true_eq]
  rintro rfl
  exact h (List.mem_of_mem_take hx)

theorem cstring_padded (h : (0 : Byte) ∉ name) :
    cstring ((padded name).take DIRSIZ) = name.take DIRSIZ := by
  rw [List.take_of_length_le (Nat.le_of_eq (length_padded name)), padded, cstring,
    List.takeWhile_append_of_pos fun x hx => decide_eq_true ?_, List.takeWhile_replicate]
  · simp
  · rintro rfl
    exact h (List.mem_of_mem_take hx)

/-- **`namecmp` compares the first `DIRSIZ` bytes.** -/
theorem sameName_padded {name' : List Byte} (h : (0 : Byte) ∉ name) (h' : (0 : Byte) ∉ name') :
    sameName (name.take DIRSIZ) (padded name') ↔ name.take DIRSIZ = name'.take DIRSIZ := by
  rw [sameName, List.take_take, Nat.min_self, cstring_take h, cstring_padded h',
    decide_eq_true_eq]

/-! ### Looking up -/

section lookup

variable {v : Vol} {dp : Dinode} {entries : List (ℕ × List Byte)}

/-- A directory whose entries can be read. -/
structure Listed (v : Vol) (dp : Dinode) (entries : List (ℕ × List Byte)) : Prop where
  size : 16 * entries.length ≤ dp.size
  read : ∀ j e, entries[j]? = some e → readi v dp (16 * j) 16 =
    .ok (some (direntBytes e.1 e.2), dp, v)
  inum : ∀ e ∈ entries, 0 < e.1 ∧ e.1 < 2 ^ 16
  name : ∀ e ∈ entries, (0 : Byte) ∉ e.2

/-- **`dirlookup` finds the first entry with a name.** -/
theorem dirScan_found (h : Listed v dp entries) (hname : (0 : Byte) ∉ name) {t : ℕ}
    {e : ℕ × List Byte} (ht : entries[t]? = some e) (heq : name.take DIRSIZ = e.2.take DIRSIZ)
    (hfirst : ∀ j < t, ∀ e', entries[j]? = some e' → name.take DIRSIZ ≠ e'.2.take DIRSIZ)
    {fuel j : ℕ} (hj : j ≤ t) (hfuel : t < j + fuel) :
    dirScan fuel v dp (16 * j) (name.take DIRSIZ) = .ok (some e.1, dp, v) := by
  have hlen : t < entries.length := (List.getElem?_eq_some_iff.1 ht).1
  have hsize := h.size
  induction fuel generalizing j with
  | zero => omega
  | succ fuel ih =>
    have hjlen : j < entries.length := by omega
    obtain ⟨e', he'⟩ : ∃ e', entries[j]? = some e' := ⟨_, List.getElem?_eq_getElem hjlen⟩
    have hmem := List.mem_of_getElem? he'
    have hnum := h.inum e' hmem
    rw [dirScan, if_pos (by omega), h.read j e' he', ok_bind]
    dsimp only
    have hsame := sameName_padded hname (h.name e' hmem)
    rw [if_neg (by rw [length_direntBytes]; simp), direntOf_direntBytes hnum.2]
    rcases Nat.lt_or_ge j t with hlt | hge
    · rw [if_neg fun hand => hfirst j hlt e' he' (hsame.1 hand.2)]
      exact ih (j := j + 1) hlt (by omega)
    · obtain rfl : j = t := by omega
      obtain rfl := Option.some.inj (he'.symm.trans ht)
      rw [if_pos ⟨Nat.ne_of_gt hnum.1, hsame.2 heq⟩]

/-- A name is a path of one element, with a leading slash or without. -/
theorem skipelem_name (hne : name ≠ []) (hslash : slash ∉ name) :
    skipelem name = some (name.take DIRSIZ, []) ∧
      skipelem (slash :: name) = some (name.take DIRSIZ, []) := by
  have hall : ∀ x ∈ name, decide (x ≠ slash) = true := fun x hx =>
    decide_eq_true fun hx' => hslash (hx' ▸ hx)
  have hdrop : name.dropWhile (· = slash) = name := by
    cases name with
    | nil => rfl
    | cons x name =>
      rw [List.dropWhile_cons_of_neg]
      simpa using hall x List.mem_cons_self
  have htake : name.takeWhile (· ≠ slash) = name := List.takeWhile_eq_self_iff.2 hall
  have hrest : name.dropWhile (· ≠ slash) = [] := List.dropWhile_eq_nil_iff.2 hall
  have hname : skipelem name = some (name.take DIRSIZ, []) := by
    rw [skipelem, hdrop, if_neg hne, htake, hrest]
    rfl
  refine ⟨hname, ?_⟩
  rw [← hname, skipelem, skipelem, List.dropWhile_cons_of_pos (by simp)]

theorem namexLoop_nil (fuel : ℕ) (v : Vol) (inum : ℕ) :
    namexLoop fuel v inum [] = .ok (some inum, v) := by
  cases fuel <;> rfl

/-- **`namei` finds a name in the root**, from the root and with a leading slash. -/
theorem namei_found (hdp : dinodeOf v.sb v.disk ROOTINO = dp) (htype : dp.type = T_DIR)
    (hne : name ≠ []) (hslash : slash ∉ name) {inum : ℕ}
    (hfound : dirlookup v dp (name.take DIRSIZ) = .ok (some inum, dp, v)) :
    namei v ROOTINO name = .ok (some inum, v) ∧
      ∀ cwd, namei v cwd (slash :: name) = .ok (some inum, v) := by
  obtain ⟨hskip, hskip'⟩ := skipelem_name hne hslash
  have hlock : ilock v ROOTINO = .ok dp := by
    rw [ilock, hdp, if_neg (by rw [htype]; decide)]
  have hloop : ∀ fuel path, skipelem path = some (name.take DIRSIZ, []) →
      namexLoop (fuel + 1) v ROOTINO path = .ok (some inum, v) := by
    intro fuel path hpath
    rw [namexLoop, hpath]
    dsimp only
    rw [hlock, ok_bind, if_neg (by simp [htype]), hfound, ok_bind]
    exact namexLoop_nil fuel v inum
  constructor
  · obtain ⟨x, rest, rfl⟩ := List.exists_cons_of_ne_nil hne
    have hx : (x :: rest).head? ≠ some slash := by
      rw [List.head?_cons]
      intro h
      exact hslash (Option.some.inj h ▸ List.mem_cons_self)
    rw [namei, if_neg hx]
    exact hloop rest.length _ hskip
  · intro cwd
    rw [namei, List.head?_cons, if_pos rfl]
    exact hloop name.length _ hskip'

end lookup

end Mkfs
end Xv6
