/-
# A directory is a map

`namecmp`, `dirlookup` and `dirlink` of `xv6/fs.c` (lines 517-579), with `strncmp` and
`strncpy` (`xv6/string.c`, lines 58-79) on which they rest, and the clearing of an entry
in `sys_unlink` (`xv6/sysfile.c`, lines 244-270).  A name is what lies at a pointer; an
entry keeps `DIRSIZ` bytes of it, without a zero if the name is longer.  A directory is
the list of its entries, `dp->size` bytes in all: `readi` and `writei` are taken as reads
and writes of an array, of at most `MAXFILE * BSIZE` bytes, and blocks are left out.

Two names are the same for `namecmp` if they agree up to the first zero in their first
`DIRSIZ` bytes (`cut`), and `strncpy` keeps just this part.  Entries that are in use
have different names, and a directory maps names to inode numbers (`directory_map`).
The one thing in the way is the size: `dirlink` in a full directory panics
(`full_directory_panics`).
-/

import Xv6.Lib.Run
import Xv6.Fs.Layout

namespace Xv6
namespace Directory

open Lib Fs Function

/-! ### Strings -/

/-- `strncmp` at the offset `i` of both strings, with `n` bytes left. -/
def strncmp (p q : ℕ → Byte) : ℕ → ℕ → ℤ
  | 0, _ => 0
  | n + 1, i =>
      if p i ≠ 0 ∧ p i = q i then strncmp p q n (i + 1) else ((p i).toNat : ℤ) - (q i).toNat

/-- The second loop of `strncpy`. -/
def pad : (ℕ → Byte) → ℕ → ℕ → ℕ → Byte
  | s, 0, _ => s
  | s, n + 1, i => pad (update s i 0) n (i + 1)

/-- `strncpy` to `s`, from the offset `i` on, with `n` bytes left. -/
def strncpy (t : ℕ → Byte) : (ℕ → Byte) → ℕ → ℕ → ℕ → Byte
  | s, 0, _ => s
  | s, n + 1, i =>
      if t i ≠ 0 then strncpy t (update s i (t i)) n (i + 1)
      else pad (update s i (t i)) n (i + 1)

/-- `namecmp`. -/
def namecmp (s t : ℕ → Byte) : ℤ := strncmp s t DIRSIZ 0

/-- The bytes of a string from an offset on: at most `n`, and none from the first zero on. -/
def cut (p : ℕ → Byte) : ℕ → ℕ → List Byte
  | 0, _ => []
  | n + 1, i => if p i = 0 then [] else p i :: cut p n (i + 1)

/-- The part of a name that counts. -/
def key (name : ℕ → Byte) : List Byte := cut name DIRSIZ 0

variable {p q s t : ℕ → Byte} {n i j : ℕ}

/-- **`strncmp` compares up to the first zero.** -/
theorem strncmp_eq_zero_iff : strncmp p q n i = 0 ↔ cut p n i = cut q n i := by
  induction n generalizing i with
  | zero => simp [strncmp, cut]
  | succ n ih =>
    rw [strncmp, cut, cut]
    by_cases hsame : p i = q i
    · rw [hsame]
      by_cases hzero : q i = 0
      · simp [hzero]
      · rw [if_pos ⟨hzero, rfl⟩, if_neg hzero, if_neg hzero, ih]
        simp
    · have hne : (p i).toNat ≠ (q i).toNat := fun h => hsame (BitVec.eq_of_toNat_eq h)
      rw [if_neg fun h => hsame h.2]
      constructor
      · intro h
        omega
      · intro h
        split at h
        next hp =>
          split at h
          next hq => exact absurd (hp.trans hq.symm) hsame
          · cases h
        · split at h
          · cases h
          · exact absurd (List.cons.inj h).1 hsame

theorem namecmp_eq_zero_iff : namecmp s t = 0 ↔ key s = key t := strncmp_eq_zero_iff

theorem pad_of_lt (h : j < i) : pad s n i j = s j := by
  induction n generalizing s i with
  | zero => rfl
  | succ n ih => rw [pad, ih (by omega), update_of_ne (by omega)]

theorem strncpy_of_lt (h : j < i) : strncpy t s n i j = s j := by
  induction n generalizing s i with
  | zero => rfl
  | succ n ih =>
    rw [strncpy]
    split
    · rw [ih (by omega), update_of_ne (by omega)]
    · rw [pad_of_lt (by omega), update_of_ne (by omega)]

/-- **`strncpy` copies what `strncmp` compares.** -/
theorem cut_strncpy (s t : ℕ → Byte) (n i : ℕ) : cut (strncpy t s n i) n i = cut t n i := by
  induction n generalizing s i with
  | zero => rfl
  | succ n ih =>
    rw [strncpy, cut, cut]
    split
    next hzero =>
      rw [strncpy_of_lt (Nat.lt_succ_self i), update_self, ih, if_neg hzero]
    next hzero =>
      rw [pad_of_lt (Nat.lt_succ_self i), update_self, if_pos (not_not.1 hzero),
        if_pos (not_not.1 hzero)]

/-! ### Directories -/

/-- `struct dirent`, free if the number is `0`. -/
structure Dirent where
  inum : ℕ
  name : ℕ → Byte

/-- The entries of a directory. -/
abbrev Dir := List Dirent

/-- The loop of `dirlookup` from the entry of index `k` on: its index and its number. -/
def dirlookupFrom (name : ℕ → Byte) : ℕ → Dir → Option (ℕ × ℕ)
  | _, [] => none
  | k, de :: rest =>
      if de.inum = 0 then dirlookupFrom name (k + 1) rest
      else if namecmp name de.name = 0 then some (k, de.inum)
      else dirlookupFrom name (k + 1) rest

/-- `dirlookup`. -/
def dirlookup (dir : Dir) (name : ℕ → Byte) : Option (ℕ × ℕ) := dirlookupFrom name 0 dir

/-- The entry at which the second loop of `dirlink` stops. -/
def firstEmpty : Dir → ℕ
  | [] => 0
  | de :: rest => if de.inum = 0 then 0 else firstEmpty rest + 1

/-- The directory with the entry of an index written, which may be the one behind the last. -/
def put (dir : Dir) (k : ℕ) (de : Dirent) : Dir := dir.take k ++ de :: dir.drop (k + 1)

/-- `writei` of an entry. -/
def writei (dir : Dir) (k : ℕ) (de : Dirent) : Option Dir :=
  if MAXFILE * BSIZE < 16 * k + 16 then none else some (put dir k de)

/-- The entry that `dirlink` writes.  `inum` is cut to the two bytes it has there. -/
def newEntry (name : ℕ → Byte) (inum : ℕ) : Dirent :=
  ⟨inum % 2 ^ 16, strncpy name (fun _ => 0) DIRSIZ 0⟩

/-- `dirlink`. -/
def dirlink (dir : Dir) (name : ℕ → Byte) (inum : ℕ) : Except Halt (ℤ × Dir) :=
  if (dirlookup dir name).isSome then .ok (-1, dir)
  else
    match writei dir (firstEmpty dir) (newEntry name inum) with
    | none => .error (.panic "dirlink")
    | some dir => .ok (0, dir)

/-- The names `.` and `..`. -/
def dots (n : ℕ) (i : ℕ) : Byte := if i < n then 46 else 0

/-- What `sys_unlink` does to the directory when it lets the name go. -/
def unlink (dir : Dir) (name : ℕ → Byte) : Except Halt (ℤ × Dir) :=
  if namecmp name (dots 1) = 0 ∨ namecmp name (dots 2) = 0 then .ok (-1, dir)
  else
    match dirlookup dir name with
    | none => .ok (-1, dir)
    | some (k, _) =>
        match writei dir k ⟨0, fun _ => 0⟩ with
        | none => .error (.panic "unlink: writei")
        | some dir => .ok (0, dir)

/-- A change of a directory. -/
inductive Act where
  | link (name : ℕ → Byte) (inum : ℕ)
  | unlink (name : ℕ → Byte)

/-- One change. -/
def step (dir : Dir) : Act → Option Dir
  | .link name inum => (dirlink dir name inum).toOption.map Prod.snd
  | .unlink name => (unlink dir name).toOption.map Prod.snd

/-- The names of the entries in use. -/
def keys (dir : Dir) : List (List Byte) :=
  (dir.filter fun de => de.inum ≠ 0).map fun de => key de.name

variable {dir dir' : Dir} {name x : ℕ → Byte} {k inum : ℕ} {de : Dirent}

theorem key_newEntry (name : ℕ → Byte) (inum : ℕ) : key (newEntry name inum).name = key name :=
  cut_strncpy ..

/-- What `dirlookup` answers, without the index. -/
theorem dirlookupFrom_map (k : ℕ) :
    (dirlookupFrom name k dir).map Prod.snd =
      (dir.find? fun de => de.inum ≠ 0 ∧ key name = key de.name).map Dirent.inum := by
  induction dir generalizing k with
  | nil => rfl
  | cons de dir ih =>
    rw [dirlookupFrom]
    split
    next hempty =>
      rw [List.find?_cons_of_neg (by simp [hempty])]
      exact ih (k + 1)
    next hused =>
      split
      next hname =>
        rw [List.find?_cons_of_pos (by simp [hused, namecmp_eq_zero_iff.1 hname])]
        rfl
      next hname =>
        rw [List.find?_cons_of_neg (by simp [hused, mt namecmp_eq_zero_iff.2 hname])]
        exact ih (k + 1)

theorem dirlookup_eq_none_iff : dirlookup dir name = none ↔ key name ∉ keys dir := by
  rw [← Option.map_eq_none_iff (f := Prod.snd), dirlookup, dirlookupFrom_map,
    Option.map_eq_none_iff, List.find?_eq_none]
  constructor
  · intro h hmem
    obtain ⟨de, hde, heq⟩ := List.mem_map.1 hmem
    obtain ⟨hin, hused⟩ := List.mem_filter.1 hde
    exact h de hin (decide_eq_true ⟨of_decide_eq_true hused, heq.symm⟩)
  · intro h de hin hde
    obtain ⟨hused, heq⟩ := of_decide_eq_true hde
    exact h (List.mem_map.2 ⟨de, List.mem_filter.2 ⟨hin, decide_eq_true hused⟩, heq.symm⟩)

/-- `dirlink` of a new name, in a directory that is not full. -/
theorem dirlink_new (h : dirlookup dir name = none)
    (hroom : 16 * firstEmpty dir + 16 ≤ MAXFILE * BSIZE) :
    dirlink dir name inum = .ok (0, put dir (firstEmpty dir) (newEntry name inum)) := by
  rw [dirlink, if_neg (by rw [h]; exact Bool.false_ne_true), writei, if_neg (Nat.not_lt.2 hroom)]

/-- **A new entry**: the name leads to it, and all others lead where they did. -/
theorem find_put (hused : de.inum ≠ 0) (hnew : key de.name ∉ keys dir) :
    (dirlookup (put dir (firstEmpty dir) de) x).map Prod.snd =
      if key x = key de.name then some de.inum else (dirlookup dir x).map Prod.snd := by
  unfold dirlookup
  simp only [dirlookupFrom_map]
  induction dir with
  | nil =>
    split
    next h => simp [put, h, hused]
    next h => simp [put, h]
  | cons d dir ih =>
    rw [firstEmpty]
    split
    next hempty =>
      -- the entry takes the place of an empty one, which no lookup finds
      rw [show put (d :: dir) 0 de = de :: dir from rfl]
      split
      next h => simp [h, hused]
      next h => simp [h, hempty]
    next hd =>
      have hkeys : keys (d :: dir) = key d.name :: keys dir := by simp [keys, hd]
      rw [hkeys, List.mem_cons, not_or] at hnew
      rw [show put (d :: dir) (firstEmpty dir + 1) de = d :: put dir (firstEmpty dir) de from rfl]
      by_cases hx : key x = key d.name
      · rw [if_neg fun h => hnew.1 (h.symm.trans hx), List.find?_cons_of_pos (by simp [hd, hx]),
          List.find?_cons_of_pos (by simp [hd, hx])]
      · rw [List.find?_cons_of_neg (by simp [hx]), List.find?_cons_of_neg (by simp [hx])]
        exact ih hnew.2

theorem keys_put (hused : de.inum ≠ 0) :
    (keys (put dir (firstEmpty dir) de)).Perm (key de.name :: keys dir) := by
  induction dir with
  | nil => simp [put, keys, hused]
  | cons d dir ih =>
    rw [firstEmpty]
    split
    next hempty =>
      rw [show put (d :: dir) 0 de = de :: dir from rfl]
      simp [keys, hused, hempty]
    next hd =>
      have hkeys : ∀ l, keys (d :: l) = key d.name :: keys l := fun l => by simp [keys, hd]
      rw [show put (d :: dir) (firstEmpty dir + 1) de = d :: put dir (firstEmpty dir) de from rfl,
        hkeys, hkeys]
      exact (ih.cons _).trans (.swap ..)

/-- An entry that is cleared takes its name along and no other. -/
theorem keys_put_zero (hzero : de.inum = 0) : (keys (put dir k de)).Sublist (keys dir) := by
  refine List.Sublist.map _ ?_
  rw [put, List.filter_append, List.filter_cons_of_neg (by simp [hzero]), ← List.filter_append]
  refine List.Sublist.filter _ ?_
  rw [← List.drop_drop]
  conv_rhs => rw [← List.take_append_drop k dir]
  exact (List.Sublist.refl _).append (List.drop_sublist ..)

/-- **Every change keeps the names apart.** -/
theorem nodup_step {a : Act} (h : (keys dir).Nodup) (hs : step dir a = some dir') :
    (keys dir').Nodup := by
  cases a with
  | link name inum =>
    obtain ⟨⟨r, dir''⟩, hlink, rfl⟩ := Option.map_eq_some_iff.1 hs
    have hlink := ok_of_toOption hlink
    unfold dirlink at hlink
    split at hlink
    · cases hlink
      exact h
    next hnone =>
      have hnew := dirlookup_eq_none_iff.1 (Option.not_isSome_iff_eq_none.1 hnone)
      unfold writei at hlink
      split at hlink
      · cases hlink
      next hput =>
        split at hput
        · cases hput
        · cases hput
          cases hlink
          by_cases hused : (newEntry name inum).inum = 0
          · exact h.sublist (keys_put_zero hused)
          · rw [(keys_put hused).nodup_iff, key_newEntry]
            exact List.nodup_cons.2 ⟨hnew, h⟩
  | unlink name =>
    obtain ⟨⟨r, dir''⟩, hunlink, rfl⟩ := Option.map_eq_some_iff.1 hs
    have hunlink := ok_of_toOption hunlink
    unfold unlink at hunlink
    split at hunlink
    · cases hunlink
      exact h
    · split at hunlink
      · cases hunlink
        exact h
      · unfold writei at hunlink
        split at hunlink
        · cases hunlink
        next hput =>
          split at hput
          · cases hput
          · cases hput
            cases hunlink
            exact h.sublist (keys_put_zero rfl)

/-- The index is that of the first empty entry, or the next one. -/
theorem firstEmpty_spec (dir : Dir) : firstEmpty dir ≤ dir.length ∧
    (∀ i < firstEmpty dir, ∀ de, dir[i]? = some de → de.inum ≠ 0) ∧
      ∀ de, dir[firstEmpty dir]? = some de → de.inum = 0 := by
  induction dir with
  | nil => simp [firstEmpty]
  | cons d dir ih =>
    rw [firstEmpty]
    split
    next hempty => simp [hempty]
    next hd =>
      obtain ⟨hle, hused, hfree⟩ := ih
      refine ⟨Nat.succ_le_succ hle, fun i hi de hde => ?_, hfree⟩
      cases i with
      | zero =>
        cases hde
        exact hd
      | succ i => exact hused i (Nat.lt_of_succ_lt_succ hi) de hde

/-- **A directory is a finite map on names**, however it was made.  Entries in use have
different names; `dirlink` fails, and changes nothing, just if the name is there; and in a
directory that is not full it makes the name lead to the inode and changes no other answer, in
the first empty entry. -/
theorem directory_map (dir : Dir) (h : Reach step anyStep [] dir) :
    (dir.filter fun de => de.inum ≠ 0).Pairwise (fun d e => namecmp d.name e.name ≠ 0) ∧
    ∀ name inum,
      ((∃ dir', dirlink dir name inum = .ok (-1, dir')) ↔ (dirlookup dir name).isSome) ∧
      (∀ dir', dirlink dir name inum = .ok (-1, dir') → dir' = dir) ∧
      (dirlookup dir name = none → 16 * firstEmpty dir + 16 ≤ MAXFILE * BSIZE → 0 < inum →
        inum < 2 ^ 16 → ∃ dir' de, dirlink dir name inum = .ok (0, dir') ∧
          (∀ x, namecmp x name = 0 → (dirlookup dir' x).map Prod.snd = some inum) ∧
          (∀ x, namecmp x name ≠ 0 →
            (dirlookup dir' x).map Prod.snd = (dirlookup dir x).map Prod.snd) ∧
          dir' = put dir (firstEmpty dir) de ∧ firstEmpty dir ≤ dir.length ∧
          (∀ i < firstEmpty dir, ∀ e, dir[i]? = some e → e.inum ≠ 0) ∧
          ∀ e, dir[firstEmpty dir]? = some e → e.inum = 0) := by
  have hnodup : (keys dir).Nodup :=
    h.invariant (I := fun d => (keys d).Nodup) List.nodup_nil fun _ _ _ hx _ hs => nodup_step hx hs
  refine ⟨?_, fun name inum => ⟨⟨?_, fun hsome => ⟨dir, if_pos hsome⟩⟩, ?_, ?_⟩⟩
  · refine (List.pairwise_map.1 hnodup).imp fun hne heq => hne (namecmp_eq_zero_iff.1 heq)
  · rintro ⟨dir', hlink⟩
    by_contra hnone
    rw [dirlink, if_neg hnone] at hlink
    split at hlink <;> cases hlink
  · intro dir' hlink
    unfold dirlink at hlink
    split at hlink
    · cases hlink
      rfl
    · split at hlink <;> cases hlink
  · intro hnone hroom hpos hlt
    have hnum : (newEntry name inum).inum = inum := Nat.mod_eq_of_lt hlt
    have hnew := dirlookup_eq_none_iff.1 hnone
    rw [← key_newEntry name inum] at hnew
    have hfind := fun x => find_put (x := x) (by omega) hnew
    refine ⟨_, newEntry name inum, dirlink_new hnone hroom, fun x hx => ?_, fun x hx => ?_, rfl,
      firstEmpty_spec dir⟩
    · rw [hfind, key_newEntry, if_pos (namecmp_eq_zero_iff.1 hx), hnum]
    · rw [hfind, key_newEntry, if_neg (mt namecmp_eq_zero_iff.2 hx)]

/-- `.` in a new directory, and a second name beside it. -/
theorem directory_map_dots : ∃ dir dir', Reach step anyStep [] dir ∧
    dirlink dir (dots 2) 7 = .ok (0, dir') ∧ (dirlookup dir' (dots 2)).map Prod.snd = some 7 := by
  have hdir : Reach step anyStep [] [newEntry (dots 1) 5] :=
    Reach.refl.tail (.link (dots 1) 5) trivial rfl
  obtain ⟨-, hmap⟩ := directory_map _ hdir
  obtain ⟨dir', -, hlink, hname, -⟩ :=
    (hmap (dots 2) 7).2.2 (by decide) (by decide) (by decide) (by decide)
  exact ⟨_, dir', hdir, hlink, hname _ (by decide)⟩

/-! ### A full directory -/

/-- Different names for the numbers below `255 * 255`. -/
def nth (j i : ℕ) : Byte :=
  if i = 0 then BitVec.ofNat 8 (j % 255 + 1) else if i = 1 then BitVec.ofNat 8 (j / 255 + 1) else 0

theorem key_nth {j : ℕ} (hj : j < 65025) :
    key (nth j) = [BitVec.ofNat 8 (j % 255 + 1), BitVec.ofNat 8 (j / 255 + 1)] := by
  have hlow : BitVec.ofNat 8 (j % 255 + 1) ≠ 0 := fun h => by
    have := congrArg BitVec.toNat h
    simp at this
    omega
  have hhigh : BitVec.ofNat 8 (j / 255 + 1) ≠ 0 := fun h => by
    have := congrArg BitVec.toNat h
    simp at this
    omega
  rw [key, show DIRSIZ = 14 from rfl, cut, if_neg (show nth j 0 ≠ 0 from hlow), cut,
    if_neg (show nth j (0 + 1) ≠ 0 from hhigh), cut,
    if_pos (show nth j (0 + 1 + 1) = 0 from rfl)]
  rfl

theorem key_nth_inj {j : ℕ} (hi : i < 65025) (hj : j < 65025) (h : key (nth i) = key (nth j)) :
    i = j := by
  rw [key_nth hi, key_nth hj, List.cons.injEq, List.cons.injEq] at h
  have hlow := congrArg BitVec.toNat h.1
  have hhigh := congrArg BitVec.toNat h.2.1
  simp at hlow hhigh
  omega

theorem firstEmpty_eq_length (h : ∀ de ∈ dir, de.inum ≠ 0) : firstEmpty dir = dir.length := by
  induction dir with
  | nil => rfl
  | cons d dir ih =>
    rw [firstEmpty, if_neg (h d List.mem_cons_self), List.length_cons,
      ih fun de hde => h de (List.mem_cons_of_mem d hde)]

/-- A directory can be filled with links to one inode. -/
theorem exists_filled (k : ℕ) (hk : 16 * k ≤ MAXFILE * BSIZE) :
    ∃ dir, Reach step anyStep [] dir ∧ dir.length = k ∧ (∀ de ∈ dir, de.inum ≠ 0) ∧
      ∀ l ∈ keys dir, ∃ j < k, l = key (nth j) := by
  induction k with
  | zero => exact ⟨[], .refl, rfl, by simp, by simp [keys]⟩
  | succ k ih =>
    obtain ⟨dir, hdir, hlen, hused, hkeys⟩ := ih (by omega)
    have hempty := (firstEmpty_eq_length hused).trans hlen
    have hmax : MAXFILE * BSIZE = 71680 := by decide
    have hnew : key (nth k) ∉ keys dir := fun hmem => by
      obtain ⟨j, hj, heq⟩ := hkeys _ hmem
      have := key_nth_inj (by omega) (by omega) heq
      omega
    have hput : put dir k (newEntry (nth k) 1) = dir ++ [newEntry (nth k) 1] := by
      rw [put, List.take_of_length_le (Nat.le_of_eq hlen), List.drop_of_length_le (by omega)]
    have hlink : step dir (.link (nth k) 1) = some (dir ++ [newEntry (nth k) 1]) := by
      rw [step, dirlink_new (dirlookup_eq_none_iff.2 hnew) (by omega), hempty, hput]
      rfl
    refine ⟨_, hdir.tail _ trivial hlink, by rw [List.length_append, hlen]; rfl, ?_, ?_⟩
    · intro de hde
      obtain hde | hde := List.mem_append.1 hde
      · exact hused de hde
      · rw [List.mem_singleton.1 hde]
        exact Nat.one_ne_zero
    · intro l hl
      rw [← hput, ← hempty, (keys_put Nat.one_ne_zero).mem_iff, List.mem_cons, key_newEntry] at hl
      obtain rfl | hl := hl
      · exact ⟨k, Nat.lt_succ_self k, by rw [hempty]⟩
      · obtain ⟨j, hj, heq⟩ := hkeys l hl
        exact ⟨j, by omega, heq⟩

/-- **`dirlink` panics in a full directory**, which any process can make with `link`. -/
theorem full_directory_panics : ∃ dir name, Reach step anyStep [] dir ∧
    dirlookup dir name = none ∧ dirlink dir name 1 = .error (.panic "dirlink") := by
  obtain ⟨dir, hdir, hlen, hused, hkeys⟩ := exists_filled 4480 (by decide)
  have hempty := (firstEmpty_eq_length hused).trans hlen
  have hnew : key (nth 4480) ∉ keys dir := fun hmem => by
    obtain ⟨j, hj, heq⟩ := hkeys _ hmem
    have := key_nth_inj (by omega) (by omega) heq
    omega
  have hnone := dirlookup_eq_none_iff.2 hnew
  refine ⟨dir, nth 4480, hdir, hnone, ?_⟩
  rw [dirlink, if_neg (by rw [hnone]; exact Bool.false_ne_true), writei, hempty, if_pos (by decide)]

end Directory
end Xv6
