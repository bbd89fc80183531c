/-
# Path names

`skipelem`, `namex` and `nameiparent` of `xv6/fs.c`, lines 584-671, with the buffer `name` that
`skipelem` fills.  A path is the list of its bytes before the zero, and a pointer into it is
what is left of the list.  The references that `namex` takes and drops are left out, as in
`Xv6.Fs.Kernel`.

However many slashes stand before, between and behind the elements of a path, the calls of
`skipelem` find one after another, and `namex` for a parent looks up all but the last.
-/

import Xv6.Fs.Kernel

namespace Xv6
namespace Fs
namespace Path

open Lib Function

/-- `skipelem`: the rest of the path, and the buffer. -/
def skipelem (path : List Byte) (name : ℕ → Byte) : Option (List Byte × (ℕ → Byte)) :=
  let s := path.dropWhile (· = slash)
  if s = [] then none
  else
    -- the bytes from `s` to `path`
    let elem := s.takeWhile (· ≠ slash)
    let path := s.dropWhile (· ≠ slash)
    some (path.dropWhile (· = slash),
      if DIRSIZ ≤ elem.length then blit name 0 (elem.take DIRSIZ)
      else update (blit name 0 elem) elem.length 0)

/-- What calls of `skipelem` one after another return until the first `0`, `n` of them at most. -/
def skipelems : ℕ → List Byte → (ℕ → Byte) → List (List Byte × (ℕ → Byte))
  | 0, _, _ => []
  | n + 1, path, name =>
      match skipelem path name with
      | none => []
      | some (path, name) => (path, name) :: skipelems n path name

/-- What `namecmp` reads of the buffer: up to a zero, `DIRSIZ` bytes at most. -/
def nameOf (name : ℕ → Byte) : List Byte := cstring ((List.range' 0 DIRSIZ).map name)

/-- The loop of `namex` from the inode `inum` on. -/
def namexLoop (parent : Bool) :
    ℕ → Vol → ℕ → List Byte → (ℕ → Byte) → Except Halt (Option ℕ × (ℕ → Byte) × Vol)
  | 0, v, inum, _, name => .ok (if parent then none else some inum, name, v)
  | fuel + 1, v, inum, path, name =>
      match skipelem path name with
      | none => .ok (if parent then none else some inum, name, v)
      | some (path, name) => do
          let ip ← ilock v inum
          if ip.type ≠ T_DIR then .ok (none, name, v)
          else if parent ∧ path = [] then .ok (some inum, name, v)
          else
            let (next, _, v) ← dirlookup v ip (nameOf name)
            match next with
            | none => .ok (none, name, v)
            | some inum => namexLoop parent fuel v inum path name

/-- Every turn takes at least one byte of the path. -/
def namex (v : Vol) (cwd : ℕ) (path : List Byte) (parent : Bool) (name : ℕ → Byte) :
    Except Halt (Option ℕ × (ℕ → Byte) × Vol) :=
  namexLoop parent path.length v (if path.head? = some slash then ROOTINO else cwd) path name

/-! ### What a path says -/

/-- The maximal runs of bytes other than a slash. -/
def runs (path : List Byte) : List (List Byte) :=
  (path.splitOnP (· = slash)).filter (· ≠ [])

/-- The directory that all names but the last lead to, with the last. -/
def parentOf : Vol → ℕ → List (List Byte) → Except Halt (Option (ℕ × List Byte) × Vol)
  | v, _, [] => .ok (none, v)
  | v, inum, name :: names => do
      let ip ← ilock v inum
      if ip.type ≠ T_DIR then .ok (none, v)
      else if names = [] then .ok (some (inum, name), v)
      else
        let (next, _, v) ← dirlookup v ip name
        match next with
        | none => .ok (none, v)
        | some inum => parentOf v inum names

/-- An inode with the name in the buffer. -/
def found (r : Option ℕ × (ℕ → Byte) × Vol) : Option (ℕ × List Byte) × Vol :=
  (r.1.map fun inum => (inum, nameOf r.2.1), r.2.2)

/-! ### The runs -/

theorem runs_slash (path : List Byte) : runs (slash :: path) = runs path := by
  rw [runs, List.splitOnP_cons_eq_if_modifyHead, if_pos (decide_eq_true rfl)]
  rfl

theorem runs_dropWhile (path : List Byte) : runs (path.dropWhile (· = slash)) = runs path := by
  induction path with
  | nil => rfl
  | cons b path ih =>
    by_cases hb : b = slash
    · rw [List.dropWhile_cons_of_pos (by simpa using hb), ih, hb, runs_slash]
    · rw [List.dropWhile_cons_of_neg (by simpa using hb)]

/-- The first run ends where the path does or a slash follows. -/
theorem runs_append {run rest : List Byte} (hne : run ≠ []) (hrun : ∀ b ∈ run, b ≠ slash)
    (hrest : rest = [] ∨ rest.head? = some slash) : runs (run ++ rest) = run :: runs rest := by
  have hone : run.splitOnP (· = slash) = [run] :=
    List.splitOnP_eq_singleton fun b hb => decide_eq_false (hrun b hb)
  cases rest with
  | nil => simp [runs, hone, hne]
  | cons c rest =>
    obtain rfl : c = slash := by simpa using hrest
    rw [runs_slash, runs, List.splitOnP_append_cons _ _ (by simp), hone]
    simp [runs, hne]

theorem head_ne {l s : List Byte} {b : Byte} (h : l.dropWhile (· = slash) = b :: s) :
    b ≠ slash := by
  have := List.head_dropWhile_not (· = slash) (l := l) (by rw [h]; nofun)
  simpa [h] using this

theorem runs_cons {b : Byte} (hb : b ≠ slash) (s : List Byte) :
    runs (b :: s) = (b :: s).takeWhile (· ≠ slash) :: runs ((b :: s).dropWhile (· ≠ slash)) := by
  have hall : ∀ c ∈ (b :: s).takeWhile (· ≠ slash), c ≠ slash := fun c hc => by
    simpa using List.all_eq_true.1 List.all_takeWhile c hc
  rw [← runs_append (by simp [hb]) hall, List.takeWhile_append_dropWhile]
  have hnot := List.head?_dropWhile_not (· ≠ slash) (b :: s)
  cases hs : (b :: s).dropWhile (· ≠ slash) with
  | nil => exact .inl rfl
  | cons c rest =>
    rw [hs] at hnot
    exact .inr (congrArg some (by simpa using hnot))

/-! ### One call -/

/-- What is read of a buffer that holds a name. -/
theorem takeWhile_buffer {run : List Byte} (hrun : (0 : Byte) ∉ run) {name : ℕ → Byte} {off n : ℕ}
    (hbytes : ∀ i < n, ∀ b, run[i]? = some b → name (off + i) = b)
    (hnul : run.length < n → name (off + run.length) = 0) :
    cstring ((List.range' off n).map name) = run.take n := by
  induction n generalizing off run with
  | zero => rfl
  | succ n ih =>
    rw [List.range'_succ, List.map_cons]
    cases run with
    | nil => simp [cstring, show name off = 0 from hnul (Nat.succ_pos n)]
    | cons b run =>
      obtain ⟨hb, hrun⟩ := not_or.1 (mt List.mem_cons.2 hrun)
      have hoff : name off = b := hbytes 0 (Nat.succ_pos n) b rfl
      rw [cstring, List.takeWhile_cons_of_pos (by simpa [hoff] using Ne.symm hb), hoff]
      refine congrArg (b :: ·) (ih hrun (fun i hi c hc => ?_) fun hlt => ?_)
      · rw [Nat.add_right_comm]
        exact hbytes (i + 1) (Nat.succ_lt_succ hi) c hc
      · rw [Nat.add_right_comm]
        exact hnul (Nat.succ_lt_succ hlt)

/-- The buffer after a copy, of `DIRSIZ` bytes or with a zero behind. -/
theorem nameOf_copy (name : ℕ → Byte) {elem : List Byte} (helem : (0 : Byte) ∉ elem) :
    nameOf (if DIRSIZ ≤ elem.length then blit name 0 (elem.take DIRSIZ)
      else update (blit name 0 elem) elem.length 0) = elem.take DIRSIZ := by
  have hlt : ∀ {i b}, elem[i]? = some b → i < elem.length := fun h =>
    (List.getElem?_eq_some_iff.1 h).1
  refine takeWhile_buffer helem (fun i hi b hb => ?_) fun hshort => ?_
  · rw [Nat.zero_add]
    have := hlt hb
    split
    · rw [blit_mid (Nat.zero_le i) (by simp; omega)]
      simp [hb, hi]
    · rw [update_of_ne (Nat.ne_of_lt this), blit_mid (Nat.zero_le i) (by omega)]
      simp [hb]
  · rw [Nat.zero_add, if_neg (Nat.not_le.2 hshort), update_self]

/-- **A call takes the first run, if there is one.** -/
theorem skipelem_cases (path : List Byte) (hpath : (0 : Byte) ∉ path) (name : ℕ → Byte) :
    (skipelem path name = none ∧ runs path = []) ∨
      ∃ rest name' run, skipelem path name = some (rest, name') ∧ runs path = run :: runs rest ∧
        nameOf name' = run.take DIRSIZ ∧ (rest = [] ↔ runs rest = []) ∧
        rest.length < path.length ∧ (0 : Byte) ∉ rest := by
  cases hs : path.dropWhile (· = slash) with
  | nil =>
    refine .inl ⟨by rw [skipelem, hs]; rfl, ?_⟩
    rw [← runs_dropWhile, hs]
    rfl
  | cons b s =>
    have hb := head_ne hs
    have hsub : (b :: s).Sublist path := hs ▸ (List.dropWhile_suffix _).sublist
    have hrest : (((b :: s).dropWhile (· ≠ slash)).dropWhile (· = slash)).Sublist s := by
      rw [List.dropWhile_cons_of_pos (by simpa using hb)]
      exact ((List.dropWhile_suffix _).trans (List.dropWhile_suffix _)).sublist
    refine .inr ⟨_, _, _, by rw [skipelem, hs]; rfl, ?_, nameOf_copy name fun h0 => ?_, ?_, ?_,
      fun h0 => ?_⟩
    · rw [runs_dropWhile, ← runs_cons hb, ← hs, runs_dropWhile]
    · exact hpath (hsub.subset ((List.takeWhile_sublist _).subset h0))
    · cases hr : ((b :: s).dropWhile (· ≠ slash)).dropWhile (· = slash) with
      | nil => exact iff_of_true rfl rfl
      | cons c r => exact iff_of_false nofun (by rw [runs_cons (head_ne hr)]; nofun)
    · exact Nat.lt_of_le_of_lt hrest.length_le hsub.length_le
    · exact hpath (hsub.subset (List.mem_cons_of_mem b (hrest.subset h0)))

/-! ### All calls -/

theorem skipelem_eq_none {path : List Byte} (hpath : (0 : Byte) ∉ path) (name : ℕ → Byte) :
    skipelem path name = none ↔ runs path = [] := by
  rcases skipelem_cases path hpath name with ⟨hskip, hruns⟩ | ⟨rest, name', run, hskip, hruns, -⟩
  · exact iff_of_true hskip hruns
  · exact iff_of_false (by rw [hskip]; nofun) (by rw [hruns]; nofun)

theorem skipelems_runs {n : ℕ} {path : List Byte} (hn : path.length ≤ n) (hpath : (0 : Byte) ∉ path)
    (name : ℕ → Byte) :
    (skipelems n path name).map (fun r => nameOf r.2) = (runs path).map (List.take DIRSIZ) ∧
      ∀ k r, (skipelems n path name)[k]? = some r → (r.1 = [] ↔ k + 1 = (runs path).length) := by
  induction n generalizing path name with
  | zero =>
    obtain rfl := List.length_eq_zero_iff.1 (Nat.le_zero.1 hn)
    exact ⟨rfl, nofun⟩
  | succ n ih =>
    rw [skipelems]
    rcases skipelem_cases path hpath name with
      ⟨hskip, hruns⟩ | ⟨rest, name', run, hskip, hruns, hname, hrest, hlen, h0⟩
    · rw [hskip, hruns]
      exact ⟨rfl, nofun⟩
    · obtain ⟨hall, hlast⟩ := ih (Nat.le_of_lt_succ (Nat.lt_of_lt_of_le hlen hn)) h0 name'
      rw [hskip, hruns]
      refine ⟨congrArg₂ List.cons hname hall, fun k r hr => ?_⟩
      cases k with
      | zero =>
        obtain rfl := Option.some.inj hr
        rw [hrest, ← List.length_eq_zero_iff]
        simp
      | succ k => simpa using hlast k r hr

theorem namexLoop_parent {fuel : ℕ} {path : List Byte} (hfuel : path.length ≤ fuel)
    (hpath : (0 : Byte) ∉ path) (v : Vol) (inum : ℕ) (name : ℕ → Byte) :
    (namexLoop true fuel v inum path name).map found =
      parentOf v inum ((runs path).map (List.take DIRSIZ)) := by
  induction fuel generalizing path v inum name with
  | zero =>
    obtain rfl := List.length_eq_zero_iff.1 (Nat.le_zero.1 hfuel)
    rfl
  | succ fuel ih =>
    rw [namexLoop]
    rcases skipelem_cases path hpath name with
      ⟨hskip, hruns⟩ | ⟨rest, name', run, hskip, hruns, hname, hrest, hlen, h0⟩
    · rw [hskip, hruns]
      rfl
    · have hnext := ih (Nat.le_of_lt_succ (Nat.lt_of_lt_of_le hlen hfuel)) h0
      rw [hskip, hruns, List.map_cons, parentOf]
      cases ilock v inum with
      | error e => rfl
      | ok ip =>
        simp only [ok_bind, List.map_eq_nil_iff, ← hrest, hname]
        split
        · rfl
        · by_cases hlast : rest = []
          · rw [if_pos ⟨trivial, hlast⟩, if_pos hlast]
            simp [found, hname, Except.map]
          · rw [if_neg fun h => hlast h.2, if_neg hlast]
            cases dirlookup v ip (run.take DIRSIZ) with
            | error e => rfl
            | ok r =>
              obtain ⟨_ | next, dp, v⟩ := r
              · rfl
              · exact hnext v next name'

/-- **Path splitting.**  For every path the calls of `skipelem` come to an end and yield its
runs, and `namex` for a parent stops at the directory that all runs but the last lead to. -/
theorem path_splitting (path : List Byte) (hpath : (0 : Byte) ∉ path) (name : ℕ → Byte) :
    (∀ n, path.length ≤ n →
      (skipelems n path name).map (fun r => nameOf r.2) = (runs path).map (List.take DIRSIZ) ∧
      ∀ k r, (skipelems n path name)[k]? = some r → (r.1 = [] ↔ k + 1 = (runs path).length)) ∧
    (skipelem path name = none ↔ runs path = []) ∧
    ∀ v cwd, (namex v cwd path true name).map found =
      parentOf v (if path.head? = some slash then ROOTINO else cwd)
        ((runs path).map (List.take DIRSIZ)) :=
  ⟨fun _ hn => skipelems_runs hn hpath name, skipelem_eq_none hpath name,
    fun v _ => namexLoop_parent (Nat.le_refl _) hpath v _ name⟩

/-- `//ab///c/` has two runs. -/
theorem path_splitting_slashes :
    (skipelems 9 [47, 47, 97, 98, 47, 47, 47, 99, 47] fun _ => 1).map (fun r => nameOf r.2) =
      [[97, 98], [99]] :=
  ((path_splitting [47, 47, 97, 98, 47, 47, 47, 99, 47] (by decide) fun _ => 1).1 9
    (by decide)).1.trans (by decide)

end Path
end Fs
end Xv6
