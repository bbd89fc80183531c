/-
# Which names meet in a directory

`sys_open` with `O_CREATE | O_RDWR` appends the caller's suffix to the name in
every case (`rename_creates`), `skipelem` cuts the result to `DIRSIZ` bytes, and
what is left is the directory entry (`xv6/sysfile.c`, lines 438-482, and
`xv6/fs.c`, lines 596-619).

Names of different containers, and different names of one container, get
different entries, except where the cut takes both suffixes and the names agree, or
where one name is cut to what the other one is with its suffix (`Meet`,
`entry_injective`).  A name of `DIRSIZ` bytes loses the suffix (`entry_shared`).
-/

import Xv6.Files.Specs

namespace Xv6
namespace Files

variable {s s' : State} {p addr omode c d : ℕ} {x y : Name}

/-! ### Suffixes -/

@[simp] theorem length_suffix (c : ℕ) : (suffix c).length = 2 := rfl

theorem suffix_injective (hc : c < NCONTAINER) (hd : d < NCONTAINER)
    (h : suffix c = suffix d) : c = d := by
  have hinj : ∀ c < NCONTAINER, ∀ d < NCONTAINER, suffix c = suffix d → c = d := by decide +kernel
  exact hinj c hc d hd h

theorem slash_not_mem_suffix (hc : c < NCONTAINER) : '/' ∉ suffix c := by
  have hall : ∀ c < NCONTAINER, '/' ∉ suffix c := by decide +kernel
  exact hall c hc

/-! ### Elements -/

theorem skipelem_of_no_slash (hx : x ≠ []) (h : '/' ∉ x) :
    skipelem x = some (x.take DIRSIZ, []) := by
  have hne : ∀ ch ∈ x, ch ≠ '/' := fun ch hch heq => h (heq ▸ hch)
  have htake : (x ++ []).takeWhile (· ≠ '/') = x ++ [].takeWhile (· ≠ '/') :=
    List.takeWhile_append_of_pos (by simpa using hne)
  have hdrop : (x ++ []).dropWhile (· ≠ '/') = [].dropWhile (· ≠ '/') :=
    List.dropWhile_append_of_pos (by simpa using hne)
  rw [List.append_nil] at htake hdrop
  have hlead : x.dropWhile (· = '/') = x := by
    cases x with
    | nil => rfl
    | cons ch x => rw [List.dropWhile_cons_of_neg (by simpa using hne ch List.mem_cons_self)]
  unfold skipelem
  rw [hlead]
  cases x with
  | nil => exact absurd rfl hx
  | cons ch x =>
    dsimp only
    rw [htake, hdrop, List.takeWhile_nil, List.append_nil]
    rfl

/-- A name without a slash is one element. -/
theorem elements_of_no_slash (hx : x ≠ []) (h : '/' ∉ x) : elements x = [x.take DIRSIZ] := by
  have hlen : x.length = x.length - 1 + 1 := by
    have := List.length_pos_iff.2 hx
    omega
  unfold elements
  rw [hlen, skipelems, skipelem_of_no_slash hx h]
  dsimp only
  cases hn : x.length - 1 <;> rfl

theorem lastElement_of_no_slash (h : '/' ∉ x) : lastElement x = x.take DIRSIZ := by
  by_cases hx : x = []
  · rw [hx]
    rfl
  · rw [lastElement, elements_of_no_slash hx h]
    rfl

/-! ### The name `sys_open` looks up -/

/-- The name of a container's file. -/
def decorated (x : Name) (c : ℕ) : Name := if c = 0 then x else x ++ suffix c

theorem renaming_creates {proc : Proc} {table : ℕ → List ℕ} {r : Renaming}
    (hcreates : creates omode = true) (hwrites : writes omode = true)
    (h : proc.renaming table addr x omode = .ok r) :
    r.append = (proc.containerId != 0) := by
  obtain ⟨⟨existing, pages⟩, -, h⟩ := bind_eq_ok.1 h
  have hread : omode ≠ O_RDONLY := by
    rintro rfl
    exact absurd hwrites (by decide)
  dsimp only at h
  split at h
  · split at h
    next hzero =>
      cases h
      simp [hzero]
    next hpos =>
      obtain ⟨found, -, h⟩ := bind_eq_ok.1 h
      cases h
      simp [hpos]
  · cases h
    rfl

/-- **An open that creates and writes always means the caller's own file.** -/
theorem State.rename_creates {path : Name} {makeCopy : Bool}
    (hcreates : creates omode = true) (hwrites : writes omode = true)
    (h : s.rename p addr x omode = .ok (path, makeCopy, s')) :
    path = decorated x (s.proc p).containerId := by
  obtain ⟨r, hr, -, rfl, -, -⟩ := rename_eq_ok h
  rw [renaming_creates hcreates hwrites hr]
  unfold decorated
  by_cases hzero : (s.proc p).containerId = 0
  · simp [hzero]
  · simp [hzero]

/-! ### Entries -/

/-- The directory entry of a name in a container. -/
def entryOf (x : Name) (c : ℕ) : Name := lastElement (decorated x c)

/-- Nothing of a suffix is in the entry: the name is one of the host, or the cut takes it. -/
def Bare (x : Name) (c : ℕ) : Prop := c = 0 ∨ DIRSIZ ≤ x.length

instance (x : Name) (c : ℕ) : Decidable (Bare x c) := inferInstanceAs (Decidable (_ ∨ _))

/-- The name without a suffix in its entry is cut to what the other one is with its suffix. -/
def CutTo (x y : Name) (d : ℕ) : Prop := x.take DIRSIZ = (y ++ suffix d).take DIRSIZ

instance (x y : Name) (d : ℕ) : Decidable (CutTo x y d) := inferInstanceAs (Decidable (_ = _))

/-- The names, in the two containers, meet in a directory entry: both lose their suffix and agree
up to the cut; one loses it and is cut to the other one with its suffix; or both are the same name
of `DIRSIZ - 1` bytes, of whose suffixes the `$` is left. -/
def Meet (x : Name) (c : ℕ) (y : Name) (d : ℕ) : Prop :=
  if Bare x c then if Bare y d then x.take DIRSIZ = y.take DIRSIZ else CutTo x y d
  else if Bare y d then CutTo y x c else x.length + 1 = DIRSIZ ∧ x = y

instance (x : Name) (c : ℕ) (y : Name) (d : ℕ) : Decidable (Meet x c y d) := by
  unfold Meet
  infer_instance

theorem entryOf_eq (h : '/' ∉ x) (hc : c < NCONTAINER) :
    entryOf x c = (decorated x c).take DIRSIZ := by
  refine lastElement_of_no_slash ?_
  unfold decorated
  split
  · exact h
  · rw [List.mem_append]
    exact not_or.2 ⟨h, slash_not_mem_suffix hc⟩

theorem entryOf_bare (h : '/' ∉ x) (hc : c < NCONTAINER) (hbare : Bare x c) :
    entryOf x c = x.take DIRSIZ := by
  rw [entryOf_eq h hc, decorated]
  split
  · rfl
  next hpos =>
    rw [List.take_append_of_le_length (hbare.resolve_left hpos)]

theorem entryOf_suffix (h : '/' ∉ x) (hc : c < NCONTAINER) (hbare : ¬ Bare x c) :
    entryOf x c = (x ++ suffix c).take DIRSIZ := by
  rw [entryOf_eq h hc, decorated, if_neg fun h0 => hbare (.inl h0)]

theorem dollar_not_id (hc : c < NCONTAINER) : Char.ofNat ('0'.toNat + c) ≠ '$' := by
  have hall : ∀ c < NCONTAINER, Char.ofNat ('0'.toNat + c) ≠ '$' := by decide +kernel
  exact hall c hc

/-- Names with a part of their suffixes in the entries: only the `$` of both can be left. -/
theorem suffixed_eq_iff (hc : c < NCONTAINER) (hd : d < NCONTAINER) (hbx : x.length < DIRSIZ)
    (hby : y.length < DIRSIZ) (hsame : c = d → x.take DIRSIZ ≠ y.take DIRSIZ) :
    (x ++ suffix c).take DIRSIZ = (y ++ suffix d).take DIRSIZ ↔
      x.length + 1 = DIRSIZ ∧ x = y := by
  have hshort : ∀ {x : Name} {c : ℕ}, x.length + 2 ≤ DIRSIZ →
      (x ++ suffix c).take DIRSIZ = x ++ suffix c := fun h =>
    List.take_of_length_le (by simpa using h)
  have hlong : ∀ {x : Name} {c : ℕ}, x.length + 1 = DIRSIZ →
      (x ++ suffix c).take DIRSIZ = x ++ ['$'] := fun {x c} h => by
    rw [List.take_append, List.take_of_length_le (by omega), ← h, Nat.add_sub_cancel_left]
    rfl
  have hmixed : ∀ {x y : Name} {c : ℕ}, c < NCONTAINER → x ++ suffix c ≠ y ++ ['$'] := by
    intro x y c hc heq
    have hlast := congrArg List.getLast? heq
    simp only [suffix, List.getLast?_append, List.getLast?_singleton, List.getLast?_cons_cons,
      Option.some_or, Option.some.injEq] at hlast
    exact dollar_not_id hc hlast
  rcases Nat.lt_or_ge (x.length + 1) DIRSIZ with hx | hx <;>
    rcases Nat.lt_or_ge (y.length + 1) DIRSIZ with hy | hy
  · rw [hshort hx, hshort hy]
    refine iff_of_false (fun heq => ?_) fun h => by omega
    obtain ⟨hxy, hsuffix⟩ := List.append_inj' heq rfl
    exact hsame (suffix_injective hc hd hsuffix) (by rw [hxy])
  · rw [hshort hx, hlong (by omega)]
    exact iff_of_false (hmixed hc) fun h => by omega
  · rw [hlong (by omega), hshort hy]
    refine iff_of_false (fun heq => hmixed hd heq.symm) fun h => ?_
    rw [h.2] at hx
    omega
  · rw [hlong (by omega), hlong (by omega), List.append_left_inj]
    exact ⟨fun h => ⟨by omega, h⟩, fun h => h.2⟩

/-- The entries of two names in two containers are the same just if the names meet. -/
theorem entryOf_eq_iff (hx : '/' ∉ x) (hy : '/' ∉ y) (hc : c < NCONTAINER) (hd : d < NCONTAINER)
    (hsame : c = d → x.take DIRSIZ ≠ y.take DIRSIZ) :
    entryOf x c = entryOf y d ↔ Meet x c y d := by
  unfold Meet CutTo
  by_cases hbx : Bare x c <;> by_cases hby : Bare y d
  · rw [if_pos hbx, if_pos hby, entryOf_bare hx hc hbx, entryOf_bare hy hd hby]
  · rw [if_pos hbx, if_neg hby, entryOf_bare hx hc hbx, entryOf_suffix hy hd hby]
  · rw [if_neg hbx, if_pos hby, entryOf_suffix hx hc hbx, entryOf_bare hy hd hby, eq_comm]
  · rw [if_neg hbx, if_neg hby, entryOf_suffix hx hc hbx, entryOf_suffix hy hd hby]
    exact suffixed_eq_iff hc hd (Nat.not_le.1 (not_or.1 hbx).2) (Nat.not_le.1 (not_or.1 hby).2) hsame

/-- **When container file naming is injective on disk.**  Two processes that open `x` and `y`, which
are not the same name of the same container, with `O_CREATE | O_RDWR` reach different directory
entries just if the names do not meet. -/
theorem entry_injective {t t' : State} {q addr' : ℕ} {x' y' : Name} {mx my : Bool}
    (hx : '/' ∉ x) (hy : '/' ∉ y)
    (hc : (s.proc p).containerId < NCONTAINER) (hd : (t.proc q).containerId < NCONTAINER)
    (hsame : (s.proc p).containerId = (t.proc q).containerId → x.take DIRSIZ ≠ y.take DIRSIZ)
    (hsx : s.rename p addr x (O_CREATE ||| O_RDWR) = .ok (x', mx, s'))
    (hsy : t.rename q addr' y (O_CREATE ||| O_RDWR) = .ok (y', my, t')) :
    lastElement x' ≠ lastElement y' ↔
      ¬ Meet x (s.proc p).containerId y (t.proc q).containerId := by
  rw [State.rename_creates (by decide) (by decide) hsx,
    State.rename_creates (by decide) (by decide) hsy]
  exact not_congr (entryOf_eq_iff hx hy hc hd hsame)

/-- A process of container `c` that has a name at address `2`. -/
def caller (c : ℕ) (name : Name) : State :=
  smallBoot.setProc 0
    { inUse := true, pid := 1, containerId := c, sz := PGSIZE
      mem := fun a => (NUL :: NUL :: name).getD a NUL }

/-- `abc` in container 1 and `abc` in container 2. -/
theorem entry_injective_abc : ∃ x' y' : Name,
    (∃ mx s', (caller 1 "abc".toList).rename 0 2 "abc".toList (O_CREATE ||| O_RDWR) =
      .ok (x', mx, s')) ∧
    (∃ my t', (caller 2 "abc".toList).rename 0 2 "abc".toList (O_CREATE ||| O_RDWR) =
      .ok (y', my, t')) ∧ lastElement x' ≠ lastElement y' := by
  obtain ⟨⟨x', mx, s'⟩, hx, -⟩ := exists_ok_of_any
    (x := (caller 1 "abc".toList).rename 0 2 "abc".toList (O_CREATE ||| O_RDWR))
    (Q := fun _ => True) (by decide +kernel)
  obtain ⟨⟨y', my, t'⟩, hy, -⟩ := exists_ok_of_any
    (x := (caller 2 "abc".toList).rename 0 2 "abc".toList (O_CREATE ||| O_RDWR))
    (Q := fun _ => True) (by decide +kernel)
  refine ⟨x', y', ⟨mx, s', hx⟩, ⟨my, t', hy⟩, ?_⟩
  exact (entry_injective (by decide +kernel) (by decide +kernel) (by decide) (by decide)
    (fun h => absurd h (by decide)) hx hy).2 (by decide +kernel)

/-- **A name of `DIRSIZ` bytes loses its suffix**: containers 1 and 2 share the entry. -/
theorem entry_shared : ∃ x' y' : Name,
    (∃ mx s', (caller 1 "abcdefghijklmn".toList).rename 0 2 "abcdefghijklmn".toList
      (O_CREATE ||| O_RDWR) = .ok (x', mx, s')) ∧
    (∃ my t', (caller 2 "abcdefghijklmn".toList).rename 0 2 "abcdefghijklmn".toList
      (O_CREATE ||| O_RDWR) = .ok (y', my, t')) ∧ lastElement x' = lastElement y' := by
  obtain ⟨⟨x', mx, s'⟩, hx, hxlast⟩ := exists_ok_of_any
    (x := (caller 1 "abcdefghijklmn".toList).rename 0 2 "abcdefghijklmn".toList
      (O_CREATE ||| O_RDWR))
    (Q := fun r => lastElement r.1 = "abcdefghijklmn".toList) (by decide +kernel)
  obtain ⟨⟨y', my, t'⟩, hy, hylast⟩ := exists_ok_of_any
    (x := (caller 2 "abcdefghijklmn".toList).rename 0 2 "abcdefghijklmn".toList
      (O_CREATE ||| O_RDWR))
    (Q := fun r => lastElement r.1 = "abcdefghijklmn".toList) (by decide +kernel)
  exact ⟨x', y', ⟨mx, s', hx⟩, ⟨my, t', hy⟩, hxlast.trans hylast.symm⟩

end Files
end Xv6
