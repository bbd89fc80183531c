/-
# The choice of a name

`sys_open` chooses the name it looks up from the string it is given, the open mode
and the caller's container (`xv6/sysfile.c`, lines 415-482), and from what lies
around the string: it looks up the names registered at addresses of the caller's
memory, and it looks two bytes back from the string's end.  `chosen` is the choice
by the string and the registered names alone.  It is what the code chooses wherever
the byte it looks at is one of the string's own (`renaming_eq_chosen`).
-/

import Xv6.Files.Lookup

namespace Xv6
namespace Files

open Lib State

variable {x : Proc} {addr omode cid : ℕ} {path : Name} {table : ℕ → List ℕ}
  {names : ℕ → List Name} {r : Renaming}

/-- The name is taken for one of the host's, by the names registered for the host. -/
def hostName (host : List Name) (path : Name) : Bool :=
  inInitialFiles path || host.any path.isPrefixOf

/-- The choice of `sys_open` by the names registered for the host and for the caller's
container. -/
def chosen (names : ℕ → List Name) (cid : ℕ) (path : Name) (omode : ℕ) : Renaming :=
  let pages := if inInitialFiles path then 0 else 1
  let inContainer := (names cid).any (decorated path cid).isPrefixOf
  if hostName (names 0) path then
    if cid = 0 then { pages := pages }
    else if omode = O_RDONLY then { append := inContainer, pages := pages + 1 }
    else if writes omode then
      { append := true, makeCopy := !inContainer, register := !inContainer, pages := pages + 1 }
    else { pages := pages }
  else if creates omode then { append := cid != 0, register := true, pages := pages }
  else { append := path.getD (path.length - 2) NUL != '$' && cid != 0, pages := pages }

/-- The byte two before the string's end is one of the string, or it does not matter. -/
def LooksInside (host : List Name) (cid : ℕ) (path : Name) (omode : ℕ) : Prop :=
  2 ≤ path.length ∨ cid = 0 ∨ creates omode = true ∨ hostName host path = true

instance (host : List Name) (cid : ℕ) (path : Name) (omode : ℕ) :
    Decidable (LooksInside host cid path omode) :=
  inferInstanceAs (Decidable (_ ∨ _ ∨ _ ∨ _))

/-- The process finds these names at the addresses in a container's table. -/
def Proc.Sees (x : Proc) (table : ℕ → List ℕ) (names : ℕ → List Name) (c : ℕ) : Prop :=
  List.Forall₂ x.HasString (table c) (names c)

/-- A lookup that returns tells whether a registered name begins with the one asked for. -/
theorem Proc.fileInContainer_eq_ok {found : Bool} (h : x.Sees table names cid) (hpath : NUL ∉ path)
    (hcid : cid < NCONTAINER) (hfound : x.fileInContainer (table cid) path cid = .ok found) :
    found = (names cid).any (decorated path cid).isPrefixOf := by
  have hlen : (decorated path cid).length < PGSIZE := by
    by_contra hle
    have hwild : x.fileInContainer (table cid) path cid = .error .wild := if_pos (Nat.not_lt.1 hle)
    rw [hwild] at hfound
    cases hfound
  rw [Proc.fileInContainer_eq h hpath hcid hlen] at hfound
  exact (Except.ok.inj hfound).symm

theorem Proc.existing_eq_ok {e : Bool × ℕ} (h : x.Sees table names 0) (hpath : NUL ∉ path)
    (he : x.existing table path = .ok e) :
    e = (hostName (names 0) path, if inInitialFiles path then 0 else 1) := by
  unfold Proc.existing at he
  unfold hostName
  split at he
  next hlisted =>
    rw [← Except.ok.inj he, hlisted]
    rfl
  next hlisted =>
    obtain ⟨found, hfound, he⟩ := bind_eq_ok.1 he
    rw [← Except.ok.inj he, Proc.fileInContainer_eq_ok h hpath (by decide) hfound,
      Bool.eq_false_iff.2 hlisted]
    rfl

/-- **The code's choice** is the one by the names. -/
theorem renaming_eq_chosen (hstring : x.HasString addr path) (hpath : NUL ∉ path)
    (hcid : x.containerId < NCONTAINER) (hhost : x.Sees table names 0)
    (hown : x.Sees table names x.containerId)
    (hlooks : LooksInside (names 0) x.containerId path omode)
    (h : x.renaming table addr path omode = .ok r) :
    r = chosen names x.containerId path omode := by
  obtain ⟨e, he, h⟩ := bind_eq_ok.1 h
  rw [Proc.existing_eq_ok hhost hpath he] at h
  unfold chosen
  dsimp only at h ⊢
  split at h
  next hexisting =>
    rw [if_pos hexisting]
    split at h
    next hzero =>
      rw [if_pos hzero]
      exact (Except.ok.inj h).symm
    next hzero =>
      rw [if_neg hzero]
      split at h
      next hread =>
        obtain ⟨found, hfound, h⟩ := bind_eq_ok.1 h
        rw [if_pos hread, ← Except.ok.inj h,
          Proc.fileInContainer_eq_ok hown hpath hcid hfound]
      next hread =>
        rw [if_neg hread]
        split at h
        next hwrite =>
          obtain ⟨found, hfound, h⟩ := bind_eq_ok.1 h
          rw [if_pos hwrite, ← Except.ok.inj h,
            Proc.fileInContainer_eq_ok hown hpath hcid hfound]
        next hwrite =>
          rw [if_neg hwrite]
          exact (Except.ok.inj h).symm
  next hexisting =>
    rw [if_neg hexisting]
    split at h
    next hcreate =>
      rw [if_pos hcreate]
      exact (Except.ok.inj h).symm
    next hcreate =>
      rw [if_neg hcreate]
      obtain ⟨-, h⟩ := ite_error_eq_ok.1 h
      rw [← Except.ok.inj h]
      obtain hlen | hzero | hyes | hyes := hlooks
      · -- the byte is one of the string's
        have hbyte := hstring.mem (path.length - 2) (by omega)
        rw [← Nat.add_sub_assoc hlen] at hbyte
        rw [hbyte]
      · rw [hzero]
        simp
      · exact absurd hyes hcreate
      · exact absurd hyes hexisting

/-- No suffix is appended: the caller is a process of the host; or the name is one of the host's,
opened for reading alone and not registered with the suffix, or neither for reading alone nor for
writing; or it is another name, not to be created, with a `$` two bytes before its end. -/
def KeepsName (names : ℕ → List Name) (cid : ℕ) (path : Name) (omode : ℕ) (byte : Char) : Prop :=
  cid = 0 ∨
    if hostName (names 0) path then
      if omode = O_RDONLY then (names cid).any (decorated path cid).isPrefixOf = false
      else writes omode = false
    else creates omode = false ∧ byte = '$'

instance (names : ℕ → List Name) (cid : ℕ) (path : Name) (omode : ℕ) (byte : Char) :
    Decidable (KeepsName names cid path omode byte) := by
  unfold KeepsName
  infer_instance

/-- The name is one of the host's, the caller is a process of a container, opens it for writing and
has not registered it with the suffix. -/
def Copies (names : ℕ → List Name) (cid : ℕ) (path : Name) (omode : ℕ) : Prop :=
  cid ≠ 0 ∧ hostName (names 0) path = true ∧ omode ≠ O_RDONLY ∧ writes omode = true ∧
    (names cid).any (decorated path cid).isPrefixOf = false

instance (names : ℕ → List Name) (cid : ℕ) (path : Name) (omode : ℕ) :
    Decidable (Copies names cid path omode) :=
  inferInstanceAs (Decidable (_ ∧ _ ∧ _ ∧ _ ∧ _))

/-- The name is to be copied, or is not the host's and is to be created. -/
def Registers (names : ℕ → List Name) (cid : ℕ) (path : Name) (omode : ℕ) : Prop :=
  Copies names cid path omode ∨ hostName (names 0) path = false ∧ creates omode = true

instance (names : ℕ → List Name) (cid : ℕ) (path : Name) (omode : ℕ) :
    Decidable (Registers names cid path omode) :=
  inferInstanceAs (Decidable (_ ∨ _ ∧ _))

/-- **What the code decides**, by the names, the mode and the byte that it looks at. -/
theorem renaming_names (hpath : NUL ∉ path) (hcid : x.containerId < NCONTAINER)
    (hhost : x.Sees table names 0) (hown : x.Sees table names x.containerId)
    (h : x.renaming table addr path omode = .ok r) :
    (r.append = false ↔
      KeepsName names x.containerId path omode (x.mem (addr + path.length - 2))) ∧
    (r.makeCopy = true ↔ Copies names x.containerId path omode) ∧
    (r.register = true ↔ Registers names x.containerId path omode) := by
  obtain ⟨e, he, h⟩ := bind_eq_ok.1 h
  rw [Proc.existing_eq_ok hhost hpath he] at h
  unfold Registers Copies KeepsName
  dsimp only at h
  split at h
  next hexisting =>
    split at h
    next hzero =>
      cases h
      simp [hzero, hexisting]
    next hzero =>
      split at h
      next hread =>
        obtain ⟨found, hfound, h⟩ := bind_eq_ok.1 h
        cases h
        simp [hzero, hexisting, hread, Proc.fileInContainer_eq_ok hown hpath hcid hfound]
      next hread =>
        split at h
        next hwrite =>
          obtain ⟨found, hfound, h⟩ := bind_eq_ok.1 h
          cases h
          simp [hzero, hexisting, hread, hwrite,
            Proc.fileInContainer_eq_ok hown hpath hcid hfound]
        next hwrite =>
          cases h
          simp [hzero, hexisting, hread, hwrite]
  next hexisting =>
    split at h
    next hcreate =>
      cases h
      simp [hexisting, hcreate]
    next hcreate =>
      obtain ⟨-, h⟩ := ite_error_eq_ok.1 h
      cases h
      simp [hexisting, hcreate, or_iff_not_imp_right]

/-- A name that is registered by a process of a container has its suffix. -/
theorem append_of_register (hcid : x.containerId ≠ 0) (h : x.renaming table addr path omode = .ok r)
    (hregister : r.register = true) : r.append = true := by
  obtain ⟨⟨existing, pages⟩, -, h⟩ := bind_eq_ok.1 h
  dsimp only at h
  cases existing
  case true =>
    rw [if_pos rfl, if_neg hcid] at h
    split at h
    · obtain ⟨found, -, h⟩ := bind_eq_ok.1 h
      cases h
      cases hregister
    · split at h
      · obtain ⟨found, -, h⟩ := bind_eq_ok.1 h
        cases h
        rfl
      · cases h
        cases hregister
  case false =>
    rw [if_neg Bool.false_ne_true] at h
    split at h
    · cases h
      exact bne_iff_ne.2 hcid
    · split at h
      · cases h
      · cases h
        cases hregister

/-- A process of the host gets no suffix. -/
theorem append_host (hcid : x.containerId = 0) (h : x.renaming table addr path omode = .ok r) :
    r.append = false := by
  obtain ⟨⟨existing, pages⟩, -, h⟩ := bind_eq_ok.1 h
  dsimp only at h
  cases existing
  case true =>
    rw [if_pos rfl, if_pos hcid] at h
    cases h
    rfl
  case false =>
    rw [if_neg Bool.false_ne_true] at h
    split at h
    · cases h
      simp [hcid]
    · split at h
      · cases h
      · cases h
        simp [hcid]

/-- The choice depends on the process's memory and container. -/
theorem renaming_congr {y : Proc} (hmem : y.mem = x.mem) (hsz : y.sz = x.sz)
    (hcid : y.containerId = x.containerId) (table : ℕ → List ℕ) (addr : ℕ) (path : Name)
    (omode : ℕ) : y.renaming table addr path omode = x.renaming table addr path omode := by
  have hstrncmp : ∀ a addr, y.strncmp addr a = x.strncmp addr a := by
    intro a
    induction a with
    | nil => exact fun _ => rfl
    | cons c a ih =>
      intro addr
      unfold Proc.strncmp Proc.mapped
      rw [hmem, hsz, ih]
  have hany : ∀ a table, y.strncmpAny a table = x.strncmpAny a table := by
    intro a table
    induction table with
    | nil => rfl
    | cons addr table ih =>
      unfold Proc.strncmpAny
      rw [hstrncmp, ih]
  unfold Proc.renaming Proc.existing Proc.fileInContainer
  dsimp only
  rw [hcid, hmem]
  simp only [hany]

end Files
end Xv6
