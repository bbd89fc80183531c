/-
# Looking up a name

`in_initial_files` (`xv6/sysfile.c`, lines 22-37) and `file_in_container`
(`xv6/container_manager.c`, lines 171-193) compare with `strncmp` over as many
bytes as the name looked for has (`xv6/string.c`, lines 58-66).  The name listed
may go on behind them: what the two functions test is whether some listed name
begins with the one asked for (`strncmpAny_eq`).  Where no listed name goes on
the answer is exact (`lookup_exact`).
-/

import Xv6.Files.Naming
import Xv6.Files.Strings

namespace Xv6
namespace Files

variable {x : Proc} {addr c : ℕ} {a name path : Name} {names : List Name} {table : List ℕ}

/-- A name is asked for that is listed, or with which no listed name begins. -/
def Unextended (names : List Name) (a : Name) : Prop := a ∈ names ∨ ∀ name ∈ names, ¬ a <+: name

instance (names : List Name) (a : Name) : Decidable (Unextended names a) :=
  inferInstanceAs (Decidable (_ ∨ _))

/-- For such a name the test for a beginning is one for membership. -/
theorem Unextended.any_isPrefixOf (h : Unextended names a) :
    names.any a.isPrefixOf = decide (a ∈ names) := by
  obtain hmem | hnone := h
  · rw [decide_eq_true hmem]
    exact List.any_eq_true.2 ⟨a, hmem, List.isPrefixOf_iff_prefix.2 (List.prefix_refl a)⟩
  · have hmem : a ∉ names := fun hmem => hnone a hmem (List.prefix_refl a)
    rw [decide_eq_false hmem, List.any_eq_false]
    exact fun name hname hprefix => hnone name hname (List.isPrefixOf_iff_prefix.1 hprefix)

/-! ### The comparison -/

/-- `strncmp` against a string in the process's memory stops at the string's end, if not
before. -/
theorem Proc.strncmp_eq (h : x.HasString addr name) (ha : NUL ∉ a) :
    x.strncmp addr a = .ok (a.isPrefixOf name) := by
  induction a generalizing addr name with
  | nil => rfl
  | cons ch a ih =>
    have hfirst : x.mem addr = name.getD 0 NUL := h.mem 0 (Nat.zero_le _)
    have hmapped := h.mapped
    unfold Proc.strncmp
    rw [if_neg (by omega), hfirst]
    cases name with
    | nil =>
      -- the string ends here, and the name asked for does not
      exact if_neg fun heq : NUL = ch => ha (heq ▸ List.mem_cons_self)
    | cons ch' name =>
      have hrest : x.HasString (addr + 1) name := by
        refine ⟨fun i hi => ?_, ?_⟩
        · rw [show addr + 1 + i = addr + (i + 1) by omega]
          exact h.mem (i + 1) (Nat.succ_le_succ hi)
        · rw [List.length_cons] at hmapped
          omega
      change (if ch' = ch then x.strncmp (addr + 1) a else .ok false) = _
      rw [ih hrest fun hmem => ha (List.mem_cons_of_mem _ hmem)]
      by_cases heq : ch' = ch
      · rw [if_pos heq, heq, List.isPrefixOf_cons_cons_self]
      · have hne : (ch == ch') = false := beq_false_of_ne fun h => heq h.symm
        rw [if_neg heq, List.isPrefixOf, hne, Bool.false_and]

/-- The loop of `file_in_container` over addresses that all have a string. -/
theorem Proc.strncmpAny_eq (h : List.Forall₂ x.HasString table names) (ha : NUL ∉ a) :
    x.strncmpAny a table = .ok (names.any a.isPrefixOf) := by
  induction h with
  | nil => rfl
  | @cons addr name table names hfirst _ ih =>
    unfold Proc.strncmpAny
    rw [Proc.strncmp_eq hfirst ha, ih, List.any_cons]
    cases a.isPrefixOf name <;> rfl

theorem nul_not_mem_decorated (hpath : NUL ∉ path) (hc : c < NCONTAINER) :
    NUL ∉ decorated path c := by
  unfold decorated
  split
  · exact hpath
  · rw [List.mem_append]
    exact not_or.2 ⟨hpath, nul_not_mem_suffix hc⟩

/-- **What `file_in_container` answers**, for a name that fits in a page. -/
theorem Proc.fileInContainer_eq (h : List.Forall₂ x.HasString table names) (hpath : NUL ∉ path)
    (hc : c < NCONTAINER) (hlen : (decorated path c).length < PGSIZE) :
    x.fileInContainer table path c = .ok (names.any (decorated path c).isPrefixOf) := by
  have hcmp := Proc.strncmpAny_eq h (nul_not_mem_decorated hpath hc)
  unfold Proc.fileInContainer
  exact (if_neg (Nat.not_le.2 hlen)).trans hcmp

/-! ### The two lookups -/

/-- The names that `in_initial_files` goes through. -/
def listedNames : List Name := initialFiles ++ initialFilesWithDot

theorem inInitialFiles_eq (path : Name) :
    inInitialFiles path = listedNames.any path.isPrefixOf := by
  rw [listedNames, List.any_append]
  rfl

/-- **The lookups are exact** for names with which no listed or registered name only begins:
`in_initial_files` finds the names it lists, and `file_in_container` the names that are
registered, in the memory of the process that asks. -/
theorem lookup_exact (x : Proc) (table : List ℕ) (names : List Name) (path : Name) (c : ℕ)
    (hnames : List.Forall₂ x.HasString table names) (hpath : NUL ∉ path) (hc : c < NCONTAINER)
    (hlen : (decorated path c).length < PGSIZE) (hlisted : Unextended listedNames path)
    (hregistered : Unextended names (decorated path c)) :
    (inInitialFiles path = true ↔ path ∈ initialFiles ∨ path ∈ initialFilesWithDot) ∧
      x.fileInContainer table path c = .ok (decide (decorated path c ∈ names)) := by
  refine ⟨?_, ?_⟩
  · rw [inInitialFiles_eq, hlisted.any_isPrefixOf, decide_eq_true_iff, listedNames, List.mem_append]
  · rw [Proc.fileInContainer_eq hnames hpath hc hlen, hregistered.any_isPrefixOf]

/-- A process with a string at address `2`. -/
def withString (name : Name) : Proc :=
  { mem := fun a => (NUL :: NUL :: name).getD a NUL, sz := PGSIZE }

/-- A file of container 1, found by its name, and one of the host's that is not registered. -/
theorem lookup_exact_foo :
    (withString "foo$1".toList).fileInContainer [2] "foo".toList 1 = .ok true ∧
      (withString "foo$1".toList).fileInContainer [2] "README".toList 1 = .ok false ∧
      inInitialFiles "README".toList = true := by
  have hstring : List.Forall₂ (withString "foo$1".toList).HasString [2] ["foo$1".toList] :=
    .cons ⟨by decide, by decide⟩ .nil
  obtain ⟨-, hfoo⟩ := lookup_exact _ _ _ "foo".toList 1 hstring (by decide +kernel) (by decide)
    (by decide) (by decide) (by decide)
  obtain ⟨hlisted, hreadme⟩ := lookup_exact _ _ _ "README".toList 1 hstring (by decide +kernel)
    (by decide) (by decide) (by decide) (by decide)
  exact ⟨hfoo, hreadme, hlisted.2 (.inl (by decide))⟩

/-- **The lookups accept beginnings.**  `READ` is taken for one of the host's files, and `fo` is
found where `foo` is registered. -/
theorem lookup_accepts_beginnings :
    (inInitialFiles "READ".toList = true ∧
      ¬ ("READ".toList ∈ initialFiles ∨ "READ".toList ∈ initialFilesWithDot)) ∧
      (withString "foo".toList).fetchstr 2 = some "foo".toList ∧
      (withString "foo".toList).fileInContainer [2] "fo".toList 0 = .ok true := by
  decide +kernel

end Files
end Xv6
