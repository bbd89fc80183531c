/-
# Paths through the inode cache

What `namei`, `nameiparent` and `create` do to the cache and what they find.
`resolve` follows a path on the disk alone; the functions of `xv6/fs.c` follow
it through cache entries, with one reference held at a time.  `Held c₀ (some k) c`
says that `c` is the cache `c₀` with one more reference, on the entry `k`: the
entries that were referenced still hold their inodes, and no `container_id` has
changed.  Whatever a lookup recycled on its way is free again at its end.
-/

import Xv6.Files.Calls

namespace Xv6
namespace Files

open Lib

/-- The cache `c₀` with one more reference on the entry named, if any.  A free entry may
have been given to another inode and be free again. -/
structure Held (c₀ : ICache) (o : Option ℕ) (c : ICache) : Prop where
  ref : ∀ j, (c.inode j).ref = (c₀.inode j).ref + if o = some j then 1 else 0
  inum : ∀ j, 0 < (c₀.inode j).ref → (c.inode j).inum = (c₀.inode j).inum
  tag : ∀ j, (c.inode j).containerId = (c₀.inode j).containerId

/-- What is referenced after a lookup is what it ended at, or was referenced before. -/
theorem Held.of_live {c₀ c : ICache} {j k : ℕ} (h : Held c₀ (some k) c)
    (hj : 0 < (c.inode j).ref) (hne : j ≠ k) : 0 < (c₀.inode j).ref := by
  have href := h.ref j
  rw [if_neg fun heq => hne (Option.some.inj heq).symm] at href
  omega

namespace ICache

variable {c c' : ICache} {k i : ℕ}

@[simp] theorem set_inode_self (c : ICache) (k : ℕ) (ip : Inode) : (c.set k ip).inode k = ip :=
  Function.update_self ..

theorem set_inode_of_ne (c : ICache) {j k : ℕ} (h : j ≠ k) (ip : Inode) :
    (c.set k ip).inode j = c.inode j := Function.update_of_ne h ..

/-- `iget` takes a reference on an entry that holds the inode or was free. -/
theorem iget_spec (h : c.iget i = .ok (k, c')) :
    k < NINODE ∧ Held c (some k) c' ∧ (c'.inode k).inum = i := by
  unfold iget at h
  split at h
  next k₀ hfind =>
    obtain ⟨rfl, rfl⟩ := Prod.mk.inj (Except.ok.inj h)
    have hk : 0 < (c.inode k₀).ref ∧ (c.inode k₀).inum = i := by
      simpa using List.find?_some hfind
    refine ⟨List.mem_range.1 (List.mem_of_find?_eq_some hfind), ⟨fun j => ?_,
      fun j _ => update_field Inode.inum (by rfl) j, update_field Inode.containerId (by rfl)⟩, ?_⟩
    · by_cases hj : j = k₀
      · subst hj
        rw [set_inode_self, if_pos rfl]
      · rw [set_inode_of_ne c hj, if_neg fun heq => hj (Option.some.inj heq).symm]
        rfl
    · rw [set_inode_self]
      exact hk.2
  · split at h
    next k₀ hfind =>
      obtain ⟨rfl, rfl⟩ := Prod.mk.inj (Except.ok.inj h)
      have hfree : (c.inode k₀).ref = 0 := by simpa using List.find?_some hfind
      refine ⟨List.mem_range.1 (List.mem_of_find?_eq_some hfind), ⟨fun j => ?_, fun j hpos => ?_,
        update_field Inode.containerId (by rfl)⟩, ?_⟩
      · by_cases hj : j = k₀
        · subst hj
          rw [set_inode_self, if_pos rfl, hfree]
        · rw [set_inode_of_ne c hj, if_neg fun heq => hj (Option.some.inj heq).symm]
          rfl
      · have hj : j ≠ k₀ := by
          rintro rfl
          omega
        rw [set_inode_of_ne c hj]
      · rw [set_inode_self]
    · cases h

/-- With a free entry `iget` returns. -/
theorem iget_returns {j : ℕ} (hj : j < NINODE) (hfree : (c.inode j).ref = 0) (i : ℕ) :
    ∃ k c', c.iget i = .ok (k, c') := by
  unfold iget
  split
  · exact ⟨_, _, rfl⟩
  · split
    · exact ⟨_, _, rfl⟩
    next hnone =>
      have := List.find?_eq_none.1 hnone j (List.mem_range.2 hj)
      simp [hfree] at this

@[simp] theorem iput_inum (c : ICache) (k j : ℕ) :
    ((c.iput k).inode j).inum = (c.inode j).inum := update_field Inode.inum (by rfl) j

@[simp] theorem iput_tag (c : ICache) (k j : ℕ) :
    ((c.iput k).inode j).containerId = (c.inode j).containerId :=
  update_field Inode.containerId (by rfl) j

theorem iput_ref (c : ICache) (k j : ℕ) :
    ((c.iput k).inode j).ref = (c.inode j).ref - if some k = some j then 1 else 0 := by
  by_cases hj : j = k
  · rw [hj, iput, set_inode_self, if_pos rfl]
  · rw [iput, set_inode_of_ne c hj, if_neg fun heq => hj (Option.some.inj heq).symm]
    rfl

theorem idup_held (c : ICache) (k : ℕ) : Held c (some k) (c.idup k) where
  ref j := by
    by_cases hj : j = k
    · subst hj
      rw [idup, set_inode_self, if_pos rfl]
    · rw [idup, set_inode_of_ne c hj, if_neg fun heq => hj (Option.some.inj heq).symm]
      rfl
  inum j _ := update_field Inode.inum (by rfl) j
  tag := update_field Inode.containerId (by rfl)

theorem ilock_eq_ok {disk : Disk} {d : Dinode} (h : c.ilock disk k = .ok d) :
    d = disk (c.inode k).inum ∧ (disk (c.inode k).inum).type ≠ .free := by
  unfold ilock at h
  split at h
  · cases h
  · split at h
    · cases h
    · next hfree => exact ⟨(Except.ok.inj h).symm, hfree⟩

theorem ilock_returns {disk : Disk} (href : 0 < (c.inode k).ref)
    (htype : (disk (c.inode k).inum).type ≠ .free) :
    c.ilock disk k = .ok (disk (c.inode k).inum) := by
  unfold ilock
  rw [if_neg (by omega), if_neg htype]

end ICache

namespace Held

variable {c₀ c c' : ICache} {k k' i : ℕ}

theorem refl (c : ICache) : Held c none c := ⟨fun _ => rfl, fun _ _ => rfl, fun _ => rfl⟩

theorem pos (h : Held c₀ (some k) c) : 0 < (c.inode k).ref := by
  have := h.ref k
  rw [if_pos rfl] at this
  omega

/-- The reference is given back. -/
theorem put (h : Held c₀ (some k) c) : Held c₀ none (c.iput k) where
  ref j := by
    have := h.ref j
    rw [ICache.iput_ref, if_neg (show ¬ none = some j from nofun)]
    omega
  inum j hj := by
    rw [ICache.iput_inum]
    exact h.inum j hj
  tag j := by
    rw [ICache.iput_tag]
    exact h.tag j

/-- The reference moves on to another inode. -/
theorem move (h : Held c₀ (some k) c) (hget : c.iget i = .ok (k', c')) :
    Held c₀ (some k') (c'.iput k) ∧ ((c'.iput k).inode k').inum = i := by
  obtain ⟨-, hheld, hinum⟩ := ICache.iget_spec hget
  refine ⟨⟨fun j => ?_, fun j hj => ?_, fun j => ?_⟩, by rw [ICache.iput_inum]; exact hinum⟩
  · have h₁ := h.ref j
    have h₂ := hheld.ref j
    rw [ICache.iput_ref]
    omega
  · have h₁ := h.ref j
    rw [ICache.iput_inum, hheld.inum j (by omega), h.inum j hj]
  · rw [ICache.iput_tag, hheld.tag, h.tag]

end Held

/-! ### Following a path -/

/-- The inode a list of names leads to from the inode `i`. -/
def resolve (disk : Disk) : ℕ → List Name → Option ℕ
  | i, [] => some i
  | i, name :: rest =>
      if (disk i).type = .dir then (dirlookup (disk i).entries name).bind (resolve disk · rest)
      else none

/-- None of the inodes whose entries are read on the way is free. -/
def Lockable (disk : Disk) : ℕ → List Name → Prop
  | _, [] => True
  | i, name :: rest =>
      (disk i).type ≠ .free ∧ ((disk i).type = .dir →
        ∀ j ∈ dirlookup (disk i).entries name, Lockable disk j rest)

variable {disk : Disk} {c₀ c c' : ICache} {k : ℕ} {r : Option ℕ}

/-- **`namex` finds what the disk says**, and holds a reference on it. -/
theorem walk_spec (names : List Name) (hc : Held c₀ (some k) c)
    (h : walk disk c k names = .ok (r, c')) :
    Held c₀ r c' ∧ r.map (fun k => (c'.inode k).inum) = resolve disk (c.inode k).inum names ∧
      Lockable disk (c.inode k).inum names := by
  induction names generalizing c k with
  | nil =>
    cases h
    exact ⟨hc, rfl, trivial⟩
  | cons name rest ih =>
    obtain ⟨d, hlock, h⟩ := bind_eq_ok.1 h
    obtain ⟨rfl, hfree⟩ := ICache.ilock_eq_ok hlock
    unfold resolve Lockable
    split at h
    next hdir =>
      cases h
      rw [if_neg hdir]
      exact ⟨hc.put, rfl, hfree, fun h => absurd h hdir⟩
    next hdir =>
      rw [if_pos (not_not.1 hdir)]
      split at h
      next hnone =>
        cases h
        rw [hnone]
        exact ⟨hc.put, rfl, hfree, fun _ j hj => absurd hj nofun⟩
      next inum hsome =>
        obtain ⟨⟨next, c₁⟩, hget, h⟩ := bind_eq_ok.1 h
        obtain ⟨hheld, hinum⟩ := hc.move hget
        obtain ⟨hr, hres, hlockable⟩ := ih hheld h
        rw [hinum] at hres hlockable
        rw [hsome]
        refine ⟨hr, hres, hfree, fun _ j hj => ?_⟩
        cases hj
        exact hlockable

/-- Two free entries are enough for any lookup. -/
def TwoFree (c : ICache) : Prop :=
  ∃ i < NINODE, ∃ j < NINODE, i ≠ j ∧ (c.inode i).ref = 0 ∧ (c.inode j).ref = 0

/-- One of them is left while the lookup holds its reference. -/
theorem TwoFree.exists_free (h : TwoFree c₀) (hc : Held c₀ r c) :
    ∃ j < NINODE, (c.inode j).ref = 0 := by
  obtain ⟨i, hi, j, hj, hne, hri, hrj⟩ := h
  have h₁ := hc.ref i
  have h₂ := hc.ref j
  by_cases hr : r = some i
  · refine ⟨j, hj, ?_⟩
    rw [if_neg (by rw [hr]; exact fun heq => hne (Option.some.inj heq))] at h₂
    omega
  · exact ⟨i, hi, by rw [if_neg hr] at h₁; omega⟩

theorem walk_returns (names : List Name) (hroom : TwoFree c₀) (hc : Held c₀ (some k) c)
    (hlock : Lockable disk (c.inode k).inum names) : ∃ r c', walk disk c k names = .ok (r, c') := by
  induction names generalizing c k with
  | nil => exact ⟨_, _, rfl⟩
  | cons name rest ih =>
    obtain ⟨hfree, hnext⟩ := hlock
    unfold walk
    rw [ICache.ilock_returns hc.pos hfree, ok_bind]
    split
    · exact ⟨_, _, rfl⟩
    next hdir =>
      split
      · exact ⟨_, _, rfl⟩
      next inum hsome =>
        obtain ⟨j, hj, hjfree⟩ := hroom.exists_free hc
        obtain ⟨next, c₁, hget⟩ := ICache.iget_returns hj hjfree inum
        rw [hget, ok_bind]
        obtain ⟨hheld, hinum⟩ := hc.move hget
        refine ih hheld ?_
        rw [hinum]
        exact hnext (not_not.1 hdir) inum hsome

/-- The inode from which a path starts. -/
def startInum (c : ICache) (cwd : ℕ) (path : Name) : ℕ :=
  if path.head? = some '/' then ROOTINO else (c.inode cwd).inum

theorem startOf_spec {cwd : ℕ} {path : Name} (h : startOf c cwd path = .ok (k, c')) :
    Held c (some k) c' ∧ (c'.inode k).inum = startInum c cwd path := by
  unfold startOf at h
  unfold startInum
  split at h
  next hroot =>
    rw [if_pos hroot]
    exact (ICache.iget_spec h).2
  next hroot =>
    obtain ⟨rfl, rfl⟩ := Prod.mk.inj (Except.ok.inj h)
    rw [if_neg hroot, ICache.idup, ICache.set_inode_self]
    exact ⟨ICache.idup_held c cwd, rfl⟩

theorem startOf_returns (hroom : TwoFree c) (cwd : ℕ) (path : Name) :
    ∃ k c', startOf c cwd path = .ok (k, c') := by
  unfold startOf
  split
  · obtain ⟨j, hj, hfree⟩ := hroom.exists_free (Held.refl c)
    exact ICache.iget_returns hj hfree ROOTINO
  · exact ⟨_, _, rfl⟩

/-- The inode of a path. -/
def inodeOf (disk : Disk) (c : ICache) (cwd : ℕ) (path : Name) : Option ℕ :=
  resolve disk (startInum c cwd path) (elements path)

theorem namei_spec {cwd : ℕ} {path : Name} (h : namei disk c cwd path = .ok (r, c')) :
    Held c r c' ∧ r.map (fun k => (c'.inode k).inum) = inodeOf disk c cwd path ∧
      Lockable disk (startInum c cwd path) (elements path) := by
  obtain ⟨⟨k, c₁⟩, hstart, h⟩ := bind_eq_ok.1 h
  obtain ⟨hheld, hinum⟩ := startOf_spec hstart
  obtain ⟨hr, hres, hlock⟩ := walk_spec _ hheld h
  rw [hinum] at hres hlock
  exact ⟨hr, hres, hlock⟩

theorem namei_returns {cwd : ℕ} {path : Name} (hroom : TwoFree c)
    (hlock : Lockable disk (startInum c cwd path) (elements path)) :
    ∃ r c', namei disk c cwd path = .ok (r, c') := by
  obtain ⟨k, c₁, hstart⟩ := startOf_returns hroom cwd path
  obtain ⟨hheld, hinum⟩ := startOf_spec hstart
  unfold namei
  rw [hstart, ok_bind]
  exact walk_returns _ hroom hheld (by rwa [hinum])

/-- The entry held was referenced before, or it was free and no entry had its inode. -/
def EntryOf (c₀ c : ICache) (k : ℕ) : Prop :=
  0 < (c₀.inode k).ref ∨ k < NINODE ∧
    ∀ j < NINODE, 0 < (c₀.inode j).ref → (c₀.inode j).inum ≠ (c.inode k).inum

/-- What `iget` gives is such an entry, if those referenced by then are. -/
theorem EntryOf.of_iget {i k' : ℕ} (hget : c.iget i = .ok (k', c'))
    (hold : ∀ j, 0 < (c₀.inode j).ref → 0 < (c.inode j).ref ∧ (c.inode j).inum = (c₀.inode j).inum)
    (hnew : ∀ j, 0 < (c.inode j).ref → EntryOf c₀ c j) : EntryOf c₀ c' k' := by
  obtain ⟨hlt, -, hinum⟩ := ICache.iget_spec hget
  unfold EntryOf
  rw [hinum]
  unfold ICache.iget at hget
  split at hget
  next k₀ hfind =>
    obtain ⟨rfl, -⟩ := Prod.mk.inj (Except.ok.inj hget)
    have hk₀ : 0 < (c.inode k₀).ref ∧ (c.inode k₀).inum = i := by
      simpa using List.find?_some hfind
    rw [← hk₀.2]
    exact hnew k₀ hk₀.1
  next hnone =>
    refine .inr ⟨hlt, fun j hj hlive heq => ?_⟩
    have hno := List.find?_eq_none.1 hnone j (List.mem_range.2 hj)
    obtain ⟨hpos, hinum⟩ := hold j hlive
    simp [hpos, hinum, heq] at hno

theorem EntryOf.move {i k' : ℕ} (h : EntryOf c₀ c k) (hc : Held c₀ (some k) c)
    (hget : c.iget i = .ok (k', c')) : EntryOf c₀ (c'.iput k) k' := by
  have hentry : EntryOf c₀ c' k' := by
    refine EntryOf.of_iget hget (fun j hj => ⟨?_, hc.inum j hj⟩) fun j hj => ?_
    · have := hc.ref j
      omega
    · by_cases hjk : j = k
      · exact hjk ▸ h
      · exact .inl (hc.of_live hj hjk)
  unfold EntryOf at hentry ⊢
  rw [ICache.iput_inum]
  exact hentry

theorem walk_entry (names : List Name) (h : EntryOf c₀ c k) (hc : Held c₀ (some k) c) {k' : ℕ}
    (hwalk : walk disk c k names = .ok (some k', c')) : EntryOf c₀ c' k' := by
  induction names generalizing c k with
  | nil =>
    cases hwalk
    exact h
  | cons name rest ih =>
    obtain ⟨d, -, hwalk⟩ := bind_eq_ok.1 hwalk
    split at hwalk
    · cases hwalk
    · split at hwalk
      · cases hwalk
      · obtain ⟨⟨next, c₁⟩, hget, hwalk⟩ := bind_eq_ok.1 hwalk
        exact ih (h.move hc hget) (hc.move hget).1 hwalk

/-- `namei` ends at the entry that an inode has, if it has one. -/
theorem namei_entry {cwd k' : ℕ} {path : Name} (hlive : 0 < (c.inode cwd).ref)
    (h : namei disk c cwd path = .ok (some k', c')) : EntryOf c c' k' := by
  obtain ⟨⟨k, c₁⟩, hstart, h⟩ := bind_eq_ok.1 h
  refine walk_entry _ ?_ (startOf_spec hstart).1 h
  unfold startOf at hstart
  split at hstart
  · exact .of_iget hstart (fun j hj => ⟨hj, rfl⟩) fun j hj => .inl hj
  · cases hstart
    exact .inl hlive

/-- `nameiparent` returns a directory, the one of the path without its last element. -/
theorem nameiparent_spec {cwd : ℕ} {path : Name}
    (h : nameiparent disk c cwd path = .ok (r, c')) :
    Held c r c' ∧ ∀ k ∈ r, (disk (c'.inode k).inum).type = .dir ∧ elements path ≠ [] ∧
      resolve disk (startInum c cwd path) (elements path).dropLast = some (c'.inode k).inum := by
  obtain ⟨⟨k, c₁⟩, hstart, h⟩ := bind_eq_ok.1 h
  obtain ⟨hheld, hinum⟩ := startOf_spec hstart
  dsimp only at h
  split at h
  · cases h
    exact ⟨hheld.put, fun k hk => absurd hk nofun⟩
  next hne =>
    obtain ⟨⟨r₁, c₂⟩, hwalk, h⟩ := bind_eq_ok.1 h
    obtain ⟨hr, hres, -⟩ := walk_spec _ hheld hwalk
    rw [hinum] at hres
    cases r₁ with
    | none =>
      cases h
      exact ⟨hr, fun k hk => absurd hk nofun⟩
    | some dp =>
      obtain ⟨d, hlock, h⟩ := bind_eq_ok.1 h
      obtain ⟨rfl, -⟩ := ICache.ilock_eq_ok hlock
      split at h
      · cases h
        exact ⟨hr.put, fun k hk => absurd hk nofun⟩
      next hdir =>
        cases h
        refine ⟨hr, fun k hk => ?_⟩
        cases hk
        exact ⟨not_not.1 hdir, hne, hres.symm⟩

end Files
end Xv6
