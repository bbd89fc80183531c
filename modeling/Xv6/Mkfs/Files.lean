/-
# The files of the command line

`main` of `mkfs` (`xv6/mkfs.c`, lines 93-168) adds the files of its command line
one by one (lines 129-153): an inode, an entry in the root directory, and the
bytes.  `content files` is what the inodes hold when that is done: the entries
in the root, and the bytes of file `k` in inode `k + 2`.
-/

import Xv6.Mkfs.Inodes

namespace Xv6
namespace Mkfs

open Lib Fs Function

variable {s s' : Img} {inum : ℕ} {c : ℕ → List Byte} {p q : List Byte} {files : List File}
  {f : File}

/-! ### The reads of one file -/

theorem Grown.trans {s₁ s₂ : Img} (h : Grown s c inum p s₁)
    (h' : Grown s₁ (update c inum (c inum ++ p)) inum q s₂) :
    Grown s c inum (p ++ q) s₂ := by
  have himage := h'.image
  have hfb := h.freeblock
  have hfb' := h'.freeblock
  rw [update_self, update_idem, List.append_assoc] at himage
  rw [update_self, List.length_append] at hfb'
  refine ⟨himage, h'.freeinode.trans h.freeinode, ?_⟩
  rw [List.length_append, ← Nat.add_assoc]
  omega

theorem Grown.nil (h : Image s c) : Grown s c inum [] s := by
  refine ⟨?_, rfl, rfl⟩
  rwa [List.append_nil, update_eq_self]

theorem Room.left {n : ℕ} (h : Room s n (p ++ q)) : Room s n p := by
  have hsize := h.size
  have hfree := h.free
  rw [List.length_append] at hsize hfree
  have hcost := cost_mono (blocks_mono (show n + p.length ≤ n + (p.length + q.length) by omega))
  exact ⟨by omega, by omega⟩

/-- Room for two runs of bytes is room for the second when the first is there. -/
theorem Grown.room (hgrown : Grown s c inum p s') :
    Room s' (c inum ++ p).length q ↔ Room s (c inum).length (p ++ q) := by
  have := room_iff (p := p ++ q) (n := p.length) (by rw [List.length_append]; omega)
    hgrown.freeblock
  rwa [List.drop_left, ← List.length_append] at this

/-- **The reads of a file** are added one after the other. -/
theorem Image.appendAll (h : Image s c) (hpos : 0 < inum) (hi : inum < s.freeinode)
    (reads : List (List Byte)) (hroom : Room s (c inum).length reads.flatten) :
    ∃ s', reads.foldlM (Mkfs.iappend · inum ·) s = .ok s' ∧ Grown s c inum reads.flatten s' := by
  induction reads generalizing s c with
  | nil => exact ⟨s, rfl, Grown.nil h⟩
  | cons p reads ih =>
    rw [List.flatten_cons] at hroom ⊢
    obtain ⟨s₁, hs₁, hgrown⟩ := h.iappend hpos hi hroom.left
    obtain ⟨s₂, hs₂, hgrown₂⟩ := ih hgrown.image (hgrown.freeinode ▸ hi)
      (by rw [update_self]; exact hgrown.room.2 hroom)
    refine ⟨s₂, ?_, hgrown.trans hgrown₂⟩
    rw [List.foldlM_cons, hs₁]
    exact hs₂

theorem Image.room_all (h : Image s c) (hpos : 0 < inum) (hi : inum < s.freeinode)
    (reads : List (List Byte)) (hok : reads.foldlM (Mkfs.iappend · inum ·) s = .ok s') :
    Room s (c inum).length reads.flatten := by
  induction reads generalizing s c with
  | nil => exact room_nil h.sound.hi (h.size_le inum)
  | cons p reads ih =>
    rw [List.foldlM_cons] at hok
    obtain ⟨s₁, hs₁, hok⟩ := bind_eq_ok.1 hok
    have hgrown := h.grown hpos hi hs₁
    have := ih hgrown.image (hgrown.freeinode ▸ hi) hok
    rw [update_self] at this
    exact hgrown.room.1 this

/-! ### The files -/

/-- The entries of the root directory: `.`, `..` and the files. -/
def rootEntries (files : List File) : List (ℕ × List Byte) :=
  (ROOTINO, [46]) :: (ROOTINO, [46, 46]) :: (files.zipIdx 2).map fun (f, i) => (i, f.name)

/-- The entries as bytes. -/
def entryBytes (entries : List (ℕ × List Byte)) : List Byte :=
  entries.flatMap fun e => direntBytes e.1 e.2

def rootBytes (files : List File) : List Byte := entryBytes (rootEntries files)

/-- What the inodes hold. -/
def content (files : List File) (i : ℕ) : List Byte :=
  if i = ROOTINO then rootBytes files
  else if i < 2 then []
  else (files.map File.bytes).getD (i - 2) []

/-- The blocks that the files take. -/
def total (files : List File) : ℕ :=
  cost (blocks (rootBytes files).length) +
    (files.map fun f => cost (blocks f.bytes.length)).sum

theorem length_direntBytes (i : ℕ) (name : List Byte) : (direntBytes i name).length = 16 := by
  simp only [direntBytes, List.length_cons, List.length_append, List.length_take,
    List.length_replicate]
  unfold DIRSIZ
  omega

theorem length_entryBytes (entries : List (ℕ × List Byte)) :
    (entryBytes entries).length = 16 * entries.length := by
  induction entries with
  | nil => rfl
  | cons e entries ih =>
    rw [entryBytes, List.flatMap_cons, List.length_append, length_direntBytes, ← entryBytes, ih,
      List.length_cons]
    omega

theorem length_rootEntries (files : List File) :
    (rootEntries files).length = 2 + files.length := by
  rw [rootEntries, List.length_cons, List.length_cons, List.length_map, List.length_zipIdx]
  omega

theorem length_rootBytes (files : List File) :
    (rootBytes files).length = 16 * (2 + files.length) := by
  rw [rootBytes, length_entryBytes, length_rootEntries]

theorem rootBytes_snoc (files : List File) (f : File) :
    rootBytes (files ++ [f]) = rootBytes files ++ direntBytes (2 + files.length) f.name := by
  simp [rootBytes, rootEntries, entryBytes, List.zipIdx_append]

theorem content_root (files : List File) : content files ROOTINO = rootBytes files := if_pos rfl

/-- The content with one file more. -/
theorem content_snoc (files : List File) (f : File) :
    content (files ++ [f]) =
      update
        (update (content files) ROOTINO
          (content files ROOTINO ++ direntBytes (2 + files.length) f.name))
        (2 + files.length) (content files (2 + files.length) ++ f.bytes) := by
  have hroot : ROOTINO ≠ 2 + files.length := by
    unfold ROOTINO
    omega
  funext i
  rcases eq_or_ne i (2 + files.length) with rfl | hlast
  · rw [update_self, content, if_neg hroot.symm, if_neg (by omega), content,
      if_neg hroot.symm, if_neg (by omega)]
    simp
  rw [update_of_ne hlast]
  rcases eq_or_ne i ROOTINO with rfl | hi
  · rw [update_self, content_root, content_root, rootBytes_snoc]
  · rw [update_of_ne hi, content, if_neg hi, content, if_neg hi]
    split
    · rfl
    · rw [List.map_append]
      rcases Nat.lt_or_ge (i - 2) (files.map File.bytes).length with hlt | hge
      · rw [List.getD_append _ _ _ _ hlt]
      · rw [List.length_map] at hge
        rw [List.getD_eq_default, List.getD_eq_default]
        · rw [List.length_map]
          exact hge
        · rw [List.length_append, List.length_map]
          simp only [List.map_cons, List.map_nil, List.length_singleton]
          omega

/-- An image with the files in it. -/
structure Holding (files : List File) (s : Img) : Prop where
  image : Image s (content files)
  freeinode : s.freeinode = 2 + files.length
  freeblock : s.freeblock = nmeta + total files

/-- Taking a file adds its blocks and those of its entry. -/
theorem total_snoc (files : List File) (f : File) :
    total (files ++ [f]) + cost (blocks (rootBytes files).length) =
      total files + cost (blocks ((rootBytes files).length + 16)) +
        cost (blocks f.bytes.length) := by
  unfold total
  rw [rootBytes_snoc, List.length_append, length_direntBytes, List.map_append, List.sum_append]
  simp only [List.map_cons, List.map_nil, List.sum_cons, List.sum_nil]
  omega

/-- There is room for a file: its name is no path, it has an inode and its blocks. -/
structure Fit (files : List File) (f : File) : Prop where
  name : slash ∉ f.name
  size : f.bytes.length ≤ MAXFILE * BSIZE
  free : nmeta + total (files ++ [f]) ≤ FSSIZE

theorem Holding.file_empty (h : Holding files s) : content files (2 + files.length) = [] :=
  h.image.empty (Nat.le_of_eq h.freeinode)

/-- The content when the entry is there and the bytes are not. -/
def withEntry (files : List File) (f : File) : ℕ → List Byte :=
  update (content files) ROOTINO
    (content files ROOTINO ++ direntBytes (2 + files.length) f.name)

theorem withEntry_file (files : List File) (f : File) :
    withEntry files f (2 + files.length) = content files (2 + files.length) :=
  update_of_ne (by unfold ROOTINO; omega) ..

/-- The three parts of `addFile`: an inode, an entry in the root, and the bytes. -/
theorem Holding.snoc {s₁ s₂ s₃ : Img} (h : Holding files s)
    (hino : s₁.freeinode = s.freeinode + 1) (hfb : s₁.freeblock = s.freeblock)
    (hentry : Grown s₁ (content files) ROOTINO (direntBytes (2 + files.length) f.name) s₂)
    (hbytes : Grown s₂ (withEntry files f) (2 + files.length) f.bytes s₃) :
    Holding (files ++ [f]) s₃ := by
  have hfb₂ := hentry.freeblock
  have hfb₃ := hbytes.freeblock
  have htotal := total_snoc files f
  have hzero : cost (blocks 0) = 0 := rfl
  rw [content_root, length_direntBytes, hfb, h.freeblock] at hfb₂
  rw [withEntry_file, h.file_empty, List.length_nil, Nat.zero_add, hzero] at hfb₃
  refine ⟨?_, ?_, by omega⟩
  · have himage := hbytes.image
    rw [withEntry_file] at himage
    rw [content_snoc]
    exact himage
  · rw [hbytes.freeinode, hentry.freeinode, hino, h.freeinode, List.length_append,
      List.length_singleton]
    omega

theorem Holding.root_lt (h : Holding files s) : ROOTINO < s.freeinode := by
  rw [h.freeinode]
  unfold ROOTINO
  omega

/-- The inode of the next file. -/
theorem Holding.ialloc (h : Holding files s) (hn : 2 + files.length < NINO) :
    ∃ s', ialloc s T_FILE = .ok (2 + files.length, s') ∧ Image s' (content files) ∧
      s'.freeinode = s.freeinode + 1 ∧ s'.freeblock = s.freeblock := by
  have hkind : kind s.freeinode = T_FILE := if_neg (Nat.ne_of_gt h.root_lt)
  have := h.image.ialloc (Nat.lt_of_le_of_lt (Nat.zero_le _) h.root_lt) (h.freeinode ▸ hn)
  rw [hkind] at this
  rwa [h.freeinode] at this ⊢

/-- **One file is added**, if there is room for it. -/
theorem Holding.addFile (h : Holding files s) (hn : 2 + files.length < NINO) (hfit : Fit files f) :
    ∃ s', addFile s f = .ok s' ∧ Holding (files ++ [f]) s' := by
  have hlen := length_rootBytes files
  have htotal := total_snoc files f
  have hfree := hfit.free
  have hfb := h.freeblock
  have hroot := h.root_lt
  have hcap : 16 * NINO ≤ MAXFILE * BSIZE := by decide
  obtain ⟨s₁, hs₁, himage₁, hino₁, hfb₁⟩ := h.ialloc hn
  have hroom : Room s₁ (content files ROOTINO).length (direntBytes (2 + files.length) f.name) := by
    rw [content_root]
    refine ⟨?_, ?_⟩ <;> rw [length_direntBytes] <;> omega
  obtain ⟨s₂, hs₂, hentry⟩ := himage₁.iappend (by decide) (by omega) hroom
  have hfb₂ := hentry.freeblock
  have hino₂ := hentry.freeinode
  rw [content_root, length_direntBytes] at hfb₂
  have hroom₂ : Room s₂ (withEntry files f (2 + files.length)).length f.bytes := by
    rw [withEntry_file, h.file_empty, List.length_nil]
    refine ⟨by rw [Nat.zero_add]; exact hfit.size, ?_⟩
    rw [Nat.zero_add]
    omega
  obtain ⟨s₃, hs₃, hbytes⟩ := Image.appendAll hentry.image (by omega)
    (by rw [hino₂, hino₁, h.freeinode]; omega) f.reads hroom₂
  refine ⟨s₃, ?_, h.snoc hino₁ hfb₁ hentry hbytes⟩
  rw [Mkfs.addFile, if_neg hfit.name, hs₁, ok_bind]
  dsimp only
  rw [hs₂, ok_bind]
  exact hs₃

/-- A file that was added is there. -/
theorem Holding.of_addFile (h : Holding files s) (hn : 2 + files.length < NINO)
    (hok : Mkfs.addFile s f = .ok s') : Holding (files ++ [f]) s' := by
  have hroot := h.root_lt
  obtain ⟨s₁, hs₁, himage₁, hino₁, hfb₁⟩ := h.ialloc hn
  unfold Mkfs.addFile at hok
  obtain ⟨-, hok⟩ := ite_error_eq_ok.1 hok
  rw [hs₁, ok_bind] at hok
  obtain ⟨s₂, hs₂, hok⟩ := bind_eq_ok.1 hok
  have hentry := himage₁.grown (by decide) (by omega) hs₂
  have hlt : 2 + files.length < s₂.freeinode := by
    rw [hentry.freeinode, hino₁, h.freeinode]
    omega
  have hroom := hentry.image.room_all (by omega) hlt f.reads hok
  obtain ⟨s₃, hs₃, hbytes⟩ := hentry.image.appendAll (by omega) hlt f.reads hroom
  obtain rfl := Except.ok.inj (hs₃.symm.trans hok)
  exact h.snoc hino₁ hfb₁ hentry hbytes

theorem total_le_snoc (files : List File) (f : File) : total files ≤ total (files ++ [f]) := by
  have htotal := total_snoc files f
  have hcost := cost_mono (blocks_mono (Nat.le_add_right (rootBytes files).length 16))
  omega

theorem total_le_append (files rest : List File) : total files ≤ total (files ++ rest) := by
  induction rest using List.reverseRecOn with
  | nil => exact Nat.le_of_eq (by rw [List.append_nil])
  | append_singleton rest f ih =>
    rw [← List.append_assoc]
    exact Nat.le_trans ih (total_le_snoc _ f)

/-- **All the files are added**, if there is room for them. -/
theorem Holding.addFiles (rest : List File) (h : Holding files s)
    (hn : 2 + (files ++ rest).length ≤ NINO)
    (hname : ∀ f ∈ rest, slash ∉ f.name) (hsize : ∀ f ∈ rest, f.bytes.length ≤ MAXFILE * BSIZE)
    (hfree : nmeta + total (files ++ rest) ≤ FSSIZE) :
    ∃ s', rest.foldlM Mkfs.addFile s = .ok s' ∧ Holding (files ++ rest) s' := by
  induction rest generalizing files s with
  | nil => exact ⟨s, rfl, by rwa [List.append_nil]⟩
  | cons f rest ih =>
    rw [List.append_cons] at hn hfree ⊢
    rw [List.length_append, List.length_append, List.length_singleton] at hn
    have hle := total_le_append (files ++ [f]) rest
    obtain ⟨s₁, hs₁, h₁⟩ := h.addFile (f := f) (by omega)
      ⟨hname f List.mem_cons_self, hsize f List.mem_cons_self, by omega⟩
    obtain ⟨s₂, hs₂, h₂⟩ := ih h₁ (by simp only [List.length_append, List.length_singleton]; omega)
      (fun g hg => hname g (List.mem_cons_of_mem f hg))
      (fun g hg => hsize g (List.mem_cons_of_mem f hg)) hfree
    refine ⟨s₂, ?_, h₂⟩
    rw [List.foldlM_cons, hs₁]
    exact hs₂

theorem Holding.of_addFiles (rest : List File) (h : Holding files s)
    (hn : 2 + (files ++ rest).length ≤ NINO) (hok : rest.foldlM Mkfs.addFile s = .ok s') :
    Holding (files ++ rest) s' := by
  induction rest generalizing files s with
  | nil =>
    cases hok
    rwa [List.append_nil]
  | cons f rest ih =>
    rw [List.append_cons] at hn ⊢
    rw [List.foldlM_cons] at hok
    obtain ⟨s₁, hs₁, hok⟩ := bind_eq_ok.1 hok
    refine ih (h.of_addFile ?_ hs₁) hn hok
    rw [List.length_append, List.length_append, List.length_singleton] at hn
    omega

end Mkfs
end Xv6
