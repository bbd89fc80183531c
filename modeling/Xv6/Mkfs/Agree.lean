/-
# `mkfs` and the kernel agree on the format

For acceptable files `main` of `mkfs` (`xv6/mkfs.c`, lines 93-168) writes an
image in which the kernel finds every file under its name, as a file with one
link and with its bytes, and in which the free map marks the metadata and the
blocks that some inode names.
-/

import Xv6.Mkfs.Holes
import Xv6.Mkfs.Names

namespace Xv6
namespace Mkfs

open Lib Fs

variable {s : Img} {files : List File} {f : File}

/-- The files that the image is made for. -/
structure Acceptable (files : List File) : Prop where
  few : files.length < 199
  nonempty : ∀ f ∈ files, f.name ≠ []
  flat : ∀ f ∈ files, slash ∉ f.name
  cstr : ∀ f ∈ files, (0 : Byte) ∉ f.name
  dot : ∀ f ∈ files, f.name ≠ [46]
  dotdot : ∀ f ∈ files, f.name ≠ [46, 46]
  distinct : files.Pairwise fun f g => f.name.take DIRSIZ ≠ g.name.take DIRSIZ
  size : ∀ f ∈ files, f.bytes.length ≤ MAXFILE * BSIZE
  fits : nmeta + total files ≤ FSSIZE

/-! ### Bytes -/

theorem le_sizeAt (files : List File) (i : ℕ) : (content files i).length ≤ sizeAt files i := by
  unfold sizeAt
  split
  next hi =>
    rw [hi, content_root]
    unfold BSIZE
    omega
  · exact Nat.le_refl _

theorem Built.byteAt_eq (h : Built files s) {i k : ℕ} (hi : i < s.freeinode)
    (hk : k < (content files i).length) :
    byteAt s.disk (dinodeOf sb s.disk i) k = (content files i).getD k 0 := by
  have hbytes := (h.sound.holds i).bytes k hk
  have hino : (viewOf s).ino i = dinodeOf sb s.disk i := if_pos hi
  rw [View.refs, hino] at hbytes
  exact hbytes

/-- `readi` of what an inode holds; the size of the root may be larger. -/
theorem Built.readi_eq (h : Built files s) {i off n : ℕ} (hpos : 0 < i) (hi : i < s.freeinode)
    (hlen : off + n ≤ (content files i).length ∨
      off ≤ (content files i).length ∧ sizeAt files i = (content files i).length)
    (hwrap : off + n < 2 ^ 32) :
    readi ⟨sb, s.disk⟩ (dinodeOf sb s.disk i) off n =
      .ok (some (((content files i).drop off).take n), dinodeOf sb s.disk i, ⟨sb, s.disk⟩) := by
  have hlab := h.used i hpos hi
  have hsize := le_sizeAt files i
  have htype : (dinodeOf sb s.disk i).type ≠ T_DEV := by
    rw [hlab.type, kind]
    split <;> decide
  have hin : ∀ k < off + n, k < sizeAt files i → k < (content files i).length := by omega
  have hmin : min n (sizeAt files i - off) = min n ((content files i).length - off) := by omega
  rw [readi_ref htype (by rw [hlab.size]; omega) hwrap, hlab.size, hmin, ← map_range_getD]
  · congr 3
    refine List.map_congr_left fun k hk => ?_
    have hk' := List.mem_range.1 hk
    exact h.byteAt_eq hi (by omega)
  · intro k _ hk hk'
    rw [hlab.size] at hk'
    exact (h.ref_iff hi _).2 (div_lt_blocks (hin k hk hk'))

/-! ### Entries -/

theorem entryBytes_getD {entries : List (ℕ × List Byte)} {j k : ℕ} {e : ℕ × List Byte}
    (h : entries[j]? = some e) (hk : k < 16) :
    (entryBytes entries).getD (16 * j + k) 0 = (direntBytes e.1 e.2).getD k 0 := by
  induction entries generalizing j with
  | nil => cases h
  | cons e' entries ih =>
    rw [entryBytes, List.flatMap_cons, ← entryBytes]
    cases j with
    | zero =>
      cases h
      rw [List.getD_append _ _ _ _ (by rw [length_direntBytes]; omega), Nat.mul_zero,
        Nat.zero_add]
    | succ j =>
      rw [List.getD_append_right _ _ _ _ (by rw [length_direntBytes]; omega),
        length_direntBytes, ← ih h]
      congr 1
      omega

theorem getElem?_rootEntries {j : ℕ} {e : ℕ × List Byte} (h : (rootEntries files)[j]? = some e) :
    (j < 2 ∧ e.1 = ROOTINO ∧ (e.2 = [46] ∨ e.2 = [46, 46])) ∨
      ∃ k f, j = k + 2 ∧ files[k]? = some f ∧ e = (j, f.name) := by
  rcases j with _ | _ | k
  · cases h
    exact .inl ⟨by omega, rfl, .inl rfl⟩
  · cases h
    exact .inl ⟨by omega, rfl, .inr rfl⟩
  · refine .inr ⟨k, ?_⟩
    simp only [rootEntries, List.getElem?_cons_succ, List.getElem?_map, List.getElem?_zipIdx,
      Option.map_map, Option.map_eq_some_iff] at h
    obtain ⟨f, hf, rfl⟩ := h
    refine ⟨f, rfl, hf, ?_⟩
    simp only [Function.comp]
    rw [Nat.add_comm]

theorem rootEntries_file {k : ℕ} (h : files[k]? = some f) :
    (rootEntries files)[k + 2]? = some (k + 2, f.name) := by
  simp [rootEntries, List.getElem?_zipIdx, h, Nat.add_comm]

/-- **The kernel reads the entries of the root.** -/
theorem Built.listed (h : Built files s) (hacc : Acceptable files) :
    Listed ⟨sb, s.disk⟩ (dinodeOf sb s.disk ROOTINO) (rootEntries files) where
  size := by
    have := le_sizeAt files ROOTINO
    rw [content_root, length_rootBytes] at this
    rwa [(h.used ROOTINO (by decide) h.root_lt).size, length_rootEntries]
  read j e he := by
    have hj : j < 2 + files.length := by
      rw [← length_rootEntries]
      exact (List.getElem?_eq_some_iff.1 he).1
    have hlen := length_rootBytes files
    have hfew := hacc.few
    have hwrap : 16 * j + 16 < 2 ^ 32 := by omega
    have hread := h.readi_eq (by decide) h.root_lt (.inl (by rw [content_root]; omega)) hwrap
    rw [hread, content_root, ← map_range_getD,
      show min 16 ((rootBytes files).length - 16 * j) = 16 by omega]
    congr 3
    have hdirent := map_range_getD (direntBytes e.1 e.2) 0 16
    rw [length_direntBytes, List.drop_zero,
      List.take_of_length_le (Nat.le_of_eq (length_direntBytes _ _))] at hdirent
    rw [← hdirent]
    refine List.map_congr_left fun k hk => ?_
    rw [Nat.zero_add]
    exact entryBytes_getD he (List.mem_range.1 hk)
  inum e he := by
    obtain ⟨j, hj⟩ := List.getElem?_of_mem he
    have hfew := hacc.few
    rcases getElem?_rootEntries hj with ⟨_, hone, _⟩ | ⟨k, f, rfl, hf, rfl⟩
    · rw [hone]
      decide
    · have := (List.getElem?_eq_some_iff.1 hf).1
      dsimp only
      omega
  name e he := by
    obtain ⟨j, hj⟩ := List.getElem?_of_mem he
    rcases getElem?_rootEntries hj with ⟨_, _, hdot | hdot⟩ | ⟨k, f, rfl, hf, rfl⟩
    · rw [hdot]
      decide
    · rw [hdot]
      decide
    · exact hacc.cstr f (List.mem_of_getElem? hf)

/-- A name that is cut to itself is the name. -/
theorem eq_of_take_eq {name short : List Byte} (hshort : short.length < DIRSIZ)
    (h : name.take DIRSIZ = short.take DIRSIZ) : name = short := by
  rw [List.take_of_length_le (Nat.le_of_lt hshort)] at h
  have hlen := congrArg List.length h
  rw [List.length_take] at hlen
  rw [← h, List.take_of_length_le (by omega)]

/-- No entry before that of a file has its name. -/
theorem Acceptable.first (hacc : Acceptable files) {k : ℕ} (hf : files[k]? = some f) {j : ℕ}
    (hj : j < k + 2) {e : ℕ × List Byte} (he : (rootEntries files)[j]? = some e) :
    f.name.take DIRSIZ ≠ e.2.take DIRSIZ := by
  have hmem := List.mem_of_getElem? hf
  rcases getElem?_rootEntries he with ⟨_, _, hdot | hdot⟩ | ⟨k', g, rfl, hg, rfl⟩
  · rw [hdot]
    exact fun heq => hacc.dot f hmem (eq_of_take_eq (by decide) heq)
  · rw [hdot]
    exact fun heq => hacc.dotdot f hmem (eq_of_take_eq (by decide) heq)
  · obtain ⟨hk, rfl⟩ := List.getElem?_eq_some_iff.1 hf
    obtain ⟨hk', rfl⟩ := List.getElem?_eq_some_iff.1 hg
    exact (List.pairwise_iff_getElem.1 hacc.distinct k' k hk' hk (by omega)).symm

theorem content_file {k : ℕ} (h : files[k]? = some f) : content files (k + 2) = f.bytes := by
  rw [content, if_neg (by unfold ROOTINO; omega), if_neg (by omega), Nat.add_sub_cancel]
  simp [h]

/-- **The free map marks the metadata and the blocks that inodes name.** -/
theorem Built.inUse_iff (h : Built files s) (hn : s.freeinode ≤ NINO) {b : ℕ} (hb : b < BPB) :
    inUse sb s.disk b = true ↔
      b < nmeta ∨ ∃ i < NINO, ∃ p, b ≠ 0 ∧ (dinodeOf sb s.disk i).ref s.disk p = b := by
  have hrefs : ∀ i < s.freeinode, ∀ p,
      (viewOf s).refs (i, p) = (dinodeOf sb s.disk i).ref s.disk p := by
    intro i hi p
    have hino : (viewOf s).ino i = dinodeOf sb s.disk i := if_pos hi
    rw [View.refs, hino]
    rfl
  rw [h.bits b hb, decide_eq_true_eq]
  constructor
  · intro hlt
    rcases Nat.lt_or_ge b nmeta with hmeta | hdata
    · exact .inl hmeta
    · obtain ⟨⟨i, p⟩, hx⟩ := h.sound.onto b hdata hlt
      have hne : b ≠ 0 := by
        rintro rfl
        exact absurd hdata (by decide)
      have hi : i < s.freeinode := by
        by_contra hge
        have hino : (viewOf s).ino i = Dinode.zero := if_neg hge
        rw [View.refs, hino, ref_zero] at hx
        exact hne hx.symm
      exact .inr ⟨i, Nat.lt_of_lt_of_le hi hn, p, hne, hrefs i hi p ▸ hx⟩
  · rintro (hmeta | ⟨i, hi, p, hne, href⟩)
    · exact Nat.lt_of_lt_of_le hmeta h.sound.lo
    · rcases Nat.lt_or_ge i s.freeinode with hlt | hge
      · rw [← hrefs i hlt] at href
        exact href ▸ (h.sound.range (i, p) (href ▸ hne)).2
      · rw [h.unused i hi (.inr hge), ref_zero] at href
        exact absurd href.symm hne

/-- **`mkfs` and the kernel agree**: on the image of acceptable files `namei` finds every file,
`readi` returns its bytes, and the free map marks what is in use. -/
theorem mkfs_agrees (hacc : Acceptable files) :
    ∃ s, main files = .ok s ∧
      let v := mounted s
      (∀ f ∈ files, ∃ inum,
        namei v ROOTINO f.name = .ok (some inum, v) ∧
        (∀ cwd, namei v cwd (slash :: f.name) = .ok (some inum, v)) ∧
        ∃ ip, ilock v inum = .ok ip ∧ ip.type = T_FILE ∧ ip.nlink = 1 ∧
          ∀ off n, off ≤ f.bytes.length → off + n < 2 ^ 32 →
            readi v ip off n = .ok (some ((f.bytes.drop off).take n), ip, v)) ∧
      ∀ b < BPB, inUse v.sb v.disk b = true ↔
        b < nmeta ∨ ∃ i < NINO, ∃ p, b ≠ 0 ∧ (dinodeOf v.sb v.disk i).ref v.disk p = b := by
  have hfew := hacc.few
  obtain ⟨s, hs, h⟩ := exists_main (le_NINO (by omega)) hacc.flat hacc.size hacc.fits
  have hinodes : s.freeinode ≤ NINO := h.freeinode ▸ le_NINO (by omega)
  have hv : mounted s = ⟨sb, s.disk⟩ := by
    rw [mounted, h.readsb_eq]
  refine ⟨s, hs, ?_⟩
  dsimp only
  rw [hv]
  refine ⟨fun f hf => ?_, fun b hb => h.inUse_iff hinodes hb⟩
  obtain ⟨k, hk⟩ := List.getElem?_of_mem hf
  have hklt : k < files.length := (List.getElem?_eq_some_iff.1 hk).1
  have hused : k + 2 < s.freeinode := by
    rw [h.freeinode]
    omega
  have hlab := h.used (k + 2) (by omega) hused
  have hkind : kind (k + 2) = T_FILE := if_neg (by unfold ROOTINO; omega)
  have hsize : sizeAt files (k + 2) = (content files (k + 2)).length :=
    if_neg (by unfold ROOTINO; omega)
  have htype := (h.used ROOTINO (by decide) h.root_lt).type
  have hfound : dirlookup ⟨sb, s.disk⟩ (dinodeOf sb s.disk ROOTINO) (f.name.take DIRSIZ) =
      .ok (some (k + 2), dinodeOf sb s.disk ROOTINO, ⟨sb, s.disk⟩) := by
    have hsz := (h.listed hacc).size
    rw [length_rootEntries] at hsz
    rw [dirlookup, if_neg (by simp [htype, kind])]
    exact dirScan_found (h.listed hacc) (hacc.cstr f hf) (rootEntries_file hk) rfl
      (fun j hj e he => hacc.first hk hj he) (j := 0) (Nat.zero_le _) (by omega)
  obtain ⟨hrel, habs⟩ := namei_found rfl htype (hacc.nonempty f hf) (hacc.flat f hf) hfound
  refine ⟨k + 2, hrel, habs, dinodeOf sb s.disk (k + 2), ?_, ?_, hlab.nlink, ?_⟩
  · rw [ilock, if_neg]
    rw [hlab.type, hkind]
    decide
  · rw [hlab.type, hkind]
  · intro off n hoff hwrap
    have hread := h.readi_eq (by omega) hused
      (.inr ⟨by rw [content_file hk]; exact hoff, hsize⟩) hwrap
    rwa [content_file hk] at hread

/-- The kernel finds and reads the first of two files, written in two pieces. -/
theorem mkfs_agrees_two :
    ∃ s, main [⟨[99, 97, 116], [[1, 2], [3]]⟩, ⟨[108, 115], []⟩] = .ok s ∧
      ∃ inum, namei (mounted s) ROOTINO [99, 97, 116] = .ok (some inum, mounted s) ∧
        ∃ ip, ilock (mounted s) inum = .ok ip ∧
          readi (mounted s) ip 0 3 = .ok (some [1, 2, 3], ip, mounted s) := by
  have hacc : Acceptable [⟨[99, 97, 116], [[1, 2], [3]]⟩, ⟨[108, 115], []⟩] :=
    ⟨by decide, by decide, by decide, by decide, by decide, by decide, by decide, by decide,
      by decide⟩
  obtain ⟨s, hs, hfiles, -⟩ := mkfs_agrees hacc
  obtain ⟨inum, hrel, -, ip, hlock, -, -, hread⟩ := hfiles _ List.mem_cons_self
  exact ⟨s, hs, inum, hrel, ip, hlock, hread 0 3 (by decide) (by decide)⟩

end Mkfs
end Xv6
