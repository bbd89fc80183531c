/-
# Block ownership

`Owns sb V`: in the view `V` no block is named by two slots, every block that a
slot names lies in the data area and is marked in the free map, and so are the
blocks before the data area.  `balloc` (`xv6/fs.c`, lines 55-78) returns a block
that no slot names; `bfree` (lines 81-96) of a block that no slot names any more
keeps `Owns`, and does not panic if the block is marked.
-/

import Xv6.Fs.Read

namespace Xv6
namespace Fs

open Lib Function

/-- The blocks before the data area. -/
def Superblock.nmeta (sb : Superblock) : ℕ := sb.size - sb.nblocks

/-- The super block, the inodes and the free map lie in this order before the data area. -/
structure Layout (sb : Superblock) : Prop where
  super : 1 < sb.inodestart
  inodes : ∀ i < sb.ninodes, IBLOCK i sb < sb.bmapstart
  order : sb.inodestart ≤ sb.bmapstart
  bits : ∀ b < sb.size, BBLOCK b sb < sb.nmeta
  size : sb.size ≤ 2 ^ 32

structure Owns (sb : Superblock) (V : View) : Prop where
  layout : Layout sb
  super : readsb V.blk = sb
  sole : Sole V.refs
  range : ∀ x, V.refs x ≠ 0 → sb.nmeta ≤ V.refs x ∧ V.refs x < sb.size
  marked : ∀ x, V.refs x ≠ 0 → inUse sb V.blk (V.refs x) = true
  before : ∀ b < sb.nmeta, inUse sb V.blk b = true

variable {sb : Superblock} {V V' : View} {disk : Disk} {b c i : ℕ} {blk : Block}

/-! ### Where things are -/

theorem Layout.one_lt_IBLOCK (h : Layout sb) (i : ℕ) : 1 < IBLOCK i sb :=
  Nat.lt_of_lt_of_le h.super (Nat.le_add_left ..)

theorem Layout.one_lt_BBLOCK (h : Layout sb) (b : ℕ) : 1 < BBLOCK b sb :=
  Nat.lt_of_lt_of_le h.super (Nat.le_trans h.order (Nat.le_add_left ..))

theorem Layout.IBLOCK_lt_BBLOCK (h : Layout sb) (hi : i < sb.ninodes) (b : ℕ) :
    IBLOCK i sb < BBLOCK b sb :=
  Nat.lt_of_lt_of_le (h.inodes i hi) (Nat.le_add_left ..)

theorem Layout.one_lt_nmeta (h : Layout sb) (hb : b < sb.size) : 1 < sb.nmeta :=
  Nat.lt_trans (h.one_lt_BBLOCK b) (h.bits b hb)

theorem readsb_update (hb : b ≠ 1) : readsb (update disk b blk) = readsb disk := by
  unfold readsb
  rw [update_of_ne hb.symm]

theorem inUse_update (hb : BBLOCK c sb ≠ b) :
    inUse sb (update disk b blk) c = inUse sb disk c := by
  rw [inUse, update_of_ne hb, inUse]

/-- A write to the data area leaves the super block, the inodes and the free map. -/
theorem Layout.write_data (h : Layout sb) (hb : sb.nmeta ≤ b ∧ b < sb.size) (disk : Disk)
    (blk : Block) : readsb (update disk b blk) = readsb disk ∧
      (∀ i < sb.ninodes, update disk b blk (IBLOCK i sb) = disk (IBLOCK i sb)) ∧
      ∀ c < sb.size, inUse sb (update disk b blk) c = inUse sb disk c := by
  have hone := h.one_lt_nmeta hb.2
  refine ⟨readsb_update (by omega), fun i hi => ?_, fun c hc => ?_⟩
  · have := h.IBLOCK_lt_BBLOCK hi b
    have := h.bits b hb.2
    exact update_of_ne (by omega) ..
  · have := h.bits c hc
    exact inUse_update (by omega)

/-- A write to the free map leaves the super block, the inodes and the data area. -/
theorem Layout.write_bits (h : Layout sb) (hb : b < sb.size) (disk : Disk) (blk : Block) :
    readsb (update disk (BBLOCK b sb) blk) = readsb disk ∧
      (∀ i < sb.ninodes, update disk (BBLOCK b sb) blk (IBLOCK i sb) = disk (IBLOCK i sb)) ∧
      ∀ c, sb.nmeta ≤ c → update disk (BBLOCK b sb) blk c = disk c := by
  have hone := h.one_lt_BBLOCK b
  have hmeta := h.bits b hb
  refine ⟨readsb_update (by omega), fun i hi => ?_, fun c hc => update_of_ne (by omega) ..⟩
  have := h.IBLOCK_lt_BBLOCK hi b
  exact update_of_ne (by omega) ..

/-- Two blocks with the same bit are the same. -/
theorem eq_of_bit (hblock : BBLOCK c sb = BBLOCK b sb) (hbit : c % BPB = b % BPB) : c = b := by
  unfold BBLOCK at hblock
  have hdiv : c / BPB = b / BPB := Nat.add_right_cancel hblock
  rw [← Nat.div_add_mod c BPB, ← Nat.div_add_mod b BPB, hdiv, hbit]

/-- The free map with a bit set. -/
theorem inUse_setBit (disk : Disk) (b c : ℕ) :
    inUse sb (update disk (BBLOCK b sb) (setBit (disk (BBLOCK b sb)) (b % BPB))) c =
      (inUse sb disk c || decide (c = b)) := by
  by_cases hblock : BBLOCK c sb = BBLOCK b sb
  · rw [inUse, hblock, update_self, getBit_setBit, inUse, hblock]
    congr 1
    exact decide_eq_decide.2 ⟨eq_of_bit hblock, fun h => by rw [h]⟩
  · rw [inUse_update hblock, decide_eq_false fun h => hblock (by rw [h]), Bool.or_false]

/-- The free map with a bit cleared. -/
theorem inUse_clearBit (disk : Disk) (b c : ℕ) :
    inUse sb (update disk (BBLOCK b sb) (clearBit (disk (BBLOCK b sb)) (b % BPB))) c =
      (inUse sb disk c && !decide (c = b)) := by
  by_cases hblock : BBLOCK c sb = BBLOCK b sb
  · rw [inUse, hblock, update_self, getBit_clearBit, inUse, hblock]
    congr 2
    exact decide_eq_decide.2 ⟨eq_of_bit hblock, fun h => by rw [h]⟩
  · rw [inUse_update hblock, decide_eq_false fun h => hblock (by rw [h]), Bool.not_false,
      Bool.and_true]

/-! ### What keeps the ownership -/

/-- Slots may lose their blocks, and bits that no slot needs may change. -/
theorem Owns.of_le (h : Owns sb V) (hsuper : readsb V'.blk = readsb V.blk)
    (hrefs : ∀ x, V'.refs x ≠ 0 → V'.refs x = V.refs x)
    (hmarked : ∀ x, V'.refs x ≠ 0 → inUse sb V'.blk (V'.refs x) = true)
    (hbefore : ∀ b < sb.nmeta, inUse sb V'.blk b = true) : Owns sb V' where
  layout := h.layout
  super := hsuper.trans h.super
  sole x y hx heq := by
    have hy : V'.refs y ≠ 0 := heq ▸ hx
    exact h.sole x y (hrefs x hx ▸ hx) ((hrefs x hx).symm.trans (heq.trans (hrefs y hy)))
  range x hx := by
    rw [hrefs x hx]
    exact h.range x (hrefs x hx ▸ hx)
  marked := hmarked
  before := hbefore

/-- A write that changes no slot, no bit and not the super block. -/
theorem Owns.of_same (h : Owns sb V) (hsuper : readsb V'.blk = readsb V.blk)
    (hrefs : V'.refs = V.refs) (hbits : ∀ b < sb.size, inUse sb V'.blk b = inUse sb V.blk b) :
    Owns sb V' := by
  refine h.of_le hsuper (fun x _ => by rw [hrefs]) (fun x hx => ?_) fun b hb => ?_
  · rw [hrefs] at hx ⊢
    rw [hbits _ (h.range x hx).2]
    exact h.marked x hx
  · rw [hbits b (Nat.lt_of_lt_of_le hb (Nat.sub_le ..))]
    exact h.before b hb

/-- A slot is given a marked block of the data area that no slot names. -/
theorem Owns.assign (h : Owns sb V) {x : ℕ × Slot} (hblk : readsb V'.blk = readsb V.blk)
    (hrefs : V'.refs = update V.refs x b)
    (hbits : ∀ b < sb.size, inUse sb V'.blk b = inUse sb V.blk b)
    (hfresh : ∀ y, V.refs y ≠ b) (hrange : sb.nmeta ≤ b ∧ b < sb.size)
    (hused : inUse sb V.blk b = true) : Owns sb V' where
  layout := h.layout
  super := hblk.trans h.super
  sole := hrefs ▸ h.sole.assign hfresh
  range y hy := by
    rw [hrefs] at hy ⊢
    rcases eq_or_ne y x with rfl | hne
    · rwa [update_self]
    · rw [update_of_ne hne] at hy ⊢
      exact h.range y hy
  marked y hy := by
    rw [hrefs] at hy ⊢
    rcases eq_or_ne y x with rfl | hne
    · rwa [update_self, hbits b hrange.2]
    · rw [update_of_ne hne] at hy ⊢
      rw [hbits _ (h.range y hy).2]
      exact h.marked y hy
  before c hc := by
    rw [hbits c (Nat.lt_of_lt_of_le hc (Nat.sub_le ..))]
    exact h.before c hc

/-! ### `balloc` and `bfree` -/

variable {v v' : Vol} {ino : ℕ → Dinode}

/-- What a call leaves of the disk: the super block in memory, the inodes, and the data
blocks outside `P`. -/
structure Frame (v v' : Vol) (P : ℕ → Prop) : Prop where
  sb : v'.sb = v.sb
  inode : ∀ i < v.sb.ninodes, v'.disk (IBLOCK i v.sb) = v.disk (IBLOCK i v.sb)
  data : ∀ c, v.sb.nmeta ≤ c → ¬P c → v'.disk c = v.disk c

theorem Frame.refl (v : Vol) (P : ℕ → Prop) : Frame v v P := ⟨rfl, fun _ _ => rfl, fun _ _ _ => rfl⟩

theorem Frame.trans {v'' : Vol} {P Q : ℕ → Prop} (h : Frame v v' P) (h' : Frame v' v'' Q) :
    Frame v v'' fun c => P c ∨ Q c := by
  obtain ⟨hsb, hinode, hdata⟩ := h
  obtain ⟨hsb', hinode', hdata'⟩ := h'
  rw [hsb] at hsb' hinode' hdata'
  refine ⟨hsb', fun i hi => (hinode' i hi).trans (hinode i hi), fun c hc hP => ?_⟩
  rw [hdata' c hc fun h => hP (.inr h), hdata c hc fun h => hP (.inl h)]

theorem Frame.dinodeOf_eq {P : ℕ → Prop} (h : Frame v v' P) (hi : i < v.sb.ninodes) :
    dinodeOf v.sb v'.disk i = dinodeOf v.sb v.disk i := by
  rw [dinodeOf, h.inode i hi, dinodeOf]

/-- A block that `balloc` has returned. -/
structure Taken (v : Vol) (ino : ℕ → Dinode) (b : ℕ) (v' : Vol) : Prop where
  owns : Owns v'.sb ⟨ino, v'.disk⟩
  frame : Frame v v' (· = b)
  refs : View.refs ⟨ino, v'.disk⟩ = View.refs ⟨ino, v.disk⟩
  zero : v'.disk b = zeroBlock
  fresh : ∀ x, View.refs ⟨ino, v.disk⟩ x ≠ b
  range : v.sb.nmeta ≤ b ∧ b < v.sb.size
  used : inUse v.sb v'.disk b = true

/-- What `balloc` has done: a free block of the data area is marked and cleared. -/
theorem balloc_eq_ok (h : Owns v.sb ⟨ino, v.disk⟩) (hok : balloc v = .ok (b, v')) :
    (v.sb.nmeta ≤ b ∧ b < v.sb.size) ∧ inUse v.sb v.disk b = false ∧ v' = { v with
      disk := update (update v.disk (BBLOCK b v.sb)
        (setBit (v.disk (BBLOCK b v.sb)) (b % BPB))) b zeroBlock } := by
  unfold balloc at hok
  split at hok
  next => cases hok
  next b' hfind =>
    cases hok
    have hlt : b < v.sb.size := List.mem_range.1 (List.mem_of_find?_eq_some hfind)
    have hfree : inUse v.sb v.disk b = false := by simpa using List.find?_some hfind
    refine ⟨⟨?_, hlt⟩, hfree, rfl⟩
    by_contra hmeta
    rw [h.before b (by omega)] at hfree
    cases hfree

/-- The free map after `balloc`. -/
theorem inUse_balloc (h : Owns v.sb ⟨ino, v.disk⟩) (hok : balloc v = .ok (b, v'))
    (hc : c < v.sb.size) : inUse v.sb v'.disk c = (inUse v.sb v.disk c || decide (c = b)) := by
  obtain ⟨hrange, -, rfl⟩ := balloc_eq_ok h hok
  exact ((h.layout.write_data hrange _ _).2.2 c hc).trans (inUse_setBit v.disk b c)

/-- **`balloc` returns a block that nothing names.** -/
theorem taken_of_balloc (h : Owns v.sb ⟨ino, v.disk⟩) (hok : balloc v = .ok (b, v')) :
    Taken v ino b v' := by
  have hbits := fun {c} (hc : c < v.sb.size) => inUse_balloc h hok hc
  obtain ⟨hrange, hfree, rfl⟩ := balloc_eq_ok h hok
  obtain ⟨hsuper₁, hinode₁, hdata₁⟩ := h.layout.write_bits hrange.2 v.disk
    (setBit (v.disk (BBLOCK b v.sb)) (b % BPB))
  generalize update v.disk (BBLOCK b v.sb) (setBit (v.disk (BBLOCK b v.sb)) (b % BPB)) = disk at *
  obtain ⟨hsuper₂, hinode₂, -⟩ := h.layout.write_data hrange disk zeroBlock
  have hfresh : ∀ x, View.refs ⟨ino, v.disk⟩ x ≠ b := by
    intro x hx
    have hone := h.layout.one_lt_nmeta hrange.2
    have := h.marked x (by omega)
    rw [hx, hfree] at this
    cases this
  have hdata : ∀ c, v.sb.nmeta ≤ c → c ≠ b → update disk b zeroBlock c = v.disk c :=
    fun c hc hne => (update_of_ne hne ..).trans (hdata₁ c hc)
  have hrefs : View.refs ⟨ino, update disk b zeroBlock⟩ = View.refs ⟨ino, v.disk⟩ :=
    View.refs_congr (fun _ => rfl) fun i hi => hdata _ (h.range (i, .table) hi).1 (hfresh (i, .table))
  refine ⟨h.of_le (hsuper₂.trans hsuper₁) (fun x _ => by rw [hrefs]) (fun x hx => ?_)
    fun c hc => ?_, ⟨rfl, fun i hi => (hinode₂ i hi).trans (hinode₁ i hi), hdata⟩, hrefs,
    update_self .., hfresh, hrange, ?_⟩
  · rw [hrefs] at hx ⊢
    rw [hbits (h.range x hx).2, h.marked x hx, Bool.true_or]
  · rw [hbits (by omega), h.before c hc, Bool.true_or]
  · rw [hbits hrange.2]
    simp

/-- What freeing blocks leaves: all but the bits of `bs`. -/
structure Freed (v : Vol) (ino : ℕ → Dinode) (bs : List ℕ) (v' : Vol) : Prop where
  owns : Owns v'.sb ⟨ino, v'.disk⟩
  frame : Frame v v' fun _ => False
  refs : View.refs ⟨ino, v'.disk⟩ = View.refs ⟨ino, v.disk⟩
  bits : ∀ c < v.sb.size, c ∉ bs → inUse v.sb v'.disk c = inUse v.sb v.disk c

/-- A marked block of the data area that no slot names. -/
structure Loose (v : Vol) (ino : ℕ → Dinode) (b : ℕ) : Prop where
  range : v.sb.nmeta ≤ b ∧ b < v.sb.size
  used : inUse v.sb v.disk b = true
  fresh : ∀ x, View.refs ⟨ino, v.disk⟩ x ≠ b

/-- **`bfree` of a block that is marked and that nothing names.** -/
theorem Owns.bfree (h : Owns v.sb ⟨ino, v.disk⟩) (hb : Loose v ino b) :
    ∃ v', bfree v b = .ok v' ∧ Freed v ino [b] v' := by
  have hsb : readsb v.disk = v.sb := h.super
  obtain ⟨hsuper, hinode, hdata⟩ := h.layout.write_bits hb.range.2 v.disk
    (clearBit (v.disk (BBLOCK b v.sb)) (b % BPB))
  have hbits : ∀ c, inUse v.sb _ c = _ := inUse_clearBit v.disk b
  have hbit : getBit (v.disk (BBLOCK b v.sb)) (b % BPB) ≠ false := by
    have := hb.used
    unfold inUse at this
    rw [this]
    decide
  have hok : Fs.bfree v b = .ok ⟨v.sb, update v.disk (BBLOCK b v.sb)
      (clearBit (v.disk (BBLOCK b v.sb)) (b % BPB))⟩ := by
    rw [Fs.bfree, hsb]
    exact if_neg hbit
  generalize update v.disk (BBLOCK b v.sb) (clearBit (v.disk (BBLOCK b v.sb)) (b % BPB)) = disk at *
  have hrefs : View.refs ⟨ino, disk⟩ = View.refs ⟨ino, v.disk⟩ :=
    View.refs_congr (fun _ => rfl) fun i hi => hdata _ (h.range (i, .table) hi).1
  refine ⟨⟨v.sb, disk⟩, hok, h.of_le hsuper (fun x _ => by rw [hrefs]) (fun x hx => ?_)
    fun c hc => ?_, ⟨rfl, hinode, fun c hc _ => hdata c hc⟩, hrefs, fun c _ hc => ?_⟩
  · rw [hrefs] at hx ⊢
    rw [hbits, h.marked x hx, decide_eq_false (hb.fresh x)]
    rfl
  · have := hb.range.1
    rw [hbits, h.before c hc, decide_eq_false (by omega)]
    rfl
  · rw [hbits, decide_eq_false fun heq => hc (by simp [heq]), Bool.not_false, Bool.and_true]

/-- **Distinct blocks are freed one after the other**, and no call panics. -/
theorem Owns.bfreeAll (h : Owns v.sb ⟨ino, v.disk⟩) {bs : List ℕ}
    (hbs : ∀ b ∈ bs, b ≠ 0 → Loose v ino b)
    (hdistinct : bs.Pairwise fun a b => a ≠ 0 → a ≠ b) :
    ∃ v', bfreeAll v bs = .ok v' ∧ Freed v ino bs v' := by
  induction bs generalizing v with
  | nil => exact ⟨v, rfl, h, Frame.refl v _, rfl, fun _ _ _ => rfl⟩
  | cons b bs ih =>
    obtain ⟨hhead, htail⟩ := List.pairwise_cons.1 hdistinct
    by_cases hb : b = 0
    · obtain ⟨v', hok, hfreed⟩ := ih h (fun c hc => hbs c (List.mem_cons_of_mem b hc)) htail
      refine ⟨v', ?_, hfreed.owns, hfreed.frame, hfreed.refs, ?_⟩
      · rw [Fs.bfreeAll, if_pos hb]
        exact hok
      · exact fun c hlt hc => hfreed.bits c hlt fun hmem => hc (List.mem_cons_of_mem b hmem)
    · obtain ⟨v₁, hok₁, h₁⟩ := h.bfree (hbs b List.mem_cons_self hb)
      have hsb := h₁.frame.sb
      have hloose : ∀ c ∈ bs, c ≠ 0 → Loose v₁ ino c := by
        intro c hc hne
        have hold := hbs c (List.mem_cons_of_mem b hc) hne
        refine ⟨hsb ▸ hold.range, ?_, h₁.refs ▸ hold.fresh⟩
        rw [hsb, h₁.bits c hold.range.2]
        · exact hold.used
        · exact fun hmem => hhead c hc hb (List.mem_singleton.1 hmem).symm
      obtain ⟨v₂, hok₂, h₂⟩ := ih h₁.owns hloose htail
      refine ⟨v₂, ?_, h₂.owns, ?_, h₂.refs.trans h₁.refs, ?_⟩
      · rw [Fs.bfreeAll, if_neg hb, hok₁]
        exact hok₂
      · have := h₁.frame.trans h₂.frame
        exact ⟨this.sb, this.inode, fun c hc _ => this.data c hc (by simp)⟩
      · intro c hlt hc
        have hbits := h₂.bits c (hsb ▸ hlt) fun hmem => hc (List.mem_cons_of_mem b hmem)
        rw [hsb] at hbits
        rw [hbits, h₁.bits c hlt fun hmem => hc (List.mem_singleton.1 hmem ▸ List.mem_cons_self)]

end Fs
end Xv6
