/-
# What an image holds

`Sound V fb m c`: in the view `V` of an image whose first free block is `fb`,
inode `i` has its first `m i` blocks and no other, the blocks from `nmeta` to
`fb` are named once each, those behind are zero, and inode `i` begins with the
bytes `c i`.  The lemmas are the two halves of a turn of `iappend` on a view: a
block is given to an inode (`Sound.own_…`), and bytes are added behind those it
has (`Sound.fill`).
-/

import Xv6.Mkfs.Model

namespace Xv6
namespace Mkfs

open Lib Fs Function

/-- The blocks that a file of `m` blocks takes, the indirect block included. -/
def cost (m : ℕ) : ℕ := m + if NDIRECT < m then 1 else 0

/-- An inode with its first `m` blocks, which begin with the bytes `c`. -/
structure Holds (V : View) (i m : ℕ) (c : List Byte) : Prop where
  mapped : ∀ bn, V.refs (i, slotOf bn) ≠ 0 ↔ bn < m
  table : V.refs (i, .table) ≠ 0 ↔ NDIRECT < m
  length : c.length ≤ m * BSIZE
  bytes : ∀ k < c.length, V.blk (V.refs (i, slotOf (k / BSIZE))) (k % BSIZE) = c.getD k 0

/-- What an image holds. -/
structure Sound (V : View) (fb : ℕ) (m : ℕ → ℕ) (c : ℕ → List Byte) : Prop where
  lo : nmeta ≤ fb
  hi : fb ≤ FSSIZE
  sole : Sole V.refs
  range : ∀ x, V.refs x ≠ 0 → nmeta ≤ V.refs x ∧ V.refs x < fb
  onto : ∀ b, nmeta ≤ b → b < fb → ∃ x, V.refs x = b
  zero : ∀ b, fb ≤ b → V.blk b = zeroBlock
  holds : ∀ i, Holds V i (m i) (c i)

variable {V : View} {fb i x : ℕ} {m : ℕ → ℕ} {c : ℕ → List Byte}

theorem Sound.fresh (h : Sound V fb m c) {b : ℕ} (hb : fb ≤ b) : ∀ x, V.refs x ≠ b := by
  intro x hx
  have hpos : V.refs x ≠ 0 := by
    have := h.lo
    unfold nmeta at this
    omega
  have := (h.range x hpos).2
  omega

/-- A slot that names the same block as another is the same slot. -/
theorem Sound.slot_eq (h : Sound V fb m c) {p q : Slot} {j : ℕ} (hne : V.refs (i, p) ≠ 0)
    (heq : V.refs (i, p) = V.refs (j, q)) : i = j ∧ p = q :=
  Prod.mk.inj (h.sole _ _ hne heq)

/-- Only addresses and data blocks count. -/
theorem Sound.of_same {V' : View} (h : Sound V fb m c)
    (haddrs : ∀ i, (V'.ino i).addrs = (V.ino i).addrs)
    (hblk : ∀ b, nmeta ≤ b → V'.blk b = V.blk b) : Sound V' fb m c := by
  have hrefs : V'.refs = V.refs :=
    View.refs_congr haddrs fun i hi => hblk _ (h.range (i, .table) hi).1
  refine ⟨h.lo, h.hi, hrefs ▸ h.sole, hrefs ▸ h.range, hrefs ▸ h.onto, ?_, ?_⟩
  · intro b hb
    rw [hblk b (Nat.le_trans h.lo hb)]
    exact h.zero b hb
  · intro i
    refine ⟨hrefs ▸ (h.holds i).mapped, hrefs ▸ (h.holds i).table, (h.holds i).length, ?_⟩
    intro k hk
    have hne : V.refs (i, slotOf (k / BSIZE)) ≠ 0 := by
      rw [(h.holds i).mapped]
      have := (h.holds i).length
      exact Nat.div_lt_of_lt_mul (by rw [Nat.mul_comm]; omega)
    rw [hrefs, hblk _ (h.range _ hne).1, (h.holds i).bytes k hk]

/-- The indirect block of an inode is no other inode's. -/
theorem Sound.table_sole (h : Sound V fb m c) {b : ℕ} (hb : b ≠ 0)
    (hi : (V.ino i).addrs NDIRECT = b) : ∀ j, (V.ino j).addrs NDIRECT = b → j = i := by
  intro j hj
  have hne : V.refs (j, .table) ≠ 0 := by
    change (V.ino j).addrs NDIRECT ≠ 0
    rw [hj]
    exact hb
  have heq : V.refs (j, .table) = V.refs (i, .table) := hj.trans hi.symm
  exact (h.slot_eq hne heq).1

/-- A block that a file has is nobody's indirect block. -/
theorem Sound.not_table (h : Sound V fb m c) {bn b : ℕ} (hb : V.refs (i, slotOf bn) = b)
    (hpos : b ≠ 0) (j : ℕ) : (V.ino j).addrs NDIRECT ≠ b := by
  intro hj
  have heq : V.refs (i, slotOf bn) = V.refs (j, .table) := hb.trans hj.symm
  exact slotOf_ne_table bn (h.slot_eq (hb ▸ hpos) heq).2

/-- Slots that were empty are given the blocks from `fb` to `fb'`; what the files have stays. -/
theorem Sound.extend {V' : View} {fb' : ℕ} {m' : ℕ → ℕ} (h : Sound V fb m c) (hfb : fb ≤ fb')
    (hhi : fb' ≤ FSSIZE) (hkeep : ∀ x, V.refs x ≠ 0 → V'.refs x = V.refs x)
    (hnew : ∀ x, V.refs x = 0 → V'.refs x ≠ 0 → fb ≤ V'.refs x ∧ V'.refs x < fb')
    (hsole : Sole V'.refs) (honto : ∀ b, fb ≤ b → b < fb' → ∃ x, V'.refs x = b)
    (hzero : ∀ b, fb' ≤ b → V'.blk b = zeroBlock)
    (hblk : ∀ j bn, V.refs (j, slotOf bn) ≠ 0 →
      V'.blk (V.refs (j, slotOf bn)) = V.blk (V.refs (j, slotOf bn)))
    (hmapped : ∀ j bn, V'.refs (j, slotOf bn) ≠ 0 ↔ bn < m' j)
    (htable : ∀ j, V'.refs (j, .table) ≠ 0 ↔ NDIRECT < m' j) (hlen : ∀ j, m j ≤ m' j) :
    Sound V' fb' m' c where
  lo := Nat.le_trans h.lo hfb
  hi := hhi
  sole := hsole
  range x hx := by
    have := h.lo
    by_cases hold : V.refs x = 0
    · have := hnew x hold hx
      omega
    · have := h.range x hold
      rw [hkeep x hold]
      omega
  onto b hlo hb := by
    rcases Nat.lt_or_ge b fb with hlt | hge
    · obtain ⟨x, hx⟩ := h.onto b hlo hlt
      refine ⟨x, ?_⟩
      rw [hkeep x, hx]
      rw [hx]
      unfold nmeta at hlo
      omega
    · exact honto b hge hb
  zero := hzero
  holds j := by
    refine ⟨hmapped j, htable j, ?_, fun k hk => ?_⟩
    · exact Nat.le_trans (h.holds j).length (Nat.mul_le_mul_right _ (hlen j))
    · have hk' : V.refs (j, slotOf (k / BSIZE)) ≠ 0 := by
        rw [(h.holds j).mapped]
        have := (h.holds j).length
        exact Nat.div_lt_of_lt_mul (by rw [Nat.mul_comm]; omega)
      rw [hkeep _ hk', hblk j _ hk', (h.holds j).bytes k hk]

/-- One slot of inode `i`, the one for its next block, is given the block `fb`. -/
theorem Sound.extend_one {V' : View} (h : Sound V fb m c) (hhi : fb < FSSIZE)
    (hrefs : V'.refs = update V.refs (i, slotOf (m i)) fb)
    (hnot : m i ≠ NDIRECT)
    (hzero : ∀ b, fb < b → V'.blk b = zeroBlock)
    (hblk : ∀ j bn, V.refs (j, slotOf bn) ≠ 0 →
      V'.blk (V.refs (j, slotOf bn)) = V.blk (V.refs (j, slotOf bn))) :
    Sound V' (fb + 1) (update m i (m i + 1)) c := by
  have hpos : fb ≠ 0 := by
    have := h.lo
    unfold nmeta at this
    omega
  have hfree : V.refs (i, slotOf (m i)) = 0 := by
    by_contra hne
    exact absurd (((h.holds i).mapped _).1 hne) (Nat.lt_irrefl _)
  -- a slot is in use afterwards if it is the new one or was in use
  have hused : ∀ x, V'.refs x ≠ 0 ↔ x = (i, slotOf (m i)) ∨ V.refs x ≠ 0 := by
    intro x
    rw [hrefs]
    rcases eq_or_ne x (i, slotOf (m i)) with rfl | hx
    · rw [update_self]
      exact ⟨fun _ => .inl rfl, fun _ => hpos⟩
    · rw [update_of_ne hx]
      exact ⟨.inr, fun h => h.resolve_left hx⟩
  refine h.extend (Nat.le_succ fb) hhi ?_ ?_ ?_ ?_ ?_ hblk ?_ ?_ ?_
  · intro x hx
    rw [hrefs, update_of_ne]
    rintro rfl
    exact hx hfree
  · intro x hold hx
    rcases (hused x).1 hx with rfl | hx
    · rw [hrefs, update_self]
      omega
    · exact absurd hold hx
  · rw [hrefs]
    exact h.sole.assign (h.fresh (Nat.le_refl fb))
  · intro b hlo hb
    obtain rfl : b = fb := by omega
    exact ⟨_, by rw [hrefs, update_self]⟩
  · exact fun b hb => hzero b hb
  · intro j bn
    rw [hused, (h.holds j).mapped]
    rcases eq_or_ne j i with rfl | hj
    · rw [update_self]
      constructor
      · rintro (heq | hlt)
        · have := slotOf_inj (Prod.mk.inj heq).2
          omega
        · omega
      · intro hlt
        rcases Nat.lt_succ_iff_lt_or_eq.1 hlt with hlt | rfl
        · exact .inr hlt
        · exact .inl rfl
    · rw [update_of_ne hj]
      exact ⟨fun h => h.resolve_left fun heq => hj (Prod.mk.inj heq).1, .inr⟩
  · intro j
    rw [hused, (h.holds j).table]
    have htab : (j, Slot.table) ≠ (i, slotOf (m i)) := fun heq =>
      slotOf_ne_table _ (Prod.mk.inj heq).2.symm
    rcases eq_or_ne j i with rfl | hj
    · rw [update_self]
      constructor
      · rintro (heq | hlt)
        · exact absurd heq htab
        · omega
      · intro hlt
        exact .inr (by omega)
    · rw [update_of_ne hj]
      exact ⟨fun h => h.resolve_left htab, .inr⟩
  · intro j
    rcases eq_or_ne j i with rfl | hj
    · rw [update_self]
      omega
    · exact Nat.le_of_eq (update_of_ne hj ..).symm

theorem Sound.own_direct (h : Sound V fb m c) (hm : m i < NDIRECT) (hfb : fb < FSSIZE) :
    Sound (V.setAddr i (m i) fb) (fb + 1) (update m i (m i + 1)) c := by
  refine h.extend_one hfb ?_ (Nat.ne_of_lt hm) (fun b hb => h.zero b (Nat.le_of_lt hb))
    (fun _ _ _ => rfl)
  rw [View.refs_setAddr_direct hm, slotOf, if_pos hm]

/-- The indirect block of an inode that has one. -/
theorem Sound.table_eq (h : Sound V fb m c) (hm : NDIRECT < m i) :
    (V.ino i).addrs NDIRECT ≠ 0 ∧ (V.ino i).addrs NDIRECT < fb := by
  have hne : V.refs (i, .table) ≠ 0 := (h.holds i).table.2 hm
  exact ⟨hne, (h.range _ hne).2⟩

theorem Sound.own_entry (h : Sound V fb m c) (hm : NDIRECT < m i) (hmax : m i < MAXFILE)
    (hfb : fb < FSSIZE) :
    Sound (V.setBlk ((V.ino i).addrs NDIRECT)
        (setWord (V.blk ((V.ino i).addrs NDIRECT)) (m i - NDIRECT) fb))
      (fb + 1) (update m i (m i + 1)) c := by
  obtain ⟨htab, hlt⟩ := h.table_eq hm
  have hk : m i - NDIRECT < NINDIRECT := by
    unfold MAXFILE at hmax
    omega
  have hw : fb < 2 ^ 32 := by
    unfold FSSIZE at hfb
    omega
  refine h.extend_one hfb ?_ (Nat.ne_of_gt hm) ?_ ?_
  · rw [View.refs_setWord hk hw rfl htab (h.table_sole htab rfl), slotOf, if_neg (by omega)]
  · intro b hb
    have hne : b ≠ (V.ino i).addrs NDIRECT := by omega
    simp only [View.setBlk, update_of_ne hne]
    exact h.zero b (Nat.le_of_lt hb)
  · intro j bn hne
    have hdata : V.refs (j, slotOf bn) ≠ (V.ino i).addrs NDIRECT := fun heq =>
      h.not_table heq htab i rfl
    simp only [View.setBlk, update_of_ne hdata]

/-- The first block behind the direct ones: the indirect block comes first. -/
theorem Sound.own_table (h : Sound V fb m c) (hm : m i = NDIRECT) (hfb : fb + 1 < FSSIZE) :
    Sound ((V.setAddr i NDIRECT fb).setBlk fb (setWord (V.blk fb) 0 (fb + 1)))
      (fb + 2) (update m i (NDIRECT + 1)) c := by
  have hpos : fb ≠ 0 := by
    have := h.lo
    unfold nmeta at this
    omega
  have hnone : (V.ino i).addrs NDIRECT = 0 := by
    by_contra hne
    have := (h.holds i).table.1 hne
    omega
  have hzero : ∀ k < NINDIRECT, word (V.blk fb) k = 0 := by
    intro k _
    rw [h.zero fb (Nat.le_refl fb), word_zeroBlock]
  have hsole : ∀ j, ((V.setAddr i NDIRECT fb).ino j).addrs NDIRECT = fb → j = i := by
    intro j hj
    by_contra hne
    have hj' : (V.ino j).addrs NDIRECT = fb := by simpa [View.setAddr, hne] using hj
    exact h.fresh (Nat.le_refl fb) (j, .table) hj'
  have hrefs : ((V.setAddr i NDIRECT fb).setBlk fb (setWord (V.blk fb) 0 (fb + 1))).refs =
      update (update V.refs (i, .table) fb) (i, .entry 0) (fb + 1) := by
    rw [← View.refs_setAddr_table hnone hzero]
    refine View.refs_setWord (by decide) ?_ ?_ hpos hsole
    · unfold FSSIZE at hfb
      omega
    · simp [View.setAddr, Dinode.setAddr]
  have hblk : ∀ b, b ≠ fb →
      ((V.setAddr i NDIRECT fb).setBlk fb (setWord (V.blk fb) 0 (fb + 1))).blk b = V.blk b := by
    intro b hb
    simp [View.setBlk, View.setAddr, hb]
  generalize (V.setAddr i NDIRECT fb).setBlk fb (setWord (V.blk fb) 0 (fb + 1)) = V'
    at hrefs hblk ⊢
  have hslot : slotOf (m i) = .entry 0 := by rw [hm]; rfl
  have hfree : V.refs (i, .entry 0) = 0 := by
    by_contra hne
    rw [← hslot] at hne
    exact absurd (((h.holds i).mapped _).1 hne) (Nat.lt_irrefl _)
  have hne : ((i, .entry 0) : ℕ × Slot) ≠ (i, .table) := by simp
  -- a slot is in use afterwards if it is one of the two or was in use
  have hused : ∀ x, V'.refs x ≠ 0 ↔ x = (i, .entry 0) ∨ x = (i, .table) ∨ V.refs x ≠ 0 := by
    intro x
    rw [hrefs]
    rcases eq_or_ne x (i, .entry 0) with rfl | hx
    · simp
    · rw [update_of_ne hx]
      rcases eq_or_ne x (i, .table) with rfl | hx'
      · simp [hpos]
      · simp [hx, hx']
  have hentry : V'.refs (i, .entry 0) = fb + 1 := by rw [hrefs, update_self]
  have htab : V'.refs (i, .table) = fb := by
    rw [hrefs, update_of_ne hne.symm, update_self]
  refine h.extend (by omega) hfb ?_ ?_ ?_ ?_ ?_ ?_ ?_ ?_ ?_
  · intro x hx
    rw [hrefs, update_of_ne, update_of_ne]
    · rintro rfl
      exact hx hnone
    · rintro rfl
      exact hx hfree
  · intro x hold hx
    rcases (hused x).1 hx with rfl | rfl | hx
    · rw [hentry]
      omega
    · rw [htab]
      omega
    · exact absurd hold hx
  · rw [hrefs]
    refine (h.sole.assign (h.fresh (Nat.le_refl fb))).assign ?_
    intro y
    rcases eq_or_ne y (i, .table) with rfl | hy
    · rw [update_self]
      omega
    · rw [update_of_ne hy]
      exact h.fresh (Nat.le_succ fb) y
  · intro b hlo hb
    rcases Nat.lt_or_ge fb b with hlt | hge
    · exact ⟨(i, .entry 0), by omega⟩
    · exact ⟨(i, .table), by omega⟩
  · intro b hb
    rw [hblk b (by omega)]
    exact h.zero b (by omega)
  · intro j bn hbn
    exact hblk _ (h.fresh (Nat.le_refl fb) _)
  · intro j bn
    rw [hused, (h.holds j).mapped]
    have hnt : ((j, slotOf bn) : ℕ × Slot) ≠ (i, .table) := fun heq =>
      slotOf_ne_table _ (Prod.mk.inj heq).2
    rcases eq_or_ne j i with rfl | hj
    · rw [update_self, ← hslot]
      constructor
      · rintro (heq | heq | hlt)
        · have := slotOf_inj (Prod.mk.inj heq).2
          omega
        · exact absurd heq hnt
        · omega
      · intro hlt
        rcases Nat.lt_succ_iff_lt_or_eq.1 hlt with hlt | rfl
        · exact .inr (.inr (by omega))
        · exact .inl (by rw [hm])
    · rw [update_of_ne hj]
      constructor
      · rintro (heq | heq | hlt)
        · exact absurd (Prod.mk.inj heq).1 hj
        · exact absurd heq hnt
        · exact hlt
      · exact fun hlt => .inr (.inr hlt)
  · intro j
    rw [hused, (h.holds j).table]
    rcases eq_or_ne j i with rfl | hj
    · rw [update_self]
      exact ⟨fun _ => Nat.lt_succ_self _, fun _ => .inr (.inl rfl)⟩
    · rw [update_of_ne hj]
      constructor
      · rintro (heq | heq | hlt)
        · exact absurd (Prod.mk.inj heq).1 hj
        · exact absurd (Prod.mk.inj heq).1 hj
        · exact hlt
      · exact fun hlt => .inr (.inr hlt)
  · intro j
    rcases eq_or_ne j i with rfl | hj
    · rw [update_self]
      omega
    · exact Nat.le_of_eq (update_of_ne hj ..).symm

/-- **Bytes are added behind those an inode has**, in the block they begin in. -/
theorem Sound.fill {q : List Byte} (h : Sound V fb m c) (hbn : (c i).length / BSIZE < m i)
    (hq : (c i).length % BSIZE + q.length ≤ BSIZE) :
    Sound (V.setBlk (V.refs (i, slotOf ((c i).length / BSIZE)))
        (blit (V.blk (V.refs (i, slotOf ((c i).length / BSIZE)))) ((c i).length % BSIZE) q))
      fb m (update c i (c i ++ q)) := by
  generalize hx : V.refs (i, slotOf ((c i).length / BSIZE)) = x
  have hpos : x ≠ 0 := hx ▸ ((h.holds i).mapped _).2 hbn
  have hrefs : (V.setBlk x (blit (V.blk x) ((c i).length % BSIZE) q)).refs = V.refs :=
    View.refs_setBlk fun j hj => absurd hj (h.not_table hx hpos j)
  refine ⟨h.lo, h.hi, by rw [hrefs]; exact h.sole, by rw [hrefs]; exact h.range,
    by rw [hrefs]; exact h.onto, ?_, ?_⟩
  · intro b hb
    have hne : b ≠ x := by
      rintro rfl
      exact h.fresh hb _ hx
    simp only [View.setBlk, update_of_ne hne]
    exact h.zero b hb
  · intro j
    have hother : ∀ k, V.refs (j, slotOf (k / BSIZE)) ≠ x →
        (V.setBlk x (blit (V.blk x) ((c i).length % BSIZE) q)).blk
          (V.refs (j, slotOf (k / BSIZE))) = V.blk (V.refs (j, slotOf (k / BSIZE))) := by
      intro k hk
      simp only [View.setBlk, update_of_ne hk]
    refine ⟨by rw [hrefs]; exact (h.holds j).mapped, by rw [hrefs]; exact (h.holds j).table,
      ?_, ?_⟩
    · rcases eq_or_ne j i with rfl | hj
      · rw [update_self, List.length_append]
        unfold BSIZE at hq hbn ⊢
        omega
      · rw [update_of_ne hj]
        exact (h.holds j).length
    · intro k hk
      rw [hrefs]
      rcases eq_or_ne j i with rfl | hj
      · rw [update_self] at hk ⊢
        rw [List.length_append] at hk
        by_cases hblock : k / BSIZE = (c j).length / BSIZE
        · -- in the block that is written, before and behind the old end
          rw [hblock, hx]
          simp only [View.setBlk, update_self]
          rcases Nat.lt_or_ge k (c j).length with hlt | hge
          · have hmod : k % BSIZE < (c j).length % BSIZE := by
              unfold BSIZE at hblock ⊢
              omega
            have hold := (h.holds j).bytes k hlt
            rw [hblock, hx] at hold
            rw [blit_apart (.inl hmod), hold, List.getD_append _ _ _ _ hlt]
          · have hmod : k % BSIZE = (c j).length % BSIZE + (k - (c j).length) := by
              unfold BSIZE at hblock ⊢
              omega
            rw [blit_mid (by omega) (by omega), List.getD_append_right _ _ _ _ hge]
            congr 1
            omega
        · have hlt : k < (c j).length := by
            unfold BSIZE at hblock hq
            omega
          rw [hother k, (h.holds j).bytes k hlt, List.getD_append _ _ _ _ hlt]
          intro heq
          exact hblock (slotOf_inj (h.slot_eq (heq ▸ hpos) (heq.trans hx.symm)).2)
      · rw [update_of_ne hj] at hk ⊢
        rw [hother k, (h.holds j).bytes k hk]
        intro heq
        exact hj (h.slot_eq (heq ▸ hpos) (heq.trans hx.symm)).1

end Mkfs
end Xv6
