/-
# Writing a file

`bmap` (`xv6/fs.c`, lines 373-401) gives a file the block it asks for, taken with
`balloc` if there is none, and the indirect block before it.  A function at work
on inode `i` has it in memory as `ip`; the view of the file system is then the
inodes with `ip` in the place of number `i`.  `Extends` says what `bmap` and the
loop of `writei` (lines 482-512) leave: blocks that a slot names stay, and what
is new is owned by inode `i`.
-/

import Xv6.Fs.Alloc

namespace Xv6
namespace Fs

open Lib Function

/-- The view with a copy of an inode in its place. -/
def withCopy (ino : ℕ → Dinode) (i : ℕ) (ip : Dinode) (v : Vol) : View :=
  ⟨update ino i ip, v.disk⟩

/-- Blocks have been added to an inode. -/
structure Extends (ino : ℕ → Dinode) (i : ℕ) (ip : Dinode) (v : Vol) (ip' : Dinode) (v' : Vol) :
    Prop where
  owns : Owns v'.sb (withCopy ino i ip' v')
  frame : Frame v v' fun _ => True
  keep : ∀ x, (withCopy ino i ip v).refs x ≠ 0 →
    (withCopy ino i ip' v').refs x = (withCopy ino i ip v).refs x
  same : SameMeta ip ip'

variable {ino : ℕ → Dinode} {i bn b : ℕ} {ip ip' ip'' : Dinode} {v v' v'' : Vol}

theorem withCopy_ino : (withCopy ino i ip v).ino i = ip := update_self ..

theorem withCopy_table : (withCopy ino i ip v).refs (i, .table) = ip.addrs NDIRECT := by
  rw [View.refs, withCopy_ino, Dinode.ref]

theorem Frame.any {P : ℕ → Prop} (h : Frame v v' P) : Frame v v' fun _ => True :=
  ⟨h.sb, h.inode, fun _ _ hc => absurd trivial hc⟩

theorem Extends.refl (h : Owns v.sb (withCopy ino i ip v)) : Extends ino i ip v ip v :=
  ⟨h, Frame.refl v _, fun _ _ => rfl, SameMeta.refl ip⟩

theorem Extends.trans (h : Extends ino i ip v ip' v') (h' : Extends ino i ip' v' ip'' v'') :
    Extends ino i ip v ip'' v'' where
  owns := h'.owns
  frame := (h.frame.trans h'.frame).any
  keep x hx := by
    have hx' := h.keep x hx
    rw [h'.keep x (hx' ▸ hx), hx']
  same := h.same.trans h'.same

theorem withCopy_setAddr (ino : ℕ → Dinode) (i : ℕ) (ip : Dinode) (v : Vol) (k b : ℕ) :
    withCopy ino i (ip.setAddr k b) v = (withCopy ino i ip v).setAddr i k b := by
  unfold withCopy View.setAddr
  simp

/-- A slot that was empty is given a block that `balloc` returned. -/
theorem Extends.of_taken {v₁ : Vol} {x : ℕ × Slot} (htaken : Taken v (update ino i ip) b v₁)
    (hempty : (withCopy ino i ip v).refs x = 0)
    (hrefs : (withCopy ino i ip' v').refs = update (withCopy ino i ip v).refs x b)
    (hsb : v'.sb = v₁.sb) (hframe : Frame v v' fun _ => True)
    (hsuper : readsb v'.disk = readsb v₁.disk)
    (hbits : ∀ c < v.sb.size, inUse v.sb v'.disk c = inUse v.sb v₁.disk c)
    (hsame : SameMeta ip ip') : Extends ino i ip v ip' v' where
  owns := by
    have hold := htaken.owns
    rw [hsb]
    have hsb₁ := htaken.frame.sb
    rw [hsb₁] at hold ⊢
    have hrefs₁ : (withCopy ino i ip' v').refs =
        update (View.refs ⟨update ino i ip, v₁.disk⟩) x b := by
      rw [htaken.refs]
      exact hrefs
    refine hold.assign hsuper hrefs₁ hbits ?_ htaken.range htaken.used
    rw [htaken.refs]
    exact htaken.fresh
  frame := hframe
  keep y hy := by
    rw [hrefs, update_of_ne]
    rintro rfl
    exact hy hempty
  same := hsame

/-- A block from `balloc` is not block 0. -/
theorem Taken.ne_zero (h : Taken v ino b v') : b ≠ 0 := by
  have hone := h.owns.layout.one_lt_nmeta (h.frame.sb ▸ h.range.2)
  have hlo := h.range.1
  rw [h.frame.sb] at hone
  omega

/-- **A direct address or the indirect block.** -/
theorem bmapAddr_extends {k : ℕ} (h : Owns v.sb (withCopy ino i ip v)) (hk : k ≤ NDIRECT)
    (hok : bmapAddr v ip k = .ok (b, ip', v')) :
    Extends ino i ip v ip' v' ∧ ip'.addrs k = b ∧ b ≠ 0 := by
  unfold bmapAddr at hok
  split at hok
  next hzero =>
    obtain ⟨⟨b', v₁⟩, hballoc, hok⟩ := bind_eq_ok.1 hok
    cases hok
    have htaken := taken_of_balloc h hballoc
    have hold : (withCopy ino i ip v').refs = (withCopy ino i ip v).refs := htaken.refs
    refine ⟨?_, update_self .., htaken.ne_zero⟩
    have hframe : Frame v v' fun _ => True := htaken.frame.any
    rcases Nat.lt_or_eq_of_le hk with hlt | rfl
    · refine Extends.of_taken htaken (x := (i, .direct k)) ?_ ?_ rfl hframe rfl (fun _ _ => rfl)
        (sameMeta_setAddr ip hk)
      · rw [View.refs, withCopy_ino, Dinode.ref, if_pos hlt, hzero]
      · rw [withCopy_setAddr, View.refs_setAddr_direct hlt, hold]
    · refine Extends.of_taken htaken (x := (i, .table)) ?_ ?_ rfl hframe rfl (fun _ _ => rfl)
        (sameMeta_setAddr ip hk)
      · rw [withCopy_table, hzero]
      · rw [withCopy_setAddr, View.refs_setAddr_table, hold]
        · rw [withCopy_ino]
          exact hzero
        · intro j _
          change word (v'.disk b) j = 0
          rw [htaken.zero, word_zeroBlock]
  next hne =>
    cases hok
    exact ⟨Extends.refl h, rfl, hne⟩

/-- **An entry of the indirect block.** -/
theorem bmapEntry_extends {k : ℕ} (h : Owns v.sb (withCopy ino i ip v))
    (htable : ip.addrs NDIRECT ≠ 0) (hk : k < NINDIRECT)
    (hok : bmapEntry v (ip.addrs NDIRECT) k = .ok (b, v')) :
    Extends ino i ip v ip v' ∧ ip.ref v'.disk (.entry k) = b ∧ b ≠ 0 := by
  unfold bmapEntry at hok
  split at hok
  next hzero =>
    obtain ⟨⟨b', v₁⟩, hballoc, hok⟩ := bind_eq_ok.1 hok
    cases hok
    have htaken := taken_of_balloc h hballoc
    have hold : (withCopy ino i ip v₁).refs = (withCopy ino i ip v).refs := htaken.refs
    have htab : (withCopy ino i ip v).refs (i, .table) ≠ 0 := by rwa [withCopy_table]
    obtain ⟨hsuper, hinode, hbits⟩ := h.layout.write_data (withCopy_table ▸ h.range _ htab) v₁.disk
      (setWord (v₁.disk (ip.addrs NDIRECT)) k b)
    have hword : b < 2 ^ 32 := Nat.lt_of_lt_of_le htaken.range.2 h.layout.size
    have hsole : ∀ j, ((withCopy ino i ip v₁).ino j).addrs NDIRECT = ip.addrs NDIRECT → j = i := by
      intro j hj
      have heq : (withCopy ino i ip v).refs (j, .table) = (withCopy ino i ip v).refs (i, .table) := by
        rw [withCopy_table]
        exact hj
      exact (Prod.mk.inj (h.sole _ _ (heq ▸ htab) heq)).1
    have hrefs := View.refs_setWord (V := withCopy ino i ip v₁) hk hword
      (by rw [withCopy_ino]) htable hsole
    rw [hold] at hrefs
    refine ⟨Extends.of_taken htaken (x := (i, .entry k)) ?_ hrefs rfl ?_ hsuper hbits
      (SameMeta.refl ip), ?_, htaken.ne_zero⟩
    · rw [View.refs, withCopy_ino, Dinode.ref, if_pos ⟨htable, hk⟩]
      exact hzero
    · exact ⟨htaken.frame.sb, fun j hj => (hinode j hj).trans (htaken.frame.inode j hj),
        fun _ _ hc => absurd trivial hc⟩
    · rw [Dinode.ref, if_pos ⟨htable, hk⟩]
      dsimp only
      rw [update_self, word_setWord _ _ _ hword]
  next hne =>
    cases hok
    refine ⟨Extends.refl h, ?_, hne⟩
    rw [Dinode.ref, if_pos ⟨htable, hk⟩]

/-- **`bmap` adds blocks to its inode only**, and the inode names the block it returns. -/
theorem bmap_extends (h : Owns v.sb (withCopy ino i ip v)) (hok : bmap v ip bn = .ok (b, ip', v')) :
    Extends ino i ip v ip' v' ∧ ip'.ref v'.disk (slotOf bn) = b ∧ b ≠ 0 := by
  unfold bmap at hok
  split at hok
  next hbn =>
    obtain ⟨hext, haddr, hne⟩ := bmapAddr_extends h (Nat.le_of_lt hbn) hok
    exact ⟨hext, by rw [Dinode.ref_direct hbn, haddr], hne⟩
  next hbn =>
    obtain ⟨hk, hok⟩ := else_error_eq_ok.1 hok
    obtain ⟨⟨table, ip₁, v₁⟩, hok₁, hok⟩ := bind_eq_ok.1 hok
    obtain ⟨⟨addr, v₂⟩, hok₂, hok⟩ := bind_eq_ok.1 hok
    cases hok
    obtain ⟨hext₁, htable, hne₁⟩ := bmapAddr_extends h (Nat.le_refl _) hok₁
    subst htable
    obtain ⟨hext₂, hentry, hne₂⟩ := bmapEntry_extends hext₁.owns hne₁ hk hok₂
    refine ⟨hext₁.trans hext₂, ?_, hne₂⟩
    rw [slotOf, if_neg hbn, hentry]

/-- A write to a block of the file. -/
theorem Extends.of_write (h : Owns v.sb (withCopy ino i ip v))
    (hb : ip.ref v.disk (slotOf bn) = b) (hne : b ≠ 0) (blk : Block) :
    Extends ino i ip v ip { v with disk := update v.disk b blk } := by
  have hslot : (withCopy ino i ip v).refs (i, slotOf bn) = b := by
    rw [View.refs, withCopy_ino]
    exact hb
  obtain ⟨hsuper, hinode, hbits⟩ :=
    h.layout.write_data (hslot ▸ h.range _ (hslot ▸ hne)) v.disk blk
  -- a block of a file is nobody's indirect block
  have hdata : ∀ j, ((withCopy ino i ip v).ino j).addrs NDIRECT = b → b = 0 := by
    intro j hj
    have heq : (withCopy ino i ip v).refs (i, slotOf bn) = (withCopy ino i ip v).refs (j, .table) :=
      hslot.trans hj.symm
    exact absurd (Prod.mk.inj (h.sole _ _ (hslot ▸ hne) heq)).2 (slotOf_ne_table bn)
  have hrefs : (withCopy ino i ip { v with disk := update v.disk b blk }).refs =
      (withCopy ino i ip v).refs := View.refs_setBlk hdata
  exact ⟨h.of_same hsuper hrefs hbits, ⟨rfl, hinode, fun _ _ hc => absurd trivial hc⟩,
    fun x _ => by rw [hrefs], SameMeta.refl ip⟩

/-- What a slot of the inode at work names stays. -/
theorem Extends.keep_ref (h : Extends ino i ip v ip' v') {p : Slot} (hne : ip.ref v.disk p ≠ 0) :
    ip'.ref v'.disk p = ip.ref v.disk p := by
  have := h.keep (i, p)
  rw [View.refs, View.refs, withCopy_ino, withCopy_ino] at this
  exact this hne

/-- **The loop of `writei`** gives the inode the blocks of the bytes it writes. -/
theorem writeLoop_extends {fuel off : ℕ} {src : List Byte} (hfuel : src.length ≤ fuel)
    (h : Owns v.sb (withCopy ino i ip v)) (hok : writeLoop fuel v ip off src = .ok (ip', v')) :
    Extends ino i ip v ip' v' ∧
      ∀ k, off ≤ k → k < off + src.length → ip'.ref v'.disk (slotOf (k / BSIZE)) ≠ 0 := by
  induction fuel generalizing v ip off src with
  | zero =>
    obtain rfl := List.eq_nil_of_length_eq_zero (Nat.le_zero.1 hfuel)
    cases hok
    exact ⟨Extends.refl h, fun k hk hk' => absurd hk' (Nat.not_lt_of_ge hk)⟩
  | succ fuel ih =>
    rw [writeLoop] at hok
    split at hok
    next hnil =>
      subst hnil
      cases hok
      exact ⟨Extends.refl h, fun k hk hk' => absurd hk' (Nat.not_lt_of_ge hk)⟩
    next hsrc =>
      obtain ⟨⟨addr, ip₁, v₁⟩, hbmap, hok⟩ := bind_eq_ok.1 hok
      dsimp only at hok
      obtain ⟨hext₁, haddr, hne⟩ := bmap_extends h hbmap
      have hpos := List.length_pos_iff.2 hsrc
      have hmod : off % BSIZE < BSIZE := Nat.mod_lt _ (by decide)
      generalize hm : min src.length (BSIZE - off % BSIZE) = m at hok
      have hext₂ := Extends.of_write hext₁.owns haddr hne
        (blit (v₁.disk addr) (off % BSIZE) (src.take m))
      obtain ⟨hext₃, hmapped⟩ := ih (by rw [List.length_drop]; omega) hext₂.owns hok
      refine ⟨(hext₁.trans hext₂).trans hext₃, fun k hk hk' => ?_⟩
      rcases Nat.lt_or_ge k (off + m) with hlt | hge
      · -- the block of this turn
        have hblock : k / BSIZE = off / BSIZE := by
          unfold BSIZE at *
          omega
        have href : ip₁.ref v₁.disk (slotOf (k / BSIZE)) ≠ 0 := by
          rw [hblock, haddr]
          exact hne
        rw [(hext₂.trans hext₃).keep_ref href]
        exact href
      · refine hmapped k hge ?_
        rw [List.length_drop]
        omega

end Fs
end Xv6
