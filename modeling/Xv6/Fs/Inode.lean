/-
# Inodes on the disk

`Consistent v`: the blocks of the allocated inodes of the volume are owned once
each, and every inode has the blocks below its size.  It holds between two calls,
when the copies in memory are those on the disk.  `writei` (`xv6/fs.c`, lines
482-512) ends with `iupdate` (lines 221-237) just if it has added bytes, and it
has added blocks only then.
-/

import Xv6.Fs.Write

namespace Xv6
namespace Fs

open Lib Function

/-- An inode in use. -/
structure Live (v : Vol) (i : ℕ) : Prop where
  pos : 0 < i
  lt : i < v.sb.ninodes
  type : (dinodeOf v.sb v.disk i).type ≠ 0

instance (v : Vol) (i : ℕ) : Decidable (Live v i) :=
  decidable_of_iff (0 < i ∧ i < v.sb.ninodes ∧ (dinodeOf v.sb v.disk i).type ≠ 0)
    ⟨fun h => ⟨h.1, h.2.1, h.2.2⟩, fun h => ⟨h.pos, h.lt, h.type⟩⟩

/-- The inodes in use. -/
def liveInos (v : Vol) (i : ℕ) : Dinode := if Live v i then dinodeOf v.sb v.disk i else Dinode.zero

/-- A volume between two calls. -/
structure Consistent (v : Vol) : Prop where
  owns : Owns v.sb ⟨liveInos v, v.disk⟩
  filled : ∀ i, Live v i → Filled v.disk (dinodeOf v.sb v.disk i)

variable {v v' : Vol} {i j : ℕ} {ip ip' d : Dinode}

theorem liveInos_live (h : Live v i) : liveInos v i = dinodeOf v.sb v.disk i := if_pos h

theorem withCopy_live (h : Live v i) :
    withCopy (liveInos v) i (dinodeOf v.sb v.disk i) v = ⟨liveInos v, v.disk⟩ := by
  rw [withCopy, ← liveInos_live h, update_eq_self]

theorem withCopy_other (hne : j ≠ i) (hj : Live v j) {d : Dinode} {w : Vol} :
    (withCopy (liveInos v) i d w).ino j = dinodeOf v.sb v.disk j := by
  rw [← liveInos_live hj]
  exact update_of_ne hne ..

/-- An inode has its blocks just if each of its bytes has one. -/
theorem filled_iff {disk : Disk} {ip : Dinode} :
    Filled disk ip ↔ ∀ k < ip.size, ip.ref disk (slotOf (k / BSIZE)) ≠ 0 := by
  constructor
  · exact fun h k hk => h _ (div_lt_blocks hk)
  · intro h bn hbn
    have hlt : bn * BSIZE < ip.size := by
      unfold blocks BSIZE at *
      omega
    have := h (bn * BSIZE) hlt
    rwa [Nat.mul_div_cancel _ (by decide)] at this

/-! ### `iupdate` -/

/-- The inodes when one has been written. -/
theorem liveInos_iupdate (hd : d.Fits) (hpos : 0 < i) (hlt : i < v.sb.ninodes) :
    liveInos (iupdate v i d) = update (liveInos v) i (if d.type ≠ 0 then d else .zero) := by
  funext j
  have hsb : (iupdate v i d).sb = v.sb := rfl
  rcases eq_or_ne j i with rfl | hne
  · have hdi : dinodeOf (iupdate v j d).sb (iupdate v j d).disk j = d := dinodeOf_setDinode hd
    rw [update_self, liveInos, hdi]
    by_cases htype : d.type ≠ 0
    · rw [if_pos htype, if_pos ⟨hpos, hlt, by rwa [hdi]⟩]
    · rw [if_neg htype, if_neg fun hlive => htype (hdi ▸ hlive.type)]
  · have hdi : dinodeOf (iupdate v i d).sb (iupdate v i d).disk j = dinodeOf v.sb v.disk j :=
      dinodeOf_setDinode_of_ne hne
    rw [update_of_ne hne, liveInos, liveInos, hdi]
    have hiff : Live (iupdate v i d) j ↔ Live v j :=
      ⟨fun h => ⟨h.pos, h.lt, hdi ▸ h.type⟩, fun h => ⟨h.pos, h.lt, hdi.symm ▸ h.type⟩⟩
    simp only [hiff]

theorem iupdate_data (h : Layout v.sb) (hlt : i < v.sb.ninodes) {c : ℕ}
    (hc : v.sb.nmeta ≤ c ∧ c < v.sb.size) : (iupdate v i d).disk c = v.disk c := by
  have := h.IBLOCK_lt_BBLOCK hlt c
  have := h.bits c hc.2
  exact update_of_ne (by omega) ..

section iupdate

variable (howns : Owns v.sb (withCopy (liveInos v) i d v)) (hd : d.Fits) (hpos : 0 < i)
  (hlt : i < v.sb.ninodes) (hzero : d.type = 0 → d.addrs = fun _ => 0)

include howns hd hpos hlt hzero

/-- The copy at work is now the inode on the disk. -/
theorem Owns.refs_iupdate : View.refs ⟨liveInos (iupdate v i d), (iupdate v i d).disk⟩ =
    (withCopy (liveInos v) i d v).refs := by
  refine View.refs_congr (fun j => ?_) fun j hj =>
    iupdate_data howns.layout hlt (howns.range (j, .table) hj)
  dsimp only [withCopy]
  rw [liveInos_iupdate hd hpos hlt]
  rcases eq_or_ne j i with rfl | hne
  · rw [update_self, update_self]
    split
    · rfl
    · next htype => exact (hzero (not_not.1 htype)).symm
  · rw [update_of_ne hne, update_of_ne hne]

theorem Owns.of_iupdate : Owns v.sb ⟨liveInos (iupdate v i d), (iupdate v i d).disk⟩ :=
  howns.of_same (readsb_update (Nat.ne_of_gt (howns.layout.one_lt_IBLOCK i)))
    (howns.refs_iupdate hd hpos hlt hzero)
    fun c _ => inUse_update (Nat.ne_of_gt (howns.layout.IBLOCK_lt_BBLOCK hlt c))

/-- **`iupdate` of the copy at work** makes the volume consistent. -/
theorem Consistent.of_iupdate (hfilled : d.type ≠ 0 → Filled v.disk d)
    (hothers : ∀ j, j ≠ i → Live v j → Filled v.disk (dinodeOf v.sb v.disk j)) :
    Consistent (iupdate v i d) := by
  refine ⟨howns.of_iupdate hd hpos hlt hzero, fun j hj bn hbn => ?_⟩
  have hslot := congrFun (howns.refs_iupdate hd hpos hlt hzero) (j, slotOf bn)
  rw [View.refs] at hslot
  dsimp only at hslot
  rw [liveInos_live hj] at hslot
  rw [hslot]
  rcases eq_or_ne j i with rfl | hne
  · have hdi : dinodeOf v.sb (iupdate v j d).disk j = d := dinodeOf_setDinode hd
    rw [View.refs, withCopy_ino]
    exact hfilled (hdi ▸ hj.type) bn (hdi ▸ hbn)
  · have hdi : dinodeOf v.sb (iupdate v i d).disk j = dinodeOf v.sb v.disk j :=
      dinodeOf_setDinode_of_ne hne
    have hlive : Live v j := ⟨hj.pos, hj.lt, hdi ▸ hj.type⟩
    rw [View.refs, withCopy_other hne hlive]
    exact hothers j hne hlive bn (hdi ▸ hbn)

end iupdate

/-- A call has changed one inode. -/
structure Rewrote (v : Vol) (i : ℕ) (v' : Vol) : Prop where
  consistent : Consistent v'
  sb : v'.sb = v.sb
  others : ∀ j < v.sb.ninodes, j ≠ i → dinodeOf v'.sb v'.disk j = dinodeOf v.sb v.disk j

/-- **`iupdate` without a change of the addresses.** -/
theorem Consistent.iupdate (h : Consistent v) (hpos : 0 < i) (hlt : i < v.sb.ninodes) (hd : d.Fits)
    (haddrs : d.addrs = (liveInos v i).addrs) (hzero : d.type = 0 → d.addrs = fun _ => 0)
    (hfilled : d.type ≠ 0 → Filled v.disk d) : Rewrote v i (iupdate v i d) := by
  refine ⟨Consistent.of_iupdate ?_ hd hpos hlt hzero hfilled fun j _ hj => h.filled j hj, rfl,
    fun j _ hne => dinodeOf_setDinode_of_ne hne⟩
  exact h.owns.of_same rfl (View.refs_congr (update_field Dinode.addrs haddrs) fun _ _ => rfl)
    fun _ _ => rfl

/-! ### `writei` -/

/-- Blocks that were mapped are mapped. -/
theorem Extends.filled {ino : ℕ → Dinode} (h : Extends ino i ip v ip' v') {k : ℕ}
    (hne : ip.ref v.disk (slotOf k) ≠ 0) : ip'.ref v'.disk (slotOf k) ≠ 0 := by
  rwa [h.keep_ref hne]

/-- The copy of the inode, with a new size, fits its record. -/
theorem Extends.fits {ino : ℕ → Dinode} (h : Extends ino i ip v ip' v') (hfits : ip.Fits) {n : ℕ}
    (hn : n < 2 ^ 32) : Dinode.Fits { ip' with size := n } where
  type := h.same.type ▸ hfits.type
  major := h.same.major ▸ hfits.major
  minor := h.same.minor ▸ hfits.minor
  nlink := h.same.nlink ▸ hfits.nlink
  size := hn
  addrs j := by
    dsimp only
    have hrange : ∀ p, ip'.ref v'.disk p < 2 ^ 32 := by
      intro p
      by_cases hzero : ip'.ref v'.disk p = 0
      · rw [hzero]
        decide
      · have := h.owns.range (i, p)
        rw [View.refs, withCopy_ino] at this
        exact Nat.lt_of_lt_of_le (this hzero).2 h.owns.layout.size
    rcases Nat.lt_trichotomy j NDIRECT with hj | rfl | hj
    · rw [← Dinode.ref_direct hj]
      exact hrange _
    · exact hrange .table
    · rw [h.same.beyond j hj, hfits.beyond j hj]
      decide
  beyond j hj := (h.same.beyond j hj).trans (hfits.beyond j hj)

/-- The inodes in use do not change while one is at work. -/
theorem Frame.live_iff {P : ℕ → Prop} (h : Frame v v' P) : Live v' j ↔ Live v j := by
  constructor
  · rintro ⟨hpos, hlt, htype⟩
    rw [h.sb] at hlt htype
    exact ⟨hpos, hlt, h.dinodeOf_eq hlt ▸ htype⟩
  · rintro ⟨hpos, hlt, htype⟩
    refine ⟨hpos, h.sb ▸ hlt, ?_⟩
    rw [h.sb, h.dinodeOf_eq hlt]
    exact htype

theorem Frame.liveInos_eq {P : ℕ → Prop} (h : Frame v v' P) : liveInos v' = liveInos v := by
  funext j
  unfold liveInos
  by_cases hj : Live v j
  · rw [if_pos hj, if_pos (h.live_iff.2 hj), h.sb, h.dinodeOf_eq hj.lt]
  · rw [if_neg hj, if_neg fun hj' => hj (h.live_iff.1 hj')]

/-- A write within the size of a file changes no address. -/
theorem writeLoop_within {ino : ℕ → Dinode} {fuel off : ℕ} {src : List Byte}
    (hfuel : src.length ≤ fuel) (h : Owns v.sb (withCopy ino i ip v))
    (hmapped : ∀ k, off ≤ k → k < off + src.length → ip.ref v.disk (slotOf (k / BSIZE)) ≠ 0)
    (hok : writeLoop fuel v ip off src = .ok (ip', v')) : ip' = ip := by
  induction fuel generalizing v off src with
  | zero => exact (Prod.mk.inj (Except.ok.inj hok)).1.symm
  | succ fuel ih =>
    rw [writeLoop] at hok
    split at hok
    next => exact (Prod.mk.inj (Except.ok.inj hok)).1.symm
    next hsrc =>
      have hpos := List.length_pos_iff.2 hsrc
      have hmod : off % BSIZE < BSIZE := Nat.mod_lt _ (by decide)
      have hfirst := hmapped off (Nat.le_refl _) (by omega)
      rw [bmap_ref hfirst, ok_bind] at hok
      dsimp only at hok
      generalize hm : min src.length (BSIZE - off % BSIZE) = m at hok
      have hext := Extends.of_write h rfl hfirst
        (blit (v.disk (ip.ref v.disk (slotOf (off / BSIZE)))) (off % BSIZE) (src.take m))
      refine ih (by rw [List.length_drop]; omega) hext.owns (fun k hk hk' => ?_) hok
      rw [List.length_drop] at hk'
      exact hext.filled (hmapped k (by omega) (by omega))

/-- The copy `ip'` that a call has worked on, with `n` bytes, is on the disk. -/
structure Settled (v : Vol) (i : ℕ) (ip' : Dinode) (v' : Vol) (n : ℕ) (w : Vol) : Prop where
  sb : w.sb = v.sb
  owns : Owns w.sb ⟨liveInos w, w.disk⟩
  refs : View.refs ⟨liveInos w, w.disk⟩ = (withCopy (liveInos v) i ip' v').refs
  data : ∀ c, v.sb.nmeta ≤ c ∧ c < v.sb.size → w.disk c = v'.disk c
  live : Live w i
  self : dinodeOf w.sb w.disk i = { ip' with size := n }
  others : ∀ j < v.sb.ninodes, j ≠ i → dinodeOf w.sb w.disk j = dinodeOf v.sb v.disk j

section extended

variable (hi : Live v i) (hext : Extends (liveInos v) i (dinodeOf v.sb v.disk i) v ip' v')

include hi hext

/-- The copy with the blocks that have been added is written back with its new size. -/
theorem Extends.settled_grown {n : ℕ} (hn : n < 2 ^ 32) :
    Settled v i ip' v' n (iupdate v' i { ip' with size := n }) := by
  have hlt : i < v'.sb.ninodes := hext.frame.sb ▸ hi.lt
  have hfits := hext.fits (dinodeOf_fits ..) hn
  have htype : ip'.type ≠ 0 := hext.same.type ▸ hi.type
  have hzero : ip'.type = 0 → ip'.addrs = fun _ => 0 := fun h0 => absurd h0 htype
  have hself : dinodeOf v'.sb (iupdate v' i { ip' with size := n }).disk i =
      { ip' with size := n } := dinodeOf_setDinode hfits
  have hrefs : (withCopy (liveInos v') i { ip' with size := n } v').refs =
      (withCopy (liveInos v) i ip' v').refs := by
    rw [hext.frame.liveInos_eq]
    refine View.refs_congr (fun j => ?_) fun _ _ => rfl
    unfold withCopy
    dsimp only
    rcases eq_or_ne j i with rfl | hne
    · rw [update_self, update_self]
    · rw [update_of_ne hne, update_of_ne hne]
  have howns : Owns v'.sb (withCopy (liveInos v') i { ip' with size := n } v') :=
    hext.owns.of_same rfl hrefs fun _ _ => rfl
  refine ⟨hext.frame.sb, howns.of_iupdate hfits hi.pos hlt hzero,
    (howns.refs_iupdate hfits hi.pos hlt hzero).trans hrefs,
    fun c hc => iupdate_data howns.layout hlt (hext.frame.sb ▸ hc), ⟨hi.pos, hlt, ?_⟩, hself,
    fun j hj hne => ?_⟩
  · change (dinodeOf v'.sb _ i).type ≠ 0
    rw [hself]
    exact htype
  · change dinodeOf v'.sb (setDinode v'.sb v'.disk i _) j = _
    rw [dinodeOf_setDinode_of_ne hne, hext.frame.sb, hext.frame.dinodeOf_eq hj]

/-- The inode has not changed. -/
theorem Extends.settled_same (hsame : ip' = dinodeOf v.sb v.disk i) :
    Settled v i ip' v' ip'.size v' := by
  subst hsame
  have hi' : Live v' i := hext.frame.live_iff.2 hi
  have hdi : ∀ j < v.sb.ninodes, dinodeOf v'.sb v'.disk j = dinodeOf v.sb v.disk j := by
    intro j hj
    rw [hext.frame.sb, hext.frame.dinodeOf_eq hj]
  have hview : withCopy (liveInos v) i (dinodeOf v.sb v.disk i) v' = ⟨liveInos v', v'.disk⟩ := by
    rw [← withCopy_live hi', hext.frame.liveInos_eq, hdi i hi.lt]
  exact ⟨hext.frame.sb, hview ▸ hext.owns, by rw [hview], fun _ _ => rfl, hi', hdi i hi.lt,
    fun j hj _ => hdi j hj⟩

end extended

/-- What an inode names when the copy at work is on the disk. -/
theorem Settled.ref_eq {n : ℕ} {w : Vol} (h : Settled v i ip' v' n w) (hj : Live w j) (p : Slot) :
    (dinodeOf w.sb w.disk j).ref w.disk p = (withCopy (liveInos v) i ip' v').refs (j, p) := by
  rw [← h.refs, View.refs]
  dsimp only
  rw [liveInos_live hj]

/-- **The loop of `writei` is settled**: the inode is written back just if it has grown. -/
theorem writei_settled {off : ℕ} {src : List Byte} (howns : Owns v.sb ⟨liveInos v, v.disk⟩)
    (hi : Live v i) (hfilled : Filled v.disk (dinodeOf v.sb v.disk i))
    (htype : (dinodeOf v.sb v.disk i).type ≠ T_DEV) (hoff : off ≤ (dinodeOf v.sb v.disk i).size)
    (hwrap : off + src.length < 2 ^ 32) (hmax : off + src.length ≤ MAXFILE * BSIZE)
    (hloop : writeLoop src.length v (dinodeOf v.sb v.disk i) off src = .ok (ip', v')) :
    ∃ w, writei v i (dinodeOf v.sb v.disk i) off src =
        .ok (src.length, dinodeOf w.sb w.disk i, w) ∧
      Settled v i ip' v' (max (dinodeOf v.sb v.disk i).size (off + src.length)) w := by
  rw [← withCopy_live hi] at howns
  obtain ⟨hext, -⟩ := writeLoop_extends (Nat.le_refl _) howns hloop
  rw [writei, if_neg (by omega), if_neg (by omega), hloop, ok_bind]
  dsimp only
  by_cases hgrow : (dinodeOf v.sb v.disk i).size < off + src.length
  · have hsrc : src ≠ [] := by
      rintro rfl
      rw [List.length_nil] at hgrow
      omega
    have hset := hext.settled_grown hi hwrap
    rw [if_pos ⟨hsrc, hext.same.size ▸ hgrow⟩, Nat.max_eq_right (Nat.le_of_lt hgrow)]
    refine ⟨_, ?_, hset⟩
    rw [hset.self]
  · -- the size covers what was written, so no block was added
    have hsame := writeLoop_within (Nat.le_refl _) howns
      (fun k hk hk' => filled_iff.1 hfilled k (by omega)) hloop
    have hset := hext.settled_same hi hsame
    rw [if_neg fun h => hgrow (hext.same.size ▸ h.2), Nat.max_eq_left (Nat.le_of_not_lt hgrow),
      ← hext.same.size]
    exact ⟨v', by rw [hset.self], hset⟩

/-- **`writei` keeps the volume consistent**, and its copy of the inode is the one on the
disk. -/
theorem Consistent.writei (h : Consistent v) (hi : Live v i) {off : ℕ} {src : List Byte} {r : ℤ}
    (hok : writei v i (dinodeOf v.sb v.disk i) off src = .ok (r, ip', v')) :
    Rewrote v i v' ∧ Live v' i ∧ ip' = dinodeOf v'.sb v'.disk i := by
  have hsame : Rewrote v i v := ⟨h, rfl, fun _ _ _ => rfl⟩
  have hsplit := hok
  unfold Fs.writei at hsplit
  split at hsplit
  next =>
    cases hsplit
    exact ⟨hsame, hi, rfl⟩
  next hargs =>
    split at hsplit
    next =>
      cases hsplit
      exact ⟨hsame, hi, rfl⟩
    next hmax =>
      obtain ⟨⟨ip₁, v₁⟩, hloop, -⟩ := bind_eq_ok.1 hsplit
      have howns := h.owns
      rw [← withCopy_live hi] at howns
      obtain ⟨hext, hmapped⟩ := writeLoop_extends (Nat.le_refl _) howns hloop
      have hfilled := filled_iff.1 (h.filled i hi)
      obtain ⟨w, hw, hset⟩ := writei_settled h.owns hi (h.filled i hi) (by omega) (by omega)
        (by omega) (by omega) hloop
      cases hok.symm.trans hw
      refine ⟨⟨⟨hset.owns, fun j hj => filled_iff.2 fun k hk => ?_⟩, hset.sb, hset.others⟩,
        hset.live, rfl⟩
      rw [hset.ref_eq hj]
      rcases eq_or_ne j i with rfl | hne
      · rw [View.refs, withCopy_ino]
        rw [hset.self] at hk
        rcases Nat.lt_or_ge k (dinodeOf v.sb v.disk j).size with hlt | hge
        · exact hext.filled (hfilled k hlt)
        · exact hmapped k (by omega) (by dsimp only at hk; omega)
      · have hdi := hset.others j (hset.sb ▸ hj.lt) hne
        have hj' : Live v j := ⟨hj.pos, hset.sb ▸ hj.lt, hdi ▸ hj.type⟩
        have hold := filled_iff.1 (h.filled j hj') k (hdi ▸ hk)
        rw [hext.keep _ (by rwa [View.refs, withCopy_other hne hj']), View.refs,
          withCopy_other hne hj']
        exact hold

end Fs
end Xv6
