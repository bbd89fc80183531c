/-
# Truncating a file

`itrunc` (`xv6/fs.c`, lines 403-436) frees the direct blocks, then those in the
indirect block and the indirect block itself, and writes the inode back empty.
No block is named twice, so no call of `bfree` finds its block free; `iput`
(lines 324-345) then clears the type.
-/

import Xv6.Fs.Inode

namespace Xv6
namespace Fs

open Lib Function

variable {v v' : Vol} {i j : ℕ} {ip d : Dinode}

/-- The slots of an inode in the order in which `itrunc` frees them. -/
def slots : List Slot :=
  (List.range NDIRECT).map .direct ++ ((List.range NINDIRECT).map .entry ++ [.table])

theorem slots_nodup : slots.Nodup := by decide +kernel

/-- An inode without its blocks. -/
def Dinode.emptied (ip : Dinode) : Dinode := { ip with size := 0, addrs := fun _ => 0 }

theorem bfreeAll_append (v : Vol) (bs cs : List ℕ) :
    bfreeAll v (bs ++ cs) = bfreeAll v bs >>= fun v => bfreeAll v cs := by
  induction bs generalizing v with
  | nil => rfl
  | cons b bs ih =>
    rw [List.cons_append, bfreeAll, bfreeAll]
    by_cases hb : b = 0
    · rw [if_pos hb, if_pos hb]
      exact ih v
    · rw [if_neg hb, if_neg hb]
      cases bfree v b with
      | error e => rfl
      | ok v' => exact ih v'

theorem bfreeAll_zero (v : Vol) {bs : List ℕ} (h : ∀ b ∈ bs, b = 0) : bfreeAll v bs = .ok v := by
  induction bs with
  | nil => rfl
  | cons b bs ih =>
    rw [bfreeAll, if_pos (h b List.mem_cons_self), ok_bind]
    exact ih fun c hc => h c (List.mem_cons_of_mem b hc)

theorem emptied_ref (ip : Dinode) (disk : Disk) (p : Slot) : ip.emptied.ref disk p = 0 := by
  cases p <;> simp [Dinode.emptied, Dinode.ref]

/-- An inode that names no block names it in no slot. -/
theorem withCopy_emptied {ino : ℕ → Dinode} (x : ℕ × Slot)
    (hx : (withCopy ino i ip.emptied v).refs x ≠ 0) :
    x.1 ≠ i ∧ (withCopy ino i ip.emptied v).refs x = (withCopy ino i ip v).refs x := by
  have hne : x.1 ≠ i := by
    intro heq
    apply hx
    rw [View.refs, heq, withCopy_ino, emptied_ref]
  refine ⟨hne, ?_⟩
  unfold View.refs withCopy
  dsimp only
  rw [Function.update_of_ne hne, Function.update_of_ne hne]

/-- **The blocks of an inode are freed**, each once. -/
theorem Owns.bfreeAll_slots {ino : ℕ → Dinode} (h : Owns v.sb (withCopy ino i ip v))
    {ps : List Slot} (hps : ps.Nodup) :
    ∃ v', Fs.bfreeAll v (ps.map (ip.ref v.disk)) = .ok v' ∧
      Freed v (update ino i ip.emptied) (ps.map (ip.ref v.disk)) v' := by
  have hslot : ∀ p, (withCopy ino i ip v).refs (i, p) = ip.ref v.disk p := by
    intro p
    rw [View.refs, withCopy_ino]
    rfl
  have howns : Owns v.sb (withCopy ino i ip.emptied v) := by
    refine h.of_le rfl (fun x hx => (withCopy_emptied x hx).2) (fun x hx => ?_) h.before
    have heq := (withCopy_emptied x hx).2
    rw [heq] at hx ⊢
    exact h.marked x hx
  refine howns.bfreeAll (fun b hb hne => ?_) ?_
  · obtain ⟨p, -, rfl⟩ := List.mem_map.1 hb
    rw [← hslot] at hne ⊢
    refine ⟨h.range _ hne, h.marked _ hne, fun x hx => ?_⟩
    obtain ⟨hxi, heq⟩ := withCopy_emptied x (hx ▸ hne)
    have := h.sole (i, p) x hne (hx.symm.trans heq)
    exact hxi (by rw [← this])
  · rw [List.pairwise_map]
    refine hps.imp fun {p q} hpq hne heq => hpq ?_
    rw [← hslot, ← hslot] at heq
    exact (Prod.mk.inj (h.sole _ _ (hslot p ▸ hne) heq)).2

/-- **`itrunc` frees the blocks of its inode** and writes it back empty. -/
theorem Owns.itrunc {ino : ℕ → Dinode} (h : Owns v.sb (withCopy ino i ip v)) :
    ∃ v', itrunc v i ip = .ok (ip.emptied, iupdate v' i ip.emptied) ∧
      Freed v (update ino i ip.emptied) (slots.map (ip.ref v.disk)) v' := by
  obtain ⟨v', hok, hfreed⟩ := h.bfreeAll_slots slots_nodup
  refine ⟨v', ?_, hfreed⟩
  have hdirect : (List.range NDIRECT).map ip.addrs =
      ((List.range NDIRECT).map Slot.direct).map (ip.ref v.disk) := by
    rw [List.map_map]
    refine List.map_congr_left fun k hk => ?_
    exact (if_pos (List.mem_range.1 hk)).symm
  have hnodup : ((List.range NDIRECT).map Slot.direct).Nodup := by decide
  obtain ⟨v₁, hok₁, hfreed₁⟩ := h.bfreeAll_slots hnodup
  rw [slots, List.map_append, bfreeAll_append, hok₁, ok_bind, List.map_append] at hok
  rw [Fs.itrunc, hdirect, hok₁, ok_bind]
  dsimp only
  by_cases htable : ip.addrs NDIRECT = 0
  · rw [if_pos htable, ok_bind]
    rw [bfreeAll_zero] at hok
    · cases hok
      rfl
    · intro b hb
      rw [List.mem_append, List.map_map] at hb
      rcases hb with hb | hb
      · obtain ⟨k, -, rfl⟩ := List.mem_map.1 hb
        simp [Dinode.ref, htable]
      · simpa [Dinode.ref, htable] using hb
  · have hsame : v₁.disk (ip.addrs NDIRECT) = v.disk (ip.addrs NDIRECT) := by
      refine hfreed₁.frame.data _ ?_ not_false
      have := h.range (i, .table)
      rw [withCopy_table] at this
      exact (this htable).1
    have hentries : (List.range NINDIRECT).map (word (v₁.disk (ip.addrs NDIRECT))) =
        ((List.range NINDIRECT).map Slot.entry).map (ip.ref v.disk) := by
      rw [List.map_map, hsame]
      refine List.map_congr_left fun k hk => ?_
      exact (if_pos ⟨htable, List.mem_range.1 hk⟩).symm
    rw [if_neg htable, hentries]
    rw [bfreeAll_append] at hok
    obtain ⟨v₂, hok₂, hok⟩ := bind_eq_ok.1 hok
    rw [hok₂, ok_bind]
    have htab : ip.ref v.disk .table = ip.addrs NDIRECT := rfl
    rw [List.map_cons, List.map_nil, htab, Fs.bfreeAll, if_neg htable] at hok
    obtain ⟨v₃, hok₃, hok⟩ := bind_eq_ok.1 hok
    cases hok
    rw [hok₃]
    rfl

theorem emptied_fits (h : ip.Fits) (type : ℕ) (htype : type < 2 ^ 16) :
    Dinode.Fits { ip.emptied with type := type } where
  type := htype
  major := h.major
  minor := h.minor
  nlink := h.nlink
  size := Nat.two_pow_pos 32
  addrs _ := Nat.two_pow_pos 32
  beyond _ _ := rfl

theorem emptied_filled (disk : Disk) (ip : Dinode) : Filled disk ip.emptied :=
  filled_iff.2 fun k hk => absurd hk (Nat.not_lt_zero k)

/-- The other inodes keep their blocks. -/
theorem Freed.filled {bs : List ℕ} (h : Consistent v)
    (hfreed : Freed v (update (liveInos v) i ip.emptied) bs v') (hne : j ≠ i)
    (hj : Live v' j) : Filled v'.disk (dinodeOf v'.sb v'.disk j) := by
  have hj' := hfreed.frame.live_iff.1 hj
  rw [hfreed.frame.sb, hfreed.frame.dinodeOf_eq hj'.lt]
  intro bn hbn
  have hrefs := congrFun hfreed.refs (j, slotOf bn)
  have hino : update (liveInos v) i ip.emptied j = dinodeOf v.sb v.disk j := by
    rw [Function.update_of_ne hne, liveInos_live hj']
  simp only [View.refs, hino] at hrefs
  rw [hrefs]
  exact h.filled j hj' bn hbn

/-- **An inode is given up**: its blocks are freed and its type is cleared. -/
theorem Consistent.discard (h : Consistent v) (hi : Live v i) :
    ∃ v', (Fs.itrunc v i (dinodeOf v.sb v.disk i) >>= fun (ip, v) =>
      .ok (Fs.iupdate v i { ip with type := 0 })) = .ok v' ∧ Rewrote v i v' := by
  have howns := h.owns
  rw [← withCopy_live hi] at howns
  obtain ⟨v₁, hok, hfreed⟩ := howns.itrunc
  generalize hip : dinodeOf v.sb v.disk i = ip at *
  have hfits : ip.Fits := hip ▸ dinodeOf_fits ..
  have htype : ip.type ≠ 0 := hip ▸ hi.type
  have hlt : i < v₁.sb.ninodes := hfreed.frame.sb ▸ hi.lt
  have hcons : Consistent (Fs.iupdate v₁ i ip.emptied) := by
    refine Consistent.of_iupdate ?_ (emptied_fits hfits ip.type hfits.type) hi.pos hlt
      (fun h0 => absurd h0 htype) (fun _ => emptied_filled _ ip)
      fun j hne hj => hfreed.filled h hne hj
    rw [hfreed.frame.liveInos_eq]
    exact hfreed.owns
  have hdi : dinodeOf v₁.sb (Fs.iupdate v₁ i ip.emptied).disk i = ip.emptied :=
    dinodeOf_setDinode (emptied_fits hfits ip.type hfits.type)
  have hlive : Live (Fs.iupdate v₁ i ip.emptied) i := by
    refine ⟨hi.pos, hlt, ?_⟩
    change (dinodeOf v₁.sb _ i).type ≠ 0
    rw [hdi]
    exact htype
  refine ⟨Fs.iupdate (Fs.iupdate v₁ i ip.emptied) i { ip.emptied with type := 0 }, ?_, ?_⟩
  · rw [hok]
    rfl
  · have hrewrote := hcons.iupdate (d := { ip.emptied with type := 0 }) hi.pos hlt
      (emptied_fits hfits 0 (by decide)) ?_ (fun _ => rfl) fun h0 => absurd rfl h0
    · refine ⟨hrewrote.consistent, hfreed.frame.sb, fun j hj hne => ?_⟩
      rw [hrewrote.others j (hfreed.frame.sb ▸ hj) hne]
      change dinodeOf v₁.sb (setDinode v₁.sb v₁.disk i _) j = _
      rw [dinodeOf_setDinode_of_ne hne, hfreed.frame.sb, hfreed.frame.dinodeOf_eq hj]
    · rw [liveInos_live hlive]
      change _ = (dinodeOf v₁.sb _ i).addrs
      rw [hdi]

end Fs
end Xv6
