/-
# Coherence of the buffer cache

What is in the buffers and on the disk.  A valid buffer holds what was last
written to its block; a block whose last contents are not on the disk is in a dirty
buffer, which `bget` does not recycle.  The references to a buffer are the
processes that wait for it and the one that holds it, so a buffer that somebody
asked for keeps its block until it is given back.
-/

import Xv6.Bio.Keys

namespace Xv6
namespace Bio

open Lib Function

variable {α : Type} {s s' : State α} {k dev blockno : ℕ} {b : Buf α} {v : α}

/-- What holds of buffer `k`, given the contents of the blocks and the processes that wait. -/
structure Cell (contents : ℕ × ℕ → α) (waiting : List Request) (k : ℕ) (b : Buf α) : Prop where
  valid : b.dirty = true ∨ b.locked = true → b.valid = true
  data : b.valid = true → b.data = contents b.key
  refs : b.refcnt = waiting.countP (fun w => decide (w.buf = k)) + b.locked.toNat

/-- **The invariant of the cache.** -/
structure Coherent (s : State α) : Prop where
  list : ∃ L, Listed s L ∧ Keyed s.buf L
  cell : ∀ k < NBUF, Cell s.contents s.waiting k (s.buf k)
  backed : ∀ p, s.disk p = s.contents p ∨ ∃ k < NBUF, (s.buf k).dirty = true ∧ (s.buf k).key = p
  asked : ∀ w ∈ s.waiting, w.buf < NBUF ∧ (s.buf w.buf).key = (w.dev, w.blockno)

/-- A buffer that is held is valid. -/
theorem Coherent.valid_of_held (h : Coherent s) (hk : s.Held k) : (s.buf k).valid = true :=
  (h.cell k hk.1).valid (.inr hk.2)

/-- No other valid buffer is for the block of a valid one. -/
theorem Coherent.key_ne (h : Coherent s) (hk : k < NBUF) (hv : (s.buf k).valid = true) {j : ℕ}
    (hj : j < NBUF) (hne : j ≠ k) (hu : (s.buf j).Used) : (s.buf j).key ≠ (s.buf k).key := by
  obtain ⟨L, hl, hkeyed⟩ := h.list
  exact fun heq => hne (hkeyed.unique j (hl.mem_iff.2 hj) k (hl.mem_iff.2 hk) hu (.inl hv) heq)

/-- The buffer somebody waits for is referenced. -/
theorem Coherent.refcnt_pos (h : Coherent s) {w : Request} (hw : w ∈ s.waiting) :
    0 < (s.buf w.buf).refcnt := by
  have hpos : 0 < s.waiting.countP fun w' => decide (w'.buf = w.buf) :=
    List.countP_pos_iff.2 ⟨w, hw, decide_eq_true rfl⟩
  have hrefs := (h.cell w.buf (h.asked w hw).1).refs
  omega

/-- A state that differs in buffer `k` and in the requests for it, if a dirty buffer stays
dirty. -/
theorem Coherent.of_cell (h : Coherent s) (hlist : ∃ L, Listed s' L ∧ Keyed s'.buf L)
    (hbuf : s'.buf = update s.buf k b) (hdisk : s'.disk = s.disk)
    (hcontents : s'.contents = s.contents)
    (hcell : k < NBUF → Cell s.contents s'.waiting k b)
    (hcount : ∀ j ≠ k, s'.waiting.countP (fun w => decide (w.buf = j)) =
      s.waiting.countP fun w => decide (w.buf = j))
    (hdirty : k < NBUF → (s.buf k).dirty = true → b.dirty = true ∧ b.key = (s.buf k).key)
    (hasked : ∀ w ∈ s'.waiting, w.buf < NBUF ∧ (w.buf = k → b.key = (w.dev, w.blockno)) ∧
      (w.buf ≠ k → w ∈ s.waiting)) : Coherent s' := by
  refine ⟨hlist, fun j hj => ?_, fun p => ?_, fun w hw => ?_⟩
  · rw [hbuf, hcontents]
    rcases eq_or_ne j k with rfl | hne
    · rw [update_self]
      exact hcell hj
    · rw [update_of_ne hne]
      obtain ⟨hvalid, hdata, hrefs⟩ := h.cell j hj
      exact ⟨hvalid, hdata, by rw [hcount j hne, hrefs]⟩
  · rw [hbuf, hdisk, hcontents]
    rcases h.backed p with heq | ⟨j, hj, hd, hkey⟩
    · exact .inl heq
    · refine .inr ⟨j, hj, ?_⟩
      rcases eq_or_ne j k with rfl | hne
      · rw [update_self]
        exact ⟨(hdirty hj hd).1, (hdirty hj hd).2.trans hkey⟩
      · rw [update_of_ne hne]
        exact ⟨hd, hkey⟩
  · obtain ⟨hlt, heq, hne⟩ := hasked w hw
    refine ⟨hlt, ?_⟩
    rw [hbuf]
    rcases eq_or_ne w.buf k with hk | hk
    · rw [hk, update_self]
      exact heq hk
    · rw [update_of_ne hk]
      exact (h.asked w (hne hk)).2

/-! ### `bread` -/

/-- What a process holds it keeps. -/
def Stays (s s' : State α) : Prop :=
  ∀ j, s.Held j → s'.Held j ∧ (s'.buf j).key = (s.buf j).key

theorem Stays.trans {s'' : State α} (h : Stays s s') (h' : Stays s' s'') : Stays s s'' :=
  fun j hj => ⟨(h' j (h j hj).1).1, (h' j (h j hj).1).2.trans (h j hj).2⟩

/-- Another buffer `k` that is held if the old one was. -/
theorem stays_set (hbuf : s'.buf = update s.buf k b)
    (hb : s.Held k → b.locked = true ∧ b.key = (s.buf k).key) : Stays s s' := by
  intro j hj
  rw [State.Held, hbuf]
  rcases eq_or_ne j k with rfl | hne
  · rw [update_self]
    exact ⟨⟨hj.1, (hb hj).1⟩, (hb hj).2⟩
  · rw [update_of_ne hne]
    exact ⟨hj, rfl⟩

/-- **`bget`** leaves the contents as they are and makes the process wait for a buffer of
the block. -/
theorem Coherent.bget (h : Coherent s) (hok : s.bget dev blockno = .ok (k, s')) :
    Coherent s' ∧ s'.contents = s.contents ∧ s'.lh = s.lh ∧ Stays s s' := by
  obtain ⟨L, hl, hkeyed⟩ := h.list
  have hlist : ∃ L, Listed s' L ∧ Keyed s'.buf L := ⟨L, hkeyed.bget hl hok⟩
  have hcount : ∀ j ≠ k,
      (⟨k, dev, blockno⟩ :: s.waiting : List Request).countP (fun w => decide (w.buf = j)) =
        s.waiting.countP fun w => decide (w.buf = j) := by
    intro j hne
    rw [List.countP_cons_of_neg]
    simpa using hne.symm
  have hself : (⟨k, dev, blockno⟩ :: s.waiting : List Request).countP
      (fun w => decide (w.buf = k)) = (s.waiting.countP fun w => decide (w.buf = k)) + 1 :=
    List.countP_cons_of_pos (by simp)
  rcases bget_cases hl hok with ⟨A, B, hL, hkey, -, rfl⟩ | ⟨A, B, hL, -, hrefs, hdirty, rfl⟩
  · have hk : k < NBUF := hl.mem_iff.1 (by simp [hL])
    obtain ⟨hvalid, hdata, hrefs⟩ := h.cell k hk
    refine ⟨h.of_cell hlist rfl rfl rfl (fun _ => ⟨hvalid, hdata, ?_⟩) hcount (fun _ hd => ⟨hd, rfl⟩)
      (fun w hw => ?_), rfl, rfl, stays_set rfl fun hj => ⟨hj.2, rfl⟩⟩
    · change (s.buf k).refcnt + 1 = (_ :: s.waiting).countP _ + (s.buf k).locked.toNat
      omega
    · rcases List.mem_cons.1 hw with rfl | hw
      · exact ⟨hk, fun _ => hkey, fun hne => absurd rfl hne⟩
      · exact ⟨(h.asked w hw).1, fun heq => heq ▸ (h.asked w hw).2, fun _ => hw⟩
  · have hk : k < NBUF := hl.mem_iff.1 (by simp [hL])
    have hcell := h.cell k hk
    have hlocked : (s.buf k).locked = false := by
      have := hcell.refs
      cases hlk : (s.buf k).locked with
      | false => rfl
      | true =>
        rw [hlk, Bool.toNat_true] at this
        omega
    refine ⟨h.of_cell hlist rfl rfl rfl (fun _ => ⟨?_, ?_, ?_⟩) hcount
      (fun _ hd => absurd hd (by simp [hdirty])) (fun w hw => ?_), rfl, rfl,
      stays_set rfl fun hj => absurd hj.2 (by simp [hlocked])⟩
    · simp [hlocked]
    · simp
    · change 1 = (_ :: s.waiting).countP _ + (s.buf k).locked.toNat
      have := hcell.refs
      omega
    · rcases List.mem_cons.1 hw with rfl | hw
      · exact ⟨hk, fun _ => rfl, fun hne => absurd rfl hne⟩
      · refine ⟨(h.asked w hw).1, fun heq => ?_, fun _ => hw⟩
        have hpos := h.refcnt_pos hw
        rw [heq, hrefs] at hpos
        exact absurd hpos (Nat.lt_irrefl 0)

/-- The contents of a block that no dirty buffer is for are on the disk. -/
theorem Coherent.disk_eq (h : Coherent s) (hk : k < NBUF) (hu : (s.buf k).Used)
    (hclean : (s.buf k).dirty = false) : s.disk (s.buf k).key = s.contents (s.buf k).key := by
  rcases h.backed (s.buf k).key with heq | ⟨j, hj, hd, hkey⟩
  · exact heq
  · obtain ⟨L, hl, hkeyed⟩ := h.list
    have := hkeyed.unique j (hl.mem_iff.2 hj) k (hl.mem_iff.2 hk) (.inr (.inl hd)) hu hkey
    rw [this, hclean] at hd
    cases hd

/-- What `bread` does once the buffer is free: the buffer is locked, and read from the disk if
it is not valid. -/
theorem bwait_eq (h : Coherent s) {w : Request} (hw : w ∈ s.waiting)
    (hfree : (s.buf w.buf).locked = false) :
    s.bwait w =
      if (s.buf w.buf).valid = false ∧ FSSIZE ≤ w.blockno then .error (.panic "incorrect blockno")
      else .ok { s.set w.buf { s.buf w.buf with
          locked := true, valid := true, data := s.contents (s.buf w.buf).key } with
        waiting := s.waiting.erase w } := by
  obtain ⟨hk, hkey⟩ := h.asked w hw
  have hcell := h.cell w.buf hk
  rw [State.bwait, if_pos ⟨hw, hfree⟩]
  cases hv : (s.buf w.buf).valid with
  | true =>
    simp [State.set, hv, ← hcell.data hv]
  | false =>
    have hclean : (s.buf w.buf).dirty = false := by
      rw [← Bool.not_eq_true]
      exact fun hd => absurd (hcell.valid (.inl hd)) (by simp [hv])
    have hblock : (s.buf w.buf).blockno = w.blockno := congrArg Prod.snd hkey
    have hdisk := h.disk_eq hk (.inr (.inr (h.refcnt_pos hw))) hclean
    rw [Buf.key, hblock] at hdisk
    simp [State.iderw, State.set, hv, hclean, hblock, Buf.key, hdisk]

/-- **The end of `bread`**: the buffer is for the block that was asked for, and holds what was
last written to it. -/
theorem Coherent.bwait (h : Coherent s) {w : Request} (hok : s.bwait w = .ok s') :
    Coherent s' ∧ s'.contents = s.contents ∧ s'.lh = s.lh ∧ Stays s s' ∧ ¬s.Held w.buf ∧
      s'.Held w.buf ∧ (s'.buf w.buf).key = (w.dev, w.blockno) ∧
      (s'.buf w.buf).data = s.contents (w.dev, w.blockno) := by
  by_cases hw : w ∈ s.waiting ∧ (s.buf w.buf).locked = false
  · obtain ⟨hw, hfree⟩ := hw
    obtain ⟨hk, hkey⟩ := h.asked w hw
    obtain ⟨L, hl, hkeyed⟩ := h.list
    have hpos := h.refcnt_pos hw
    have hrefs := (h.cell w.buf hk).refs
    rw [bwait_eq h hw hfree] at hok
    obtain ⟨-, hok⟩ := ite_error_eq_ok.1 hok
    cases hok
    have hnot : ¬s.Held w.buf := fun hheld => absurd hheld.2 (by simp [hfree])
    refine ⟨h.of_cell ⟨L, ⟨hl.ring, hl.perm⟩, hkeyed.keep (.inr (.inr hpos)) (.inl rfl) rfl⟩
      rfl rfl rfl (fun _ => ⟨fun _ => rfl, fun _ => rfl, ?_⟩) (fun j hne => ?_)
      (fun _ hd => ⟨hd, rfl⟩) (fun x hx => ?_), rfl, rfl,
      stays_set rfl fun hheld => absurd hheld hnot, hnot, ⟨hk, ?_⟩, ?_, ?_⟩
    · change (s.buf w.buf).refcnt = (s.waiting.erase w).countP _ + 1
      rw [hfree, Bool.toNat_false, (List.perm_cons_erase hw).countP_eq,
        List.countP_cons_of_pos (by simp)] at hrefs
      exact hrefs
    · change (s.waiting.erase w).countP _ = _
      rw [(List.perm_cons_erase hw).countP_eq, List.countP_cons_of_neg]
      simpa using hne.symm
    · have hmem := List.mem_of_mem_erase hx
      exact ⟨(h.asked x hmem).1, fun heq => heq ▸ (h.asked x hmem).2, fun _ => hmem⟩
    · simp [State.set]
    · simpa [State.set, Buf.key] using hkey
    · simp [State.set, hkey]
  · rw [State.bwait, if_neg hw] at hok
    cases hok

/-- A buffer nobody holds is not waited for in vain. -/
theorem exists_bwait (h : Coherent s) {w : Request} (hw : w ∈ s.waiting)
    (hfree : (s.buf w.buf).locked = false) (hblock : w.blockno < FSSIZE) :
    ∃ s', s.bwait w = .ok s' := by
  rw [bwait_eq h hw hfree, if_neg fun hbad => Nat.not_le.2 hblock hbad.2]
  exact ⟨_, rfl⟩

/-- What `bread` has done when it returns. -/
structure Fetched (s s' : State α) (k dev blockno : ℕ) : Prop where
  coherent : Coherent s'
  contents : s'.contents = s.contents
  lh : s'.lh = s.lh
  stays : Stays s s'
  free : ¬s.Held k
  held : s'.Held k
  key : (s'.buf k).key = (dev, blockno)
  data : (s'.buf k).data = s.contents (dev, blockno)

/-- **`bread`.** -/
theorem Coherent.bread (h : Coherent s) (hok : s.bread dev blockno = .ok (k, s')) :
    Fetched s s' k dev blockno := by
  obtain ⟨⟨j, t⟩, hget, hrest⟩ := bind_eq_ok.1 hok
  obtain ⟨u, hwait, hret⟩ := bind_eq_ok.1 hrest
  cases hret
  obtain ⟨hcoh, hcontents, hlh, hstays⟩ := h.bget hget
  obtain ⟨hcoh', hcontents', hlh', hstays', hfree, hheld, hkey, hdata⟩ := hcoh.bwait hwait
  exact ⟨hcoh', hcontents'.trans hcontents, hlh'.trans hlh, hstays.trans hstays',
    fun hk => hfree (hstays _ hk).1, hheld, hkey, hcontents ▸ hdata⟩

/-! ### Writing -/

/-- The held buffer `k` is changed to `v`.  The block is on the disk afterwards or the buffer
is dirty. -/
theorem Coherent.write (h : Coherent s) (hk : s.Held k) {d : Bool}
    (hlinks : s'.next = s.next ∧ s'.prev = s.prev) (hwaiting : s'.waiting = s.waiting)
    (hbuf : s'.buf = update s.buf k { s.buf k with dirty := d, data := v })
    (hcontents : s'.contents = update s.contents (s.buf k).key v)
    (hdisk : ∀ p, p ≠ (s.buf k).key → s'.disk p = s.disk p)
    (hd : d = true ∨ s'.disk (s.buf k).key = v) : Coherent s' ∧ Stays s s' := by
  obtain ⟨L, hl, hkeyed⟩ := h.list
  have hvalid := h.valid_of_held hk
  have hrefs := (h.cell k hk.1).refs
  refine ⟨⟨⟨L, ⟨?_, hl.perm⟩, ?_⟩, fun j hj => ?_, fun p => ?_, fun w hw => ?_⟩,
    stays_set hbuf fun _ => ⟨hk.2, rfl⟩⟩
  · rw [hlinks.1, hlinks.2]
    exact hl.ring
  · rw [hbuf]
    exact hkeyed.keep (.inl hvalid) (.inl hvalid) rfl
  · rw [hbuf, hcontents, hwaiting]
    rcases eq_or_ne j k with rfl | hne
    · rw [update_self]
      refine ⟨fun _ => hvalid, fun _ => ?_, hrefs⟩
      exact (update_self (s.buf j).key v s.contents).symm
    · rw [update_of_ne hne]
      obtain ⟨hv, hdata, hr⟩ := h.cell j hj
      refine ⟨hv, fun hvj => ?_, hr⟩
      rw [update_of_ne (h.key_ne hk.1 hvalid hj hne (.inl hvj)), hdata hvj]
  · rw [hbuf, hcontents]
    rcases eq_or_ne p (s.buf k).key with rfl | hp
    · rcases hd with rfl | heq
      · exact .inr ⟨k, hk.1, by rw [update_self]; exact ⟨rfl, rfl⟩⟩
      · exact .inl (by rw [update_self, heq])
    · rw [update_of_ne hp, hdisk p hp]
      rcases h.backed p with heq | ⟨j, hj, hdj, hkey⟩
      · exact .inl heq
      · have hne : j ≠ k := fun heq => hp (heq ▸ hkey.symm)
        exact .inr ⟨j, hj, by rw [update_of_ne hne]; exact ⟨hdj, hkey⟩⟩
  · rw [hwaiting] at hw
    obtain ⟨hlt, hkey⟩ := h.asked w hw
    rw [hbuf]
    rcases eq_or_ne w.buf k with heq | hne
    · rw [heq, update_self]
      exact ⟨heq ▸ hlt, heq ▸ hkey⟩
    · rw [update_of_ne hne]
      exact ⟨hlt, hkey⟩

/-- **A held buffer is changed and written with `bwrite`.** -/
theorem Coherent.bwrite (h : Coherent s) (hk : s.Held k)
    (hok : (s.setData k v).bwrite k = .ok s') :
    (Coherent s' ∧ Stays s s') ∧
      s'.contents = update s.contents (s.buf k).key v ∧ s'.lh = s.lh := by
  have heq : (s.setData k v).bwrite k = if FSSIZE ≤ (s.buf k).blockno then
      .error (.panic "incorrect blockno") else
      .ok { s.set k { s.buf k with dirty := false, data := v } with
        disk := update s.disk (s.buf k).key v
        contents := update s.contents (s.buf k).key v } := by
    rw [State.bwrite, if_neg (by simp [State.setData, State.set, hk.2])]
    simp [State.iderw, State.setData, State.set, hk.2, Buf.key, h.valid_of_held hk]
  rw [heq] at hok
  split at hok
  · cases hok
  · cases hok
    exact ⟨h.write hk ⟨rfl, rfl⟩ rfl rfl rfl (fun p hp => update_of_ne hp ..)
      (.inr (update_self ..)), rfl, rfl⟩

/-- **A held buffer is changed and given to `log_write`.** -/
theorem Coherent.logWrite {log : LogArea α} (h : Coherent s) (hk : s.Held k)
    (hok : (s.setData k v).logWrite log k = .ok s') :
    (Coherent s' ∧ Stays s s') ∧ s'.contents = update s.contents (s.buf k).key v ∧
      s'.lh.length ≤ log.size - 1 ∧ ∀ c ∈ s'.lh, c ∈ s.lh ∨ c = (s.buf k).blockno := by
  have heq : (s.setData k v).logWrite log k =
      if LOGSIZE ≤ s.lh.length ∨ log.size - 1 ≤ s.lh.length then
        .error (.panic "too big a transaction")
      else .ok { s.set k { s.buf k with dirty := true, data := v } with
        lh := if (s.buf k).blockno ∈ s.lh then s.lh else s.lh ++ [(s.buf k).blockno]
        contents := update s.contents (s.buf k).key v } := by
    simp [State.logWrite, State.setData, State.set, Buf.key]
  rw [heq] at hok
  obtain ⟨hroom, hok⟩ := ite_error_eq_ok.1 hok
  cases hok
  have hlt : s.lh.length < log.size - 1 := Nat.not_le.1 fun hle => hroom (.inr hle)
  refine ⟨h.write hk ⟨rfl, rfl⟩ rfl rfl rfl (fun _ _ => rfl) (.inl rfl), rfl, ?_, fun c hc => ?_⟩
  · dsimp only
    split
    · exact Nat.le_of_lt hlt
    · rw [List.length_append, List.length_singleton]
      exact hlt
  · dsimp only at hc
    split at hc
    · exact .inl hc
    · exact (List.mem_append.1 hc).imp_right List.mem_singleton.1

/-! ### `brelse` -/

/-- **A held buffer is given back.** -/
theorem Coherent.brelse (h : Coherent s) (hk : s.Held k) (hok : s.brelse k = .ok s') :
    Coherent s' ∧ s'.contents = s.contents ∧ s'.lh = s.lh ∧
      ∀ j ≠ k, s.Held j → s'.Held j ∧ (s'.buf j).key = (s.buf j).key := by
  obtain ⟨L, hl, hkeyed⟩ := h.list
  have hlist := hl.brelse hkeyed hk.1 (h.valid_of_held hk) hok
  obtain ⟨hbuf, hdisk, hcontents, hlh, hwaiting⟩ : s'.buf = update s.buf k { s.buf k with
      locked := false, refcnt := (s.buf k).refcnt - 1 } ∧ s'.disk = s.disk ∧
      s'.contents = s.contents ∧ s'.lh = s.lh ∧ s'.waiting = s.waiting := by
    unfold State.brelse at hok
    dsimp only at hok
    split at hok
    · cases hok
    · split at hok <;> cases hok <;> exact ⟨rfl, rfl, rfl, rfl, rfl⟩
  obtain ⟨hvalid, hdata, hrefs⟩ := h.cell k hk.1
  refine ⟨h.of_cell hlist hbuf hdisk hcontents (fun _ => ⟨fun _ => ?_, hdata, ?_⟩)
    (fun j _ => by rw [hwaiting]) (fun _ hd => ⟨hd, rfl⟩) (fun w hw => ?_), hcontents, hlh,
    fun j hne hj => ?_⟩
  · exact h.valid_of_held hk
  · rw [hk.2, Bool.toNat_true] at hrefs
    change (s.buf k).refcnt - 1 = _ + 0
    rw [hwaiting, hrefs, Nat.add_sub_cancel, Nat.add_zero]
  · rw [hwaiting] at hw
    exact ⟨(h.asked w hw).1, fun heq => heq ▸ (h.asked w hw).2, fun _ => hw⟩
  · rw [State.Held, hbuf, update_of_ne hne]
    exact ⟨hj, rfl⟩

end Bio
end Xv6
