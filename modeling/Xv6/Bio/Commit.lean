/-
# Commits and runs of the cache

`commit` (`xv6/log.c`, lines 176-203) copies the logged blocks to the log and from
there to their places, through the cache.  What is written to a block's place is
what the cache already held for it, so a commit changes no block outside the log.
Every operation of the cache keeps it coherent, and so does every run.
-/

import Xv6.Bio.Coherence
import Xv6.Lib.Run

namespace Xv6
namespace Bio

open Lib Function

variable {α : Type} {s s' : State α} {log : LogArea α} {k : ℕ}

/-- A block of the log. -/
def LogArea.Mem (log : LogArea α) (b : ℕ) : Prop := log.start ≤ b ∧ b < log.start + log.size

/-- The invariant of the log: its blocks are not logged, and there is room for those that are. -/
structure Logged (log : LogArea α) (lh : List ℕ) : Prop where
  outside : ∀ b ∈ lh, ¬log.Mem b
  room : lh.length ≤ log.size - 1

/-- Block `p` was written, and nothing else. -/
structure Wrote (s s' : State α) (p : ℕ × ℕ) (v : α) : Prop where
  coherent : Coherent s'
  contents : s'.contents = update s.contents p v
  lh : s'.lh = s.lh

/-- Two blocks are read. -/
theorem Coherent.bread_bread (h : Coherent s) {dev a c k l : ℕ} {t u : State α}
    (hfst : s.bread dev a = .ok (k, t)) (hsnd : t.bread dev c = .ok (l, u)) :
    Coherent u ∧ u.contents = s.contents ∧ u.lh = s.lh ∧ k ≠ l ∧
      (u.Held k ∧ (u.buf k).key = (dev, a)) ∧ (u.Held l ∧ (u.buf l).key = (dev, c)) := by
  have hk := h.bread hfst
  have hl := hk.coherent.bread hsnd
  obtain ⟨hheld, hkey⟩ := hl.stays k hk.held
  exact ⟨hl.coherent, hl.contents.trans hk.contents, hl.lh.trans hk.lh,
    fun heq => hl.free (heq ▸ hk.held), ⟨hheld, hkey.trans hk.key⟩, hl.held, hl.key⟩

theorem Coherent.breadBoth (h : Coherent s) {dev src dst l d : ℕ} {srcFirst : Bool} {t : State α}
    (hok : s.breadBoth dev src dst srcFirst = .ok (l, d, t)) :
    Coherent t ∧ t.contents = s.contents ∧ t.lh = s.lh ∧ l ≠ d ∧
      (t.Held l ∧ (t.buf l).key = (dev, src)) ∧ (t.Held d ∧ (t.buf d).key = (dev, dst)) := by
  unfold State.breadBoth at hok
  split at hok
  · obtain ⟨⟨k, y⟩, hfst, hrest⟩ := bind_eq_ok.1 hok
    obtain ⟨⟨k', y'⟩, hsnd, hret⟩ := bind_eq_ok.1 hrest
    cases hret
    exact h.bread_bread hfst hsnd
  · obtain ⟨⟨k, y⟩, hfst, hrest⟩ := bind_eq_ok.1 hok
    obtain ⟨⟨k', y'⟩, hsnd, hret⟩ := bind_eq_ok.1 hrest
    cases hret
    obtain ⟨hcoh, hcontents, hlh, hne, hk, hk'⟩ := h.bread_bread hfst hsnd
    exact ⟨hcoh, hcontents, hlh, hne.symm, hk', hk⟩

/-- **A block is copied** through the cache. -/
theorem Coherent.copy (h : Coherent s) {src dst : ℕ} {srcFirst : Bool}
    (hok : s.copy log src dst srcFirst = .ok s') :
    Wrote s s' (log.dev, dst) (s.contents (log.dev, src)) := by
  obtain ⟨⟨l, d, t⟩, hread, hrest⟩ := bind_eq_ok.1 hok
  obtain ⟨u, hwrite, hrest⟩ := bind_eq_ok.1 hrest
  obtain ⟨x, hrel, hrel'⟩ := bind_eq_ok.1 hrest
  obtain ⟨hcoh, hcontents, hlh, hne, ⟨hl, hlkey⟩, hd, hdkey⟩ := h.breadBoth hread
  have hdata : (t.buf l).data = s.contents (log.dev, src) := by
    rw [(hcoh.cell l hl.1).data (hcoh.valid_of_held hl), hcontents, hlkey]
  obtain ⟨⟨hcoh₁, hstays⟩, hcontents₁, hlh₁⟩ := hcoh.bwrite hd hwrite
  obtain ⟨hcoh₂, hcontents₂, hlh₂, hothers⟩ := hcoh₁.brelse (hstays l hl).1 hrel
  obtain ⟨hcoh₃, hcontents₃, hlh₃, -⟩ :=
    hcoh₂.brelse (hothers d hne.symm (hstays d hd).1).1 hrel'
  refine ⟨hcoh₃, ?_, ?_⟩
  · rw [hcontents₃, hcontents₂, hcontents₁, hcontents, hdkey, hdata]
  · rw [hlh₃, hlh₂, hlh₁, hlh]

/-- **The header is written.** -/
theorem Coherent.writeHead (h : Coherent s) (hok : s.writeHead log = .ok s') :
    ∃ v, Wrote s s' (log.dev, log.start) v := by
  obtain ⟨⟨k, t⟩, hread, hrest⟩ := bind_eq_ok.1 hok
  obtain ⟨u, hwrite, hrel⟩ := bind_eq_ok.1 hrest
  have hk := h.bread hread
  obtain ⟨⟨hcoh₁, hstays⟩, hcontents₁, hlh₁⟩ := hk.coherent.bwrite hk.held hwrite
  obtain ⟨hcoh₂, hcontents₂, hlh₂, -⟩ := hcoh₁.brelse (hstays k hk.held).1 hrel
  refine ⟨log.putHead t.lh (t.buf k).data, hcoh₂, ?_, ?_⟩
  · rw [hcontents₂, hcontents₁, hk.contents, hk.key]
  · rw [hlh₂, hlh₁, hk.lh]

/-! ### The two loops -/

/-- What holds in `commit`: nothing outside the log has changed, and the first `n` logged
blocks are in the log. -/
structure Copied (log : LogArea α) (s₀ : State α) (n : ℕ) (s : State α) : Prop where
  coherent : Coherent s
  lh : s.lh = s₀.lh
  outside : ∀ p : ℕ × ℕ, p.1 ≠ log.dev ∨ ¬log.Mem p.2 → s.contents p = s₀.contents p
  inside : ∀ i < n, ∀ b, s₀.lh[i]? = some b →
    s.contents (log.dev, log.start + i + 1) = s₀.contents (log.dev, b)

/-- A block of the log is written that holds none of the first `n`. -/
theorem Copied.wrote {s₀ : State α} {n b : ℕ} {v : α} (h : Copied log s₀ n s)
    (hw : Wrote s s' (log.dev, b) v) (hb : log.Mem b) (hn : ∀ i < n, b ≠ log.start + i + 1) :
    Copied log s₀ n s' := by
  refine ⟨hw.coherent, hw.lh.trans h.lh, fun p hp => ?_, fun i hi c hc => ?_⟩
  · rw [hw.contents, update_of_ne, h.outside p hp]
    rintro rfl
    exact hp.elim (fun hdev => hdev rfl) fun hmem => hmem hb
  · rw [hw.contents, update_of_ne, h.inside i hi c hc]
    exact fun heq => hn i hi (congrArg Prod.snd heq).symm

/-- **`write_log`** puts the logged blocks into the log. -/
theorem Copied.writeLog (h : Coherent s) (hlog : Logged log s.lh) (hok : s.writeLog log = .ok s') :
    Copied log s s.lh.length s' := by
  refine foldlM_zipIdx_invariant (I := Copied log s) ⟨h, rfl, fun _ _ => rfl, ?_⟩
    (fun i b t u hb ht hstep => ?_) hok
  · intro i hi
    exact absurd hi (Nat.not_lt_zero i)
  · have hw := ht.coherent.copy hstep
    have hi : i < s.lh.length := (List.getElem?_eq_some_iff.1 hb).1
    have hroom := hlog.room
    have hbmem := hlog.outside b (List.mem_of_getElem? hb)
    obtain ⟨hcoh, hlh, hout, hin⟩ := ht.wrote hw ⟨by omega, by omega⟩ (fun j hj => by omega)
    refine ⟨hcoh, hlh, hout, fun j hj c hc => ?_⟩
    rcases Nat.lt_succ_iff_lt_or_eq.1 hj with hj | rfl
    · exact hin j hj c hc
    · rw [hb] at hc
      cases hc
      rw [hw.contents, update_self, ht.outside _ (.inr hbmem)]

/-- **`install_trans`** writes to each logged block what it holds. -/
theorem Copied.installTrans {s₀ : State α} (h : Copied log s₀ s₀.lh.length s)
    (hlog : Logged log s₀.lh) (hok : s.installTrans log = .ok s') :
    Copied log s₀ s₀.lh.length s' := by
  refine foldlM_zipIdx_invariant (I := fun _ => Copied log s₀ s₀.lh.length) h
    (fun i b t u hb ht hstep => ?_) hok
  rw [h.lh] at hb
  have hi : i < s₀.lh.length := (List.getElem?_eq_some_iff.1 hb).1
  have hbmem := hlog.outside b (List.mem_of_getElem? hb)
  have hroom := hlog.room
  have hw := ht.coherent.copy hstep
  refine ⟨hw.coherent, hw.lh.trans ht.lh, fun p hp => ?_, fun j hj c hc => ?_⟩
  · rw [hw.contents]
    rcases eq_or_ne p (log.dev, b) with rfl | hne
    · rw [update_self, ht.inside i hi b hb]
    · rw [update_of_ne hne, ht.outside p hp]
  · rw [hw.contents, update_of_ne, ht.inside j hj c hc]
    intro heq
    have hslot : log.start + j + 1 = b := congrArg Prod.snd heq
    exact hbmem ⟨by omega, by omega⟩

/-- **A commit** keeps the cache coherent, changes no block outside the log and empties the
log. -/
theorem Coherent.commit (h : Coherent s) (hlog : Logged log s.lh) (hok : s.commit log = .ok s') :
    Coherent s' ∧ s'.lh = [] ∧
      ∀ p : ℕ × ℕ, p.1 ≠ log.dev ∨ ¬log.Mem p.2 → s'.contents p = s.contents p := by
  unfold State.commit at hok
  split at hok
  next hnil =>
    cases hok
    exact ⟨h, hnil, fun _ _ => rfl⟩
  next hne =>
    obtain ⟨t, hwriteLog, hrest⟩ := bind_eq_ok.1 hok
    obtain ⟨u, hwriteHead, hrest⟩ := bind_eq_ok.1 hrest
    obtain ⟨x, hinstall, hlast⟩ := bind_eq_ok.1 hrest
    have hroom := hlog.room
    have hpos : 0 < s.lh.length := List.length_pos_iff.2 hne
    have hstart : log.Mem log.start := ⟨Nat.le_refl _, by omega⟩
    have ht := Copied.writeLog h hlog hwriteLog
    obtain ⟨v, hv⟩ := ht.coherent.writeHead hwriteHead
    have hu := ht.wrote hv hstart fun i _ => by omega
    have hx := hu.installTrans hlog hinstall
    have hempty : Coherent { x with lh := [] } :=
      ⟨hx.coherent.list.imp fun L hL => ⟨⟨hL.1.ring, hL.1.perm⟩, hL.2⟩, hx.coherent.cell,
        hx.coherent.backed, hx.coherent.asked⟩
    obtain ⟨v', hv'⟩ := hempty.writeHead hlast
    refine ⟨hv'.coherent, hv'.lh, fun p hp => ?_⟩
    rw [hv'.contents, update_of_ne]
    · exact hx.outside p hp
    · rintro rfl
      exact hp.elim (fun hdev => hdev rfl) fun hmem => hmem hstart

/-! ### Runs -/

/-- The links that `binit` makes. -/
theorem ring_initLinks (n : ℕ) (hn : n ≤ NBUF) :
    Ring (initLinks n).1 (initLinks n).2 NBUF (List.range n).reverse := by
  induction n with
  | zero => exact ⟨⟨rfl, rfl⟩, by simp⟩
  | succ n ih =>
    have hnew : n ∉ NBUF :: (List.range n).reverse := by
      rw [List.mem_cons, List.mem_reverse, List.mem_range]
      omega
    rw [List.range_succ, List.reverse_append]
    exact (ih (Nat.le_of_succ_le hn)).push hnew

/-- **The cache is coherent after `binit`.** -/
theorem coherent_boot (disk : ℕ × ℕ → α) (data : α) : Coherent (boot disk data) where
  list := by
    have hunused : ∀ k, ¬((boot disk data).buf k).Used := by
      intro k
      simp [boot, Buf.Used]
    refine ⟨(List.range NBUF).reverse, ⟨ring_initLinks NBUF (Nat.le_refl _),
      List.reverse_perm _⟩, fun k _ _ _ hu => absurd hu (hunused k), fun _ _ _ => rfl, ?_⟩
    exact List.pairwise_of_forall fun k k' _ hu => absurd hu (hunused k')
  cell k _ := ⟨by simp [boot], by simp [boot], rfl⟩
  backed _ := .inl rfl
  asked w hw := absurd hw List.not_mem_nil

/-- **Every step keeps the cache coherent.** -/
theorem Coherent.step {a : Action α} (h : Coherent s) (hlog : Logged log s.lh)
    (ha : Allowed log s a) (hstep : step log s a = some s') :
    Coherent s' ∧ Logged log s'.lh := by
  have hok : exec log s a = .ok s' := ok_of_toOption hstep
  cases a with
  | bget dev blockno =>
    obtain ⟨⟨k, t⟩, hget, hret⟩ := bind_eq_ok.1 hok
    cases hret
    obtain ⟨hcoh, -, hlh, -⟩ := h.bget hget
    exact ⟨hcoh, hlh ▸ hlog⟩
  | bwait w =>
    obtain ⟨hcoh, -, hlh, -⟩ := h.bwait hok
    exact ⟨hcoh, hlh ▸ hlog⟩
  | bwrite k v =>
    obtain ⟨⟨hcoh, -⟩, -, hlh⟩ := h.bwrite ha hok
    exact ⟨hcoh, hlh ▸ hlog⟩
  | logWrite k v =>
    obtain ⟨⟨hcoh, -⟩, -, hroom, hmem⟩ := h.logWrite ha.1 hok
    refine ⟨hcoh, fun b hb hin => ?_, hroom⟩
    rcases hmem b hb with hb | rfl
    · exact hlog.outside b hb hin
    · have hout := ha.2
      obtain ⟨hlo, hhi⟩ := hin
      omega
  | brelse k =>
    obtain ⟨hcoh, -, hlh, -⟩ := h.brelse ha hok
    exact ⟨hcoh, hlh ▸ hlog⟩
  | commit =>
    obtain ⟨hcoh, hlh, -⟩ := h.commit hlog hok
    refine ⟨hcoh, ?_, ?_⟩
    · simp [hlh]
    · simp [hlh]

/-- **Buffer cache coherence.**  In every state that the cache reaches, the links lead through
each buffer once, no two buffers in use are for the same block, and `bread` gives the buffer
of the block it is asked for, with what was last written to it.  A process waits only for a
buffer somebody holds, and `bget` stops only if there is no buffer to recycle.  A commit
changes no block outside the log. -/
theorem cache_coherent (disk : ℕ × ℕ → α) (data : α)
    (h : Reach (step log) (Allowed log) (boot disk data) s) :
    (∃ L, Ring s.next s.prev NBUF L ∧ L.Perm (List.range NBUF)) ∧
    (∀ j < NBUF, ∀ k < NBUF, (s.buf j).Used → (s.buf k).Used →
      (s.buf j).key = (s.buf k).key → j = k) ∧
    (∀ dev blockno k s', s.bread dev blockno = .ok (k, s') →
      (s'.buf k).key = (dev, blockno) ∧ (s'.buf k).data = s.contents (dev, blockno)) ∧
    (∀ w s', s.bwait w = .ok s' →
      (s'.buf w.buf).key = (w.dev, w.blockno) ∧
      (s'.buf w.buf).data = s.contents (w.dev, w.blockno)) ∧
    ((∃ k < NBUF, (s.buf k).refcnt = 0 ∧ (s.buf k).dirty = false) →
      ∀ dev blockno, ∃ k s', s.bget dev blockno = .ok (k, s')) ∧
    (∀ w ∈ s.waiting, (s.buf w.buf).locked = false → w.blockno < FSSIZE →
      ∃ s', s.bwait w = .ok s') ∧
    ∀ s', s.commit log = .ok s' →
      ∀ p : ℕ × ℕ, p.1 ≠ log.dev ∨ ¬log.Mem p.2 → s'.contents p = s.contents p := by
  obtain ⟨hcoh, hlog⟩ : Coherent s ∧ Logged log s.lh := by
    refine h.invariant (I := fun s => Coherent s ∧ Logged log s.lh)
      ⟨coherent_boot disk data, ?_, Nat.zero_le _⟩ fun t a u ht ha hstep => ?_
    · simp [boot]
    · exact ht.1.step ht.2 ha hstep
  obtain ⟨L, hl, hkeyed⟩ := hcoh.list
  refine ⟨⟨L, hl.ring, hl.perm⟩, fun j hj k hk => ?_, fun dev blockno k s' hok => ?_,
    fun w s' hok => ?_, exists_bget hl, fun w => exists_bwait hcoh,
    fun s' hok => (hcoh.commit hlog hok).2.2⟩
  · exact hkeyed.unique j (hl.mem_iff.2 hj) k (hl.mem_iff.2 hk)
  · have hfetched := hcoh.bread hok
    exact ⟨hfetched.key, hfetched.data⟩
  · obtain ⟨-, -, -, -, -, -, hkey, hdata⟩ := hcoh.bwait hok
    exact ⟨hkey, hdata⟩

/-- A log of 30 blocks on device 1. -/
def tinyLog : LogArea ℕ := ⟨1, 2, 30, fun lh _ => lh.length⟩

/-- A block is changed and committed, and read again. -/
theorem cache_coherent_commit :
    ∃ s : State ℕ, (s.contents (1, 40) = 77 ∧ s.disk (1, 40) = 77 ∧ s.waiting = [⟨0, 1, 40⟩]) ∧
      ∀ s', s.bwait ⟨0, 1, 40⟩ = .ok s' → (s'.buf 0).data = 77 := by
  have hrun : ∃ s, Reach (step tinyLog) (Allowed tinyLog) (boot (fun p => p.2) 0) s ∧
      s.contents (1, 40) = 77 ∧ s.disk (1, 40) = 77 ∧ s.waiting = [⟨0, 1, 40⟩] :=
    exists_reach_of_any [.bget 1 40, .bwait ⟨0, 1, 40⟩, .logWrite 0 77, .brelse 0, .commit,
      .bget 1 40] (by decide +kernel)
  obtain ⟨s, hs, hq⟩ := hrun
  refine ⟨s, hq, fun s' hok => ?_⟩
  rw [((cache_coherent _ _ hs).2.2.2.1 _ s' hok).2, hq.1]

end Bio
end Xv6
