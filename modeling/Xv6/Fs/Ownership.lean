/-
# Disk blocks are never shared

`Coherent s`: the volume is consistent, no two entries of the inode cache with a
reference have the same number, and a copy that counts is the inode on the disk.
Every call keeps it, so in every run no block is named twice, and `bfree`
(`xv6/fs.c`, lines 81-96) never finds its block free.
-/

import Xv6.Lib.Run
import Xv6.Fs.Icache

namespace Xv6
namespace Fs

open Lib Function

structure Coherent (s : State) : Prop where
  disk : Consistent s.vol
  range : ∀ k, s.Held k → 0 < (s.icache k).inum ∧ (s.icache k).inum < s.vol.sb.ninodes
  copies : ∀ k, s.Cached k → Live s.vol (s.icache k).inum ∧
    (s.icache k).copy = dinodeOf s.vol.sb s.vol.disk (s.icache k).inum
  unique : ∀ k k', s.Held k → s.Held k' → (s.icache k).inum = (s.icache k').inum → k = k'

variable {s s' : State} {k inum : ℕ}

/-! ### The cache -/

/-- References come and go; no entry is added and no copy changes. -/
theorem Coherent.of_sub (h : Coherent s) (hvol : s'.vol = s.vol)
    (hheld : ∀ j, s'.Held j → s.Held j)
    (hsame : ∀ j, (s'.icache j).inum = (s.icache j).inum ∧
      (s'.icache j).valid = (s.icache j).valid ∧ (s'.icache j).copy = (s.icache j).copy) :
    Coherent s' where
  disk := hvol ▸ h.disk
  range j hj := by
    rw [hvol, (hsame j).1]
    exact h.range j (hheld j hj)
  copies j hj := by
    rw [hvol, (hsame j).1, (hsame j).2.2]
    exact h.copies j ⟨hheld j hj.1, (hsame j).2.1 ▸ hj.2⟩
  unique j j' hj hj' heq := by
    rw [(hsame j).1, (hsame j').1] at heq
    exact h.unique j j' (hheld j hj) (hheld j' hj') heq

/-- A change of the references to one entry. -/
theorem Coherent.setRef (h : Coherent s) {n : ℕ} (hn : 0 < n → s.Held k) :
    Coherent (s.set k { s.icache k with ref := n }) := by
  refine h.of_sub rfl (fun j hj => ?_) fun j => ?_
  · rcases eq_or_ne j k with rfl | hne
    · refine hn ?_
      have := hj.2
      simpa [State.set] using this
    · simpa [State.Held, State.set, hne] using hj
  · rcases eq_or_ne j k with rfl | hne
    · simp [State.set]
    · simp [State.set, hne]

/-- A free entry is given a number that no entry has. -/
theorem Coherent.take (h : Coherent s) (hpos : 0 < inum) (hlt : inum < s.vol.sb.ninodes)
    (hnew : ∀ j, s.Held j → (s.icache j).inum ≠ inum) :
    Coherent (s.set k { s.icache k with inum := inum, ref := 1, valid := false }) := by
  have hother : ∀ j, j ≠ k →
      (s.set k { s.icache k with inum := inum, ref := 1, valid := false }).icache j = s.icache j :=
    fun j hne => update_of_ne hne ..
  have hself : (s.set k { s.icache k with inum := inum, ref := 1, valid := false }).icache k =
      { s.icache k with inum := inum, ref := 1, valid := false } := update_self ..
  refine ⟨h.disk, fun j hj => ?_, fun j hj => ?_, fun j j' hj hj' heq => ?_⟩
  · rcases eq_or_ne j k with rfl | hne
    · rw [hself]
      exact ⟨hpos, hlt⟩
    · rw [State.Held, hother j hne] at hj
      rw [hother j hne]
      exact h.range j hj
  · rcases eq_or_ne j k with rfl | hne
    · have := hj.2
      rw [hself] at this
      cases this
    · rw [State.Cached, State.Held, hother j hne] at hj
      rw [hother j hne]
      exact h.copies j hj
  · rcases eq_or_ne j k with rfl | hne <;> rcases eq_or_ne j' j with rfl | hne'
    · rfl
    · rw [State.Held, hother j' hne'] at hj'
      rw [hself, hother j' hne'] at heq
      exact absurd heq.symm (hnew j' hj')
    · rfl
    · rw [State.Held, hother j hne] at hj
      rcases eq_or_ne j' k with rfl | hk
      · rw [hself, hother j hne] at heq
        exact absurd heq (hnew j hj)
      · rw [State.Held, hother j' hk] at hj'
        rw [hother j hne, hother j' hk] at heq
        exact h.unique j j' hj hj' heq

/-- The inode of an entry is rewritten on the disk, and its copy with it. -/
theorem Coherent.rewrite (h : Coherent s) (hk : s.Held k) {vol : Vol} {ip : Inode}
    (hvol : Rewrote s.vol (s.icache k).inum vol) (hinum : ip.inum = (s.icache k).inum)
    (hcopy : ip.valid = true → Live vol ip.inum ∧ ip.copy = dinodeOf vol.sb vol.disk ip.inum) :
    Coherent (State.set { s with vol := vol } k ip) := by
  have hother : ∀ j, j ≠ k → (State.set { s with vol := vol } k ip).icache j = s.icache j :=
    fun j hne => update_of_ne hne ..
  have hself : (State.set { s with vol := vol } k ip).icache k = ip := update_self ..
  have hnum : ∀ j, ((State.set { s with vol := vol } k ip).icache j).inum = (s.icache j).inum := by
    intro j
    rcases eq_or_ne j k with rfl | hne
    · rw [hself, hinum]
    · rw [hother j hne]
  have hheld : ∀ j, (State.set { s with vol := vol } k ip).Held j → s.Held j := by
    intro j hj
    rcases eq_or_ne j k with rfl | hne
    · exact hk
    · rwa [State.Held, hother j hne] at hj
  refine ⟨hvol.consistent, fun j hj => ?_, fun j hj => ?_, fun j j' hj hj' heq => ?_⟩
  · rw [hnum]
    change _ ∧ _ < vol.sb.ninodes
    rw [hvol.sb]
    exact h.range j (hheld j hj)
  · rcases eq_or_ne j k with rfl | hne
    · rw [State.Cached, hself] at hj
      rw [hself]
      exact hcopy hj.2
    · have hj' : s.Cached j := by rwa [State.Cached, State.Held, hother j hne] at hj
      obtain ⟨hlive, hcopy'⟩ := h.copies j hj'
      have hdi := hvol.others _ hlive.lt fun heq => hne (h.unique j k hj'.1 hk heq)
      rw [hother j hne]
      refine ⟨⟨hlive.pos, hvol.sb.symm ▸ hlive.lt, ?_⟩, hcopy'.trans hdi.symm⟩
      change (dinodeOf vol.sb vol.disk _).type ≠ 0
      rw [hdi]
      exact hlive.type
  · rw [hnum, hnum] at heq
    exact h.unique j j' (hheld j hj) (hheld j' hj') heq

/-- **`iget`** finds the entry of a number or takes a free one. -/
theorem Coherent.iget (h : Coherent s) (hpos : 0 < inum) (hlt : inum < s.vol.sb.ninodes)
    (hok : iget s inum = .ok (k, s')) : Coherent s' := by
  unfold Fs.iget at hok
  split at hok
  next j hfind =>
    cases hok
    have hmem := List.mem_range.1 (List.mem_of_find?_eq_some hfind)
    have hheld := List.find?_some hfind
    rw [decide_eq_true_eq] at hheld
    exact h.setRef fun _ => ⟨hmem, hheld.1⟩
  next hnone =>
    split at hok
    next => cases hok
    next j hfind =>
      cases hok
      refine h.take hpos hlt fun j hj heq => ?_
      have := List.find?_eq_none.1 hnone j (List.mem_range.2 hj.1)
      rw [decide_eq_true_eq] at this
      exact this ⟨hj.2, heq⟩

/-- **`ilock`** reads the inode from the disk. -/
theorem Coherent.ilock (h : Coherent s) (hk : s.Held k) (hok : ilockEntry s k = .ok s') :
    Coherent s' := by
  unfold ilockEntry at hok
  dsimp only at hok
  obtain ⟨-, hok⟩ := ite_error_eq_ok.1 hok
  split at hok
  next =>
    cases hok
    exact h
  next =>
    obtain ⟨copy, hread, hok⟩ := bind_eq_ok.1 hok
    cases hok
    unfold Fs.ilock at hread
    obtain ⟨htype, hread⟩ := ite_error_eq_ok.1 hread
    cases hread
    obtain ⟨hpos, hlt⟩ := h.range k hk
    have hvol : Rewrote s.vol (s.icache k).inum s.vol := ⟨h.disk, rfl, fun _ _ _ => rfl⟩
    exact h.rewrite hk hvol rfl fun _ => ⟨⟨hpos, hlt, htype⟩, rfl⟩

/-- **`ialloc`** marks an inode that no entry has a copy of. -/
theorem Coherent.ialloc {type : ℕ} (h : Coherent s) (htype : type ≠ 0) (hfit : type < 2 ^ 16)
    (hok : ialloc s type = .ok (k, s')) : Coherent s' := by
  unfold Fs.ialloc at hok
  split at hok
  next => cases hok
  next i hfind =>
    have hlt := List.mem_range.1 (List.mem_of_find?_eq_some hfind)
    have hfree := List.find?_some hfind
    rw [decide_eq_true_eq] at hfree
    have hdead : ¬Live s.vol i := fun hlive => hlive.type hfree.2
    have hrewrote : Rewrote s.vol i (iupdate s.vol i { Dinode.zero with type := type }) := by
      refine h.disk.iupdate hfree.1 hlt ?_ ?_ (fun h0 => absurd h0 htype) fun _ => ?_
      · exact { Dinode.zero_fits with type := hfit }
      · rw [liveInos, if_neg hdead]
      · exact filled_iff.2 fun j hj => absurd hj (Nat.not_lt_zero j)
    refine Coherent.iget (s := { s with vol := iupdate s.vol i { Dinode.zero with type := type } })
      ⟨hrewrote.consistent, h.range, fun j hj => ?_, h.unique⟩ hfree.1 hlt hok
    obtain ⟨hlive, hcopy⟩ := h.copies j hj
    have hdi := hrewrote.others _ hlive.lt fun heq => hdead (heq ▸ hlive)
    refine ⟨⟨hlive.pos, hlive.lt, ?_⟩, hcopy.trans hdi.symm⟩
    rw [hdi]
    exact hlive.type

/-- **`iput`** gives the inode up on the disk if that was the last reference. -/
theorem Coherent.exists_iput (h : Coherent s) (hk : s.Held k) :
    ∃ s', iput s k = .ok s' ∧ Coherent s' := by
  unfold Fs.iput
  dsimp only
  split
  next hlast =>
    obtain ⟨hlive, hcopy⟩ := h.copies k ⟨hk, hlast.1⟩
    obtain ⟨v', hok, hrewrote⟩ := h.disk.discard hlive
    obtain ⟨⟨ip, v₁⟩, htrunc, hok⟩ := bind_eq_ok.1 hok
    rw [hcopy, htrunc]
    cases hok
    refine ⟨_, rfl, ?_⟩
    have hnum : Inode.inum { s.icache k with copy := { ip with type := 0 }, valid := false } =
        (s.icache k).inum := rfl
    refine (h.rewrite hk hrewrote hnum nofun).setRef fun _ => ?_
    exact ⟨hk.1, by simpa [State.set] using hk.2⟩
  next => exact ⟨_, rfl, h.setRef fun _ => hk⟩

/-- **Every call keeps the cache and the volume coherent.** -/
theorem Coherent.exec (h : Coherent s) {c : Call} (hc : Allowed s c) (hok : exec s c = .ok s') :
    Coherent s' := by
  cases c with
  | iget inum =>
    obtain ⟨⟨k, s₁⟩, hget, hok⟩ := bind_eq_ok.1 hok
    cases hok
    exact h.iget hc.1 hc.2 hget
  | idup k =>
    cases hok
    exact h.setRef fun _ => hc
  | ilock k => exact h.ilock hc hok
  | iput k =>
    obtain ⟨s₁, hput, h₁⟩ := h.exists_iput hc
    obtain rfl := Except.ok.inj (hput.symm.trans hok)
    exact h₁
  | ialloc type =>
    obtain ⟨⟨k, s₁⟩, halloc, hok⟩ := bind_eq_ok.1 hok
    cases hok
    exact h.ialloc hc.1 hc.2 halloc
  | readi k off n =>
    obtain ⟨hlive, hcopy⟩ := h.copies k hc
    obtain ⟨r, hread⟩ := exists_readi (v := s.vol) (hcopy ▸ h.disk.filled _ hlive) off n
    rw [Fs.exec, hread] at hok
    cases hok
    have hvol : Rewrote s.vol (s.icache k).inum s.vol := ⟨h.disk, rfl, fun _ _ _ => rfl⟩
    exact h.rewrite hc.1 hvol rfl fun _ => ⟨hlive, hcopy⟩
  | writei k off src =>
    obtain ⟨hlive, hcopy⟩ := h.copies k hc
    obtain ⟨⟨r, copy, vol⟩, hwrite, hok⟩ := bind_eq_ok.1 hok
    cases hok
    rw [hcopy] at hwrite
    obtain ⟨hrewrote, hlive', hcopy'⟩ := h.disk.writei hlive hwrite
    exact h.rewrite hc.1 hrewrote rfl fun _ => ⟨hlive', hcopy'⟩
  | update k major minor nlink =>
    obtain ⟨hcached, hmajor, hminor, hnlink⟩ := hc
    obtain ⟨hlive, hcopy⟩ := h.copies k hcached
    cases hok
    have hfits := dinodeOf_fits s.vol.sb s.vol.disk (s.icache k).inum
    rw [← hcopy] at hfits
    have hfits' : Dinode.Fits { (s.icache k).copy with
        major := major, minor := minor, nlink := nlink } :=
      { hfits with major := hmajor, minor := hminor, nlink := hnlink }
    have htype : (s.icache k).copy.type ≠ 0 := hcopy ▸ hlive.type
    have hrewrote := h.disk.iupdate hlive.pos hlive.lt hfits'
      (by rw [liveInos_live hlive, hcopy]) (fun h0 => absurd h0 htype)
      fun _ => filled_iff.2 (filled_iff.1 (hcopy ▸ h.disk.filled _ hlive))
    have hdi : dinodeOf s.vol.sb (setDinode s.vol.sb s.vol.disk (s.icache k).inum
        { (s.icache k).copy with major := major, minor := minor, nlink := nlink })
        (s.icache k).inum = { (s.icache k).copy with
          major := major, minor := minor, nlink := nlink } := dinodeOf_setDinode hfits'
    refine h.rewrite hcached.1 hrewrote rfl fun _ => ⟨⟨hlive.pos, hlive.lt, ?_⟩, hdi.symm⟩
    change (dinodeOf s.vol.sb (setDinode _ _ _ _) _).type ≠ 0
    rw [hdi]
    exact htype

/-! ### Panics -/

/-- The path does not end in the panic of `bfree`. -/
def Quiet {α : Type} (x : Except Halt α) : Prop := x ≠ .error (.panic "freeing free block")

section quiet

variable {α β : Type} {v : Vol} {ip : Dinode}

theorem quiet_ok (a : α) : Quiet (.ok a) := nofun

theorem quiet_panic {text : String} (h : text ≠ "freeing free block") :
    Quiet (.error (.panic text) : Except Halt α) := fun heq =>
  h (Halt.panic.inj (Except.error.inj heq))

theorem Quiet.bind {x : Except Halt α} {f : α → Except Halt β} (hx : Quiet x)
    (hf : ∀ a, Quiet (f a)) : Quiet (x >>= f) := by
  cases x with
  | error e => exact fun heq => hx (congrArg Except.error (Except.error.inj heq))
  | ok a => exact hf a

theorem quiet_balloc (v : Vol) : Quiet (balloc v) := by
  unfold balloc
  split
  · exact quiet_panic (by decide)
  · exact quiet_ok _

theorem quiet_bmapAddr (v : Vol) (ip : Dinode) (k : ℕ) : Quiet (bmapAddr v ip k) := by
  unfold bmapAddr
  split
  · exact (quiet_balloc v).bind fun _ => quiet_ok _
  · exact quiet_ok _

theorem quiet_bmapEntry (v : Vol) (table k : ℕ) : Quiet (bmapEntry v table k) := by
  unfold bmapEntry
  split
  · exact (quiet_balloc v).bind fun _ => quiet_ok _
  · exact quiet_ok _

theorem quiet_bmap (v : Vol) (ip : Dinode) (bn : ℕ) : Quiet (bmap v ip bn) := by
  unfold bmap
  split
  · exact quiet_bmapAddr v ip bn
  · split
    · exact (quiet_bmapAddr v ip _).bind fun _ => (quiet_bmapEntry _ _ _).bind fun _ => quiet_ok _
    · exact quiet_panic (by decide)

theorem quiet_writeLoop (fuel : ℕ) (v : Vol) (ip : Dinode) (off : ℕ) (src : List Byte) :
    Quiet (writeLoop fuel v ip off src) := by
  induction fuel generalizing v ip off src with
  | zero => exact quiet_ok _
  | succ fuel ih =>
    rw [writeLoop]
    split
    · exact quiet_ok _
    · exact (quiet_bmap _ _ _).bind fun _ => ih _ _ _ _

theorem quiet_writei (v : Vol) (inum : ℕ) (ip : Dinode) (off : ℕ) (src : List Byte) :
    Quiet (writei v inum ip off src) := by
  unfold writei
  split
  · exact quiet_ok _
  · split
    · exact quiet_ok _
    · refine (quiet_writeLoop _ _ _ _ _).bind fun _ => ?_
      dsimp only
      split <;> exact quiet_ok _

theorem quiet_iget (s : State) (inum : ℕ) : Quiet (iget s inum) := by
  unfold iget
  split
  · exact quiet_ok _
  · split
    · exact quiet_panic (by decide)
    · exact quiet_ok _

theorem quiet_ialloc (s : State) (type : ℕ) : Quiet (ialloc s type) := by
  unfold ialloc
  split
  · exact quiet_panic (by decide)
  · exact quiet_iget _ _

theorem quiet_ilockEntry (s : State) (k : ℕ) : Quiet (ilockEntry s k) := by
  unfold ilockEntry
  dsimp only
  split
  · exact quiet_panic (by decide)
  · split
    · exact quiet_ok _
    · refine Quiet.bind ?_ fun _ => quiet_ok _
      unfold ilock
      split
      · exact quiet_panic (by decide)
      · exact quiet_ok _

end quiet

/-- **No call frees a free block.** -/
theorem Coherent.quiet (h : Coherent s) {c : Call} (hc : Allowed s c) : Quiet (Fs.exec s c) := by
  cases c with
  | iget inum => exact (quiet_iget s inum).bind fun _ => quiet_ok _
  | idup k => exact quiet_ok _
  | ilock k => exact quiet_ilockEntry s k
  | iput k =>
    obtain ⟨s', hput, -⟩ := h.exists_iput hc
    rw [Fs.exec, hput]
    exact quiet_ok s'
  | ialloc type => exact (quiet_ialloc s type).bind fun _ => quiet_ok _
  | readi k off n =>
    obtain ⟨hlive, hcopy⟩ := h.copies k hc
    obtain ⟨r, hread⟩ := exists_readi (v := s.vol) (hcopy ▸ h.disk.filled _ hlive) off n
    rw [Fs.exec, hread]
    exact quiet_ok _
  | writei k off src => exact (quiet_writei _ _ _ _ _).bind fun _ => quiet_ok _
  | update k major minor nlink => exact quiet_ok _

/-! ### Runs -/

/-- The kernel has read the super block of a well-formed image and has no inode in its
cache. -/
structure Booted (s : State) : Prop where
  image : Consistent s.vol
  empty : ∀ k < NINODE, (s.icache k).ref = 0

theorem Booted.coherent (h : Booted s) : Coherent s := by
  have hnone : ∀ k, ¬s.Held k := by
    intro k hk
    have := h.empty k hk.1
    have := hk.2
    omega
  exact ⟨h.image, fun k hk => absurd hk (hnone k), fun k hk => absurd hk.1 (hnone k),
    fun k _ hk => absurd hk (hnone k)⟩

theorem Coherent.of_reach {s₀ : State} (h₀ : Coherent s₀) (h : Reach step Allowed s₀ s) :
    Coherent s :=
  h.invariant (I := Coherent) h₀ fun _ _ _ ht hc hstep =>
    ht.exec hc (ok_of_toOption hstep)

/-- **Disk blocks are never shared.**  In every state reached from a well-formed image: a
block is named by one slot of one inode, lies in the data area and is marked; an inode has
the blocks below its size; a cached copy has the addresses on the disk; and no call panics
in `bfree`. -/
theorem blocks_not_shared {s₀ : State} (h₀ : Booted s₀) (h : Reach step Allowed s₀ s) :
    let inode := fun i => dinodeOf s.vol.sb s.vol.disk i
    (∀ i j p q, Live s.vol i → Live s.vol j → (inode i).ref s.vol.disk p ≠ 0 →
      (inode i).ref s.vol.disk p = (inode j).ref s.vol.disk q → i = j ∧ p = q) ∧
    (∀ i p, Live s.vol i → (inode i).ref s.vol.disk p ≠ 0 →
      s.vol.sb.nmeta ≤ (inode i).ref s.vol.disk p ∧ (inode i).ref s.vol.disk p < s.vol.sb.size ∧
        inUse s.vol.sb s.vol.disk ((inode i).ref s.vol.disk p) = true) ∧
    (∀ i, Live s.vol i → ∀ bn < blocks (inode i).size,
      (inode i).ref s.vol.disk (slotOf bn) ≠ 0) ∧
    (∀ k, s.Cached k → (s.icache k).copy.addrs = (inode (s.icache k).inum).addrs) ∧
    ∀ c, Allowed s c → exec s c ≠ .error (.panic "freeing free block") := by
  have hcoh := h₀.coherent.of_reach h
  have howns := hcoh.disk.owns
  have hrefs : ∀ i p, Live s.vol i → View.refs ⟨liveInos s.vol, s.vol.disk⟩ (i, p) =
      (dinodeOf s.vol.sb s.vol.disk i).ref s.vol.disk p := by
    intro i p hi
    rw [View.refs]
    dsimp only
    rw [liveInos_live hi]
  refine ⟨fun i j p q hi hj hne heq => ?_, fun i p hi hne => ?_, hcoh.disk.filled, fun k hk => ?_,
    fun c hc => hcoh.quiet hc⟩
  · rw [← hrefs i p hi] at hne heq
    rw [← hrefs j q hj] at heq
    exact Prod.mk.inj (howns.sole _ _ hne heq)
  · rw [← hrefs i p hi] at hne ⊢
    exact ⟨(howns.range _ hne).1, (howns.range _ hne).2, howns.marked _ hne⟩
  · rw [(hcoh.copies k hk).2]

/-- A volume of six blocks with eight inodes, none of them in use. -/
def tinyVol : Vol where
  sb := ⟨6, 2, 8, 0, 2, 2, 3⟩
  disk := update
    (update (fun _ => zeroBlock) 1
      (putWords zeroBlock 0 7 fun j => [6, 2, 8, 0, 2, 2, 3].getD j 0))
    3 ((List.range 4).foldl setBit zeroBlock)

def tiny : State := ⟨tinyVol, fun _ => ⟨0, 0, false, .zero⟩⟩

theorem tiny_booted : Booted tiny := by
  have hfree : ∀ i < 8, (dinodeOf tinyVol.sb tinyVol.disk i).type = 0 := by decide +kernel
  have hdead : ∀ i, ¬Live tinyVol i := fun i hi => hi.type (hfree i hi.lt)
  have hrefs : ∀ x, View.refs ⟨liveInos tinyVol, tinyVol.disk⟩ x = 0 := by
    rintro ⟨i, p⟩
    have hzero : liveInos tinyVol i = Dinode.zero := if_neg (hdead i)
    rw [View.refs]
    dsimp only
    rw [hzero]
    cases p <;> simp [Dinode.ref, Dinode.zero]
  refine ⟨⟨⟨⟨by decide, by decide, by decide, by decide, by decide⟩, by decide +kernel,
    fun x _ hx => absurd (hrefs x) hx, fun x hx => absurd (hrefs x) hx,
    fun x hx => absurd (hrefs x) hx, by decide +kernel⟩, fun i hi => absurd hi (hdead i)⟩,
    fun _ _ => rfl⟩

/-- Two files are made, written and read: their copies in the cache name the two blocks of the
data area, and so do their inodes on the disk. -/
theorem blocks_not_shared_tiny :
    ∃ s, Reach step Allowed tiny s ∧ (s.Cached 0 ∧ (s.icache 0).copy.addrs 0 = 4) ∧
      (s.Cached 1 ∧ (s.icache 1).copy.addrs 0 = 5) ∧
      (dinodeOf s.vol.sb s.vol.disk (s.icache 0).inum).addrs 0 = 4 ∧
      (dinodeOf s.vol.sb s.vol.disk (s.icache 1).inum).addrs 0 = 5 := by
  have hrun : ∃ s, Reach step Allowed tiny s ∧ (s.Cached 0 ∧ (s.icache 0).copy.addrs 0 = 4) ∧
      (s.Cached 1 ∧ (s.icache 1).copy.addrs 0 = 5) :=
    exists_reach_of_any [.ialloc 2, .ilock 0, .writei 0 0 [7, 8], .ialloc 2, .ilock 1,
      .writei 1 0 [9], .readi 0 0 2, .readi 1 0 1] (by decide +kernel)
  obtain ⟨s, hs, ⟨hcached, haddr⟩, hcached', haddr'⟩ := hrun
  have hsame := (blocks_not_shared tiny_booted hs).2.2.2.1
  refine ⟨s, hs, ⟨hcached, haddr⟩, ⟨hcached', haddr'⟩, ?_, ?_⟩
  · rw [← haddr, hsame 0 hcached]
  · rw [← haddr', hsame 1 hcached']

end Fs
end Xv6
