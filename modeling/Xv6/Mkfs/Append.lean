/-
# The loop of `iappend`

The loop of `iappend` (`xv6/mkfs.c`, lines 255-297) gives the inode a block if it
has none for the next byte and adds bytes to it; `exists_appendLoop` and
`appendLoop_room` say that it adds all its bytes just if there is room for them.
-/

import Xv6.Mkfs.Own

namespace Xv6
namespace Mkfs

open Lib Fs Function

variable {s s' : Img} {inum fbn x : ℕ} {din din' : Dinode} {m : ℕ → ℕ} {c : ℕ → List Byte}

/-! ### The loop -/

theorem cost_mono {n n' : ℕ} (h : n ≤ n') : cost n ≤ cost n' := by
  unfold cost
  split <;> split <;> omega

/-- The next byte goes to the last block, or to one behind it. -/
theorem blocks_eq (n : ℕ) : blocks n = n / BSIZE + 1 ∨ blocks n = n / BSIZE := by
  unfold blocks BSIZE
  omega

/-- The bytes that a turn adds at `off`. -/
def chunk (off : ℕ) (p : List Byte) : ℕ := min p.length ((off / BSIZE + 1) * BSIZE - off)

variable {off : ℕ} {p : List Byte}

theorem chunk_le (off : ℕ) (p : List Byte) : chunk off p ≤ p.length := Nat.min_le_left _ _

theorem chunk_pos (off : ℕ) (h : p ≠ []) : 0 < chunk off p := by
  have := List.length_pos_iff.2 h
  unfold chunk BSIZE
  omega

theorem chunk_fits (off : ℕ) (p : List Byte) : off % BSIZE + chunk off p ≤ BSIZE := by
  unfold chunk BSIZE
  omega

theorem blocks_chunk (h : p ≠ []) : blocks (off + chunk off p) = off / BSIZE + 1 := by
  have hpos := chunk_pos off h
  have hfits := chunk_fits off p
  unfold blocks BSIZE at *
  omega

/-- The image has the blocks for `p`, and the file stays within the largest size. -/
structure Room (s : Img) (n : ℕ) (p : List Byte) : Prop where
  size : n + p.length ≤ MAXFILE * BSIZE
  free : s.freeblock + cost (blocks (n + p.length)) ≤ FSSIZE + cost (blocks n)

/-- What the loop leaves when it has added the bytes `p` to inode `inum`. -/
structure Appended (s : Img) (inum : ℕ) (din : Dinode) (m : ℕ → ℕ) (c : ℕ → List Byte)
    (p : List Byte) (din' : Dinode) (s' : Img) : Prop where
  sound : Sound (viewWith s' inum din') s'.freeblock
    (update m inum (blocks ((c inum).length + p.length)))
    (update c inum (c inum ++ p))
  freeinode : s'.freeinode = s.freeinode
  freeblock : s'.freeblock + cost (m inum) =
    s.freeblock + cost (blocks ((c inum).length + p.length))
  same : SameMeta din din'
  area : ∀ b < nmeta, s'.disk b = s.disk b

theorem Appended.trans {q : List Byte} {s₁ s₂ : Img} {din₁ din₂ : Dinode}
    (h : Appended s inum din m c p din₁ s₁)
    (h' : Appended s₁ inum din₁ (update m inum (blocks ((c inum).length + p.length)))
      (update c inum (c inum ++ p)) q din₂ s₂) :
    Appended s inum din m c (p ++ q) din₂ s₂ := by
  have hlen : (c inum).length + (p ++ q).length = (c inum ++ p).length + q.length := by
    rw [List.length_append, List.length_append]
    omega
  have hs := h'.sound
  have hf := h'.freeblock
  rw [update_self, update_idem, update_idem, List.append_assoc] at hs
  rw [update_self, update_self] at hf
  have hf' := h.freeblock
  refine ⟨?_, h'.freeinode.trans h.freeinode, ?_, h.same.trans h'.same,
    fun b hb => (h'.area b hb).trans (h.area b hb)⟩
  · rwa [hlen]
  · rw [hlen]
    omega

/-- **One turn**, with the blocks it needs in the image. -/
theorem exists_turn (h : Sound (viewWith s inum din) s.freeblock m c)
    (hn : s.freeinode ≤ NINO) (hoff : (c inum).length = off) (hm : m inum = blocks off)
    (hp : p ≠ []) (hmax : off / BSIZE < MAXFILE)
    (hcap : s.freeblock + cost (off / BSIZE + 1) ≤ FSSIZE + cost (m inum)) :
    ∃ din' s', Appended s inum din m c (p.take (chunk off p)) din' s' ∧
      ∀ fuel, appendLoop (fuel + 1) s din off p =
        appendLoop fuel s' din' (off + chunk off p) (p.drop (chunk off p)) := by
  have hlast : m inum = off / BSIZE + 1 ∨ m inum = off / BSIZE := hm ▸ blocks_eq off
  obtain ⟨x, din', s', hok, howned⟩ := exists_ownBlock h hn hlast hmax hcap
  obtain ⟨hlo, hhi⟩ := howned.data
  have hn' : s'.freeinode ≤ NINO := howned.freeinode ▸ hn
  have hlen : (p.take (chunk off p)).length = chunk off p :=
    List.length_take_of_le (chunk_le off p)
  have hchunk := chunk_fits off p
  refine ⟨din', wsect s' x (blit (s'.disk x) (off % BSIZE) (p.take (chunk off p))), ⟨?_, ?_, ?_,
    howned.same, ?_⟩, ?_⟩
  · have hfill := howned.sound.fill (i := inum) (q := p.take (chunk off p))
      (by rw [update_self, hoff]; exact Nat.lt_succ_self _)
      (by rw [hoff, hlen]; exact hchunk)
    rw [hoff, howned.block] at hfill
    rw [hoff, hlen, blocks_chunk hp]
    exact viewWith_update (f := s'.freeblock) hn' hlo inum din' ▸ hfill
  · exact howned.freeinode
  · rw [hoff, hlen, blocks_chunk hp]
    exact howned.freeblock
  · intro b hb
    exact (update_of_ne (by omega) ..).trans (howned.area b hb)
  · intro fuel
    have hmod : off - off / BSIZE * BSIZE = off % BSIZE := by
      unfold BSIZE
      omega
    rw [appendLoop, if_neg hp, if_pos hmax, hok]
    change (rsect s' x >>= _) = _
    rw [rsect_ok hhi, hmod]
    rfl

/-- A turn that ends had the blocks it needs. -/
theorem turn_cap {fuel : ℕ} {r : Img × Dinode × ℕ}
    (h : Sound (viewWith s inum din) s.freeblock m c) (hm : m inum = blocks off) (hp : p ≠ [])
    (hok : appendLoop (fuel + 1) s din off p = .ok r) :
    off / BSIZE < MAXFILE ∧ s.freeblock + cost (off / BSIZE + 1) ≤ FSSIZE + cost (m inum) := by
  have hlast : m inum = off / BSIZE + 1 ∨ m inum = off / BSIZE := hm ▸ blocks_eq off
  rw [appendLoop, if_neg hp] at hok
  obtain ⟨hmax, hok⟩ := else_error_eq_ok.1 hok
  obtain ⟨⟨x, din', s'⟩, hown, hok⟩ := bind_eq_ok.1 hok
  obtain ⟨buf, hread, -⟩ := bind_eq_ok.1 hok
  have hx : x < FSSIZE := by
    unfold rsect at hread
    split at hread
    · assumption
    · cases hread
  exact ⟨hmax, ownBlock_cap h hlast hmax hown hx⟩

theorem Appended.nil (h : Sound (viewWith s inum din) s.freeblock m c)
    (hm : m inum = blocks (c inum).length) : Appended s inum din m c [] din s := by
  refine ⟨?_, rfl, ?_, SameMeta.refl din, fun _ _ => rfl⟩
  · rwa [List.append_nil, update_eq_self, List.length_nil, Nat.add_zero, ← hm,
      update_eq_self]
  · rw [List.length_nil, Nat.add_zero, ← hm]

/-- Room for the bytes is room for the first of them. -/
theorem Room.turn (h : Room s off p) (hp : p ≠ []) :
    off / BSIZE < MAXFILE ∧ s.freeblock + cost (off / BSIZE + 1) ≤ FSSIZE + cost (blocks off) := by
  have hsize := h.size
  have hlen := List.length_pos_iff.2 hp
  refine ⟨Nat.div_lt_of_lt_mul (by rw [Nat.mul_comm]; omega), ?_⟩
  have hle : blocks (off + chunk off p) ≤ blocks (off + p.length) :=
    blocks_mono (Nat.add_le_add_left (chunk_le off p) off)
  have hcost := cost_mono hle
  have hroom := h.free
  rw [← blocks_chunk hp]
  omega

theorem room_nil (hhi : s.freeblock ≤ FSSIZE) (hsize : off ≤ MAXFILE * BSIZE) : Room s off [] := by
  refine ⟨hsize, ?_⟩
  rw [List.length_nil, Nat.add_zero]
  omega

/-- Room for bytes is room for the first of them and then for the others. -/
theorem room_iff {n : ℕ} (hn : n ≤ p.length)
    (hfb : s'.freeblock + cost (blocks off) = s.freeblock + cost (blocks (off + n))) :
    Room s' (off + n) (p.drop n) ↔ Room s off p := by
  have hlen : off + n + (p.drop n).length = off + p.length := by
    rw [List.length_drop]
    omega
  constructor
  · intro h
    have hsize := h.size
    have hroom := h.free
    rw [hlen] at hsize hroom
    exact ⟨hsize, by omega⟩
  · intro h
    refine ⟨hlen ▸ h.size, ?_⟩
    have hroom := h.free
    rw [hlen]
    omega

/-- **The loop of `iappend` adds its bytes**, if there is room for them. -/
theorem exists_appendLoop {fuel : ℕ} (h : Sound (viewWith s inum din) s.freeblock m c)
    (hn : s.freeinode ≤ NINO) (hoff : (c inum).length = off) (hm : m inum = blocks off)
    (hfuel : p.length ≤ fuel) (hroom : Room s off p) :
    ∃ din' s', Appended s inum din m c p din' s' ∧
      appendLoop fuel s din off p = .ok (s', din', off + p.length) := by
  induction fuel generalizing s din m c off p with
  | zero =>
    obtain rfl := List.eq_nil_of_length_eq_zero (Nat.le_zero.1 hfuel)
    exact ⟨din, s, Appended.nil h (hoff ▸ hm), rfl⟩
  | succ fuel ih =>
    by_cases hp : p = []
    · subst hp
      exact ⟨din, s, Appended.nil h (hoff ▸ hm), rfl⟩
    · obtain ⟨hmax, hcap⟩ := hroom.turn hp
      obtain ⟨din₁, s₁, happ, hturn⟩ := exists_turn h hn hoff hm hp hmax (hm ▸ hcap)
      have hlen : (p.take (chunk off p)).length = chunk off p :=
        List.length_take_of_le (chunk_le off p)
      have hfb := happ.freeblock
      rw [hm, hoff, hlen] at hfb
      have hpos := chunk_pos off hp
      obtain ⟨din₂, s₂, happ₂, hloop⟩ := ih happ.sound (happ.freeinode ▸ hn)
        (by rw [update_self, List.length_append, hoff, hlen])
        (by rw [update_self, hoff, hlen])
        (by rw [List.length_drop]; omega)
        ((room_iff (chunk_le off p) hfb).2 hroom)
      refine ⟨din₂, s₂, ?_, ?_⟩
      · have := happ.trans happ₂
        rwa [List.take_append_drop] at this
      · have hle := chunk_le off p
        rw [hturn, hloop, List.length_drop]
        congr 3
        omega

/-- A loop that ends had room for its bytes. -/
theorem appendLoop_room {fuel : ℕ} {r : Img × Dinode × ℕ}
    (h : Sound (viewWith s inum din) s.freeblock m c)
    (hn : s.freeinode ≤ NINO) (hoff : (c inum).length = off) (hm : m inum = blocks off)
    (hfuel : p.length ≤ fuel) (hsize : off ≤ MAXFILE * BSIZE)
    (hok : appendLoop fuel s din off p = .ok r) : Room s off p := by
  induction fuel generalizing s din m c off p with
  | zero =>
    obtain rfl := List.eq_nil_of_length_eq_zero (Nat.le_zero.1 hfuel)
    exact room_nil h.hi hsize
  | succ fuel ih =>
    by_cases hp : p = []
    · subst hp
      exact room_nil h.hi hsize
    · obtain ⟨hmax, hcap⟩ := turn_cap h hm hp hok
      obtain ⟨din₁, s₁, happ, hturn⟩ := exists_turn h hn hoff hm hp hmax hcap
      have hlen : (p.take (chunk off p)).length = chunk off p :=
        List.length_take_of_le (chunk_le off p)
      have hfb := happ.freeblock
      rw [hm, hoff, hlen] at hfb
      have hpos := chunk_pos off hp
      have hfits := chunk_fits off p
      rw [hturn] at hok
      refine (room_iff (chunk_le off p) hfb).1 (ih happ.sound (happ.freeinode ▸ hn)
        (by rw [update_self, List.length_append, hoff, hlen])
        (by rw [update_self, hoff, hlen])
        (by rw [List.length_drop]; omega) ?_ hok)
      unfold BSIZE at *
      omega

end Mkfs
end Xv6
