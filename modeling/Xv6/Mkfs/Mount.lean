/-
# The image is well formed

The kernel keeps its blocks apart if it starts from a well-formed image
(`Fs.blocks_not_shared`).  The image that `mkfs` writes is one, if the entries of
the root directory do not fill their blocks.
-/

import Xv6.Fs.Ownership
import Xv6.Mkfs.Holes

namespace Xv6
namespace Mkfs

open Lib Fs

variable {s : Img} {files : List File}

theorem sb_layout : Layout sb where
  super := by decide
  inodes := by decide +kernel
  order := by decide
  bits := by decide +kernel
  size := by decide

/-- An inode in use is one that `mkfs` has allocated. -/
theorem Built.lt_of_live (h : Built files s) {i : ℕ} (hi : Live ⟨sb, s.disk⟩ i) :
    i < s.freeinode := by
  by_contra hge
  have hlt : i < NINO := Nat.lt_of_lt_of_le hi.lt (by decide : sb.ninodes ≤ NINO)
  exact hi.type (by rw [h.unused i hlt (.inr (by omega))]; rfl)

/-- **The image of `mkfs` is well formed**, if the root has no hole. -/
theorem Built.consistent (h : Built files s) (hroot : (2 + files.length) % 32 ≠ 0) :
    Consistent (mounted s) := by
  have hv : mounted s = ⟨sb, s.disk⟩ := by rw [mounted, h.readsb_eq]
  rw [hv]
  have hmeta : sb.nmeta = nmeta := by decide
  have hbits : ∀ b < s.freeblock, inUse sb s.disk b = true := by
    intro b hb
    have hlt : FSSIZE < BPB := by decide
    have := h.sound.hi
    rw [h.bits b (by omega), decide_eq_true hb]
  have hino : ∀ i, Live ⟨sb, s.disk⟩ i → (viewOf s).ino i = liveInos ⟨sb, s.disk⟩ i := by
    intro i hi
    rw [liveInos_live hi]
    exact if_pos (h.lt_of_live hi)
  -- what a slot of an inode in use names, it names in the image
  have hrefs : ∀ x, View.refs ⟨liveInos ⟨sb, s.disk⟩, s.disk⟩ x ≠ 0 →
      View.refs ⟨liveInos ⟨sb, s.disk⟩, s.disk⟩ x = (viewOf s).refs x := by
    rintro ⟨i, p⟩ hx
    have hi : Live ⟨sb, s.disk⟩ i := by
      by_contra hdead
      apply hx
      rw [View.refs]
      dsimp only
      rw [liveInos, if_neg hdead, ref_zero]
    rw [View.refs, View.refs, hino i hi]
    rfl
  have hrange : ∀ x, View.refs ⟨liveInos ⟨sb, s.disk⟩, s.disk⟩ x ≠ 0 →
      nmeta ≤ View.refs ⟨liveInos ⟨sb, s.disk⟩, s.disk⟩ x ∧
        View.refs ⟨liveInos ⟨sb, s.disk⟩, s.disk⟩ x < s.freeblock := by
    intro x hx
    have heq := hrefs x hx
    rw [heq] at hx ⊢
    exact h.sound.range x hx
  refine ⟨⟨sb_layout, h.readsb_eq, fun x y hx heq => ?_, fun x hx => ?_, fun x hx => ?_,
    fun b hb => ?_⟩, fun i hi => ?_⟩
  · have hy := heq ▸ hx
    rw [hrefs x hx, hrefs y hy] at heq
    exact h.sound.sole x y (hrefs x hx ▸ hx) heq
  · rw [hmeta]
    exact ⟨(hrange x hx).1, Nat.lt_of_lt_of_le (hrange x hx).2 h.sound.hi⟩
  · exact hbits _ (hrange x hx).2
  · exact hbits b (Nat.lt_of_lt_of_le (hmeta ▸ hb) h.sound.lo)
  · rcases eq_or_ne i ROOTINO with rfl | hne
    · exact h.filled_root.2 hroot
    · exact h.filled (Nat.lt_of_lt_of_le hi.lt (by decide : sb.ninodes ≤ NINO)) hne

/-- **The kernel keeps the blocks of an image of `mkfs` apart**, in every run from it. -/
theorem kernel_keeps_image_apart (hn : files.length ≤ 206) (hroot : (2 + files.length) % 32 ≠ 0)
    (hok : main files = .ok s) {icache : ℕ → Inode} (hempty : ∀ k < NINODE, (icache k).ref = 0)
    {t : State} (h : Reach step Allowed ⟨mounted s, icache⟩ t) : Coherent t :=
  Coherent.of_reach
    (Booted.coherent ⟨(main_built (le_NINO hn) hok).consistent hroot, hempty⟩) h

/-- An image with one file. -/
theorem kernel_keeps_image_apart_one : ∃ s, main [⟨[97], [[1, 2, 3]]⟩] = .ok s ∧
    ∀ t, Reach step Allowed ⟨mounted s, fun _ => ⟨0, 0, false, .zero⟩⟩ t → Coherent t :=
  (exists_main (by decide) (by decide) (by decide) (by decide)).imp fun _ h =>
    ⟨h.1, fun _ => kernel_keeps_image_apart (by decide) (by decide) h.1 fun _ _ => rfl⟩

end Mkfs
end Xv6
