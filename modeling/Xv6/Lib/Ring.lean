/-
# Circular doubly linked lists

Cells `ι` are linked by two functions, `next` and `prev`.  `Ring next prev h L`:
from the cell `h` the links lead through the cells `L`, each once, back to `h`.
`seek` goes along the links until it finds a cell or is back at `h`; on a ring it
is `List.find?`.  The two updates are taking a cell out of a ring and putting one
behind `h`, as the usual four and two pointer writes do.
-/

import Mathlib

namespace Xv6
namespace Lib

open Function

variable {ι : Type*} {next prev next' prev' : ι → ι} {a b c h : ι} {L M : List ι}

/-- The links lead from `a` through `L` to `c`, and back. -/
def Path (next prev : ι → ι) : ι → List ι → ι → Prop
  | a, [], c => next a = c ∧ prev c = a
  | a, b :: L, c => (next a = b ∧ prev b = a) ∧ Path next prev b L c

/-- A ring of cells without repetition. -/
structure Ring (next prev : ι → ι) (h : ι) (L : List ι) : Prop where
  path : Path next prev h L h
  nodup : (h :: L).Nodup

theorem path_append :
    Path next prev a (L ++ b :: M) c ↔ Path next prev a L b ∧ Path next prev b M c := by
  induction L generalizing a with
  | nil => exact Iff.rfl
  | cons d L ih =>
    rw [List.cons_append, Path, Path, ih]
    exact and_assoc.symm

/-- Links elsewhere do not matter. -/
theorem Path.congr (hp : Path next prev a L c) (hnext : ∀ x ∈ a :: L, next' x = next x)
    (hprev : ∀ x, x ∈ L ∨ x = c → prev' x = prev x) : Path next' prev' a L c := by
  induction L generalizing a with
  | nil =>
    refine ⟨(hnext a List.mem_cons_self).trans hp.1, (hprev c (.inr rfl)).trans hp.2⟩
  | cons d L ih =>
    obtain ⟨⟨hna, hpd⟩, hp⟩ := hp
    refine ⟨⟨(hnext a List.mem_cons_self).trans hna,
      (hprev d (.inl List.mem_cons_self)).trans hpd⟩, ih hp (fun x hx => ?_) fun x hx => ?_⟩
    · exact hnext x (List.mem_cons_of_mem a hx)
    · exact hprev x (hx.imp_left (List.mem_cons_of_mem d))

/-- The links read the other way. -/
theorem Path.reverse (hp : Path next prev a L c) : Path prev next c L.reverse a := by
  induction L generalizing a with
  | nil => exact ⟨hp.2, hp.1⟩
  | cons d L ih =>
    rw [List.reverse_cons, path_append]
    exact ⟨ih hp.2, hp.1.2, hp.1.1⟩

theorem Path.next_mem (hp : Path next prev a L c) : next a ∈ L ∨ next a = c := by
  cases L with
  | nil => exact .inr hp.1
  | cons d L => exact .inl (hp.1.1 ▸ List.mem_cons_self)

theorem Path.prev_mem (hp : Path next prev a L c) : prev c ∈ a :: L := by
  rcases hp.reverse.next_mem with hmem | heq
  · exact List.mem_cons_of_mem a (List.mem_reverse.1 hmem)
  · exact heq ▸ List.mem_cons_self

section updates

variable [DecidableEq ι]

/-- The cell between two paths is taken out. -/
theorem Path.join (hp : Path next prev a L b) (hq : Path next prev b M c)
    (hnodup : (a :: L ++ b :: M).Nodup) (hcL : c ∉ L) (hcM : c ∉ M) (hcb : c ≠ b) :
    Path (update next (prev b) (next b)) (update prev (next b) (prev b))
      a (L ++ M) c := by
  induction L generalizing a with
  | nil =>
    obtain ⟨-, hpb⟩ := hp
    obtain ⟨haM, hnodup⟩ := List.nodup_cons.1 hnodup
    have haM' : a ∉ M := fun hmem => haM (List.mem_cons_of_mem b hmem)
    rw [hpb, List.nil_append]
    cases M with
    | nil =>
      rw [hq.1]
      exact ⟨update_self .., update_self ..⟩
    | cons d M =>
      obtain ⟨⟨hnb, -⟩, hq⟩ := hq
      rw [hnb]
      refine ⟨⟨update_self .., update_self ..⟩, hq.congr (fun x hx => ?_)
        fun x hx => ?_⟩
      · refine update_of_ne ?_ ..
        rintro rfl
        exact haM' hx
      · refine update_of_ne ?_ ..
        rintro rfl
        rcases hx with hx | rfl
        · exact (List.nodup_cons.1 (List.nodup_cons.1 hnodup).2).1 hx
        · exact hcM List.mem_cons_self
  | cons d L ih =>
    obtain ⟨⟨hna, hpd⟩, hp⟩ := hp
    obtain ⟨haL, hnodup⟩ := List.nodup_cons.1 hnodup
    have hrest := ih hp hnodup (fun hmem => hcL (List.mem_cons_of_mem d hmem))
    refine ⟨⟨?_, ?_⟩, hrest⟩
    · rw [update_of_ne, hna]
      rintro heq
      exact haL (List.mem_append_left _ (heq ▸ hp.prev_mem))
    · rw [update_of_ne, hpd]
      intro heq
      rcases hq.next_mem with hmem | heq'
      · refine (List.nodup_cons.1 hnodup).1 (List.mem_append_right L ?_)
        rw [heq]
        exact List.mem_cons_of_mem b hmem
      · exact hcL (heq' ▸ heq ▸ List.mem_cons_self)

/-- **A cell is taken out of a ring.** -/
theorem Ring.unlink (hr : Ring next prev h (L ++ b :: M)) :
    Ring (update next (prev b) (next b)) (update prev (next b) (prev b))
      h (L ++ M) := by
  obtain ⟨hpath, hnodup⟩ := hr
  obtain ⟨hp, hq⟩ := path_append.1 hpath
  obtain ⟨hh, hrest⟩ := List.nodup_cons.1 hnodup
  simp only [List.mem_append, List.mem_cons, not_or] at hh
  refine ⟨hp.join hq hnodup hh.1 hh.2.2 hh.2.1, List.nodup_cons.2 ⟨?_, ?_⟩⟩
  · simp only [List.mem_append, not_or]
    exact ⟨hh.1, hh.2.2⟩
  · exact hrest.sublist (List.Sublist.append_left (List.sublist_cons_self b M) L)

/-- **A cell is put behind the head of a ring.** -/
theorem Ring.push (hr : Ring next prev h L) (hb : b ∉ h :: L) :
    Ring (update (update next b (next h)) h b)
      (update (update prev b h) (next h) b) h (b :: L) := by
  obtain ⟨hpath, hnodup⟩ := hr
  have hbh : b ≠ h := fun heq => hb (heq ▸ List.mem_cons_self)
  have hbL : b ∉ L := fun hmem => hb (List.mem_cons_of_mem h hmem)
  obtain ⟨hhL, hL⟩ := List.nodup_cons.1 hnodup
  refine ⟨⟨⟨update_self .., ?_⟩, ?_⟩, List.nodup_cons.2 ⟨?_, List.nodup_cons.2 ⟨hbL, hL⟩⟩⟩
  · rw [update_of_ne, update_self]
    rcases hpath.next_mem with hmem | heq
    · exact fun heq => hbL (heq ▸ hmem)
    · rwa [heq]
  · cases L with
    | nil =>
      rw [hpath.1]
      refine ⟨?_, update_self ..⟩
      rw [update_of_ne hbh, update_self]
    | cons d L =>
      obtain ⟨⟨hnh, -⟩, hpath⟩ := hpath
      rw [hnh]
      refine ⟨⟨?_, update_self ..⟩, hpath.congr (fun x hx => ?_) fun x hx => ?_⟩
      · rw [update_of_ne hbh, update_self]
      · rw [update_of_ne, update_of_ne]
        · rintro rfl
          exact hbL hx
        · rintro rfl
          exact hhL hx
      · have hxd : x ≠ d := by
          rintro rfl
          rcases hx with hx | rfl
          · exact (List.nodup_cons.1 hL).1 hx
          · exact hhL List.mem_cons_self
        rw [update_of_ne hxd, update_of_ne]
        rintro rfl
        rcases hx with hx | rfl
        · exact hbL (List.mem_cons_of_mem d hx)
        · exact hbh rfl
  · simp only [List.mem_cons, not_or]
    exact ⟨hbh.symm, hhL⟩

/-- Go along the links from `b` until a cell is found or `h` is reached. -/
def seek (next : ι → ι) (h : ι) (p : ι → Bool) : ℕ → ι → Option ι
  | 0, _ => none
  | fuel + 1, b => if b = h then none else if p b then some b else seek next h p fuel (next b)

theorem Path.seek_eq (hp : Path next prev a L h) (hh : h ∉ L) (p : ι → Bool) {fuel : ℕ}
    (hfuel : L.length < fuel) : seek next h p fuel (next a) = L.find? p := by
  induction L generalizing a fuel with
  | nil =>
    obtain ⟨fuel, rfl⟩ := Nat.exists_eq_succ_of_ne_zero (Nat.ne_of_gt hfuel)
    rw [hp.1, seek, if_pos rfl]
    rfl
  | cons d L ih =>
    obtain ⟨⟨hna, -⟩, hp⟩ := hp
    rw [List.length_cons] at hfuel
    obtain ⟨fuel, rfl⟩ := Nat.exists_eq_succ_of_ne_zero (Nat.ne_zero_of_lt hfuel)
    have hdh : d ≠ h := fun heq => hh (heq ▸ List.mem_cons_self)
    rw [hna, seek, if_neg hdh]
    cases hpd : p d with
    | true => rw [if_pos rfl, List.find?_cons_of_pos hpd]
    | false =>
      rw [if_neg (by decide), List.find?_cons_of_neg (by simp [hpd])]
      exact ih hp (fun hmem => hh (List.mem_cons_of_mem d hmem)) (Nat.lt_of_succ_lt_succ hfuel)

/-- **Going along a ring** finds its first cell of a kind. -/
theorem Ring.seek_next (hr : Ring next prev h L) (p : ι → Bool) {fuel : ℕ}
    (hfuel : L.length < fuel) : seek next h p fuel (next h) = L.find? p :=
  hr.path.seek_eq (List.nodup_cons.1 hr.nodup).1 p hfuel

/-- **Going the other way** finds the last one. -/
theorem Ring.seek_prev (hr : Ring next prev h L) (p : ι → Bool) {fuel : ℕ}
    (hfuel : L.length < fuel) : seek prev h p fuel (prev h) = L.reverse.find? p :=
  hr.path.reverse.seek_eq (by simpa using (List.nodup_cons.1 hr.nodup).1) p
    (by rwa [List.length_reverse])

end updates

end Lib
end Xv6
