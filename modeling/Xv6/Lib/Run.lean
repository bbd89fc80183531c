/-
# Runs of a partial step function

A program's transitions are given by a partial step function `σ → α → Option σ`:
an action taken in a state, and the state it leads to, or nothing where the
action is not enabled.  A *guard* `ok : σ → α → Prop` restricts the actions a
run may take in a state; the trivial guard leaves every run in.

`Reach step ok s t` is reachability by guarded steps.  `Reach.invariant` is the
induction every safety result goes through, and `reach_of_foldlM_guarded` and
`exists_reach_of_any` turn an evaluated list of actions into a run, which is how a
concrete schedule is exhibited.  `foldlM_invariant` is the rule for a `for` loop that
may fail.
-/

import Mathlib

namespace Xv6
namespace Lib

variable {σ α : Type*}

/-- One step of `step` by some action that the guard allows in the state it is
taken from. -/
def StepBy (step : σ → α → Option σ) (ok : σ → α → Prop) (s t : σ) : Prop :=
  ∃ a, ok s a ∧ step s a = some t

/-- The guard that forbids nothing. -/
def anyStep : σ → α → Prop := fun _ _ => True

instance (s : σ) (a : α) : Decidable (anyStep s a) := inferInstanceAs (Decidable True)

/-- The step function that refuses what the guard forbids. -/
def guarded (step : σ → α → Option σ) (ok : σ → α → Prop) [∀ s a, Decidable (ok s a)]
    (s : σ) (a : α) : Option σ :=
  if ok s a then step s a else none

/-- Reachability by guarded steps. -/
def Reach (step : σ → α → Option σ) (ok : σ → α → Prop) : σ → σ → Prop :=
  Relation.ReflTransGen (StepBy step ok)

variable {step : σ → α → Option σ} {ok ok' : σ → α → Prop} {s t u : σ}

theorem Reach.refl : Reach step ok s s := Relation.ReflTransGen.refl

theorem Reach.tail (h : Reach step ok s t) (a : α) (hok : ok t a) (ha : step t a = some u) :
    Reach step ok s u :=
  Relation.ReflTransGen.tail h ⟨a, hok, ha⟩

theorem Reach.trans (h : Reach step ok s t) (h' : Reach step ok t u) : Reach step ok s u :=
  Relation.ReflTransGen.trans h h'

/-- **The invariant rule.**  What holds at the start and is kept by every
allowed step holds in every state a guarded run reaches. -/
theorem Reach.invariant {I : σ → Prop} (h : Reach step ok s t) (h₀ : I s)
    (hstep : ∀ x a y, I x → ok x a → step x a = some y → I y) : I t := by
  induction h with
  | refl => exact h₀
  | tail _ hs ih =>
    obtain ⟨a, hok, ha⟩ := hs
    exact hstep _ a _ ih hok ha

/-- **An evaluated schedule is a run.** -/
theorem reach_of_foldlM (acts : List α) (h : acts.foldlM step s = some t) :
    Reach step anyStep s t := by
  induction acts generalizing s with
  | nil =>
    obtain rfl : s = t := by simpa using h
    exact Reach.refl
  | cons a acts ih =>
    obtain ⟨x, hx, hrest⟩ : ∃ x, step s a = some x ∧ acts.foldlM step x = some t := by
      simpa [List.foldlM_cons, Option.bind_eq_some_iff] using h
    exact (Reach.refl.tail a trivial hx).trans (ih hrest)

/-- **So is one evaluated under a guard.** -/
theorem reach_of_foldlM_guarded [∀ s a, Decidable (ok s a)] (acts : List α)
    (h : acts.foldlM (guarded step ok) s = some t) : Reach step ok s t := by
  induction acts generalizing s with
  | nil =>
    obtain rfl : s = t := by simpa using h
    exact Reach.refl
  | cons a acts ih =>
    obtain ⟨x, hx, hrest⟩ :
        ∃ x, guarded step ok s a = some x ∧ acts.foldlM (guarded step ok) x = some t := by
      simpa [List.foldlM_cons, Option.bind_eq_some_iff] using h
    unfold guarded at hx
    split at hx
    next hok => exact (Reach.refl.tail a hok hx).trans (ih hrest)
    · cases hx

/-- A run to a state of which something is asked. -/
theorem exists_reach_of_any [∀ s a, Decidable (ok s a)] {Q : σ → Prop} [DecidablePred Q]
    (acts : List α) (h : ((acts.foldlM (guarded step ok) s).any fun t => decide (Q t)) = true) :
    ∃ t, Reach step ok s t ∧ Q t := by
  obtain ⟨t, ht, hQ⟩ := (Option.any_eq_true _ _).1 h
  exact ⟨t, reach_of_foldlM_guarded acts ht, of_decide_eq_true hQ⟩

/-- A run that goes on under another guard, with something asked of both states. -/
theorem exists_reach_reach_of_any [∀ s a, Decidable (ok s a)] [∀ s a, Decidable (ok' s a)]
    {Q : σ → σ → Prop} [∀ t u, Decidable (Q t u)] (acts acts' : List α)
    (h : ((acts.foldlM (guarded step ok) s).any fun t =>
      (acts'.foldlM (guarded step ok') t).any fun u => decide (Q t u)) = true) :
    ∃ t u, Reach step ok s t ∧ Reach step ok' t u ∧ Q t u := by
  obtain ⟨t, ht, h⟩ := (Option.any_eq_true _ _).1 h
  obtain ⟨u, hu, hQ⟩ := (Option.any_eq_true _ _).1 h
  exact ⟨t, u, reach_of_foldlM_guarded acts ht, reach_of_foldlM_guarded acts' hu,
    of_decide_eq_true hQ⟩

/-! ### Loops -/

section loops

variable {ε β : Type*} {s t : σ} {I : ℕ → σ → Prop}

/-- **What every turn of a loop keeps holds when it ends.** -/
theorem foldlM_invariant {f : σ → β → Except ε σ} {l : List β} (h₀ : I 0 s)
    (hstep : ∀ i b x y, l[i]? = some b → I i x → f x b = .ok y → I (i + 1) y)
    (h : l.foldlM f s = .ok t) : I l.length t := by
  induction l using List.reverseRecOn generalizing t with
  | nil =>
    obtain rfl : s = t := Except.ok.inj h
    exact h₀
  | append_singleton l b ih =>
    rw [List.foldlM_append] at h
    cases hfirst : l.foldlM f s with
    | error e =>
      rw [hfirst] at h
      cases h
    | ok x =>
      rw [hfirst] at h
      have hlast : f x b = .ok t := by
        change (f x b >>= fun y => .ok y) = .ok t at h
        cases hb : f x b with
        | error e =>
          rw [hb] at h
          cases h
        | ok y =>
          rw [hb] at h
          exact h
      have hx : I l.length x := by
        refine ih (fun i c y z hc => hstep i c y z ?_) hfirst
        rw [List.getElem?_append_left (List.getElem?_eq_some_iff.1 hc).1, hc]
      rw [List.length_append, List.length_singleton]
      exact hstep l.length b x t List.getElem?_concat_length hx hlast

/-- A loop over `0, …, n - 1`. -/
theorem foldlM_range_invariant {f : σ → ℕ → Except ε σ} (n : ℕ) (h₀ : I 0 s)
    (hstep : ∀ i < n, ∀ x y, I i x → f x i = .ok y → I (i + 1) y)
    (h : (List.range n).foldlM f s = .ok t) : I n t := by
  rw [← List.length_range (n := n)]
  refine foldlM_invariant h₀ (fun i b x y hb => ?_) h
  obtain ⟨hi, rfl⟩ := List.getElem?_eq_some_iff.1 hb
  rw [List.getElem_range]
  exact hstep i (by rwa [List.length_range] at hi) x y

/-- A loop over `0, …, n - 1` ends if every turn does. -/
theorem exists_foldlM_range {f : σ → ℕ → Except ε σ} (n : ℕ) (h₀ : I 0 s)
    (hstep : ∀ i < n, ∀ x, I i x → ∃ y, f x i = .ok y ∧ I (i + 1) y) :
    ∃ t, (List.range n).foldlM f s = .ok t ∧ I n t := by
  induction n with
  | zero => exact ⟨s, rfl, h₀⟩
  | succ n ih =>
    obtain ⟨x, hx, hI⟩ := ih fun i hi => hstep i (Nat.lt_succ_of_lt hi)
    obtain ⟨y, hy, hI'⟩ := hstep n (Nat.lt_succ_self n) x hI
    refine ⟨y, ?_, hI'⟩
    rw [List.range_succ, List.foldlM_append, hx]
    change (f x n >>= fun y => .ok y) = .ok y
    rw [hy]
    rfl

/-- A loop over a list and its positions. -/
theorem foldlM_zipIdx_invariant {f : σ → β × ℕ → Except ε σ} {l : List β} (h₀ : I 0 s)
    (hstep : ∀ i b x y, l[i]? = some b → I i x → f x (b, i) = .ok y → I (i + 1) y)
    (h : l.zipIdx.foldlM f s = .ok t) : I l.length t := by
  rw [← List.length_zipIdx (l := l) (i := 0)]
  refine foldlM_invariant h₀ (fun i ⟨b, j⟩ x y hb => ?_) h
  obtain ⟨c, hc, heq⟩ := Option.map_eq_some_iff.1 (List.getElem?_zipIdx .. ▸ hb)
  cases heq
  rw [Nat.zero_add]
  exact hstep i b x y hc

end loops

end Lib
end Xv6
