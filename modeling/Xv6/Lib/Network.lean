/-
# Processes with one pipe each

A network of processes that send messages to each other.  Every process has one
pipe, from which it reads what the others wrote to it, each record with its
sender, and an outbox of records it has still to write, each with its receiver.
A process *takes* the first record of its pipe, makes a *turn* (a new local
state, and records appended to its outbox), and *writes* the first record of its
outbox to the pipe it is meant for.

The order in which records of different senders meet on a pipe is arbitrary, so
protocols are argued about through `Network.between`: the messages on their way
from one process to another, oldest first, wherever they are.  Each of these
lists is a queue of its own.  Writing moves a record and changes none of them
(`between_write`); a turn appends to the lists of its process (`between_turn`);
taking removes the first element of one of them (`between_take`).
-/

import Xv6.Lib.Update

namespace Xv6
namespace Lib

open Function

variable {σ μ : Type*}

/-- Local states, records to be written and records to be read, by process. -/
structure Network (σ μ : Type*) where
  node : ℕ → σ
  outbox : ℕ → List (ℕ × μ)
  pipe : ℕ → List (ℕ × μ)

/-- The messages of the records marked `k`. -/
def marked (k : ℕ) (records : List (ℕ × μ)) : List μ :=
  (records.filter fun r => r.1 = k).map Prod.snd

@[simp] theorem marked_nil (k : ℕ) : marked k ([] : List (ℕ × μ)) = [] := rfl

@[simp] theorem marked_append (k : ℕ) (l l' : List (ℕ × μ)) :
    marked k (l ++ l') = marked k l ++ marked k l' := by
  simp [marked]

theorem marked_cons (k d : ℕ) (m : μ) (l : List (ℕ × μ)) :
    marked k ((d, m) :: l) = if d = k then m :: marked k l else marked k l := by
  unfold marked
  rw [List.filter_cons]
  split_ifs <;> simp_all

theorem mem_marked_singleton {k d : ℕ} {m x : μ} : x ∈ marked k [(d, m)] ↔ d = k ∧ x = m := by
  rw [marked_cons]
  split_ifs <;> simp_all

/-- One message for each of several receivers. -/
theorem mem_marked_map {k : ℕ} {m x : μ} {ds : List ℕ} :
    x ∈ marked k (ds.map fun d => (d, m)) ↔ k ∈ ds ∧ x = m := by
  simp [marked]
  tauto

theorem countP_marked_singleton (f : μ → Bool) (k d : ℕ) (m : μ) :
    (marked k [(d, m)]).countP f = if d = k ∧ f m then 1 else 0 := by
  rw [marked_cons]
  split_ifs <;> simp_all

theorem countP_marked_map (f : μ → Bool) (k : ℕ) (m : μ) {ds : List ℕ} (h : ds.Nodup) :
    (marked k (ds.map fun d => (d, m))).countP f = if k ∈ ds ∧ f m then 1 else 0 := by
  induction ds with
  | nil => simp
  | cons d ds ih =>
    obtain ⟨hd, hds⟩ := List.nodup_cons.1 h
    rw [List.map_cons, marked_cons]
    split_ifs with hdk hk hk
    · subst hdk
      rw [List.countP_cons_of_pos hk.2, ih hds, if_neg fun h => hd h.1]
    · subst hdk
      have hm : ¬ f m := fun hm => hk ⟨List.mem_cons_self, hm⟩
      rw [List.countP_cons_of_neg hm, ih hds, if_neg fun h => hm h.2]
    · have hmem := (List.mem_cons.1 hk.1).resolve_left (Ne.symm hdk)
      rw [ih hds, if_pos ⟨hmem, hk.2⟩]
    · rw [ih hds, if_neg fun h => hk ⟨List.mem_cons_of_mem _ h.1, h.2⟩]

namespace Network

/-- The messages on their way from `j` to `p`, oldest first. -/
def between (s : Network σ μ) (j p : ℕ) : List μ :=
  marked j (s.pipe p) ++ marked p (s.outbox j)

/-- Process `i` goes to the local state `n` and has the records `out` to write. -/
def turn (s : Network σ μ) (i : ℕ) (n : σ) (out : List (ℕ × μ)) : Network σ μ :=
  { s with
    node := update s.node i n
    outbox := update s.outbox i (s.outbox i ++ out) }

/-- Process `i` reads a record and leaves the others. -/
def take (s : Network σ μ) (i : ℕ) (rest : List (ℕ × μ)) : Network σ μ :=
  { s with pipe := update s.pipe i rest }

/-- Process `i` writes its next record. -/
def write (s : Network σ μ) (i : ℕ) : Option (Network σ μ) :=
  match s.outbox i with
  | [] => none
  | (d, m) :: rest =>
      some { s with
        outbox := update s.outbox i rest
        pipe := update s.pipe d (s.pipe d ++ [(i, m)]) }

@[simp] theorem turn_node_self (s : Network σ μ) (i : ℕ) (n : σ) (out : List (ℕ × μ)) :
    (s.turn i n out).node i = n :=
  Function.update_self ..

theorem turn_node_of_ne (s : Network σ μ) {i j : ℕ} (h : j ≠ i) (n : σ) (out : List (ℕ × μ)) :
    (s.turn i n out).node j = s.node j :=
  Function.update_of_ne h ..

variable {s s' : Network σ μ} {i : ℕ}

theorem write_node (h : s.write i = some s') : s'.node = s.node := by
  unfold write at h
  split at h
  · cases h
  · cases h
    rfl

/-- **Writing changes no channel.** -/
theorem between_write (h : s.write i = some s') : s'.between = s.between := by
  unfold write at h
  split at h
  · cases h
  next d m rest hout =>
    cases h
    funext j p
    unfold between
    dsimp only
    rw [Function.update_apply, Function.update_apply]
    split_ifs with hp hj hj
    · subst hp hj
      rw [hout]
      simp [marked_cons]
    · subst hp
      rw [marked_append, marked_cons, if_neg (Ne.symm hj), marked_nil, List.append_nil]
    · subst hj
      rw [hout, marked_cons, if_neg (Ne.symm hp)]
    · rfl

/-- **A turn appends** to the channels that leave its process. -/
theorem between_turn (s : Network σ μ) (i : ℕ) (n : σ) (out : List (ℕ × μ)) (j p : ℕ) :
    (s.turn i n out).between j p = s.between j p ++ if j = i then marked p out else [] := by
  unfold between turn
  dsimp only
  rw [Function.update_apply]
  split_ifs with hj
  · subst hj
    rw [marked_append, List.append_assoc]
  · rw [List.append_nil]

theorem mem_between_turn {s : Network σ μ} {i : ℕ} {n : σ} {out : List (ℕ × μ)} {x : μ} {j p : ℕ} :
    x ∈ (s.turn i n out).between j p ↔ x ∈ s.between j p ∨ (j = i ∧ x ∈ marked p out) := by
  rw [between_turn, List.mem_append]
  split_ifs <;> simp_all

theorem countP_between_turn (f : μ → Bool) (s : Network σ μ) (i : ℕ) (n : σ)
    (out : List (ℕ × μ)) (j p : ℕ) :
    ((s.turn i n out).between j p).countP f =
      (s.between j p).countP f + if j = i then (marked p out).countP f else 0 := by
  rw [between_turn, List.countP_append]
  split_ifs <;> rfl

/-- **Taking removes** the first message of one channel. -/
theorem between_take {k : ℕ} {m : μ} {rest : List (ℕ × μ)} (h : s.pipe i = (k, m) :: rest)
    (j p : ℕ) :
    s.between j p = (if j = k ∧ p = i then [m] else []) ++ (s.take i rest).between j p := by
  unfold between take
  dsimp only
  rw [Function.update_apply]
  split_ifs with hjp hp hp
  · obtain ⟨rfl, rfl⟩ := hjp
    rw [h, marked_cons, if_pos rfl]
    rfl
  · exact absurd hjp.2 hp
  · subst hp
    rw [h, marked_cons, if_neg fun hk => hjp ⟨hk.symm, rfl⟩]
    rfl
  · rfl

/-- Process `i` takes the first record of its pipe and makes a turn. -/
def receive (s : Network σ μ) (i : ℕ) (rest : List (ℕ × μ)) (n : σ) (out : List (ℕ × μ)) :
    Network σ μ :=
  (s.take i rest).turn i n out

@[simp] theorem receive_node_self (s : Network σ μ) (i : ℕ) (rest : List (ℕ × μ)) (n : σ)
    (out : List (ℕ × μ)) : (s.receive i rest n out).node i = n :=
  turn_node_self ..

theorem receive_node_of_ne (s : Network σ μ) {i j : ℕ} (h : j ≠ i) (rest : List (ℕ × μ)) (n : σ)
    (out : List (ℕ × μ)) : (s.receive i rest n out).node j = s.node j :=
  turn_node_of_ne _ h ..

section Receive

variable {k : ℕ} {m : μ} {rest : List (ℕ × μ)}

/-- **The law of a received message**: what was taken before what is left is what
was there before what was sent. -/
theorem between_receive (h : s.pipe i = (k, m) :: rest) (n : σ) (out : List (ℕ × μ)) (j p : ℕ) :
    (if j = k ∧ p = i then [m] else []) ++ (s.receive i rest n out).between j p =
      s.between j p ++ if j = i then marked p out else [] := by
  rw [receive, between_turn, between_take h j p, List.append_assoc]

theorem countP_between_receive (f : μ → Bool) (h : s.pipe i = (k, m) :: rest) (n : σ)
    (out : List (ℕ × μ)) (j p : ℕ) :
    (if j = k ∧ p = i ∧ f m then 1 else 0) + ((s.receive i rest n out).between j p).countP f =
      (s.between j p).countP f + if j = i then (marked p out).countP f else 0 := by
  have hcount := congrArg (List.countP f) (between_receive h n out j p)
  rw [List.countP_append, List.countP_append] at hcount
  split_ifs at hcount ⊢ <;> simp_all

theorem mem_of_mem_between_receive (h : s.pipe i = (k, m) :: rest) (n : σ) (out : List (ℕ × μ))
    {x : μ} {j p : ℕ} (hx : x ∈ (s.receive i rest n out).between j p) :
    x ∈ s.between j p ∨ (j = i ∧ x ∈ marked p out) := by
  have hmem := List.mem_append_right (if j = k ∧ p = i then [m] else []) hx
  rw [between_receive h, List.mem_append] at hmem
  split_ifs at hmem <;> simp_all

/-- Nothing but the message taken gets lost. -/
theorem mem_between_receive_or (h : s.pipe i = (k, m) :: rest) (n : σ) (out : List (ℕ × μ))
    {x : μ} {j p : ℕ} (hx : x ∈ s.between j p) :
    x ∈ (s.receive i rest n out).between j p ∨ (j = k ∧ p = i ∧ x = m) := by
  have hmem := List.mem_append_left (if j = i then marked p out else []) hx
  rw [← between_receive h n out, List.mem_append] at hmem
  split_ifs at hmem with hjp
  · exact hmem.symm.imp_right fun hm => ⟨hjp.1, hjp.2, List.mem_singleton.1 hm⟩
  · exact .inl (hmem.resolve_left List.not_mem_nil)

theorem mem_between_receive_of_ne (h : s.pipe i = (k, m) :: rest) {n : σ} {out : List (ℕ × μ)}
    {x : μ} {j p : ℕ} (hne : x ≠ m) (hx : x ∈ s.between j p) :
    x ∈ (s.receive i rest n out).between j p :=
  (mem_between_receive_or h n out hx).resolve_right fun hm => hne hm.2.2

theorem mem_between_receive_sent {n : σ} {x : μ} :
    x ∈ (s.receive i rest n [(k, x)]).between i k :=
  mem_between_turn.2 (.inr ⟨rfl, mem_marked_singleton.2 ⟨rfl, rfl⟩⟩)

end Receive

end Network

end Lib
end Xv6
