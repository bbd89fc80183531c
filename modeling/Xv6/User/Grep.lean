/-
# `grep` and the sizes of its reads

`grep` and its matcher (`xv6/grep.c`, lines 7-36 and 66-107).  The buffer is a function of
the index; a read puts a chunk behind the `m` bytes that are left from the reads before,
a zero is put behind that, and the inner loop goes from newline to newline.  A string is
taken as the list of its bytes before the zero.

A chunk without a newline is lost with all that was left before it: `p` is then still `buf`,
and `m` is set to `0` (`grep_loses_line`).  For a text cut into chunks, `grep` writes the lines
that match, for every pattern, just if every chunk has a newline and none has a zero
(`grep_lines`).  That this is needed shows in the pattern that matches all: what it writes and
what is left in the buffer are as many bytes as were read, until bytes are dropped.
-/

import Xv6.Lib.Bytes

namespace Xv6
namespace Grep

open Lib Function

/-- `'\n'`. -/
def NEWLINE : Byte := 10

/-! ### The matcher -/

/-- `matchstar`, for the rest of the expression `here`. -/
def matchstar (here : List Byte → Bool) (c : Byte) : List Byte → Bool
  | [] => here []
  | t :: text => here (t :: text) || ((t == c || c == 46) && matchstar here c text)

/-- The last two tests of `matchhere`, for an expression that starts with `c`. -/
def matchone (here : List Byte → Bool) (c : Byte) (last : Bool) (text : List Byte) : Bool :=
  if c = 36 ∧ last then text.isEmpty
  else
    match text with
    | [] => false
    | t :: text => (c == 46 || c == t) && here text

/-- `matchhere`. -/
def matchhere : List Byte → List Byte → Bool
  | [], _ => true
  | [c], text => matchone (matchhere []) c true text
  | c :: d :: re, text =>
      if d = 42 then matchstar (matchhere re) c text
      else matchone (matchhere (d :: re)) c false text

/-- The loop of `match`. -/
def search (re : List Byte) : List Byte → Bool
  | [] => matchhere re []
  | t :: text => matchhere re (t :: text) || search re text

/-- `match`. -/
def «match» (re text : List Byte) : Bool :=
  if re.head? = some 94 then matchhere re.tail text else search re text

/-! ### The loops -/

/-- Bytes of `buf`. -/
def BUFSIZE : ℕ := 1024

/-- `strchr`, in the `n` bytes from `p` on. -/
def strchr (buf : ℕ → Byte) (c : Byte) : ℕ → ℕ → Option ℕ
  | 0, _ => none
  | n + 1, p =>
      if buf p = 0 then none else if buf p = c then some p else strchr buf c n (p + 1)

/-- The string at `p`, of at most `n` bytes. -/
def str (buf : ℕ → Byte) : ℕ → ℕ → List Byte
  | 0, _ => []
  | n + 1, p => if buf p = 0 then [] else buf p :: str buf n (p + 1)

/-- The buffer and what was written. -/
structure State where
  buf : ℕ → Byte
  m : ℕ
  out : List (List Byte)

/-- The `n` bytes from `p` on. -/
def bytes (buf : ℕ → Byte) (p n : ℕ) : List Byte := (List.range' p n).map buf

/-- The inner loop, with at most `n` turns, and `p` at its end. -/
def scan (re : List Byte) : ℕ → State → ℕ → State × ℕ
  | 0, s, p => (s, p)
  | n + 1, s, p =>
      match strchr s.buf NEWLINE (BUFSIZE - p) p with
      | none => (s, p)
      | some q =>
          let cut := update s.buf q 0
          if «match» re (str cut (BUFSIZE - p) p) then
            let buf := update cut q NEWLINE
            scan re n ⟨buf, s.m, s.out ++ [bytes buf p (q + 1 - p)]⟩ (q + 1)
          else scan re n { s with buf := cut } (q + 1)

/-- A turn of `grep` with what the read returns: a chunk of the requested size at most. -/
def turn (re : List Byte) (s : State) (chunk : List Byte) : Option State :=
  if chunk = [] ∨ BUFSIZE - s.m - 1 < chunk.length then none
  else
    let m := s.m + chunk.length
    let buf := update (blit s.buf s.m chunk) m 0
    let (s, p) := scan re BUFSIZE ⟨buf, m, s.out⟩ 0
    if p = 0 then some { s with m := 0 }
    else
      -- `memmove(buf, p, m)`
      some { s with m := m - p, buf := blit s.buf 0 (bytes s.buf p (m - p)) }

/-- `grep`, over the chunks that its reads return. -/
def grep (re : List Byte) (s : State) (chunks : List (List Byte)) : Option State :=
  chunks.foldlM (turn re) s

/-! ### Lines -/

/-- The lines of a text, without their newlines, after `acc` of the first one. -/
def lines : List Byte → List Byte → List (List Byte)
  | _, [] => []
  | acc, c :: cs => if c = NEWLINE then acc :: lines [] cs else lines (acc ++ [c]) cs

/-- What follows the last newline. -/
def rest : List Byte → List Byte → List Byte
  | acc, [] => acc
  | acc, c :: cs => if c = NEWLINE then rest [] cs else rest (acc ++ [c]) cs

/-- What `grep` is to write: the lines that match, each with its newline. -/
def wanted (re : List Byte) (acc text : List Byte) : List (List Byte) :=
  ((lines acc text).filter («match» re)).map (· ++ [NEWLINE])

variable {re acc xs ys chunk text : List Byte} {buf : ℕ → Byte} {n k p : ℕ} {s t : State}

theorem lines_append (acc xs ys : List Byte) :
    lines acc (xs ++ ys) = lines acc xs ++ lines (rest acc xs) ys := by
  induction xs generalizing acc with
  | nil => rfl
  | cons c cs ih =>
    rw [List.cons_append, lines, lines, rest]
    split
    · rw [ih, List.cons_append]
    · exact ih _

theorem rest_append (acc xs ys : List Byte) : rest acc (xs ++ ys) = rest (rest acc xs) ys := by
  induction xs generalizing acc with
  | nil => rfl
  | cons c cs ih =>
    rw [List.cons_append, rest, rest]
    split
    · exact ih _
    · exact ih _

theorem wanted_append (re acc xs ys : List Byte) :
    wanted re acc (xs ++ ys) = wanted re acc xs ++ wanted re (rest acc xs) ys := by
  rw [wanted, lines_append, List.filter_append, List.map_append]
  rfl

/-- Without a newline there is no line yet. -/
theorem lines_of_notMem (h : NEWLINE ∉ xs) : lines acc xs = [] ∧ rest acc xs = acc ++ xs := by
  induction xs generalizing acc with
  | nil => exact ⟨rfl, (List.append_nil _).symm⟩
  | cons c cs ih =>
    have hc := List.ne_of_not_mem_cons h
    rw [lines, rest, if_neg (Ne.symm hc), if_neg (Ne.symm hc), List.append_cons acc c cs]
    exact ih (List.not_mem_of_not_mem_cons h)

theorem wanted_of_notMem (h : NEWLINE ∉ xs) : wanted re acc xs = [] := by
  rw [wanted, (lines_of_notMem h).1]
  rfl

theorem mem_rest {x : Byte} (h : x ∈ rest acc xs) : x ∈ acc ∨ x ∈ xs ∧ x ≠ NEWLINE := by
  induction xs generalizing acc with
  | nil => exact .inl h
  | cons c cs ih =>
    rw [rest] at h
    split at h
    · obtain h | ⟨h, hx⟩ := ih h
      · exact absurd h List.not_mem_nil
      · exact .inr ⟨.tail _ h, hx⟩
    next hc =>
      obtain h | ⟨h, hx⟩ := ih h
      · obtain h | h := List.mem_append.1 h
        · exact .inl h
        · obtain rfl := List.mem_singleton.1 h
          exact .inr ⟨.head _, hc⟩
      · exact .inr ⟨.tail _ h, hx⟩

/-! ### A scan of the buffer -/

theorem bytes_add (buf : ℕ → Byte) (p m n : ℕ) :
    bytes buf p (m + n) = bytes buf p m ++ bytes buf (p + m) n := by
  rw [bytes, ← List.range'_append_1, List.map_append]
  rfl

theorem bytes_congr {f g : ℕ → Byte} (h : ∀ i, p ≤ i → i < p + n → f i = g i) :
    bytes f p n = bytes g p n := by
  refine List.map_congr_left fun i hi => ?_
  obtain ⟨h₁, h₂⟩ := List.mem_range'_1.1 hi
  exact h i h₁ h₂

theorem bytes_update {q : ℕ} (c : Byte) (h : q < p ∨ p + n ≤ q) :
    bytes (update buf q c) p n = bytes buf p n :=
  bytes_congr fun _ _ _ => update_of_ne (by omega) _ _

theorem bytes_blit (buf : ℕ → Byte) (p : ℕ) (xs : List Byte) :
    bytes (blit buf p xs) p xs.length = xs := by
  refine List.ext_getElem (by simp [bytes]) fun i _ hi => ?_
  simp only [bytes, List.getElem_map, List.getElem_range']
  rw [blit_mid (by omega) (by omega), Nat.one_mul, Nat.add_sub_cancel_left]
  exact (List.getElem_eq_getD 0).symm

/-- Before a zero or a `c`, `strchr` only goes on. -/
theorem strchr_skip {c : Byte} (h : ∀ x ∈ bytes buf p n, x ≠ 0 ∧ x ≠ c) :
    strchr buf c (n + k) p = strchr buf c k (p + n) := by
  induction n generalizing p with
  | zero => rw [Nat.zero_add, Nat.add_zero]
  | succ n ih =>
    obtain ⟨⟨h0, hc⟩, h⟩ := List.forall_mem_cons.1 h
    rw [Nat.succ_add_eq_add_succ, Nat.add_succ, strchr, if_neg h0, if_neg hc, ih h]
    congr 1
    omega

theorem str_skip (h : ∀ x ∈ bytes buf p n, x ≠ 0) :
    str buf (n + k) p = bytes buf p n ++ str buf k (p + n) := by
  induction n generalizing p with
  | zero => rw [Nat.zero_add, Nat.add_zero, bytes, List.range'_zero, List.map_nil, List.nil_append]
  | succ n ih =>
    obtain ⟨h0, h⟩ := List.forall_mem_cons.1 h
    rw [Nat.succ_add_eq_add_succ, Nat.add_succ, str, if_neg h0, ih h, Nat.succ_add_eq_add_succ]
    rfl

/-- **A turn of the inner loop.** A line is cut off, and written if it matches. -/
theorem scan_line (re : List Byte) (n : ℕ) {line : List Byte}
    (hline : bytes s.buf p line.length = line) (h0 : 0 ∉ line) (hnl : NEWLINE ∉ line)
    (hq : s.buf (p + line.length) = NEWLINE)
    (hlt : p + line.length < BUFSIZE) :
    ∃ buf, scan re (n + 1) s p = scan re n
        ⟨buf, s.m, s.out ++ wanted re [] (line ++ [NEWLINE])⟩ (p + line.length + 1) ∧
      ∀ i, p + line.length < i → buf i = s.buf i := by
  obtain ⟨k, hk⟩ : ∃ k, BUFSIZE - p = line.length + (k + 1) :=
    ⟨BUFSIZE - p - line.length - 1, by omega⟩
  have hcut : bytes (update s.buf (p + line.length) 0) p line.length = line := by
    rw [bytes_update 0 (.inr (Nat.le_refl _)), hline]
  have hback : bytes (update (update s.buf (p + line.length) 0)
      (p + line.length) NEWLINE) p (line.length + 1) = line ++ [NEWLINE] := by
    rw [update_idem, bytes_add, bytes_update NEWLINE (.inr (Nat.le_refl _)), hline]
    exact congrArg (line ++ [·]) (update_self _ _ _)
  have hchr : strchr s.buf NEWLINE (BUFSIZE - p) p = some (p + line.length) := by
    rw [hk, strchr_skip fun x hx => ?_, strchr, hq, if_neg (by decide), if_pos rfl]
    rw [hline] at hx
    exact ⟨fun h => h0 (h ▸ hx), fun h => hnl (h ▸ hx)⟩
  have hstr : str (update s.buf (p + line.length) 0) (BUFSIZE - p) p = line := by
    rw [hk, str_skip fun x hx => ?_, hcut, str, if_pos (update_self _ _ _),
      List.append_nil]
    rw [hcut] at hx
    exact fun h => h0 (h ▸ hx)
  have hwanted : wanted re [] (line ++ [NEWLINE]) =
      if «match» re line then [line ++ [NEWLINE]] else [] := by
    rw [wanted, lines_append, (lines_of_notMem hnl).1, (lines_of_notMem hnl).2]
    simp [lines, List.filter_cons, apply_ite (List.map (· ++ [NEWLINE]))]
  rw [scan, hchr, hwanted]
  dsimp only
  rw [hstr, Nat.add_assoc, Nat.add_sub_cancel_left, hback]
  split
  · refine ⟨_, rfl, fun i hi => ?_⟩
    rw [update_of_ne (by omega), update_of_ne (by omega)]
  · rw [List.append_nil]
    exact ⟨_, rfl, fun i hi => update_of_ne (by omega) _ _⟩

/-- The string `xs` lies at `p`. -/
structure Lies (buf : ℕ → Byte) (p : ℕ) (xs : List Byte) : Prop where
  bytes : bytes buf p xs.length = xs
  zero : buf (p + xs.length) = 0
  nonzero : 0 ∉ xs
  lt : p + xs.length < BUFSIZE

/-- **The inner loop** writes the lines that match and stops at what is left. -/
theorem scan_spec (h : Lies s.buf p xs) (hn : xs.length < n) :
    ∃ t q, scan re n s p = (t, q) ∧ t.out = s.out ++ wanted re [] xs ∧
      q + (rest [] xs).length = p + xs.length ∧
      bytes t.buf q (rest [] xs).length = rest [] xs ∧ p ≤ q ∧
      (NEWLINE ∈ xs → p < q) := by
  induction n generalizing s p xs with
  | zero => exact absurd hn (Nat.not_lt_zero _)
  | succ n ih =>
    by_cases hmem : NEWLINE ∈ xs
    · obtain ⟨line, ys, rfl, hnl⟩ := List.eq_append_cons_of_mem hmem
      rw [List.append_cons] at h hn ⊢
      have hlen : (line ++ [NEWLINE] ++ ys).length = line.length + 1 + ys.length := by
        rw [List.length_append, List.length_append, List.length_singleton]
      have hsplit := h.bytes
      rw [hlen, bytes_add, bytes_add] at hsplit
      obtain ⟨hhead, hys⟩ := List.append_inj hsplit (by simp [bytes])
      obtain ⟨hline, hq⟩ := List.append_inj hhead (by simp [bytes])
      have hzero := h.zero
      have hlt := h.lt
      rw [hlen] at hzero hlt hn
      obtain ⟨buf, hscan, hsame⟩ := scan_line re n hline
        (fun h0 => h.nonzero (List.mem_append_left _ (List.mem_append_left _ h0))) hnl
        (List.singleton_inj.1 hq) (by omega)
      have hlies : Lies buf (p + line.length + 1) ys := by
        refine ⟨?_, ?_, fun h0 => h.nonzero (List.mem_append_right _ h0), by omega⟩
        · exact (bytes_congr fun i hi _ => hsame i hi).trans hys
        · rw [hsame _ (by omega), ← hzero]
          congr 1
          omega
      obtain ⟨t, q, ht, hout, hpos, hrest, hle, _⟩ :=
        @ih _ _ ⟨buf, s.m, s.out ++ wanted re [] (line ++ [NEWLINE])⟩ hlies (by omega)
      have hnil : rest [] (line ++ [NEWLINE]) = [] := by
        rw [rest_append]
        rfl
      rw [rest_append, wanted_append, hnil, hscan, hlen, ← List.append_assoc]
      exact ⟨t, q, ht, hout, by omega, hrest, by omega, fun _ => by omega⟩
    · rw [(lines_of_notMem hmem).2, wanted_of_notMem hmem, List.append_nil, List.nil_append]
      refine ⟨s, p, ?_, rfl, rfl, h.bytes, (Nat.le_refl _), fun h => absurd h hmem⟩
      have hlt := h.lt
      obtain ⟨k, hk⟩ : ∃ k, BUFSIZE - p = xs.length + (k + 1) :=
        ⟨BUFSIZE - p - xs.length - 1, by omega⟩
      rw [scan, hk, strchr_skip fun x hx => ?_, strchr, if_pos h.zero]
      rw [h.bytes] at hx
      exact ⟨fun e => h.nonzero (e ▸ hx), fun e => hmem (e ▸ hx)⟩

/-! ### Every turn -/

/-- The open line `acc` is left in the buffer. -/
structure Carries (s : State) (acc : List Byte) : Prop where
  m : s.m = acc.length
  bytes : bytes s.buf 0 acc.length = acc
  nonzero : 0 ∉ acc
  open_line : NEWLINE ∉ acc

/-- **A turn** with a chunk that has a newline writes the lines that end in it. -/
theorem turn_spec (h : Carries s acc) (hturn : turn re s chunk = some t) (h0 : 0 ∉ chunk)
    (hnl : NEWLINE ∈ chunk) :
    Carries t (rest acc chunk) ∧ t.out = s.out ++ wanted re acc chunk := by
  rw [turn] at hturn
  split at hturn
  next => exact absurd hturn nofun
  next hsize =>
    obtain ⟨hne, hle⟩ := not_or.1 hsize
    have hm := h.m
    have hpos := List.length_pos_iff.2 hne
    have hlen : (acc ++ chunk).length = s.m + chunk.length := by rw [List.length_append, hm]
    have hlies : Lies (update (blit s.buf s.m chunk) (s.m + chunk.length) 0) 0
        (acc ++ chunk) := by
      refine ⟨?_, ?_, fun hmem => ?_, by omega⟩
      · rw [hlen, bytes_update 0 (.inr (by omega)), bytes_add, hm, Nat.zero_add, bytes_blit,
          bytes_congr fun i _ hi => blit_apart (.inl (by omega)), h.bytes]
      · rw [hlen, Nat.zero_add]
        exact update_self _ _ _
      · exact (List.mem_append.1 hmem).elim h.nonzero h0
    dsimp only at hturn
    generalize update (blit s.buf s.m chunk) _ 0 = buf at hlies hturn
    obtain ⟨u, q, hscan, hout, hq, hbytes, _, hlt⟩ :=
      @scan_spec re _ BUFSIZE 0 ⟨buf, s.m + chunk.length, s.out⟩ hlies (by omega)
    have hrest : rest [] (acc ++ chunk) = rest acc chunk := by
      rw [rest_append, (lines_of_notMem h.open_line).2, List.nil_append]
    rw [wanted_append, wanted_of_notMem h.open_line, (lines_of_notMem h.open_line).2,
      List.nil_append, List.nil_append] at hout
    rw [hrest] at hq hbytes
    have hleft : s.m + chunk.length - q = (rest acc chunk).length := by omega
    rw [hscan] at hturn
    dsimp only at hturn
    rw [if_neg (Nat.ne_of_gt (hlt (List.mem_append_right _ hnl))), hleft, hbytes] at hturn
    cases hturn
    refine ⟨⟨rfl, bytes_blit _ _ _, fun hmem => ?_, fun hmem => ?_⟩, hout⟩
    · exact (mem_rest hmem).elim h.nonzero fun hmem => h0 hmem.1
    · exact (mem_rest hmem).elim h.open_line fun hmem => hmem.2 rfl

/-- **A run** over chunks that each have a newline. -/
theorem grep_spec {chunks : List (List Byte)} (h : Carries s acc)
    (hrun : grep re s chunks = some t) (h0 : ∀ chunk ∈ chunks, 0 ∉ chunk)
    (hnl : ∀ chunk ∈ chunks, NEWLINE ∈ chunk) :
    t.out = s.out ++ wanted re acc chunks.flatten := by
  induction chunks generalizing s acc with
  | nil =>
    cases hrun
    exact (List.append_nil _).symm
  | cons chunk chunks ih =>
    obtain ⟨u, hturn, hrun⟩ := Option.bind_eq_some_iff.1 hrun
    obtain ⟨h0, h0s⟩ := List.forall_mem_cons.1 h0
    obtain ⟨hnl, hnls⟩ := List.forall_mem_cons.1 hnl
    obtain ⟨hu, hout⟩ := turn_spec h hturn h0 hnl
    rw [List.flatten_cons, wanted_append, ← List.append_assoc, ← hout]
    exact ih hu hrun h0s hnls

/-! ### Every byte is written -/

/-- The number of bytes written. -/
def State.written (s : State) : ℕ := s.out.flatten.length

theorem match_nil (text : List Byte) : «match» [] text = true := by
  unfold «match»
  cases text <;> simp [search, matchhere]

/-- Before the first zero, `strchr` finds the first newline. -/
theorem strchr_cases {z : ℕ} (hle : p ≤ z) (hlt : z < p + n) (hz : buf z = 0)
    (hnz : ∀ i, p ≤ i → i < z → buf i ≠ 0) :
    (strchr buf NEWLINE n p = none ∧ ∀ i, p ≤ i → i < z → buf i ≠ NEWLINE) ∨
      ∃ q, strchr buf NEWLINE n p = some q ∧ p ≤ q ∧ q < z ∧ buf q = NEWLINE := by
  induction n generalizing p with
  | zero => omega
  | succ n ih =>
    rw [strchr]
    rcases Nat.eq_or_lt_of_le hle with rfl | hpz
    · rw [if_pos hz]
      exact .inl ⟨rfl, fun i _ _ => by omega⟩
    · rw [if_neg (hnz p (Nat.le_refl _) hpz)]
      split
      next hnl => exact .inr ⟨p, rfl, Nat.le_refl _, hpz, hnl⟩
      next hnl =>
        obtain ⟨hnone, hall⟩ | ⟨q, hq, hpq, hqz, hbuf⟩ :=
          @ih (p + 1) hpz (by omega) fun i hi => hnz i (by omega)
        · refine .inl ⟨hnone, fun i hi hiz => ?_⟩
          rcases Nat.eq_or_lt_of_le hi with rfl | hlt
          · exact hnl
          · exact hall i hlt hiz
        · exact .inr ⟨q, hq, by omega, hqz, hbuf⟩

/-- **The inner loop with the pattern that matches all** writes what it passes, and stops behind
the last newline before the first zero. -/
theorem scan_all {z : ℕ} (hle : p ≤ z) (hlt : z < BUFSIZE) (hz : s.buf z = 0)
    (hnz : ∀ i, p ≤ i → i < z → s.buf i ≠ 0) (hn : z - p < n) :
    ∃ out q, scan [] n s p = (⟨s.buf, s.m, out⟩, q) ∧ p ≤ q ∧ q ≤ z ∧
      out.flatten.length = s.written + (q - p) ∧ (p < q → s.buf (q - 1) = NEWLINE) ∧
      ∀ i, q ≤ i → i < z → s.buf i ≠ NEWLINE := by
  induction n generalizing s p with
  | zero => omega
  | succ n ih =>
    rw [scan]
    obtain ⟨hnone, hall⟩ | ⟨q, hq, hpq, hqz, hbuf⟩ :=
      strchr_cases hle (by omega : z < p + (BUFSIZE - p)) hz hnz
    · rw [hnone]
      exact ⟨s.out, p, rfl, Nat.le_refl _, hle, by simp [State.written],
        fun h => absurd h (Nat.lt_irrefl _), hall⟩
    · rw [hq]
      dsimp only
      have hback : update (update s.buf q 0) q NEWLINE = s.buf := by
        rw [update_idem, ← hbuf, update_eq_self]
      rw [if_pos (match_nil _), hback]
      obtain ⟨out, r, hscan, hle', hrz, hout, hlast, hall⟩ :=
        @ih (q + 1) ⟨s.buf, s.m, s.out ++ [bytes s.buf p (q + 1 - p)]⟩ hqz hz
          (fun i hi => hnz i (by omega)) (by omega)
      refine ⟨out, r, hscan, by omega, hrz, ?_, fun _ => ?_, hall⟩
      swap
      · rcases Nat.eq_or_lt_of_le hle' with rfl | hlt'
        · exact hbuf
        · exact hlast hlt'
      simp only [State.written, List.flatten_append, List.length_append, List.flatten_singleton,
        bytes, List.length_map, List.length_range'] at hout ⊢
      omega

/-- **A turn with the pattern that matches all.**  Where no newline is found before the first zero,
all bytes are dropped; elsewhere those up to the last such newline are written, and the others
stay. -/
theorem turn_all (hturn : turn [] s chunk = some t) :
    ∃ z, z ≤ s.m + chunk.length ∧ update (blit s.buf s.m chunk) (s.m + chunk.length) 0 z = 0 ∧
      (∀ i < z, update (blit s.buf s.m chunk) (s.m + chunk.length) 0 i ≠ 0) ∧ chunk ≠ [] ∧
      s.m + chunk.length < BUFSIZE ∧ ((t.m = 0 ∧ t.written = s.written) ∨
        ∃ q, 0 < q ∧ q ≤ z ∧ t.m = s.m + chunk.length - q ∧ t.written = s.written + q ∧
          update (blit s.buf s.m chunk) (s.m + chunk.length) 0 (q - 1) = NEWLINE ∧
          ∀ i, q ≤ i → i < s.m + chunk.length →
            t.buf (i - q) = update (blit s.buf s.m chunk) (s.m + chunk.length) 0 i ∧
            (i < z → t.buf (i - q) ≠ NEWLINE)) := by
  rw [turn] at hturn
  split at hturn
  next => exact absurd hturn nofun
  next hsize =>
    obtain ⟨hne, hle⟩ := not_or.1 hsize
    have hpos := List.length_pos_iff.2 hne
    dsimp only at hturn
    have hend : update (blit s.buf s.m chunk) (s.m + chunk.length) 0 (s.m + chunk.length) = 0 :=
      update_self _ _ _
    generalize update (blit s.buf s.m chunk) (s.m + chunk.length) 0 = buf at hturn hend ⊢
    -- the first zero
    have hex : ∃ z, buf z = 0 := ⟨_, hend⟩
    have hz := Nat.find_spec hex
    have hmin := fun i (hi : i < Nat.find hex) => Nat.find_min hex hi
    have hzle := Nat.find_min' hex hend
    generalize Nat.find hex = z at hz hmin hzle
    obtain ⟨out, q, hscan, -, hqz, hout, hlast, hall⟩ :=
      @scan_all BUFSIZE 0 ⟨buf, s.m + chunk.length, s.out⟩ z (Nat.zero_le _) (by omega) hz
        (fun i _ => hmin i) (by omega)
    rw [hscan] at hturn
    dsimp only at hturn
    refine ⟨z, hzle, hz, hmin, hne, by omega, ?_⟩
    split at hturn
    next hq =>
      cases hturn
      exact .inl ⟨rfl, by simpa [State.written, hq] using hout⟩
    next hq =>
      cases hturn
      refine .inr ⟨q, Nat.pos_of_ne_zero hq, hqz, rfl, by simpa [State.written] using hout,
        hlast (Nat.pos_of_ne_zero hq), fun i hqi hi => ?_⟩
      have hlen : (bytes buf q (s.m + chunk.length - q)).length = s.m + chunk.length - q := by
        simp [bytes]
      have hat : blit buf 0 (bytes buf q (s.m + chunk.length - q)) (i - q) = buf i := by
        rw [blit_mid (Nat.zero_le _) (by omega), Nat.sub_zero, bytes,
          List.getD_eq_getElem _ _ (by simp; omega), List.getElem_map, List.getElem_range']
        congr 1
        omega
      exact ⟨hat, fun hiz h => hall i hqi hiz (hat.symm.trans h)⟩

/-- The bytes written and those in the buffer are at most the bytes read. -/
theorem written_le {chunks : List (List Byte)} (hrun : grep [] s chunks = some t) :
    t.written + t.m ≤ s.written + s.m + chunks.flatten.length := by
  induction chunks generalizing s with
  | nil =>
    cases hrun
    simp
  | cons chunk chunks ih =>
    obtain ⟨u, hturn, hrun⟩ := Option.bind_eq_some_iff.1 hrun
    have := ih hrun
    rw [List.flatten_cons, List.length_append]
    obtain ⟨z, hz, -, -, -, -, ⟨hm, hw⟩ | ⟨q, -, hq, hm, hw, -, -⟩⟩ := turn_all hturn <;> omega

/-- **A byte that is dropped is missed**: if all bytes read are written at the end, every chunk has
a newline and none has a zero. -/
theorem all_written {chunks : List (List Byte)} (h : Carries s acc)
    (hrun : grep [] s chunks = some t)
    (hall : t.written = s.written + s.m + chunks.flatten.length) :
    ∀ chunk ∈ chunks, 0 ∉ chunk ∧ NEWLINE ∈ chunk := by
  induction chunks generalizing s acc with
  | nil => exact fun _ hc => absurd hc List.not_mem_nil
  | cons chunk chunks ih =>
    obtain ⟨u, hturn, hrun⟩ := Option.bind_eq_some_iff.1 hrun
    rw [List.flatten_cons, List.length_append] at hall
    have hle := written_le hrun
    obtain ⟨z, hz, hbz, hmin, hne, hfit, ⟨hm, hw⟩ | ⟨q, hq, hqz, hm, hw, hlast, hbuf⟩⟩ :=
      turn_all hturn
    · have := List.length_pos_iff.2 hne
      omega
    -- what the buffer holds before the scan
    have hold : ∀ i < s.m, update (blit s.buf s.m chunk) (s.m + chunk.length) 0 i ∈ acc := by
      intro i hi
      rw [update_of_ne (by omega), blit_apart (.inl hi)]
      have hget : (bytes s.buf 0 acc.length).getD i 0 ∈ bytes s.buf 0 acc.length := by
        rw [List.getD_eq_getElem _ _ (by simpa [bytes, ← h.m] using hi)]
        exact List.getElem_mem _
      rw [h.bytes] at hget
      rw [← h.bytes, bytes, List.getD_eq_getElem _ _ (by simpa [← h.m] using hi),
        List.getElem_map, List.getElem_range'] at hget
      rw [← h.bytes]
      simpa [bytes] using hget
    have hnew : ∀ i, s.m ≤ i → i < s.m + chunk.length →
        update (blit s.buf s.m chunk) (s.m + chunk.length) 0 i ∈ chunk := by
      intro i hi hlt
      rw [update_of_ne (by omega), blit_mid hi hlt, List.getD_eq_getElem _ _ (by omega)]
      exact List.getElem_mem _
    have hzero : 0 ∉ chunk := by
      intro h0
      obtain ⟨j, hj, hj0⟩ := List.getElem_of_mem h0
      have hlt : z < s.m + chunk.length := by
        by_contra hge
        refine hmin (s.m + j) (by omega) ?_
        rw [update_of_ne (by omega), blit_mid (by omega) (by omega), Nat.add_sub_cancel_left,
          List.getD_eq_getElem _ _ hj, hj0]
      -- the zero stays in the buffer, and no newline is before it
      cases chunks with
      | nil =>
        cases hrun
        simp only [List.flatten_nil, List.length_nil] at hall
        omega
      | cons chunk' chunks =>
        obtain ⟨v, hturn', hrun'⟩ := Option.bind_eq_some_iff.1 hrun
        have hle' := written_le hrun'
        rw [List.flatten_cons, List.length_append] at hall
        obtain ⟨z', -, -, hmin', hne', -, ⟨hm', hw'⟩ | ⟨q', hq', hqz', -, -, hlast', -⟩⟩ :=
          turn_all hturn'
        · have := List.length_pos_iff.2 hne'
          omega
        · have hkept : ∀ i < u.m,
              update (blit u.buf u.m chunk') (u.m + chunk'.length) 0 i = u.buf i := fun i hi => by
            rw [update_of_ne (by omega), blit_apart (.inl hi)]
          have hz' : z' ≤ z - q := by
            by_contra hgt
            refine hmin' (z - q) (by omega) ?_
            rw [hkept _ (by omega), (hbuf z hqz hlt).1, hbz]
          rw [hkept _ (by omega)] at hlast'
          have := (hbuf (q' - 1 + q) (by omega) (by omega)).2 (by omega)
          rw [Nat.add_sub_cancel] at this
          exact this hlast'
    have hnl : NEWLINE ∈ chunk := by
      by_contra hnot
      rcases Nat.lt_or_ge (q - 1) s.m with hlt | hge
      · exact h.open_line (hlast ▸ hold _ hlt)
      · exact hnot (hlast ▸ hnew _ hge (by omega))
    obtain ⟨hu, -⟩ := turn_spec h hturn hzero hnl
    exact List.forall_mem_cons.2 ⟨⟨hzero, hnl⟩, ih hu hrun (by omega)⟩

theorem length_wanted (h : text.getLast? = some NEWLINE) :
    (wanted [] acc text).flatten.length = acc.length + text.length := by
  induction text generalizing acc with
  | nil => cases h
  | cons c cs ih =>
    have hall : ∀ (acc xs : List Byte),
        wanted [] acc xs = (lines acc xs).map (· ++ [NEWLINE]) := fun acc xs => by
      rw [wanted, List.filter_eq_self.2 fun l _ => match_nil l]
    simp only [hall] at ih ⊢
    rw [lines]
    cases cs with
    | nil =>
      obtain rfl : c = NEWLINE := Option.some.inj h
      simp [lines]
    | cons d cs =>
      have h' : (d :: cs).getLast? = some NEWLINE := by
        rw [← h, List.getLast?_cons_cons]
      split
      · rw [List.map_cons, List.flatten_cons, List.length_append, ih h']
        simp
        omega
      · rw [ih h']
        simp
        omega

/-- **When the sizes of the reads do not matter.**  For a text that ends with a newline and comes in
chunks that fit the requests of `grep`: for every pattern `grep` writes the lines that match, each
once and in order, just if every chunk has a newline and none has a zero. -/
theorem grep_lines (buf : ℕ → Byte) (chunks : List (List Byte))
    (hfits : (grep [] ⟨buf, 0, []⟩ chunks).isSome)
    (hend : chunks.flatten.getLast? = some NEWLINE) :
    (∀ re s, grep re ⟨buf, 0, []⟩ chunks = some s → s.out = wanted re [] chunks.flatten) ↔
      ∀ chunk ∈ chunks, 0 ∉ chunk ∧ NEWLINE ∈ chunk := by
  have hnil : Carries ⟨buf, 0, []⟩ [] := ⟨rfl, rfl, List.not_mem_nil, List.not_mem_nil⟩
  constructor
  · intro h
    obtain ⟨t, ht⟩ := Option.isSome_iff_exists.1 hfits
    refine all_written hnil ht ?_
    rw [State.written, h [] t ht, length_wanted hend]
    simp [State.written]
  · intro h re s hrun
    exact grep_spec hnil hrun (fun c hc => (h c hc).1) fun c hc => (h c hc).2

/-- `"a\nb"` and `"a\n"` for `b`: the line `ba` is put together over two reads. -/
theorem grep_lines_ba :
    ∃ s, grep [98] ⟨fun _ => 0, 0, []⟩ [[97, 10, 98], [97, 10]] = some s ∧
      s.out = [[98, 97, 10]] := by
  have hsome : (grep [98] ⟨fun _ => 0, 0, []⟩ [[97, 10, 98], [97, 10]]).isSome := by
    decide +kernel
  obtain ⟨s, hs⟩ := Option.isSome_iff_exists.1 hsome
  exact ⟨s, hs, ((grep_lines _ _ (by decide +kernel) (by decide)).2 (by decide) _ s hs).trans
    (by decide +kernel)⟩

/-- **A read without a newline loses the line.** `"ab\n"` has the line `ab`, which matches `a`,
and nothing is written if it comes as `"a"` and `"b\n"`. -/
theorem grep_loses_line :
    (grep [97] ⟨fun _ => 0, 0, []⟩ [[97], [98, 10]]).map State.out = some [] ∧
      wanted [97] [] [97, 98, 10] = [[97, 98, 10]] := by
  decide +kernel

end Grep
end Xv6
