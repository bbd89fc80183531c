/-
# Which file a name means

`sys_open` appends the container's suffix to the name behind the string in the
caller's memory (`xv6/sysfile.c`, lines 438-482), where the next call with the same
buffer finds it.  Two calls with the same string resolve the same entry just if the
choice of the name looks at bytes of the string alone, or finds a `$` before both
strings or before none; and the caller's memory stays just if no suffix is appended
(`name_resolution`).
-/

import Xv6.Files.Choice

namespace Xv6
namespace Files

open Lib State

variable {s s' t : State} {p q addr omode : ℕ} {path name : Name} {names : ℕ → List Name}

/-! ### The entry -/

/-- The part of `sys_open` that resolves the name: the name it looks up, the inode it finds or
makes, and the file system after that. -/
def State.resolve (s : State) (p addr omode : ℕ) :
    Except Halt (Option (Name × Option ℕ × FileSys)) :=
  match (s.proc p).fetchstr addr with
  | none => .ok none
  | some path => do
      let (path, makeCopy, s) ← s.rename p addr path omode
      let (r, s) ← s.openInode p path omode makeCopy
      .ok (some (path, r, s.fs))

/-- The lookup depends on the file system, the caller's directory and its container. -/
theorem openInode_congr {makeCopy : Bool} {o o' : Option ℕ} {u u' : State} (hfs : t.fs = s.fs)
    (hcwd : (t.proc q).cwd = (s.proc p).cwd)
    (hcid : (t.proc q).containerId = (s.proc p).containerId)
    (h : s.openInode p path omode makeCopy = .ok (o, u))
    (h' : t.openInode q path omode makeCopy = .ok (o', u')) : o' = o ∧ u'.fs = u.fs := by
  obtain ⟨hnew, fs, hcreate, rfl⟩ | ⟨hnew, x, c, hnamei, hend⟩ := openInode_cases h <;>
    obtain ⟨hnew', fs', hcreate', rfl⟩ | ⟨hnew', x', c', hnamei', hend'⟩ := openInode_cases h'
  · rw [hfs, hcwd, hcid, hcreate] at hcreate'
    cases hcreate'
    rw [hcid]
    exact ⟨rfl, rfl⟩
  · rw [hnew] at hnew'
    cases hnew'
  · rw [hnew] at hnew'
    cases hnew'
  · rw [hfs, hcwd, hnamei] at hnamei'
    cases hnamei'
    rw [hfs] at hend'
    obtain ⟨rfl, rfl, hgood⟩ | ⟨rfl, k, rfl, rfl, hdir⟩ := hend <;>
      obtain ⟨rfl, rfl, hgood'⟩ | ⟨rfl, k', hk, rfl, hdir'⟩ := hend'
    · exact ⟨rfl, by unfold State.setCache; rw [hfs]⟩
    · exact absurd ((hgood k' hk).2 hdir'.1) hdir'.2
    · exact absurd ((hgood' k rfl).2 hdir.1) hdir.2
    · cases hk
      exact ⟨rfl, by unfold State.iput State.setCache; rw [hfs]⟩

/-- The name and the copy, by the names registered. -/
theorem rename_eq_chosen {makeCopy : Bool} (hpath : (s.proc p).fetchstr addr = some path)
    (hcid : (s.proc p).containerId < NCONTAINER) (hhost : (s.proc p).Sees s.fileTable names 0)
    (hown : (s.proc p).Sees s.fileTable names (s.proc p).containerId)
    (hlooks : LooksInside (names 0) (s.proc p).containerId path omode)
    (h : s.rename p addr path omode = .ok (name, makeCopy, s')) :
    name = (if (chosen names (s.proc p).containerId path omode).append then
        path ++ suffix (s.proc p).containerId else path) ∧
      makeCopy = (chosen names (s.proc p).containerId path omode).makeCopy := by
  obtain ⟨r, -, hr, rfl, rfl, -, -, -⟩ := rename_records h
  rw [renaming_eq_chosen (.of_fetchstr hpath) (nul_not_mem_of_fetchstr hpath) hcid hhost hown
    hlooks hr]
  exact ⟨rfl, rfl⟩

/-! ### Two calls -/

/-- Two calls of `sys_open` with the same string, mode and container, from states with the same
file system and the same registered names; the rest of the memories may differ. -/
structure SameRequest (names : ℕ → List Name) (path : Name) (omode : ℕ) (s t : State)
    (p q addr addr' : ℕ) : Prop where
  string : (s.proc p).fetchstr addr = some path
  string' : (t.proc q).fetchstr addr' = some path
  cid_lt : (s.proc p).containerId < NCONTAINER
  cid : (t.proc q).containerId = (s.proc p).containerId
  cwd : (t.proc q).cwd = (s.proc p).cwd
  fs : t.fs = s.fs
  host : (s.proc p).Sees s.fileTable names 0
  own : (s.proc p).Sees s.fileTable names (s.proc p).containerId
  host' : (t.proc q).Sees t.fileTable names 0
  own' : (t.proc q).Sees t.fileTable names (s.proc p).containerId

/-- The two calls look two bytes back from the ends of their strings, before them, and find a `$`
there in both or in none. -/
def SameByte (path : Name) (s t : State) (p q addr addr' : ℕ) : Prop :=
  (s.proc p).mem (addr + path.length - 2) = '$' ↔ (t.proc q).mem (addr' + path.length - 2) = '$'

/-- The two calls look up the same name, and both make a copy or none, or they look up different
names. -/
theorem SameRequest.renaming {addr' : ℕ} {r r' : Renaming}
    (h : SameRequest names path omode s t p q addr addr')
    (hr : (s.proc p).renaming s.fileTable addr path omode = .ok r)
    (hr' : (t.proc q).renaming t.fileTable addr' path omode = .ok r') :
    (LooksInside (names 0) (s.proc p).containerId path omode ∨ SameByte path s t p q addr addr') ∧
        r'.append = r.append ∧ r'.makeCopy = r.makeCopy ∨
      ¬ (LooksInside (names 0) (s.proc p).containerId path omode ∨
        SameByte path s t p q addr addr') ∧ r'.append ≠ r.append := by
  have hnul := nul_not_mem_of_fetchstr h.string
  have hlt : (t.proc q).containerId < NCONTAINER := by rw [h.cid]; exact h.cid_lt
  have hown' : (t.proc q).Sees t.fileTable names (t.proc q).containerId := by
    rw [h.cid]
    exact h.own'
  by_cases hlooks : LooksInside (names 0) (s.proc p).containerId path omode
  · left
    rw [renaming_eq_chosen (.of_fetchstr h.string) hnul h.cid_lt h.host h.own hlooks hr,
      renaming_eq_chosen (.of_fetchstr h.string') hnul hlt h.host' hown'
        (by rw [h.cid]; exact hlooks) hr', h.cid]
    exact ⟨.inl hlooks, rfl, rfl⟩
  · obtain ⟨-, hzero, hcreate, hhost⟩ : _ ∧ _ ∧ _ ∧ _ := by
      simpa only [LooksInside, not_or] using hlooks
    have hkeep : ∀ byte, KeepsName names (s.proc p).containerId path omode byte ↔ byte = '$' :=
      fun byte => by simp [KeepsName, hzero, hhost, hcreate]
    obtain ⟨ha, hcopy, -⟩ := renaming_names hnul h.cid_lt h.host h.own hr
    obtain ⟨hb, hcopy', -⟩ := renaming_names hnul hlt h.host' hown' hr'
    rw [hkeep] at ha
    rw [h.cid, hkeep] at hb
    have hno : ∀ cid, ¬ Copies names cid path omode := fun cid h => hhost h.2.1
    have hsame : r'.makeCopy = r.makeCopy := by
      rw [Bool.eq_false_iff.2 fun hyes => hno _ (hcopy.1 hyes),
        Bool.eq_false_iff.2 fun hyes => hno _ (hcopy'.1 hyes)]
    have hiff : SameByte path s t p q addr addr' ↔ r'.append = r.append := by
      unfold SameByte
      rw [← ha, ← hb]
      cases r.append <;> cases r'.append <;> decide
    by_cases hbyte : SameByte path s t p q addr addr'
    · exact .inl ⟨.inr hbyte, hiff.1 hbyte, hsame⟩
    · exact .inr ⟨not_or.2 ⟨hlooks, hbyte⟩, fun heq => hbyte (hiff.2 heq)⟩

/-- **When two calls resolve the same entry.** -/
theorem SameRequest.resolve_iff {addr' : ℕ} {a b : Option (Name × Option ℕ × FileSys)}
    (h : SameRequest names path omode s t p q addr addr')
    (ha : s.resolve p addr omode = .ok a) (hb : t.resolve q addr' omode = .ok b) :
    a = b ↔ LooksInside (names 0) (s.proc p).containerId path omode ∨
      SameByte path s t p q addr addr' := by
  unfold State.resolve at ha hb
  rw [h.string] at ha
  rw [h.string'] at hb
  obtain ⟨⟨name, makeCopy, s₁⟩, hname, ha⟩ := bind_eq_ok.1 ha
  obtain ⟨⟨name', makeCopy', t₁⟩, hname', hb⟩ := bind_eq_ok.1 hb
  obtain ⟨⟨o, s₂⟩, hlook, ha⟩ := bind_eq_ok.1 ha
  obtain ⟨⟨o', t₂⟩, hlook', hb⟩ := bind_eq_ok.1 hb
  cases ha
  cases hb
  obtain ⟨r, -, hr, rfl, rfl, -, -, -⟩ := rename_records hname
  obtain ⟨r', -, hr', rfl, rfl, -, -, -⟩ := rename_records hname'
  obtain ⟨hcond, happend, hcopy⟩ | ⟨hcond, hchoice⟩ := h.renaming hr hr'
  · refine iff_of_true ?_ hcond
    have hs := rename_renamed hname
    have ht := rename_renamed hname'
    rw [happend, hcopy, h.cid] at hlook'
    rw [happend, h.cid]
    obtain ⟨rfl, hfs⟩ := openInode_congr (ht.fs.trans (h.fs.trans hs.fs.symm))
      ((ht.cwd q).trans (h.cwd.trans (hs.cwd p).symm))
      ((ht.containerId q).trans (h.cid.trans (hs.containerId p).symm)) hlook hlook'
    rw [hfs]
  · refine iff_of_false (fun heq => hchoice ?_) hcond
    -- with the suffix and without it, the names have different lengths
    have hlen := congrArg List.length (congrArg Prod.fst (Option.some.inj heq))
    dsimp only at hlen
    cases happend : r.append <;> cases happend' : r'.append <;>
      simp [happend, happend', length_suffix] at hlen ⊢

/-- **When a call leaves the caller's memory**, and what the next one with the same buffer looks up
then. -/
theorem sysOpen_mem {n : ℤ} (hpath : (s.proc p).fetchstr addr = some path)
    (hcid : (s.proc p).containerId < NCONTAINER) (hhost : (s.proc p).Sees s.fileTable names 0)
    (hown : (s.proc p).Sees s.fileTable names (s.proc p).containerId)
    (h : sysOpen s p addr omode = .ok (n, s')) :
    ((s'.proc p).mem = (s.proc p).mem ↔ KeepsName names (s.proc p).containerId path omode
        ((s.proc p).mem (addr + path.length - 2))) ∧
      ((s'.proc p).mem = (s.proc p).mem → ∀ name name' makeCopy makeCopy' u u',
        s.rename p addr path omode = .ok (name, makeCopy, u) →
        s'.rename p addr path omode = .ok (name', makeCopy', u') → name' = name) := by
  obtain ⟨hnone, -⟩ | ⟨path', r, t, hpath', hr, -, hreg, hsame⟩ := (sysOpen_opening h).records
  · rw [hnone] at hpath
    cases hpath
  obtain rfl : path' = path := Option.some.inj (hpath'.symm.trans hpath)
  have hnul := nul_not_mem_of_fetchstr hpath
  have hiff := (renaming_names hnul hcid hhost hown hr).1
  have hself : (t.setProc p ((s.proc p).renamed r addr path')).proc p =
      (s.proc p).renamed r addr path' := setProc_self _ _
  have hmem : (s'.proc p).mem = ((s.proc p).renamed r addr path').mem := by rw [hsame.mem, hself]
  have hkept : (s'.proc p).mem = (s.proc p).mem ↔ r.append = false := by
    rw [hmem]
    cases happend : r.append with
    | false => simp [Proc.renamed, happend]
    | true =>
      simp only [Proc.renamed, happend, if_true, Bool.true_eq_false, iff_false]
      intro heq
      -- the byte behind the string is a `$` now
      have hbyte := congrFun heq (addr + path'.length)
      rw [(Proc.HasString.of_fetchstr hpath).mem _ (Nat.le_refl _)] at hbyte
      simp [Proc.store, suffix, NUL] at hbyte
  refine ⟨hkept.trans hiff, fun hsame' name name' makeCopy makeCopy' u u' hfirst hnext => ?_⟩
  obtain ⟨r₁, -, hr₁, rfl, -, -, -, -⟩ := rename_records hfirst
  obtain ⟨r', -, hr', rfl, -, -, -, -⟩ := rename_records hnext
  have happend := hkept.1 hsame'
  obtain rfl : r = r₁ := Except.ok.inj (hr.symm.trans hr₁)
  have hrenamed : (s.proc p).renamed r addr path' = s.proc p := by
    unfold Proc.renamed
    rw [happend]
    exact if_neg Bool.false_ne_true
  rw [hrenamed] at hself
  have hsz : (s'.proc p).sz = (s.proc p).sz := by
    rw [hsame.sz, hrenamed, setProc_self]
  have hcid' : (s'.proc p).containerId = (s.proc p).containerId := by
    rw [hsame.containerId, hrenamed, setProc_self]
  suffices happend' : r'.append = false by simp [happend, happend']
  by_cases hzero : (s.proc p).containerId = 0
  · exact append_host (hcid'.trans hzero) hr'
  · -- nothing was registered, so the choice is the same
    have hregister : ¬ r.register = true := fun hyes => by
      rw [append_of_register hzero hr hyes] at happend
      cases happend
    unfold State.register at hreg
    rw [if_neg hregister] at hreg
    cases hreg
    have htable : s'.fileTable = s.fileTable := funext fun d => hsame.fileTable d
    rw [htable, renaming_congr hsame' hsz hcid', hr] at hr'
    rw [← Except.ok.inj hr']
    exact happend

/-- **When a name means a file by its bytes.**  Two calls with equal strings, modes and containers,
from states with equal file systems and registered names, resolve the same entry just if the byte
that `sys_open` looks at is one of the string or is a `$` in both or in none.  A call that has a
page for each of its buffers and returns leaves the caller's memory as it is just if it appends no
suffix, and then a second call with the same buffer looks up the same name. -/
theorem name_resolution (names : ℕ → List Name) (path : Name) (s : State) (p addr omode : ℕ) :
    (∀ (t : State) (q addr' : ℕ) (a b : Option (Name × Option ℕ × FileSys)),
      SameRequest names path omode s t p q addr addr' →
      s.resolve p addr omode = .ok a → t.resolve q addr' omode = .ok b →
        (a = b ↔ LooksInside (names 0) (s.proc p).containerId path omode ∨
          SameByte path s t p q addr addr')) ∧
    ∀ (n : ℤ) (s' : State), 3 ≤ s.freelist.length → (s.proc p).fetchstr addr = some path →
      (s.proc p).containerId < NCONTAINER → (s.proc p).Sees s.fileTable names 0 →
      (s.proc p).Sees s.fileTable names (s.proc p).containerId →
      sysOpen s p addr omode = .ok (n, s') →
        ((s'.proc p).mem = (s.proc p).mem ↔ KeepsName names (s.proc p).containerId path omode
          ((s.proc p).mem (addr + path.length - 2))) ∧
        ((s'.proc p).mem = (s.proc p).mem → ∀ name name' makeCopy makeCopy' u u',
          s.rename p addr path omode = .ok (name, makeCopy, u) →
          s'.rename p addr path omode = .ok (name', makeCopy', u') → name' = name) := by
  exact ⟨fun t q addr' a b h ha hb => h.resolve_iff ha hb,
    fun n s' _ hpath hcid hhost hown hopen => sysOpen_mem hpath hcid hhost hown hopen⟩

/-- The state with some bytes in the memory of the first process. -/
def State.holding (s : State) (bytes : Name) : State :=
  s.setProc 0 { s.proc 0 with mem := fun a => bytes.getD a NUL, sz := PGSIZE }

/-- A process of container 1 opens `README` for reading, with different bytes around the string;
then a process of the host opens it twice. -/
theorem name_resolution_readme :
    (∃ s, Reach step anyStep smallBoot s ∧ (s.proc 0).containerId = 1 ∧
      ∃ a, (s.holding (NUL :: NUL :: "README".toList)).resolve 0 2 O_RDONLY = .ok a ∧
        (s.holding (NUL :: '$' :: "README".toList)).resolve 0 2 O_RDONLY = .ok a) ∧
    ∃ s s', sysOpen s 0 2 O_RDONLY = .ok (0, s') ∧ (s'.proc 0).mem = (s.proc 0).mem := by
  obtain ⟨s, hs, hcid, hhost, hown, hfetch, hfetch', hok, hok'⟩ : ∃ s,
      Reach step anyStep smallBoot s ∧ (s.proc 0).containerId = 1 ∧ s.fileTable 0 = [] ∧
        s.fileTable 1 = [] ∧
        ((s.holding (NUL :: NUL :: "README".toList)).proc 0).fetchstr 2 = some "README".toList ∧
        ((s.holding (NUL :: '$' :: "README".toList)).proc 0).fetchstr 2 = some "README".toList ∧
        ((s.holding (NUL :: NUL :: "README".toList)).resolve 0 2 O_RDONLY).isOk = true ∧
        ((s.holding (NUL :: '$' :: "README".toList)).resolve 0 2 O_RDONLY).isOk = true :=
    exists_reach_of_any [⟨0, .createContainer⟩, ⟨0, .joinContainer 1⟩] (by decide +kernel)
  refine ⟨⟨s, hs, hcid, ?_⟩, smallBoot.holding (NUL :: NUL :: "README".toList), ?_⟩
  · cases ha : (s.holding (NUL :: NUL :: "README".toList)).resolve 0 2 O_RDONLY with
    | error e =>
      rw [ha] at hok
      cases hok
    | ok a =>
      cases hb : (s.holding (NUL :: '$' :: "README".toList)).resolve 0 2 O_RDONLY with
      | error e =>
        rw [hb] at hok'
        cases hok'
      | ok b =>
        have hself : ∀ bytes, (s.holding bytes).proc 0 =
            { s.proc 0 with mem := fun a => bytes.getD a NUL, sz := PGSIZE } :=
          fun bytes => setProc_self s _
        have hempty : ∀ bytes, ∀ c ∈ [0, 1],
            ((s.holding bytes).proc 0).Sees (s.holding bytes).fileTable (fun _ => []) c := by
          intro bytes c hc
          have htable : (s.holding bytes).fileTable c = [] := by
            obtain rfl | hc := List.mem_cons.1 hc
            · exact hhost
            · obtain rfl := List.mem_singleton.1 hc
              exact hown
          unfold Proc.Sees
          rw [htable]
          exact .nil
        have hone : ∀ bytes, ((s.holding bytes).proc 0).containerId = 1 := fun bytes => by
          rw [hself]
          exact hcid
        refine ⟨a, rfl, ?_⟩
        rw [((name_resolution (fun _ => []) "README".toList _ 0 2 O_RDONLY).1 _ 0 2 a b
          ⟨hfetch, hfetch', by rw [hone]; decide, by rw [hone, hone], by rw [hself, hself], rfl,
            hempty _ 0 (by decide), by rw [hone]; exact hempty _ 1 (by decide),
            hempty _ 0 (by decide), by rw [hone]; exact hempty _ 1 (by decide)⟩ ha hb).2
          (.inl (.inl (by decide)))]
  · have hok : ((sysOpen (smallBoot.holding (NUL :: NUL :: "README".toList)) 0 2 O_RDONLY).map
        Prod.fst) = .ok 0 := by decide +kernel
    obtain ⟨s', hopen⟩ := map_fst_eq_ok hok
    have hzero : ((smallBoot.holding (NUL :: NUL :: "README".toList)).proc 0).containerId = 0 := by
      decide +kernel
    have hsees : ((smallBoot.holding (NUL :: NUL :: "README".toList)).proc 0).Sees
        (smallBoot.holding (NUL :: NUL :: "README".toList)).fileTable (fun _ => []) 0 := by
      have htable : (smallBoot.holding (NUL :: NUL :: "README".toList)).fileTable 0 = [] := by
        decide +kernel
      unfold Proc.Sees
      rw [htable]
      exact .nil
    exact ⟨s', hopen, ((name_resolution (fun _ => []) "README".toList _ 0 2 O_RDONLY).2 _ s'
      (by decide +kernel) (by decide +kernel) (by rw [hzero]; decide) hsees
      (by rw [hzero]; exact hsees) hopen).1.2 (.inl hzero)⟩

/-- The name that a call looks up, and whether it finds or makes an inode. -/
def State.resolved (s : State) (p addr omode : ℕ) : Except Halt (Option (Name × Bool)) :=
  (s.resolve p addr omode).map fun r => r.map fun r => (r.1, r.2.1.isSome)

/-- **The byte before a short name decides**, and a name grows.  A process of container 1 that
opens `q` gets the host's directory `q` if the byte before the string is a `$`, and nothing
otherwise.  One that makes `foo` has `foo$1` in its memory then, and the next call with the same
buffer makes another file. -/
theorem name_resolution_depends :
    (∃ u : State, Reach step anyStep smallBoot (u.holding [NUL, NUL, 'q']) ∧
      Reach step anyStep smallBoot (u.holding [NUL, '$', 'q']) ∧
      ((u.holding [NUL, NUL, 'q']).proc 0).fetchstr 2 = some ['q'] ∧
      ((u.holding [NUL, '$', 'q']).proc 0).fetchstr 2 = some ['q'] ∧
      (u.holding [NUL, NUL, 'q']).resolved 0 2 O_RDONLY = .ok (some ("q$1".toList, false)) ∧
      (u.holding [NUL, '$', 'q']).resolved 0 2 O_RDONLY = .ok (some (['q'], true))) ∧
    ∃ s s', Reach step anyStep smallBoot s ∧ sysOpen s 0 2 (O_CREATE ||| O_RDWR) = .ok (0, s') ∧
      (s.proc 0).fetchstr 2 = some "foo".toList ∧ (s'.proc 0).fetchstr 2 = some "foo$1".toList ∧
      s.resolved 0 2 (O_CREATE ||| O_RDWR) = .ok (some ("foo$1".toList, true)) ∧
      s'.resolved 0 2 (O_CREATE ||| O_RDWR) = .ok (some ("foo$1$1".toList, true)) := by
  refine ⟨?_, ?_⟩
  · obtain ⟨u, hu, huse, hrest⟩ : ∃ u, Reach step anyStep smallBoot u ∧ (u.proc 0).inUse = true ∧
        ((u.holding [NUL, NUL, 'q']).proc 0).fetchstr 2 = some ['q'] ∧
        ((u.holding [NUL, '$', 'q']).proc 0).fetchstr 2 = some ['q'] ∧
        (u.holding [NUL, NUL, 'q']).resolved 0 2 O_RDONLY = .ok (some ("q$1".toList, false)) ∧
        (u.holding [NUL, '$', 'q']).resolved 0 2 O_RDONLY = .ok (some (['q'], true)) :=
      exists_reach_of_any [⟨0, .name ['q']⟩, ⟨0, .mkdir 2⟩, ⟨0, .createContainer⟩,
        ⟨0, .joinContainer 1⟩] (by decide +kernel)
    have hstep : ∀ bytes, Reach step anyStep smallBoot (u.holding bytes) := fun bytes =>
      hu.tail ⟨0, .compute (fun a => bytes.getD a NUL) PGSIZE⟩ trivial
        (if_pos ⟨(by decide : 0 < NPROC), huse⟩)
    exact ⟨u, hstep _, hstep _, hrest⟩
  · obtain ⟨s, hs, hfetch, hname, hopen⟩ : ∃ s, Reach step anyStep smallBoot s ∧
        (s.proc 0).fetchstr 2 = some "foo".toList ∧
        s.resolved 0 2 (O_CREATE ||| O_RDWR) = .ok (some ("foo$1".toList, true)) ∧
        ((sysOpen s 0 2 (O_CREATE ||| O_RDWR)).toOption.any fun r => r.1 = 0 ∧
          (r.2.proc 0).fetchstr 2 = some "foo$1".toList ∧
          r.2.resolved 0 2 (O_CREATE ||| O_RDWR) = .ok (some ("foo$1$1".toList, true))) = true :=
      exists_reach_of_any [⟨0, .createContainer⟩, ⟨0, .joinContainer 1⟩, ⟨0, .name "foo".toList⟩]
        (by decide +kernel)
    obtain ⟨⟨n, s'⟩, hs', hnext⟩ := (Option.any_eq_true _ _).1 hopen
    obtain ⟨rfl, hfetch', hname'⟩ := of_decide_eq_true hnext
    exact ⟨s, s', hs, ok_of_toOption hs', hfetch, hfetch', hname, hname'⟩

end Files
end Xv6
