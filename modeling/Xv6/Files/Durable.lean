/-
# How long a registered name lasts

The table of a container's files has addresses (`set_file_in_container`,
`xv6/container_manager.c`, lines 161-169), and `file_in_container` (lines 171-193)
looks at these addresses in the memory of the process that asks.  A name that
`sys_open` has registered is found as long as every process of the container has
it at the registered address: nobody in the container writes over it, whoever
comes into the container brings it along, and a new name is at its address in all
of them (`Shares`).  `registration_durable` has the names in every state that such
a run reaches; a second process, with a memory of its own, does not find them
(`registration_lost`).
-/

import Xv6.Files.Book
import Xv6.Files.Lookup

namespace Xv6
namespace Files

open Lib Kernel Function

variable {s s' : State} {t t' : Booked} {x : Proc} {p q c addr : ℕ} {name : Name} {call : Call}

/-! ### The processes of a container -/

/-- A process of a container. -/
def State.Member (s : State) (q c : ℕ) : Prop :=
  q < NPROC ∧ (s.proc q).inUse = true ∧ (s.proc q).containerId = c

instance (s : State) (q c : ℕ) : Decidable (s.Member q c) := inferInstanceAs (Decidable (_ ∧ _ ∧ _))

/-- The container into which a call takes the caller or its child. -/
def Call.enters : Call → Option ℕ
  | .joinContainer cid => some cid
  | .leaveContainer => some 0
  | .fork => some 0
  | _ => none

/-- Whether the caller is gone after the call. -/
def Call.ends (s : State) (p : ℕ) : Call → Bool
  | .exit => true
  | .destroyContainer cid => (s.proc p).containerId = cid
  | _ => false

/-- A process in the records of which nothing changed. -/
theorem SameRecords.member (h : SameRecords s s') (huse : (s'.proc q).inUse = true) :
    (s.proc q).inUse = true ∧ (s'.proc q).containerId = (s.proc q).containerId :=
  ⟨(h.inUse q).symm.trans huse, h.containerId q⟩

/-- The caller's memory may have changed. -/
theorem SameRecords.member_but {touched : ℕ → Prop} (hx : Rewritten touched (s.proc p) x)
    (h : SameRecords (s.setProc p x) s') (huse : (s'.proc q).inUse = true) :
    (s.proc q).inUse = true ∧ (s'.proc q).containerId = (s.proc q).containerId := by
  obtain ⟨huse, hcid⟩ := h.member huse
  by_cases hq : q = p
  · subst hq
    rw [setProc_self] at huse hcid
    exact ⟨hx.inUse.symm.trans huse, hcid.trans hx.containerId⟩
  · rw [setProc_of_ne s hq] at huse hcid
    exact ⟨huse, hcid⟩

/-- A process that exits is not there any more. -/
theorem exit_member (h : exit s p = .ok s') (huse : (s'.proc q).inUse = true) :
    q ≠ p ∧ (s.proc q).inUse = true ∧ (s'.proc q).containerId = (s.proc q).containerId := by
  obtain ⟨huse, hcid⟩ := (exit_records h).member huse
  by_cases hq : q = p
  · rw [hq, setProc_self] at huse
    cases huse
  · rw [setProc_of_ne s hq] at huse hcid
    exact ⟨hq, huse, hcid⟩

/-- The caller's container id is set. -/
theorem setContainerId_member {cid : ℕ}
    (huse : ((s.setProc p { s.proc p with containerId := cid }).proc q).inUse = true) :
    (q = p ∧ ((s.setProc p { s.proc p with containerId := cid }).proc q).containerId = cid) ∨
      ((s.proc q).inUse = true ∧
        ((s.setProc p { s.proc p with containerId := cid }).proc q).containerId =
          (s.proc q).containerId) := by
  by_cases hq : q = p
  · refine .inl ⟨hq, ?_⟩
    rw [hq, setProc_self]
  · rw [setProc_of_ne s hq] at huse ⊢
    exact .inr ⟨huse, rfl⟩

/-- **Where a process comes from**: it was in its container before the call, or it comes into it
with the caller's memory. -/
theorem exec_member (hs : exec s p call = .ok s') (huse : (s'.proc q).inUse = true) :
    ((s.proc q).inUse = true ∧ (s'.proc q).containerId = (s.proc q).containerId ∧
        (q = p → call.ends s p = false)) ∨
      (call.enters = some (s'.proc q).containerId ∧ (s'.proc q).mem = (s.proc p).mem ∧
        (s'.proc q).sz = (s.proc p).sz) := by
  cases call with
  | «open» addr omode =>
    obtain rfl | ⟨r, t, -, hproc, x, hx, hsame⟩ := exec_open hs
    · exact .inl ⟨huse, rfl, fun _ => rfl⟩
    · obtain ⟨huse, hcid⟩ := hsame.member_but hx huse
      rw [hproc] at huse hcid
      exact .inl ⟨huse, hcid, fun _ => rfl⟩
  | fork =>
    obtain hsame | ⟨q', child, -, -, -, hcid, ⟨hmem, hsz⟩, hsame⟩ := fork_records hs
    · obtain ⟨huse, hcid⟩ := hsame.member huse
      exact .inl ⟨huse, hcid, fun _ => rfl⟩
    · obtain ⟨huse, hcid'⟩ := hsame.member huse
      by_cases hq : q = q'
      · subst hq
        have hself : ∀ s : State, (s.setProc q child).proc q = child :=
          fun s => setProc_self s child
        refine .inr ⟨?_, ?_, ?_⟩
        · rw [hcid', hself, hcid]
          rfl
        · rw [hsame.mem, hself, hmem]
        · rw [hsame.sz, hself, hsz]
      · rw [setProc_of_ne _ hq] at huse hcid'
        exact .inl ⟨huse, hcid', fun _ => rfl⟩
  | exit =>
    obtain ⟨hne, huse, hcid⟩ := exit_member hs huse
    exact .inl ⟨huse, hcid, fun hq => absurd hq hne⟩
  | createContainer =>
    cases hs
    exact .inl ⟨huse, rfl, fun _ => rfl⟩
  | destroyContainer cid =>
    obtain ⟨-, -, ⟨-, hexit⟩ | ⟨hcid, rfl⟩⟩ := sysDestroyContainer_eq_ok hs
    · obtain ⟨hne, huse, hcid⟩ := exit_member hexit huse
      exact .inl ⟨huse, hcid, fun hq => absurd hq hne⟩
    · exact .inl ⟨huse, rfl, fun _ => decide_eq_false hcid⟩
  | joinContainer cid =>
    obtain ⟨x, -, -, rfl⟩ := exec_joinContainer hs
    obtain ⟨rfl, hcid⟩ | ⟨huse, hcid⟩ :=
      setContainerId_member (s := { s with containers := x }) huse
    · refine .inr ⟨congrArg some hcid.symm, ?_, ?_⟩
      · rw [setProc_self]
      · rw [setProc_self]
    · exact .inl ⟨huse, hcid, fun _ => rfl⟩
  | leaveContainer =>
    obtain rfl | ⟨x, -, rfl⟩ := exec_leaveContainer hs
    · exact .inl ⟨huse, rfl, fun _ => rfl⟩
    · obtain ⟨rfl, hcid⟩ | ⟨huse, hcid⟩ :=
        setContainerId_member (s := { s with containers := x }) huse
      · refine .inr ⟨congrArg some hcid.symm, ?_, ?_⟩
        · rw [setProc_self]
        · rw [setProc_self]
      · exact .inl ⟨huse, hcid, fun _ => rfl⟩
  | containerMalloc units =>
    obtain ⟨f, m, t, rfl⟩ := exec_containerMalloc_eq hs
    exact .inl ⟨huse, rfl, fun _ => rfl⟩
  | _ =>
    obtain ⟨x, hx, hsame⟩ := exec_records id hs
    obtain ⟨huse, hcid⟩ := hsame.member_but hx huse
    exact .inl ⟨huse, hcid, fun _ => rfl⟩

/-! ### The table of the names -/

/-- Registering a name leaves the records of the other containers. -/
theorem setFileInContainer_of_ne {cid : ℕ} (h : s.setFileInContainer addr cid = .ok s')
    (hc : c ≠ cid) : s'.containers.container c = s.containers.container c ∧
      s'.filesOfContainer c = s.filesOfContainer c := by
  obtain ⟨-, rfl⟩ | ⟨-, rfl⟩ := setFileInContainer_cases h
  · dsimp only
    rw [ContainerTable.modify_container_of_ne _ hc, update_of_ne hc]
    exact ⟨rfl, rfl⟩
  · dsimp only
    rw [ContainerTable.modify_container_of_ne _ hc]
    exact ⟨rfl, rfl⟩

/-- **Which calls change a container's table of names**: those that destroy it, and an open by
one of its processes that registers a name. -/
theorem exec_files (huse : (s.proc p).inUse = true) (hs : exec s p call = .ok s')
    (hdestroy : call.destroys c = false)
    (hopen : ∀ addr omode, call = .open addr omode → registered s p addr omode ≠ none →
      c ≠ (s.proc p).containerId) : Field.files.Same s s' c := by
  cases call with
  | «open» addr omode =>
    obtain ⟨n, hs⟩ := map_snd_eq_ok hs
    obtain ⟨x, hcontainers, hspace, hfiles, hcase⟩ := sysOpen_registered huse hs
    have hrest : Field.files.Same x s' c := .of_records hcontainers hspace hfiles
    obtain ⟨-, rfl⟩ | ⟨name, hname, hset, -⟩ := hcase
    · exact hrest
    · have hne := hopen addr omode rfl (by rw [hname]; nofun)
      obtain ⟨hrecord, hnames⟩ := setFileInContainer_of_ne hset hne
      exact Field.Same.trans ⟨congrArg Container.lastFileIndex hrecord, nofun, fun _ => hnames⟩
        hrest
  | containerMalloc units =>
    obtain rfl | ⟨-, page, hspace⟩ := exec_containerMalloc hs
    · exact .of_eq rfl rfl rfl
    · obtain ⟨-, ⟨-, rfl⟩ | ⟨-, rfl⟩⟩ := getSpaceInContainer_cases hspace
      · exact .modify (fun c => { c with
          lastSpace := (s.containers.container (s.proc p).containerId).lastSpace + 1 }) rfl
          (fun _ => rfl) nofun fun _ => rfl
      · exact .modify (fun c => { c with lastSpace := page + 1 }) rfl (fun _ => rfl) nofun
          fun _ => rfl
  | destroyContainer cid =>
    refine exec_fields huse ?_ hs (beq_eq_false_iff_ne.1 hdestroy)
    exact trivial
  | createContainer | joinContainer cid | leaveContainer =>
    refine exec_fields huse ?_ hs fun hon => by cases hon.1
    exact trivial
  | _ =>
    refine exec_fields huse ?_ hs id
    exact trivial

/-! ### Runs in which the names are shared -/

/-- The process has the names registered for a container at their addresses. -/
def Booked.Holds (t : Booked) (q c : ℕ) : Prop :=
  ∀ r ∈ (t.book c).names, (t.state.proc q).HasString r.addr r.name

instance (t : Booked) (q c : ℕ) : Decidable (t.Holds q c) :=
  inferInstanceAs (Decidable (∀ r ∈ _, _))

/-- A name is registered where the table has an entry left and the other processes of the
container have the name at that address, too; `file_in_container` copies it to a page. -/
def RegistersShared (t : Booked) (e : Event) : Prop :=
  match e.call with
  | .open addr omode => ∀ name ∈ registered t.state e.p addr omode,
      (t.state.containers.container (t.state.proc e.p).containerId).lastFileIndex < NCENTRY ∧
        name.length < PGSIZE ∧
        ∀ q < NPROC, q ≠ e.p → t.state.Member q (t.state.proc e.p).containerId →
          (t.state.proc q).HasString addr name
  | _ => True

instance (t : Booked) (e : Event) : Decidable (RegistersShared t e) := by
  unfold RegistersShared
  rcases e.call with _ | _ <;> infer_instance

/-- The calls that leave every process of a container with the names registered for it: who
comes into a container has them, and who is in one does not write over them. -/
def Shares (t : Booked) : BookAct → Prop
  | .round _ => True
  | .call e => (∀ c ∈ e.call.enters, t.Holds e.p c) ∧
      (e.call.ends t.state e.p = false →
        ∀ r ∈ (t.book (t.state.proc e.p).containerId).names, ∀ i < r.name.length + 1,
          ¬ e.call.overwrites t.state e.p (r.addr + i)) ∧
      RegistersShared t e

instance (t : Booked) (a : BookAct) : Decidable (Shares t a) := by
  unfold Shares
  rcases a with _ | _ <;> infer_instance

/-- The table of a container has the addresses of the names registered, and every process of
the container has the names there. -/
structure Lasting (t : Booked) (c : ℕ) : Prop where
  table : Filled NCENTRY (t.state.filesOfContainer c) (t.state.containers.container c).lastFileIndex
    ((t.book c).names.map Registered.addr)
  names : ∀ r ∈ (t.book c).names, NUL ∉ r.name ∧ r.name.length < PGSIZE
  held : ∀ q, t.state.Member q c → t.Holds q c

namespace Lasting

/-- The names registered so far stay with every process of the container. -/
theorem holds (h : Lasting t c) {e : Event} (hok : Shares t (.call e))
    (hexec : exec t.state e.p e.call = .ok s') (hq : s'.Member q c) {r : Registered}
    (hr : r ∈ (t.book c).names) : (s'.proc q).HasString r.addr r.name := by
  obtain ⟨hlt, huse, hcid⟩ := hq
  obtain ⟨hin, hspares, -⟩ := hok
  obtain ⟨hold, hsame, hends⟩ | ⟨henters, hmem, hsz⟩ := exec_member hexec huse
  · rw [hcid] at hsame
    refine (exec_string ⟨hold, h.held q ⟨hlt, hold, hsame.symm⟩ r hr⟩ (fun hqp i hi => ?_) hexec).2
    subst hqp
    rw [hsame] at hr
    exact hspares (hends rfl) r hr i (Nat.lt_succ_of_le hi)
  · rw [hcid] at henters
    exact (hin c henters r hr).congr hmem hsz

/-- A call that does not change what is registered for the container. -/
theorem keep (h : Lasting t c) {e : Event} (hok : Shares t (.call e))
    (hexec : exec t.state e.p e.call = .ok s') (hfiles : Field.files.Same t.state s' c)
    {book : ℕ → Record} (hbook : (book c).names = (t.book c).names) : Lasting ⟨s', book⟩ c := by
  have hlast : (s'.containers.container c).lastFileIndex = _ := hfiles.equal
  refine ⟨?_, ?_, fun q hq r hr => ?_⟩
  · dsimp only
    rw [hlast, hfiles.files rfl, hbook]
    exact h.table
  · dsimp only
    rw [hbook]
    exact h.names
  · dsimp only at hr
    rw [hbook] at hr
    exact h.holds hok hexec hq hr

/-- An open by a process of the container that registers a name. -/
theorem register (h : Lasting t c) {omode : ℕ} (huse : (t.state.proc p).inUse = true)
    (hc : c < NCONTAINER)
    (hcid : c = (t.state.proc p).containerId) (hok : Shares t (.call ⟨p, .open addr omode⟩))
    (hname : registered t.state p addr omode = some name)
    (hexec : exec t.state p (.open addr omode) = .ok s') {book : ℕ → Record}
    (hbook : (book c).names = (t.book c).names ++ [⟨p, addr, name⟩]) : Lasting ⟨s', book⟩ c := by
  subst hcid
  obtain ⟨hlt, hlen, hothers⟩ := hok.2.2 name hname
  obtain ⟨n, hopen⟩ := map_snd_eq_ok hexec
  obtain ⟨x, hcontainers, -, hfiles, ⟨hnone, -⟩ | ⟨name', hname', hset, hstring⟩⟩ :=
    sysOpen_registered huse hopen
  · rw [hname] at hnone
    cases hnone
  obtain rfl : name = name' := Option.some.inj (hname.symm.trans hname')
  refine ⟨?_, fun r hr => ?_, fun q hq r hr => ?_⟩
  · unfold State.setFileInContainer at hset
    dsimp only at hset
    rw [if_pos hlt] at hset
    cases hset
    dsimp only
    rw [hbook, hcontainers, hfiles, List.map_append]
    dsimp only
    rw [update_self, ContainerTable.modify_container_self]
    exact h.table.push hlt addr
  · dsimp only at hr
    rw [hbook, List.mem_append, List.mem_singleton] at hr
    obtain hr | rfl := hr
    · exact h.names r hr
    · refine ⟨?_, hlen⟩
      obtain ⟨path, hpath, hname⟩ := Option.bind_eq_some_iff.1 hname
      obtain ⟨r, -, hname⟩ := Option.bind_eq_some_iff.1 hname
      have hnul := nul_not_mem_of_fetchstr hpath
      split at hname
      · cases hname
        split
        · rw [List.mem_append]
          exact not_or.2 ⟨hnul, nul_not_mem_suffix hc⟩
        · exact hnul
      · cases hname
  · dsimp only at hr
    rw [hbook, List.mem_append, List.mem_singleton] at hr
    obtain hr | rfl := hr
    · exact h.holds hok hexec hq hr
    · by_cases hqp : q = p
      · rw [hqp]
        exact hstring.2
      · -- the others had the name at that address before
        obtain ⟨hqlt, huse', hqcid⟩ := hq
        obtain ⟨hold, hsame, -⟩ | ⟨henters, -, -⟩ := exec_member hexec huse'
        · have hbefore := hothers q hqlt hqp ⟨hqlt, hold, hsame.symm.trans hqcid⟩
          exact (exec_string ⟨hold, hbefore⟩ (fun heq => absurd heq hqp) hexec).2
        · cases henters

theorem step {a : BookAct} (h : ∀ c < NCONTAINER, Lasting t c) (hok : Shares t a)
    (hs : t.step a = some t') (hc : c < NCONTAINER) : Lasting t' c := by
  cases a with
  | round runs =>
    cases hs
    have hfiles : Field.files.Same t.state (t.state.schedulerRound runs) c :=
      .schedulerRound runs fun hf => by cases hf.1
    have hproc : (t.state.schedulerRound runs).proc = t.state.proc := by
      unfold State.schedulerRound
      dsimp only
      split <;> rfl
    have hlast : ((t.state.schedulerRound runs).containers.container c).lastFileIndex = _ :=
      hfiles.equal
    refine ⟨?_, (h c hc).names, fun q hq => ?_⟩
    · dsimp only
      rw [hlast, hfiles.files rfl]
      exact (h c hc).table
    · unfold State.Member Booked.Holds at *
      dsimp only at hq ⊢
      rw [hproc] at hq ⊢
      exact (h c hc).held q hq
  | call e =>
    obtain ⟨s', hstep, rfl⟩ := Option.map_eq_some_iff.1 hs
    obtain ⟨hp, huse, hexec⟩ := step_eq_some hstep
    obtain ⟨p, call⟩ := e
    dsimp only at hp huse hexec
    cases call with
    | «open» addr omode =>
      cases hname : registered t.state p addr omode with
      | none =>
        refine (h c hc).keep hok hexec (exec_files huse hexec rfl ?_) ?_
        · rintro addr' omode' hcall hreg
          cases hcall
          exact absurd hname hreg
        · simp only [Booked.record, hname]
      | some name =>
        by_cases hcid : c = (t.state.proc p).containerId
        · refine (h c hc).register huse hc hcid hok hname hexec ?_
          simp only [Booked.record, hname, hcid, update_self]
        · refine (h c hc).keep hok hexec (exec_files huse hexec rfl fun _ _ _ _ => hcid) ?_
          simp only [Booked.record, hname, update_of_ne hcid]
    | destroyContainer cid =>
      by_cases hcid : c = cid
      · -- nothing is registered any more
        subst hcid
        have hbook : t.record ⟨p, .destroyContainer c⟩ c = {} := update_self ..
        have hlast : (s'.containers.container c).lastFileIndex = 0 := by
          obtain ⟨-, -, ⟨-, hexit⟩ | ⟨-, rfl⟩⟩ := sysDestroyContainer_eq_ok hexec
          · rw [(exit_records hexit).containers]
            exact congrArg Container.lastFileIndex (ContainerTable.modify_container_self ..)
          · exact congrArg Container.lastFileIndex (ContainerTable.modify_container_self ..)
        refine ⟨?_, ?_, fun q _ => ?_⟩
        · dsimp only
          rw [hlast, hbook]
          exact .empty ..
        · dsimp only
          rw [hbook]
          exact fun r hr => absurd hr List.not_mem_nil
        · unfold Booked.Holds
          dsimp only
          rw [hbook]
          exact fun r hr => absurd hr List.not_mem_nil
      · refine (h c hc).keep hok hexec (exec_files huse hexec (beq_false_of_ne hcid) (by simp)) ?_
        exact congrArg Record.names (update_of_ne hcid ..)
    | containerMalloc units =>
      refine (h c hc).keep hok hexec (exec_files huse hexec rfl (by simp)) ?_
      obtain ⟨n, hmalloc⟩ := map_snd_eq_ok hexec
      unfold Booked.record
      dsimp only
      rw [hmalloc]
      dsimp only
      split
      · by_cases hcid : c = (t.state.proc p).containerId
        · rw [hcid, update_self]
        · rw [update_of_ne hcid]
      · rfl
    | _ => exact (h c hc).keep hok hexec (exec_files huse hexec rfl (by simp)) rfl

/-- What is registered is found. -/
theorem found (h : Lasting t c) (hc : c < NCONTAINER) {r : Registered} (hr : r ∈ (t.book c).names)
    {path : Name} (hpath : decorated path c = r.name) (hq : t.state.Member q c) :
    (t.state.proc q).fileInContainer (t.state.fileTable c) path c = .ok true := by
  obtain ⟨hnul, hlen⟩ := h.names r hr
  have hnul' : NUL ∉ path := by
    intro hmem
    rw [← hpath, decorated] at hnul
    split at hnul
    · exact hnul hmem
    · exact hnul (List.mem_append_left _ hmem)
  have htable : t.state.fileTable c = (t.book c).names.map Registered.addr := by
    unfold State.fileTable
    rw [Nat.min_eq_right h.table.le]
    exact h.table.entries
  have hstrings : List.Forall₂ (t.state.proc q).HasString (t.state.fileTable c)
      ((t.book c).names.map Registered.name) := by
    rw [htable, List.forall₂_map_left_iff, List.forall₂_map_right_iff]
    exact List.forall₂_same.2 (h.held q hq)
  rw [Proc.fileInContainer_eq hstrings hnul' hc (by rw [hpath]; exact hlen), hpath]
  refine congrArg Except.ok (List.any_eq_true.2 ⟨r.name, List.mem_map_of_mem hr, ?_⟩)
  exact List.isPrefixOf_iff_prefix.2 (List.prefix_refl _)

end Lasting

/-- **Registration is durable** in every run that shares the names: a name that was registered
for a container since it was destroyed last is found by every process of the container. -/
theorem registration_durable (disk : Disk) (ninodes : ℕ) (freelist : List ℕ) (console : List Char)
    (t : Booked) (h : Reach Booked.step Shares (.boot disk ninodes freelist console) t) :
    ∀ c < NCONTAINER, ∀ r ∈ (t.book c).names, ∀ path, decorated path c = r.name →
      ∀ q, t.state.Member q c →
        (t.state.proc q).fileInContainer (t.state.fileTable c) path c = .ok true := by
  have hboot : ∀ c < NCONTAINER, Lasting (.boot disk ninodes freelist console) c :=
    fun c _ => ⟨.empty .., nofun, fun _ _ => nofun⟩
  have hlasting := h.invariant (I := fun t => ∀ c < NCONTAINER, Lasting t c) hboot
    fun _ _ _ hx hok hs _ hc => Lasting.step hx hok hs hc
  exact fun c hc r hr path hpath q hq => (hlasting c hc).found hc hr hpath hq

/-- Container 1 has registered `foo`, and a child that was made after that has joined it: both
find the name. -/
theorem registration_durable_child :
    ∃ t, Reach Booked.step Shares (.boot smallDisk 200 (List.range 64) []) t ∧
      t.state.Member 0 1 ∧ t.state.Member 1 1 ∧
      (t.state.proc 0).fileInContainer (t.state.fileTable 1) "foo".toList 1 = .ok true ∧
      (t.state.proc 1).fileInContainer (t.state.fileTable 1) "foo".toList 1 = .ok true := by
  obtain ⟨t, ht, hparent, hchild, hnames⟩ : ∃ t,
      Reach Booked.step Shares (.boot smallDisk 200 (List.range 64) []) t ∧
        t.state.Member 0 1 ∧ t.state.Member 1 1 ∧
        (t.book 1).names.map Registered.name = ["foo$1".toList] :=
    exists_reach_of_any
      [.call ⟨0, .createContainer⟩, .call ⟨0, .joinContainer 1⟩, .call ⟨0, .name "foo".toList⟩,
        .call ⟨0, .open 2 (O_CREATE ||| O_RDWR)⟩, .call ⟨0, .fork⟩, .call ⟨1, .joinContainer 1⟩]
      (by decide +kernel)
  obtain ⟨r, hr, hname⟩ := List.mem_map.1 (hnames ▸ List.mem_singleton_self "foo$1".toList)
  have hfound := registration_durable smallDisk 200 (List.range 64) [] t ht 1 (by decide) r hr
    "foo".toList hname.symm
  exact ⟨t, ht, hparent, hchild, hfound 0 hparent, hfound 1 hchild⟩

/-- **Another process of the container does not find the name**, and neither does the one that
registered it once it has used the memory for something else. -/
theorem registration_lost :
    (∃ t, Reach Booked.step anyStep (.boot smallDisk 200 (List.range 64) []) t ∧
      t.state.Member 1 1 ∧ (t.book 1).names.map Registered.name = ["foo$1".toList] ∧
      (t.state.proc 1).fileInContainer (t.state.fileTable 1) "foo".toList 1 = .ok false) ∧
    ∃ t, Reach Booked.step anyStep (.boot smallDisk 200 (List.range 64) []) t ∧
      t.state.Member 0 1 ∧ (t.book 1).names.map Registered.name = ["foo$1".toList] ∧
      (t.state.proc 0).fileInContainer (t.state.fileTable 1) "foo".toList 1 = .ok false := by
  refine ⟨exists_reach_of_any
    [.call ⟨0, .createContainer⟩, .call ⟨0, .joinContainer 1⟩, .call ⟨0, .name "foo".toList⟩,
      .call ⟨0, .fork⟩, .call ⟨1, .joinContainer 1⟩, .call ⟨0, .open 2 (O_CREATE ||| O_RDWR)⟩]
    (by decide +kernel), exists_reach_of_any
    [.call ⟨0, .createContainer⟩, .call ⟨0, .joinContainer 1⟩, .call ⟨0, .name "foo".toList⟩,
      .call ⟨0, .open 2 (O_CREATE ||| O_RDWR)⟩, .call ⟨0, .name "bar".toList⟩]
    (by decide +kernel)⟩

end Files
end Xv6
