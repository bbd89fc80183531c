/-
# The container records are right

The steps of `Xv6.Files.Book` one by one, and the result over whole runs: in every
run in which each call finds an entry for what it records, registers no name twice
and writes over no registered name, the record of every container has in it what
was given out and registered for it (`records_represent`).  Without that a name is
registered twice, and the counter of the pages is overwritten by the page after
the last (`records_overflow`).
-/

import Xv6.Files.Book

namespace Xv6
namespace Files

open Lib Kernel Function

variable {s s' : State} {t t' : Booked} {p c addr : ℕ}

/-- **The record of a container is what was recorded for it**: its counters are within the
arrays, the entries below them are the pages given out and the addresses of the names
registered, in order, each name is there once and is still to be found at its address. -/
structure Represents (s : State) (c : ℕ) (b : Record) : Prop where
  pages : Filled NCENTRY (s.spaceMapping c) (s.containers.container c).lastSpace b.pages
  names : Filled NCENTRY (s.filesOfContainer c) (s.containers.container c).lastFileIndex
    (b.names.map Registered.addr)
  nodup : (b.names.map Registered.name).Nodup
  strings : ∀ r ∈ b.names, Stays s r.p r.addr r.name
  lastProcess : (s.containers.container c).lastProcess < NPROC

namespace Represents

variable {b : Record}

/-- A record whose arrays did not change. -/
theorem keep (h : Represents s c b) (hspace : Field.space.Same s s' c)
    (hfiles : Field.files.Same s s' c) (hstrings : ∀ r ∈ b.names, Stays s' r.p r.addr r.name)
    (hlast : (s'.containers.container c).lastProcess < NPROC) : Represents s' c b := by
  have hlastSpace : (s'.containers.container c).lastSpace = _ := hspace.equal
  have hlastFile : (s'.containers.container c).lastFileIndex = _ := hfiles.equal
  refine ⟨?_, ?_, h.nodup, hstrings, hlast⟩
  · rw [hlastSpace, hspace.space rfl]
    exact h.pages
  · rw [hlastFile, hfiles.files rfl]
    exact h.names

/-- A page given out. -/
theorem allot (h : Represents s c b) {page : ℕ} (hlt : (s.containers.container c).lastSpace < NCENTRY)
    (hs : s.getSpaceInContainer c = .ok (page, s'))
    (hstrings : ∀ r ∈ b.names, Stays s' r.p r.addr r.name) :
    Represents s' c { b with pages := b.pages ++ [page] } := by
  have hfiles : Field.files.Same s s' c := .allotted (by simp) hlt hs
  have hlast : Field.lastProcess.Same s s' c := .allotted (by simp) hlt hs
  have hlastFile : (s'.containers.container c).lastFileIndex = _ := hfiles.equal
  have hlastProcess : (s'.containers.container c).lastProcess = _ := hlast.equal
  refine ⟨?_, ?_, h.nodup, hstrings, ?_⟩
  · obtain ⟨-, ⟨-, rfl⟩ | ⟨heq, -⟩⟩ := getSpaceInContainer_cases hs
    · dsimp only
      rw [update_self, ContainerTable.modify_container_self]
      exact h.pages.push hlt page
    · omega
  · rw [hlastFile, hfiles.files rfl]
    exact h.names
  · rw [hlastProcess]
    exact h.lastProcess

/-- A name registered. -/
theorem register (h : Represents s c b) {name : Name} {x : State}
    (hlt : (s.containers.container c).lastFileIndex < NCENTRY)
    (hnew : ∀ r ∈ b.names, r.name ≠ name) (hset : s.setFileInContainer addr c = .ok x)
    (hcontainers : s'.containers = x.containers) (hspace' : s'.spaceMapping = x.spaceMapping)
    (hfiles' : s'.filesOfContainer = x.filesOfContainer)
    (hstrings : ∀ r ∈ b.names, Stays s' r.p r.addr r.name) (hstring : Stays s' p addr name) :
    Represents s' c { b with names := b.names ++ [⟨p, addr, name⟩] } := by
  have hspace : Field.space.Same s x c := .registered (by simp) hlt hset
  have hlast : Field.lastProcess.Same s x c := .registered (by simp) hlt hset
  have hlastSpace : (x.containers.container c).lastSpace = _ := hspace.equal
  have hlastProcess : (x.containers.container c).lastProcess = _ := hlast.equal
  refine ⟨?_, ?_, ?_, fun r hr => ?_, ?_⟩
  · rw [hcontainers, hspace', hlastSpace, hspace.space rfl]
    exact h.pages
  · rw [hcontainers, hfiles', List.map_append]
    unfold State.setFileInContainer at hset
    dsimp only at hset
    rw [if_pos hlt] at hset
    cases hset
    dsimp only
    rw [update_self, ContainerTable.modify_container_self]
    exact h.names.push hlt addr
  · rw [List.map_append]
    refine h.nodup.append (List.nodup_singleton _) (List.disjoint_singleton.2 ?_)
    rw [List.mem_map]
    rintro ⟨r, hr, heq⟩
    exact hnew r hr heq
  · obtain hr | hr := List.mem_append.1 hr
    · exact hstrings r hr
    · obtain rfl := List.mem_singleton.1 hr
      exact hstring
  · rw [hcontainers, hlastProcess]
    exact h.lastProcess

/-- Nothing is recorded for a container that was destroyed. -/
theorem destroyed (h : s'.containers.container c = ContainerTable.destroyed (s.containers.container c)) :
    Represents s' c {} := by
  refine ⟨?_, ?_, List.nodup_nil, nofun, ?_⟩
  · rw [h]
    exact .empty ..
  · rw [h]
    exact .empty ..
  · rw [h]
    exact (by decide : 0 < NPROC)

end Represents

theorem schedulerRound_proc (s : State) (runs : ℕ → Bool) : (s.schedulerRound runs).proc = s.proc := by
  unfold State.schedulerRound
  dsimp only
  split <;> rfl

/-- The scheduler's cursor stays in the process table. -/
theorem schedulerRound_lastProcess (runs : ℕ → Bool)
    (h : (s.containers.container c).lastProcess < NPROC) :
    ((s.schedulerRound runs).containers.container c).lastProcess < NPROC := by
  unfold State.schedulerRound
  have hsame := congrFun s.containers.getContainerToRun_container c
  dsimp only
  split
  · dsimp only
    rw [hsame]
    exact h
  next i hi =>
    dsimp only [ContainerTable.setLastProcessOfContainer]
    by_cases hc : c = s.containers.getContainerToRun.1
    · rw [hc, ContainerTable.modify_container_self]
      exact (nextAfter_eq_some (by decide) hi).1
    · rw [ContainerTable.modify_container_of_ne _ hc, hsame]
      exact h

/-- **One step.** -/
theorem Represents.step {a : BookAct} (h : ∀ c < NCONTAINER, Represents t.state c (t.book c))
    (hok : Fits t a) (hs : t.step a = some t') (hc : c < NCONTAINER) :
    Represents t'.state c (t'.book c) := by
  have hfields := fun f => step_fields (f := f) (c := c) hok hs
  cases a with
  | round runs =>
    cases hs
    refine (h c hc).keep (hfields _ (by simp [BookAct.On])) (hfields _ (by simp [BookAct.On]))
      (fun r hr => ((h c hc).strings r hr).of_proc_eq (schedulerRound_proc ..))
      (schedulerRound_lastProcess runs (h c hc).lastProcess)
  | call e =>
    obtain ⟨s', hstep, rfl⟩ := Option.map_eq_some_iff.1 hs
    obtain ⟨-, huse, hexec⟩ := step_eq_some hstep
    obtain ⟨p, call⟩ := e
    dsimp only at huse hexec
    obtain ⟨hentry, hname', hspares⟩ := hok
    have hstrings : call.destroys c = false → ∀ r ∈ (t.book c).names,
        Stays s' r.p r.addr r.name := fun hcall r hr =>
      exec_string ((h c hc).strings r hr)
        (fun hp i hi => hspares c hc hcall r hr hp i (Nat.lt_succ_of_le hi)) hexec
    -- a call that is not about the arrays of this record
    have hkeep : call.destroys c = false → (∀ f, f ≠ .status → f ≠ .proc →
        ¬ (BookAct.call ⟨p, call⟩).On t c f) → Represents s' c (t.book c) := fun hcall hon => by
      have hlast : (s'.containers.container c).lastProcess =
        (t.state.containers.container c).lastProcess := (hfields .lastProcess (hon _ (by simp) (by simp))).equal
      refine (h c hc).keep (hfields _ (hon _ (by simp) (by simp))) (hfields _ (hon _ (by simp) (by simp)))
        (hstrings hcall) ?_
      rw [hlast]
      exact (h c hc).lastProcess
    change Represents s' c (t.record ⟨p, call⟩ c)
    cases call with
    | «open» addr omode =>
      obtain ⟨n, hopen⟩ := map_snd_eq_ok hexec
      obtain ⟨x, hcontainers, hspace, hfiles, hcase⟩ := sysOpen_registered huse hopen
      unfold Booked.record
      dsimp only
      obtain ⟨hnone, rfl⟩ | ⟨name, hname, hset, hstring⟩ := hcase
      · rw [hnone]
        refine (h c hc).keep (.of_records hcontainers hspace hfiles)
          (.of_records hcontainers hspace hfiles) (hstrings rfl) ?_
        rw [hcontainers]
        exact (h c hc).lastProcess
      · rw [hname]
        dsimp only
        have hlt := hentry (by rw [hname]; simp)
        have hnew := hname' name hname
        by_cases hcid : c = (t.state.proc p).containerId
        · subst hcid
          rw [update_self]
          exact (h _ hc).register hlt hnew hset hcontainers hspace hfiles (hstrings rfl) hstring
        · rw [update_of_ne hcid]
          exact hkeep rfl fun f _ _ hon => hcid hon.2
    | containerMalloc units =>
      obtain ⟨n, hmalloc⟩ := map_snd_eq_ok hexec
      unfold Booked.record
      dsimp only
      rw [hmalloc]
      dsimp only
      obtain ⟨hunits, -, rfl⟩ | ⟨hunits, page, rfl, hspace⟩ := sysContainerMalloc_eq_ok hmalloc
      · rw [if_neg (by omega)]
        exact h c hc
      · rw [if_pos hunits, Int.toNat_natCast]
        by_cases hcid : c = (t.state.proc p).containerId
        · subst hcid
          rw [update_self]
          exact (h _ hc).allot (hentry hunits) hspace (hstrings rfl)
        · rw [update_of_ne hcid]
          exact hkeep rfl fun f _ _ hon => hcid hon.2
    | destroyContainer cid =>
      unfold Booked.record
      dsimp only
      by_cases hcid : c = cid
      · subst hcid
        rw [update_self]
        refine .destroyed (s := t.state) ?_
        obtain ⟨-, -, ⟨-, hexit⟩ | ⟨-, rfl⟩⟩ := sysDestroyContainer_eq_ok hexec
        · rw [(exit_records hexit).containers]
          exact ContainerTable.modify_container_self ..
        · exact ContainerTable.modify_container_self ..
      · rw [update_of_ne hcid]
        exact hkeep (beq_false_of_ne hcid) fun f _ _ hon => hcid hon
    | createContainer => exact hkeep rfl fun f hstatus _ hon => hstatus hon.1
    | joinContainer cid | leaveContainer => exact hkeep rfl fun f _ hproc hon => hproc hon.1
    | _ => exact hkeep rfl fun f _ _ hon => hon

/-- **The records of the containers are right in every run** that fits: the entries below the
counters are the pages returned and the names registered, in order and each once, the counters
and the scheduler's cursor are in range, and a step changes of every record the field it is
about and no other. -/
theorem records_represent (disk : Disk) (ninodes : ℕ) (freelist : List ℕ) (console : List Char)
    (t : Booked) (h : Reach Booked.step Fits (.boot disk ninodes freelist console) t) :
    (∀ c < NCONTAINER, Represents t.state c (t.book c)) ∧
      ∀ a t', Fits t a → t.step a = some t' → ∀ f c, ¬ a.On t c f → f.Same t.state t'.state c := by
  have hboot : ∀ c < NCONTAINER, Represents (boot disk ninodes freelist console) c {} :=
    fun c _ => ⟨.empty .., .empty .., List.nodup_nil, nofun, (by decide : 0 < NPROC)⟩
  refine ⟨?_, fun a t' hok hs f c hf => step_fields hok hs hf⟩
  exact h.invariant (I := fun x => ∀ c < NCONTAINER, Represents x.state c (x.book c)) hboot
    fun x a y hx hok hs c hc => Represents.step hx hok hs hc

/-- A start with pages at multiples of their size. -/
def pagedBoot : Booked := .boot smallDisk 200 ((List.range' 1 128).map (PGSIZE * ·)) []

/-- Container 1 gets a page, registers `foo` and gets another page, with a round of the scheduler
in between. -/
theorem records_represent_foo :
    ∃ t, Reach Booked.step Fits pagedBoot t ∧ (t.book 1).pages = [4096, 12288] ∧
      (t.book 1).names.map Registered.name = ["foo$1".toList] ∧
      Represents t.state 1 (t.book 1) := by
  obtain ⟨t, ht, hpages, hnames⟩ : ∃ t, Reach Booked.step Fits pagedBoot t ∧
      (t.book 1).pages = [4096, 12288] ∧
      (t.book 1).names.map Registered.name = ["foo$1".toList] :=
    exists_reach_of_any
      [.call ⟨0, .createContainer⟩, .call ⟨0, .joinContainer 1⟩, .call ⟨0, .containerMalloc 100⟩,
        .call ⟨0, .name "foo".toList⟩, .call ⟨0, .open 2 (O_CREATE ||| O_RDWR)⟩,
        .round fun i => i = 0, .call ⟨0, .containerMalloc 100⟩] (by decide +kernel)
  exact ⟨t, ht, hpages, hnames, (records_represent smallDisk 200
    ((List.range' 1 128).map (PGSIZE * ·)) [] t ht).1 1 (by decide)⟩

/-- **The arrays overflow, and names are registered twice.**  After 101 calls of
`container_malloc` the counter of the pages is an address; and a process of container 1 that
makes `foo` twice has it twice in the table. -/
theorem records_overflow :
    (∃ t, Reach Booked.step anyStep pagedBoot t ∧ (t.book 0).pages.length = 101 ∧
      100 < (t.state.containers.container 0).lastSpace) ∧
    ∃ t, Reach Booked.step anyStep pagedBoot t ∧
      (t.state.containers.container 1).lastFileIndex = 2 ∧
      (t.book 1).names.map Registered.name = ["foo$1".toList, "foo$1".toList] ∧
      ∀ r ∈ (t.book 1).names, (t.state.proc r.p).fetchstr r.addr = some r.name := by
  refine ⟨exists_reach_of_any (List.replicate 101 (.call ⟨0, .containerMalloc 100⟩))
    (by decide +kernel), exists_reach_of_any
      [.call ⟨0, .createContainer⟩, .call ⟨0, .joinContainer 1⟩, .call ⟨0, .name "foo".toList⟩,
        .call ⟨0, .open 2 (O_CREATE ||| O_RDWR)⟩,
        .call ⟨0, .name ("foo$1".toList ++ [NUL, NUL, NUL] ++ "foo".toList)⟩,
        .call ⟨0, .open 10 (O_CREATE ||| O_RDWR)⟩] (by decide +kernel)⟩

end Files
end Xv6
