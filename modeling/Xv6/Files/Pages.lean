/-
# Pages of the container calls

Where the pages go that `kalloc` (`xv6/kalloc.c`, lines 59-95) hands out during
`sys_open`, `sys_get_file_container_id` and the container calls.  `container_malloc`
records its page in the container; `file_in_container`, `copy_helper_COW` and
`sys_get_file_container_id` (`xv6/container_manager.c`, lines 172-193,
`xv6/sysfile.c`, lines 346-401 and 655-671) take a page as a buffer and keep no
record of it; and `destroy_container_kernel` (lines 68-81) sets the counter of the
recorded pages to `0` and gives none of them back.

No page is lost in a run in which these calls are made only where they need no
buffer and have an entry for the page, and a container is destroyed only while it
has no page; and a page that a container has when it is destroyed is never given
back (`pages_recorded`).
-/

import Xv6.Files.Fields

namespace Xv6
namespace Files

open Lib Kernel

/-- The system, with the pages handed out during the calls that are counted. -/
structure Paged where
  state : State
  out : List ℕ

/-- The calls whose pages are counted. -/
def Call.counted : Call → Bool
  | .open _ _ | .getFileContainerId _ | .containerMalloc _ | .createContainer
  | .destroyContainer _ => true
  | _ => false

/-- The pages that a step takes from the free list. -/
def taken (s s' : State) : List ℕ := s.freelist.filter (· ∉ s'.freelist)

namespace Paged

/-- One step. -/
def step (t : Paged) (e : Event) : Option Paged :=
  (Files.step t.state e).map fun s =>
    ⟨s, if e.call.counted then t.out ++ taken t.state s else t.out⟩

/-- The start, with no page handed out. -/
def boot (disk : Disk) (ninodes : ℕ) (freelist : List ℕ) (console : List Char) : Paged :=
  ⟨Files.boot disk ninodes freelist console, []⟩

end Paged

/-- A page is in `space_mapping` of a container, below `last_space`. -/
def Allotted (s : State) (c page : ℕ) : Prop :=
  ∃ i < (s.containers.container c).lastSpace, s.spaceMapping c i = page

instance (s : State) (c page : ℕ) : Decidable (Allotted s c page) :=
  inferInstanceAs (Decidable (∃ i < _, _))

/-- A page is recorded for an alive container. -/
def Recorded (s : State) (page : ℕ) : Prop :=
  ∃ c < NCONTAINER, (s.containers.container c).status = .alive ∧ Allotted s c page

instance (s : State) (page : ℕ) : Decidable (Recorded s page) :=
  inferInstanceAs (Decidable (∃ c < NCONTAINER, _))

/-- `sys_open` takes no buffer: the name starts one of the initial files, and the caller is a
process of the host or opens it neither for reading alone nor for writing. -/
def NoBuffer (cid : ℕ) (path : Name) (omode : ℕ) : Prop :=
  inInitialFiles path = true ∧ (cid = 0 ∨ omode ≠ O_RDONLY ∧ writes omode = false)

instance (cid : ℕ) (path : Name) (omode : ℕ) : Decidable (NoBuffer cid path omode) :=
  inferInstanceAs (Decidable (_ ∧ _))

/-- What the calls have to keep to: `sys_open` and `sys_get_file_container_id` take no buffer;
`container_malloc` has an entry for the page, in an alive container if there is a page; and
a container that is destroyed has no page that was handed out. -/
def Thrifty (t : Paged) (e : Event) : Prop :=
  let s := t.state
  let caller := s.proc e.p
  match e.call with
  | .open addr omode =>
      ∀ path ∈ caller.fetchstr addr, NoBuffer caller.containerId path omode
  | .getFileContainerId addr => caller.fetchstr addr = none
  | .containerMalloc units => units < PGSIZE →
      (s.containers.container caller.containerId).lastSpace < NCENTRY ∧
        (s.freelist = [] ∨ (s.containers.container caller.containerId).status = .alive)
  | .destroyContainer cid => ∀ page ∈ t.out, ¬ Allotted s cid page
  | _ => True

instance (t : Paged) (e : Event) : Decidable (Thrifty t e) := by
  unfold Thrifty
  rcases e.call with _ | _ <;> infer_instance

variable {s s' : State} {t t' : Paged} {p c cid addr omode page : ℕ} {path path' : Name}

/-! ### The free list -/

/-- Without a buffer, nothing is registered and nothing copied. -/
theorem NoBuffer.renaming {table : ℕ → List ℕ} {x : Proc} {r : Renaming}
    (hno : NoBuffer x.containerId path omode)
    (h : x.renaming table addr path omode = .ok r) :
    r.pages = 0 ∧ r.register = false ∧ r.makeCopy = false := by
  obtain ⟨⟨existing, pages⟩, hexisting, h⟩ := bind_eq_ok.1 h
  unfold Proc.existing at hexisting
  rw [if_pos hno.1] at hexisting
  cases hexisting
  dsimp only at h
  rw [if_pos rfl] at h
  split at h
  · cases h
    exact ⟨rfl, rfl, rfl⟩
  next hcid =>
    obtain ⟨hread, hwrite⟩ := hno.2.resolve_left hcid
    rw [if_neg hread, if_neg (by rw [hwrite]; exact Bool.false_ne_true)] at h
    cases h
    exact ⟨rfl, rfl, rfl⟩

theorem rename_freelist {makeCopy : Bool}
    (h : s.rename p addr path omode = .ok (path', makeCopy, s')) :
    ∃ r, (s.proc p).renaming s.fileTable addr path omode = .ok r ∧ makeCopy = r.makeCopy ∧
      s'.freelist = s.freelist.drop r.pages := by
  obtain ⟨r, hr, hcopy, -, -, hreg⟩ := rename_eq_ok h
  refine ⟨r, hr, hcopy, ?_⟩
  obtain ⟨-, hset⟩ | ⟨-, rfl⟩ := register_cases hreg
  · obtain ⟨-, rfl⟩ | ⟨-, rfl⟩ := setFileInContainer_cases hset
    · rfl
    · rfl
  · rfl

theorem openInode_freelist {makeCopy : Bool} {r : Option ℕ}
    (h : s.openInode p path omode makeCopy = .ok (r, s')) : s'.freelist = s.freelist := by
  cases openInode_looked h <;> rfl

theorem fileFd_freelist {r : Option (ℕ × ℕ)} (h : s.fileFd p = (r, s')) :
    s'.freelist = s.freelist := by
  cases r with
  | none => obtain rfl | ⟨f, -, -, rfl⟩ := fileFd_none h <;> rfl
  | some r =>
    obtain ⟨-, -, -, -, rfl⟩ := fileFd_some h
    rfl

/-- `sys_open` without a buffer. -/
theorem Opening.freelist {n : ℤ} (h : Opening s p addr omode n s')
    (hpages : ∀ path ∈ (s.proc p).fetchstr addr, NoBuffer (s.proc p).containerId path omode) :
    s'.freelist = s.freelist := by
  have hrename : ∀ {path path' makeCopy s₁}, (s.proc p).fetchstr addr = some path →
      s.rename p addr path omode = .ok (path', makeCopy, s₁) →
      makeCopy = false ∧ s₁.freelist = s.freelist := by
    intro path path' makeCopy s₁ hpath hname
    obtain ⟨r, hr, rfl, hfree⟩ := rename_freelist hname
    obtain ⟨hzero, -, hcopy⟩ := (hpages path hpath).renaming hr
    rw [hfree, hzero]
    exact ⟨hcopy, rfl⟩
  cases h with
  | unnamed => rfl
  | missing hpath hname hlook =>
    rw [openInode_freelist hlook, (hrename hpath hname).2]
  | full hpath hname hlook hfd =>
    refine (fileFd_freelist hfd).trans ?_
    rw [openInode_freelist hlook, (hrename hpath hname).2]
  | refused hpath hname hlook hfd _ =>
    rw [fileFd_freelist hfd, openInode_freelist hlook, (hrename hpath hname).2]
  | opened hpath hname hlook hfd _ =>
    refine (fileFd_freelist hfd).trans ?_
    rw [openInode_freelist hlook, (hrename hpath hname).2]
  | copied hpath hname _ _ _ _ => cases (hrename hpath hname).1

/-- Closing a file gives pages back at most. -/
theorem fileclose_freelist {f : ℕ} (h : s.fileclose f = .ok s') : s.freelist ⊆ s'.freelist := by
  unfold State.fileclose at h
  dsimp only at h
  obtain ⟨-, h⟩ := ite_error_eq_ok.1 h
  split at h
  · cases h
    exact List.Subset.refl _
  · split at h
    · cases h
      unfold State.pipeclose
      dsimp only
      split_ifs
      · exact List.subset_cons_self ..
      · exact List.Subset.refl _
      · exact List.subset_cons_self ..
      · exact List.Subset.refl _
    · cases h
      exact List.Subset.refl _
    · cases h
      exact List.Subset.refl _

/-- A process that exits gives pages back at most. -/
theorem exit_freelist (h : exit s p = .ok s') : s.freelist ⊆ s'.freelist := by
  obtain ⟨x, hloop, rfl⟩ := exit_eq_ok h
  refine foldlM_range_invariant (I := fun _ x => s.freelist ⊆ x.freelist) NOFILE
    (List.Subset.refl _) (fun i _ x y hx hy => ?_) hloop
  unfold State.closeFd at hy
  split at hy
  · cases hy
    exact hx
  · have hclose := fileclose_freelist hy
    exact List.Subset.trans hx hclose

/-- The page is that of a pipe. -/
def PipePage (s : State) (page : ℕ) : Prop :=
  ∃ f, (s.file f).type = .pipe ∧ (s.file f).pipe = page

/-- The free list got pages of pipes of `s` at most, and no pipe is new. -/
structure Released (s x : State) : Prop where
  pages : ∀ page ∈ x.freelist, page ∈ s.freelist ∨ PipePage s page
  pipes : ∀ f, (x.file f).type = .pipe → (s.file f).type = .pipe ∧ (x.file f).pipe = (s.file f).pipe

/-- **Closing a file gives back the page of a pipe at most.** -/
theorem Released.fileclose {x y : State} {f : ℕ} (h : Released s x) (hy : x.fileclose f = .ok y) :
    Released s y := by
  unfold State.fileclose at hy
  dsimp only at hy
  obtain ⟨-, hy⟩ := ite_error_eq_ok.1 hy
  -- an entry that is closed is no pipe any more
  have hclosed : ∀ (r : ℕ) (type : FdType), (type = .pipe → (x.file f).type = .pipe) →
      ∀ g, ((Function.update x.file f { x.file f with ref := r, type := type }) g).type = .pipe →
        (s.file g).type = .pipe ∧
          ((Function.update x.file f { x.file f with ref := r, type := type }) g).pipe =
            (s.file g).pipe := by
    intro r type htype g hg
    rcases eq_or_ne g f with rfl | hne
    · rw [Function.update_self] at hg ⊢
      exact h.pipes g (htype hg)
    · rw [Function.update_of_ne hne] at hg ⊢
      exact h.pipes g hg
  split at hy
  · cases hy
    exact ⟨h.pages, hclosed _ _ id⟩
  · split at hy
    next htype =>
      cases hy
      refine ⟨fun page hpage => ?_, ?_⟩
      · unfold State.pipeclose at hpage
        dsimp only at hpage
        have hfreed : page ∈ (x.file f).pipe :: x.freelist → page ∈ s.freelist ∨ PipePage s page :=
          fun hmem => (List.mem_cons.1 hmem).elim
            (fun he => .inr ⟨f, (h.pipes f htype).1, by rw [he, (h.pipes f htype).2]⟩) (h.pages page)
        split_ifs at hpage
        · exact hfreed hpage
        · exact h.pages page hpage
        · exact hfreed hpage
        · exact h.pages page hpage
      · have hfile : ∀ g, ((x.setFile f { x.file f with ref := 0, type := .none }).pipeclose
            (x.file f).pipe (x.file f).writable).file g =
            Function.update x.file f { x.file f with ref := 0, type := .none } g := fun g => by
          unfold State.pipeclose
          dsimp only
          split_ifs <;> rfl
        intro g hg
        rw [hfile] at hg ⊢
        exact hclosed 0 .none nofun g hg
    · cases hy
      exact ⟨h.pages, hclosed _ _ nofun⟩
    · cases hy
      exact ⟨h.pages, hclosed _ _ nofun⟩

theorem Released.exit {x : State} (h : exit s p = .ok x) : Released s x := by
  obtain ⟨y, hloop, rfl⟩ := exit_eq_ok h
  have hy := foldlM_range_invariant (I := fun _ y => Released s y) NOFILE
    ⟨fun _ => .inl, fun _ hf => ⟨hf, rfl⟩⟩ (fun i _ y z hy hz => ?_) hloop
  · exact ⟨hy.pages, hy.pipes⟩
  · unfold State.closeFd at hz
    split at hz
    · cases hz
      exact hy
    · exact Released.fileclose (x := y.setFd p i none) ⟨hy.pages, hy.pipes⟩ hz

/-! ### One step -/

theorem Allotted.same (h : Allotted s c page) (hsame : Field.space.Same s s' c) :
    Allotted s' c page := by
  obtain ⟨i, hi, hpage⟩ := h
  have hlast : (s'.containers.container c).lastSpace = _ := hsame.equal
  refine ⟨i, ?_, ?_⟩
  · rw [hlast]
    exact hi
  · rw [hsame.space rfl]
    exact hpage

/-- A container that is given out was dead. -/
theorem created_dead (h : (c : ℤ) = (sysCreateContainer s).1) :
    c < NCONTAINER ∧ (s.containers.container c).status = .dead := by
  unfold sysCreateContainer at h
  obtain hnone | ⟨i, -, hlt, hdead, hsome⟩ := s.containers.getContainer_cases
  · rw [hnone] at h
    dsimp only at h
    omega
  · rw [hsome] at h
    obtain rfl : c = i := Int.ofNat.inj h
    exact ⟨hlt, hdead⟩

/-- There is an entry for what a thrifty call records. -/
theorem Thrifty.hasEntry {e : Event} (h : Thrifty t e) : HasEntry t.state e := by
  obtain ⟨p, call⟩ := e
  cases call with
  | «open» addr omode =>
    intro hname
    obtain ⟨name, hname⟩ := Option.ne_none_iff_exists'.1 hname
    unfold registered at hname
    obtain ⟨path, hpath, hname⟩ := Option.bind_eq_some_iff.1 hname
    obtain ⟨r, hr, hname⟩ := Option.bind_eq_some_iff.1 hname
    rw [((h path hpath).renaming (ok_of_toOption hr)).2.1] at hname
    cases hname
  | containerMalloc units => exact fun hunits => (h hunits).1
  | _ => trivial

/-- A page allotted, with the pages allotted before. -/
theorem allot {n : ℕ} (hlt : (s.containers.container cid).lastSpace < NCENTRY)
    (h : s.getSpaceInContainer cid = .ok (n, s')) :
    Allotted s' cid n ∧ ∀ page, Allotted s cid page → Allotted s' cid page := by
  obtain ⟨-, ⟨-, rfl⟩ | ⟨heq, -⟩⟩ := getSpaceInContainer_cases h
  · unfold Allotted
    dsimp only
    rw [Function.update_self, ContainerTable.modify_container_self]
    refine ⟨⟨_, Nat.lt_succ_self _, Function.update_self ..⟩, ?_⟩
    rintro page ⟨i, hi, hpage⟩
    exact ⟨i, Nat.lt_succ_of_lt hi, (Function.update_of_ne (Nat.ne_of_lt hi) ..).trans hpage⟩
  · omega

/-- **A page stays recorded.** -/
theorem Recorded.step {call : Call} (h : Recorded t.state page) (hout : page ∈ t.out)
    (hok : Thrifty t ⟨p, call⟩) (huse : (t.state.proc p).inUse = true)
    (hexec : exec t.state p call = .ok s') : Recorded s' page := by
  obtain ⟨c, hlt, halive, hpage⟩ := h
  have hfields := fun f => exec_fields (f := f) (c := c) huse hok.hasEntry hexec
  have hkeep : ¬ Event.On t.state ⟨p, call⟩ c .status → ¬ Event.On t.state ⟨p, call⟩ c .space →
      Recorded s' page := fun hstatus hspace =>
    ⟨c, hlt, (hfields .status hstatus).equal.trans halive, hpage.same (hfields .space hspace)⟩
  cases call with
  | containerMalloc units =>
    by_cases hc : c = (t.state.proc p).containerId
    · have hstatus : (s'.containers.container c).status = _ :=
        (hfields .status fun h => nomatch h.1).equal
      refine ⟨c, hlt, hstatus.trans halive, ?_⟩
      subst hc
      obtain rfl | ⟨hunits, page', hspace⟩ := exec_containerMalloc hexec
      · exact hpage
      · exact (allot (hok hunits).1 hspace).2 page hpage
    · exact hkeep (fun h => nomatch h.1) fun h => hc h.2
  | createContainer =>
    refine hkeep (fun h => ?_) fun h => nomatch h.1
    rw [(created_dead h.2).2] at halive
    cases halive
  | destroyContainer cid =>
    have hc : c ≠ cid := by
      rintro rfl
      exact hok page hout hpage
    exact hkeep hc hc
  | «open» addr omode | joinContainer cid | leaveContainer =>
    exact hkeep (fun h => nomatch h.1) fun h => nomatch h.1
  | _ => exact hkeep id id

/-- The alive containers are in the table. -/
def AliveInTable (s : State) : Prop :=
  ∀ c, (s.containers.container c).status = .alive → c < NCONTAINER

theorem AliveInTable.step {call : Call} (h : AliveInTable s) (huse : (s.proc p).inUse = true)
    (hentry : HasEntry s ⟨p, call⟩) (hexec : exec s p call = .ok s') : AliveInTable s' := by
  intro c halive
  have hkeep : ¬ Event.On s ⟨p, call⟩ c .status → c < NCONTAINER := fun hon =>
    h c ((exec_fields huse hentry hexec hon).equal.symm.trans halive)
  cases call with
  | createContainer =>
    by_cases hc : (c : ℤ) = (sysCreateContainer s).1
    · exact (created_dead hc).1
    · exact hkeep fun hon => hc hon.2
  | destroyContainer cid =>
    by_cases hc : c = cid
    · rw [hc]
      exact (sysDestroyContainer_eq_ok hexec).1
    · exact hkeep hc
  | «open» addr omode | joinContainer cid | leaveContainer | containerMalloc units =>
    exact hkeep fun hon => nomatch hon.1
  | _ => exact hkeep id

/-- **A page that is handed out is recorded.** -/
theorem recorded_of_taken {call : Call} (hcounted : call.counted = true)
    (hlive : AliveInTable t.state) (hok : Thrifty t ⟨p, call⟩)
    (hexec : exec t.state p call = .ok s') (hpage : page ∈ taken t.state s') : Recorded s' page := by
  obtain ⟨hfree, hgone⟩ := List.mem_filter.1 hpage
  have hgone : page ∉ s'.freelist := of_decide_eq_true hgone
  have hnone : ¬ t.state.freelist ⊆ s'.freelist := fun hsub => hgone (hsub hfree)
  cases call with
  | «open» addr omode =>
    obtain ⟨n, hopen⟩ := map_snd_eq_ok hexec
    exact absurd (((sysOpen_opening hopen).freelist hok) ▸ List.Subset.refl _) hnone
  | getFileContainerId addr =>
    obtain ⟨n, hget⟩ := map_snd_eq_ok hexec
    unfold sysGetFileContainerId at hget
    rw [show (t.state.proc p).fetchstr addr = none from hok] at hget
    cases hget
    exact absurd hfree hgone
  | containerMalloc units =>
    obtain rfl | ⟨hunits, page', hspace⟩ := exec_containerMalloc hexec
    · exact absurd hfree hgone
    · obtain ⟨hlt, hempty | halive⟩ := hok hunits
      · exact absurd (hempty ▸ hfree) List.not_mem_nil
      · have hstatus : (s'.containers.container (t.state.proc p).containerId).status = _ :=
          (Field.Same.allotted (f := .status) (fun h => nomatch h.1) hlt hspace).equal
        refine ⟨_, hlive _ halive, hstatus.trans halive, ?_⟩
        -- the page that is gone is the first of the list
        obtain ⟨hpage', hcases⟩ := getSpaceInContainer_cases hspace
        have htail : s'.freelist = t.state.freelist.tail := by
          obtain ⟨-, rfl⟩ | ⟨-, rfl⟩ := hcases <;> rfl
        obtain ⟨head, rest, hlist⟩ := List.exists_cons_of_ne_nil (List.ne_nil_of_mem hfree)
        rw [htail, hlist] at hgone
        rw [hlist] at hfree hpage'
        obtain rfl : page = page' :=
          ((List.mem_cons.1 hfree).resolve_right hgone).trans hpage'.symm
        exact (allot hlt hspace).1
  | createContainer =>
    cases hexec
    exact absurd hfree hgone
  | destroyContainer cid =>
    obtain ⟨-, -, ⟨-, hexit⟩ | ⟨-, rfl⟩⟩ := sysDestroyContainer_eq_ok hexec
    · exact absurd (exit_freelist hexit) hnone
    · exact absurd hfree hgone
  | _ => cases hcounted

/-- What holds of the pages in every state. -/
structure Accounted (t : Paged) : Prop where
  alive : AliveInTable t.state
  pages : ∀ page ∈ t.out, Recorded t.state page

/-- **One step.** -/
theorem Accounted.step {e : Event} (h : Accounted t) (hok : Thrifty t e)
    (hs : t.step e = some t') : Accounted t' := by
  obtain ⟨s', hstep, rfl⟩ := Option.map_eq_some_iff.1 hs
  obtain ⟨-, huse, hexec⟩ := step_eq_some hstep
  refine ⟨h.alive.step huse hok.hasEntry hexec, fun page hpage => ?_⟩
  have hold : page ∈ t.out → Recorded s' page := fun hout =>
    (h.pages page hout).step hout hok huse hexec
  dsimp only at hpage
  split at hpage
  next hcounted =>
    obtain hout | hnew := List.mem_append.1 hpage
    · exact hold hout
    · exact recorded_of_taken hcounted h.alive hok hexec hnew
  · exact hold hpage

/-- **No page is lost** in a run whose calls are thrifty: every page handed out is on the free
list or recorded for an alive container.  But a page that a container has when it is destroyed,
by whichever call, is not on the free list afterwards, unless it was before or is a pipe's. -/
theorem pages_recorded (disk : Disk) (ninodes : ℕ) (freelist : List ℕ) (console : List Char)
    (t : Paged) (h : Reach Paged.step Thrifty (.boot disk ninodes freelist console) t) :
    (∀ page ∈ t.out, page ∈ t.state.freelist ∨ Recorded t.state page) ∧
      ∀ p c t', t.step ⟨p, .destroyContainer c⟩ = some t' → ∀ page, Allotted t.state c page →
        page ∉ t.state.freelist → ¬ PipePage t.state page → page ∉ t'.state.freelist := by
  have hboot : Accounted (.boot disk ninodes freelist console) :=
    ⟨fun c halive => (nomatch halive), nofun⟩
  have ht : Accounted t := h.invariant hboot fun x a y hx hok hs => hx.step hok hs
  refine ⟨fun page hpage => .inr (ht.pages page hpage), fun p c t' hs page _ hfree hpipe => ?_⟩
  obtain ⟨s', hstep, rfl⟩ := Option.map_eq_some_iff.1 hs
  obtain ⟨-, -, hexec⟩ := step_eq_some hstep
  obtain ⟨-, -, ⟨-, hexit⟩ | ⟨-, rfl⟩⟩ := sysDestroyContainer_eq_ok hexec
  · exact fun hmem => ((Released.exit hexit).pages page hmem).elim hfree hpipe
  · exact hfree

/-- A start with pages at multiples of their size. -/
def Paged.small : Paged := .boot smallDisk 200 ((List.range' 1 8).map (PGSIZE * ·)) []

/-- Container 1 is given two pages, the host opens `README`, and an empty container is
destroyed. -/
theorem pages_recorded_two :
    ∃ t, Reach Paged.step Thrifty .small t ∧ t.out = [4096, 8192] ∧
      ∀ page ∈ t.out, page ∈ t.state.freelist ∨ Recorded t.state page := by
  obtain ⟨t, ht, hout⟩ : ∃ t, Reach Paged.step Thrifty .small t ∧ t.out = [4096, 8192] :=
    exists_reach_of_any
      [⟨0, .createContainer⟩, ⟨0, .createContainer⟩, ⟨0, .name "README".toList⟩,
        ⟨0, .open 2 O_RDONLY⟩, ⟨0, .joinContainer 1⟩, ⟨0, .containerMalloc 100⟩,
        ⟨0, .destroyContainer 2⟩, ⟨0, .containerMalloc 100⟩] (by decide +kernel)
  exact ⟨t, ht, hout, (pages_recorded smallDisk 200 ((List.range' 1 8).map (PGSIZE * ·)) [] t ht).1⟩

/-- **Pages are lost** by a call of `sys_open` on a name that is none of the initial ones, and
by `destroy_container` on a container that has one. -/
theorem pages_lost :
    (∃ t, Reach Paged.step anyStep .small t ∧
      4096 ∈ t.out ∧ 4096 ∉ t.state.freelist ∧ ¬ Recorded t.state 4096) ∧
    ∃ t t', Reach Paged.step anyStep .small t ∧ t.step ⟨0, .destroyContainer 1⟩ = some t' ∧
      4096 ∈ t.out ∧ Allotted t.state 1 4096 ∧
      4096 ∈ t'.out ∧ 4096 ∉ t'.state.freelist ∧ ¬ Recorded t'.state 4096 := by
  refine ⟨exists_reach_of_any
    [⟨0, .name "foo".toList⟩, ⟨0, .open 2 (O_CREATE ||| O_RDWR)⟩] (by decide +kernel), ?_⟩
  obtain ⟨t, ht, hout, hpage, hlost⟩ : ∃ t, Reach Paged.step anyStep .small t ∧
      4096 ∈ t.out ∧ Allotted t.state 1 4096 ∧
      (t.step ⟨0, .destroyContainer 1⟩).any (fun t' =>
        4096 ∈ t'.out ∧ 4096 ∉ t'.state.freelist ∧ ¬ Recorded t'.state 4096) = true :=
    exists_reach_of_any [⟨0, .createContainer⟩, ⟨0, .joinContainer 1⟩, ⟨0, .containerMalloc 100⟩,
      ⟨0, .leaveContainer⟩] (by decide +kernel)
  obtain ⟨t', hs, hlost⟩ := (Option.any_eq_true _ _).1 hlost
  exact ⟨t, t', ht, hs, hout, hpage, of_decide_eq_true hlost⟩

end Files
end Xv6
