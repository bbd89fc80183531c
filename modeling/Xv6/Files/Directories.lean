/-
# Directories over whole runs

In every state reached by the calls and by `link`, from any processes of any
containers, the directories are as `Tidy` says and nothing in them dangles
(`Catalogued`).  Container ids stay in the table, so no suffix ends a string.
-/

import Xv6.Files.Link
import Xv6.Files.Tags

namespace Xv6
namespace Files

open Lib Function

variable {s s' : State} {p q addr omode : ℕ} {path : Name}

/-! ### Strings and ids -/

/-- The name that `sys_open` looks up has no NUL in it. -/
theorem named_nul {makeCopy : Bool} (hcid : (s.proc p).containerId < NCONTAINER)
    (h : named s p addr omode = some (path, makeCopy, s')) : NUL ∉ path := by
  obtain ⟨path₀, hpath, h⟩ := Option.bind_eq_some_iff.1 h
  obtain ⟨r, -, -, rfl, -⟩ := rename_records (ok_of_toOption h)
  split
  · exact fun hmem =>
      (List.mem_append.1 hmem).elim (nul_not_mem_of_fetchstr hpath) (nul_not_mem_suffix hcid)
  · exact nul_not_mem_of_fetchstr hpath

/-- A process keeps its container, or gets one of the table. -/
theorem exec_containerId {call : Call} (h : exec s p call = .ok s') (q : ℕ) :
    (s'.proc q).containerId = (s.proc q).containerId ∨ (s'.proc q).containerId < NCONTAINER := by
  -- one process was replaced by one of the same container, or of another one in the table
  have hset : ∀ {x : State} {r : ℕ} {y : Proc}, SameRecords (x.setProc r y) s' → x.proc = s.proc →
      (y.containerId = (s.proc r).containerId ∨ y.containerId < NCONTAINER) →
      (s'.proc q).containerId = (s.proc q).containerId ∨ (s'.proc q).containerId < NCONTAINER := by
    intro x r y hsame hx hy
    rw [hsame.containerId]
    by_cases hq : q = r
    · rw [hq, setProc_self]
      exact hy
    · rw [setProc_of_ne _ hq, hx]
      exact .inl rfl
  cases call with
  | «open» addr omode =>
    obtain rfl | ⟨r, t, -, hproc, x, hx, hsame⟩ := exec_open h
    · exact .inl rfl
    · exact hset hsame hproc (.inl (by rw [hx.containerId, hproc]))
  | fork =>
    obtain hsame | ⟨r, child, -, -, -, hchild, -, hsame⟩ := fork_records h
    · exact .inl (hsame.containerId q)
    · exact hset hsame rfl (.inr (by rw [hchild]; decide))
  | exit => exact hset (exit_records h) rfl (.inl rfl)
  | createContainer =>
    cases h
    exact .inl rfl
  | destroyContainer cid =>
    obtain ⟨-, -, ⟨-, hexit⟩ | ⟨-, rfl⟩⟩ := sysDestroyContainer_eq_ok h
    · exact hset (exit_records hexit) rfl (.inl rfl)
    · exact .inl rfl
  | joinContainer cid =>
    obtain ⟨t, hlt, -, rfl⟩ := exec_joinContainer h
    exact hset (.refl _) rfl (.inr hlt)
  | leaveContainer =>
    obtain rfl | ⟨t, -, rfl⟩ := exec_leaveContainer h
    · exact .inl rfl
    · exact hset (.refl _) rfl (.inr (by decide : 0 < NCONTAINER))
  | containerMalloc units =>
    obtain ⟨f, m, t, rfl⟩ := exec_containerMalloc_eq h
    exact .inl rfl
  | _ =>
    obtain ⟨x, hx, hsame⟩ := exec_records id h
    exact hset hsame rfl (.inl hx.containerId)

/-! ### The invariant -/

theorem Tidy.kept : Kept fun fs => Tidy fs.disk := fun fs fs' hc h => by
  change Tidy fs'.disk
  rw [hc.disk]
  exact h

/-- **Every call leaves the directories tidy.** -/
theorem Tidy.step {e : Event} {spare : Spare} (h : Tidy s.fs.disk) (hsound : Sound spare s)
    (hids : ∀ q, (s.proc q).containerId < NCONTAINER) (hs : Files.step s e = some s') :
    Tidy s'.fs.disk := by
  obtain ⟨hp, huse, hexec⟩ := step_eq_some hs
  refine Tidy.kept.exec (hsound.cwd_live hp huse) huse hexec (fun _ _ _ _ hopen => ?_)
    (fun i data => h.write i data) (fun _ _ _ _ _ _ _ => h)
    (fun _ _ _ _ _ _ hpath _ _ hfs => ?_) h
  · refine hopen.fs_invariant Tidy.kept (fun path _ s₁ _ _ hnamed _ hl h₁ => ?_)
      (fun _ _ _ _ _ _ h₁ => h₁) (fun _ _ _ _ _ data _ _ h₁ => h₁.write _ data) h
    cases hl with
    | found => exact h₁
    | created _ hfs =>
      have hfile : FileType.file = .dir → (s₁.proc e.p).containerId = 0 := nofun
      have hmade := Tidy.created h₁ (named_nul (hids e.p) hnamed) hfile hfs
      exact hmade
  · have hmade := h.created (nul_not_mem_of_fetchstr hpath) (fun _ => rfl) hfs
    exact hmade

/-- What holds in every state. -/
structure Catalogued (s : State) : Prop where
  sound : ∃ spare, Sound spare s
  grounded : Grounded s.fs
  tidy : Tidy s.fs.disk
  ids : ∀ q, (s.proc q).containerId < NCONTAINER

/-- A link to an inode that is allocated. -/
theorem Grounded.entered {fs : FileSys} {c : ICache} {dir inum : ℕ} {name : Name} (h : Grounded fs)
    (hc : Held fs.icache none c) (hinum : (fs.disk inum).type ≠ .free)
    (hdir : (fs.disk dir).type = .dir) :
    Grounded { fs with icache := c, disk := enteredDisk fs.disk dir ⟨inum, name⟩ } := by
  have hcalm : Grounded { fs with icache := c } := Grounded.kept _ _ (.unheld hc) h
  refine ⟨?_, fun d hd e he hne => ?_, fun k hk => ?_⟩
  · dsimp only
    rw [enteredDisk_type]
    exact h.root
  · dsimp only at hd he ⊢
    rw [enteredDisk_type] at hd ⊢
    unfold enteredDisk at he
    by_cases hdd : d = dir
    · rw [hdd, update_self] at he
      obtain rfl | he := mem_linked he
      · exact hinum
      · exact h.entry dir hdir e he hne
    · rw [update_of_ne hdd] at he
      exact h.entry d hd e he hne
  · dsimp only
    rw [enteredDisk_type]
    exact hcalm.live k hk

namespace Catalogued

/-- A link keeps it. -/
theorem link {old new : ℕ} {n : ℤ} (h : Catalogued s) (hs : sysLink s p old new = .ok (n, s')) :
    Catalogued s' := by
  obtain ⟨spare, hsound⟩ := h.sound
  obtain ⟨c, hc, rfl⟩ | ⟨c, path, dir, inum, hc, hpath, hdir, hinum, hlookup, rfl⟩ := sysLink_cases hs
  · exact ⟨⟨spare, hsound.counted.unheld hc, hsound.idle⟩,
      Grounded.kept _ _ (.unheld hc) h.grounded, h.tidy, h.ids⟩
  · exact ⟨⟨spare, (hsound.counted.unheld hc).congr { Same.refl (s.setCache c) with }, hsound.idle⟩,
      h.grounded.entered hc hinum hdir,
      h.tidy.entered hdir (fitsDirent_lastElement (nul_not_mem_of_fetchstr hpath)) hlookup, h.ids⟩

/-- **One step.** -/
theorem step {a : DirAct} (h : Catalogued s) (hs : dirStep s a = some s') : Catalogued s' := by
  cases a with
  | call e =>
    obtain ⟨spare, hsound⟩ := h.sound
    refine ⟨⟨_, hsound.step hs⟩, h.grounded.step hsound hs, h.tidy.step hsound h.ids hs, fun q => ?_⟩
    obtain ⟨-, -, hexec⟩ := step_eq_some hs
    obtain heq | hlt := exec_containerId hexec q
    · rw [heq]
      exact h.ids q
    · exact hlt
  | link p old new =>
    unfold dirStep at hs
    dsimp only at hs
    obtain ⟨-, hs⟩ := Option.ite_none_right_eq_some.1 hs
    obtain ⟨r, hlink, rfl⟩ := map_eq_ok (ok_of_toOption hs)
    exact h.link hlink

end Catalogued

/-- A disk as `mkfs` leaves it, with its directories. -/
structure MkfsTidy (disk : Disk) : Prop extends Mkfs disk where
  tidy : Tidy disk

theorem Catalogued.of_boot {disk : Disk} (hdisk : MkfsTidy disk) (ninodes : ℕ) {freelist : List ℕ}
    (hfree : freelist.Nodup) (console : List Char) :
    Catalogued (boot disk ninodes freelist console) := by
  refine ⟨⟨{}, Sound.of_boot disk ninodes hfree console⟩, hdisk.grounded ninodes freelist console,
    hdisk.tidy, fun q => ?_⟩
  change (update (fun _ => ({} : Proc)) 0 _ q).containerId < NCONTAINER
  by_cases hq : q = 0
  · rw [hq, update_self]
    decide
  · rw [update_of_ne hq]
    decide

theorem smallDisk_tidy : MkfsTidy smallDisk := by
  refine ⟨smallDisk_mkfs, ?_⟩
  have hroot : ∀ d, (smallDisk d).type = .dir → d = 1 := by
    intro d hd
    match d with
    | 0 => cases hd
    | 1 => rfl
    | 2 => cases hd
    | _ + 3 => cases hd
  refine ⟨fun d hd => ?_, fun d hd => ?_, fun d hd => ?_, fun d hd => ?_⟩
  all_goals obtain rfl := hroot d hd
  · unfold NamesDiffer
    decide
  · unfold FitsDirent
    decide
  · decide
  · decide

/-- **The directories are tidy in every state**, after any calls and links. -/
theorem catalogued_of_reach {disk : Disk} (hdisk : MkfsTidy disk) {ninodes : ℕ} {freelist : List ℕ}
    (hfree : freelist.Nodup) {console : List Char}
    (h : Reach dirStep anyStep (boot disk ninodes freelist console) s) : Catalogued s :=
  h.invariant (.of_boot hdisk ninodes hfree console) fun _ _ _ hx _ hs => hx.step hs

/-- **Every directory is in order** in every state that calls and links lead to: its names differ
and fit, `.` leads back to it, and no entry leads to a free inode. -/
theorem directories_in_order {disk : Disk} (hdisk : MkfsTidy disk) {ninodes : ℕ}
    {freelist : List ℕ} (hfree : freelist.Nodup) {console : List Char}
    (h : Reach dirStep anyStep (boot disk ninodes freelist console) s) (d : ℕ)
    (hd : (s.fs.disk d).type = .dir) :
    NamesDiffer (s.fs.disk d).entries ∧ dirlookup (s.fs.disk d).entries ['.'] = some d ∧
      ∀ e ∈ (s.fs.disk d).entries, e.inum ≠ 0 →
        FitsDirent e.name ∧ (s.fs.disk e.inum).type ≠ .free := by
  have hcat := catalogued_of_reach hdisk hfree h
  exact ⟨hcat.tidy.differ d hd, hcat.tidy.dot d hd, fun e he hne =>
    ⟨hcat.tidy.fits d hd e he hne, hcat.grounded.entry d hd e he hne⟩⟩

/-- A directory that `mkdir` made has itself as its dot. -/
theorem directories_in_order_foo : ∃ s, Reach dirStep anyStep smallBoot s ∧
    (s.fs.disk 3).type = .dir ∧ dirlookup (s.fs.disk 3).entries ['.'] = some 3 :=
  (exists_reach_of_any [.call ⟨0, .name "foo".toList⟩, .call ⟨0, .mkdir 2⟩] (by decide +kernel)).imp
    fun _ h => ⟨h.1, h.2, (directories_in_order smallDisk_tidy List.nodup_range h.1 3 h.2).2.1⟩

end Files
end Xv6
