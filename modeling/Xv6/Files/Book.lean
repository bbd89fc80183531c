/-
# A book of pages and names

`Booked` keeps beside the system what `container_malloc` has given out for each
container, and which names `sys_open` has registered for it, since it was destroyed
last (`xv6/container_manager.c`, lines 148-169).

The records agree with the book as long as the calls fit (`Fits`): there is an entry
for what they record; a name is registered once only, while a container that opens
it with `O_CREATE` registers it every time; and the names stay in the memory of the
processes, to which the entries are addresses.
-/

import Xv6.Lib.Cursor
import Xv6.Files.Fields

namespace Xv6
namespace Files

open Lib Kernel Function

/-- A name in a container's table: the process that registered it, the address it has in the
memory of this process, and the name. -/
structure Registered where
  p : ℕ
  addr : ℕ
  name : Name

/-- What was given out and registered for a container. -/
structure Record where
  pages : List ℕ := []
  names : List Registered := []

/-- The system, with what was recorded for each container. -/
structure Booked where
  state : State
  book : ℕ → Record

/-- One round of `scheduler`, in which the slots that pass its two tests are those of `runs`. -/
def State.schedulerRound (s : State) (runs : ℕ → Bool) : State :=
  let (cid, containers) := s.containers.getContainerToRun
  match nextAfter NPROC runs (containers.container cid).lastProcess with
  | none => { s with containers := containers }
  | some i => { s with containers := containers.setLastProcessOfContainer i cid }

/-- A call, or a round of the scheduler. -/
inductive BookAct where
  | call (e : Event)
  | round (runs : ℕ → Bool)

namespace Booked

/-- What is recorded after a call. -/
def record (t : Booked) (e : Event) : ℕ → Record :=
  let cid := (t.state.proc e.p).containerId
  match e.call with
  | .open addr omode =>
      match registered t.state e.p addr omode with
      | none => t.book
      | some name =>
          update t.book cid
            { t.book cid with names := (t.book cid).names ++ [⟨e.p, addr, name⟩] }
  | .containerMalloc units =>
      match sysContainerMalloc t.state e.p units with
      | .error _ => t.book
      | .ok (page, _) =>
          if units < PGSIZE then
            update t.book cid { t.book cid with pages := (t.book cid).pages ++ [page.toNat] }
          else t.book
  | .destroyContainer cid => update t.book cid {}
  | _ => t.book

/-- One step. -/
def step (t : Booked) : BookAct → Option Booked
  | .call e => (Files.step t.state e).map fun s => ⟨s, t.record e⟩
  | .round runs => some ⟨t.state.schedulerRound runs, t.book⟩

/-- The start, with nothing recorded. -/
def boot (disk : Disk) (ninodes : ℕ) (freelist : List ℕ) (console : List Char) : Booked :=
  ⟨Files.boot disk ninodes freelist console, fun _ => {}⟩

end Booked

/-- Whether a call destroys a container. -/
def Call.destroys : Call → ℕ → Bool
  | .destroyContainer cid, c => c == cid
  | _, _ => false

/-- A name that is registered is not in the table. -/
def NewName (t : Booked) (e : Event) : Prop :=
  match e.call with
  | .open addr omode => ∀ name ∈ registered t.state e.p addr omode,
      ∀ r ∈ (t.book (t.state.proc e.p).containerId).names, r.name ≠ name
  | _ => True

instance (t : Booked) (e : Event) : Decidable (NewName t e) := by
  unfold NewName
  rcases e.call with _ | _ <;> infer_instance

/-- The caller does not write over a name that stays in a table. -/
def Spares (t : Booked) (e : Event) : Prop :=
  ∀ c < NCONTAINER, e.call.destroys c = false → ∀ r ∈ (t.book c).names, r.p = e.p →
    ∀ i < r.name.length + 1, ¬ e.call.overwrites t.state e.p (r.addr + i)

instance (t : Booked) (e : Event) : Decidable (Spares t e) :=
  inferInstanceAs (Decidable (∀ c < NCONTAINER, _))

/-- What a step has to keep to. -/
def Fits (t : Booked) : BookAct → Prop
  | .call e => HasEntry t.state e ∧ NewName t e ∧ Spares t e
  | .round _ => True

instance (t : Booked) (a : BookAct) : Decidable (Fits t a) := by
  unfold Fits
  split <;> infer_instance

/-! ### One field at a time -/

/-- The field of a container's record that a step is about. -/
def BookAct.On (t : Booked) (a : BookAct) (c : ℕ) (f : Field) : Prop :=
  match a with
  | .round _ => f = .lastProcess ∧ c = t.state.containers.getContainerToRun.1
  | .call e => e.On t.state c f

variable {s s' : State} {t t' : Booked} {c : ℕ} {f : Field}

/-- A round of the scheduler. -/
theorem Field.Same.schedulerRound (runs : ℕ → Bool)
    (hf : ¬ (f = .lastProcess ∧ c = s.containers.getContainerToRun.1)) :
    f.Same s (s.schedulerRound runs) c := by
  have hrun : f.Same s { s with containers := s.containers.getContainerToRun.2 } c :=
    .of_eq (congrFun s.containers.getContainerToRun_container c) rfl rfl
  unfold State.schedulerRound
  dsimp only
  split
  · exact hrun
  next i _ =>
    refine hrun.trans (.modify (fun c => { c with lastProcess := i }) rfl (fun hc => ?_)
      (fun _ => rfl) fun _ => rfl)
    cases f <;> first | rfl | exact absurd ⟨rfl, hc⟩ hf

/-- **A step changes the field it is about and no other.** -/
theorem step_fields {a : BookAct} (hok : Fits t a) (hs : t.step a = some t') (hf : ¬ a.On t c f) :
    f.Same t.state t'.state c := by
  cases a with
  | round runs =>
    cases hs
    exact .schedulerRound runs hf
  | call e =>
    obtain ⟨s', hstep, rfl⟩ := Option.map_eq_some_iff.1 hs
    obtain ⟨-, huse, hexec⟩ := step_eq_some hstep
    exact exec_fields huse hok.1 hexec hf

end Files
end Xv6
