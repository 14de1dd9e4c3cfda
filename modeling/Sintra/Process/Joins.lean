import Sintra.Process.Invitations

/-!
# Joins and groups

`join_swarm` books a new process under its branch, adds it to the standard groups and spawns it without
a lock. A spawn that fails is taken back; one that throws is not. The bookings are also erased when the
process has started up and when it is unpublished. The groups are edited by `make_process_group`, by the
claims of external processes, and by unpublications.

A step is one critical section: `m_groups_mutex` or `m_publish_mutex` is held over the whole of it, and
free in between. Whether a group can be published under its name is part of the action.

Sources without a file name are in `coordinator_impl.h`.
-/

namespace Sintra.Process.Joins

open Function

open Coordinator (Instance mprocId allProcesses externalProcesses)
open Registry (makeInstanceId)
open Invitations (maxProcessIndex)

/-! ### States -/

/-- Where a call of `join_swarm` is. -/
inductive Phase
  /-- The process is booked under its branch. -/
  | reserved
  /-- The process is added to the groups and spawned. -/
  | spawning
  /-- The spawn has failed. -/
  | failed
  deriving DecidableEq

structure Call where
  process : InstanceId
  branch : ℤ
  phase : Phase
  deriving DecidableEq

/-- How a spawn ends. -/
inductive Outcome
  | success
  | failure
  | exception
  deriving DecidableEq

structure State (κ : Type*) where
  tables : Tables
  /-- How many instance ids `make_instance_id` has drawn. -/
  drawn : ℕ
  /-- `m_inflight_joins` -/
  inflightJoins : ℤ → Option InstanceId
  /-- `m_joined_process_branch` -/
  joinedProcessBranch : InstanceId → Option ℤ
  /-- `s_process_index_counter` -/
  processIndexCounter : InstanceId
  /-- The keys of `m_transceiver_registry`. -/
  registered : Finset InstanceId
  /-- `m_processes_in_initialization` -/
  initializing : Finset InstanceId
  /-- The call that holds the admission mutex. -/
  admission : Option κ
  /-- `s_teardown_admission_closed` -/
  teardownAdmissionClosed : Bool
  calls : κ → Option Call

variable {κ : Type*} [DecidableEq κ]

namespace State

def setCall (s : State κ) (th : κ) (c : Option Call) : State κ :=
  { s with calls := update s.calls th c }

/-! ### The calls -/

/-- The first section of a call. It returns at once when the join is refused, and when one for the
branch is in flight.
Source: `Coordinator::join_swarm`; `id_types.h`, `make_process_instance_id` -/
def joinSwarm (s : State κ) (th : κ) (branch : ℤ) : Option (State κ) :=
  if (s.calls th).isSome ∨ s.admission.isSome then none
  else if s.teardownAdmissionClosed ∨ branch < 1 ∨ maxProcessIndex ≤ branch then some s
  else if maxProcessIndex ≤ s.registered.card + s.initializing.card then some s
  else if (s.inflightJoins branch).isSome then some s
  else
    let p := s.processIndexCounter
    let s' := { s with processIndexCounter := p + 1 }
    -- The process ids are used up, and the call throws.
    if maxProcessIndex < p then some s'
    else some ({ s' with
      inflightJoins := update s.inflightJoins branch (some p)
      joinedProcessBranch :=
        update s.joinedProcessBranch p (some ((s.joinedProcessBranch p).getD branch))
      admission := some th }.setCall th (some ⟨p, branch, .reserved⟩))

/-- The process is added to the standard groups, before it is spawned.
Source: `Coordinator::join_swarm` -/
def addToGroups (s : State κ) (th : κ) (c : Call) : State κ :=
  { s with
    tables := (s.tables.join allProcesses c.process).join externalProcesses c.process
    admission := none }.setCall th (some { c with phase := .spawning })

/-- The spawn ends.
Source: `Coordinator::join_swarm` -/
def spawned (s : State κ) (th : κ) (c : Call) : Outcome → State κ
  | .success => { s with registered := insert c.process s.registered }.setCall th none
  | .failure => s.setCall th (some { c with phase := .failed })
  | .exception => s.setCall th none

/-- A call whose spawn has failed takes back what it has done.
Source: `Coordinator::join_swarm` -/
def rollback (s : State κ) (th : κ) (c : Call) : State κ :=
  { s with
    tables := s.tables.expel Tables.standard c.process
    inflightJoins := update s.inflightJoins c.branch none
    joinedProcessBranch := update s.joinedProcessBranch c.process none }.setCall th none

/-! ### Other operations -/

/-- The booking of the process is erased, as it is in
`Coordinator::mark_initialization_complete` and `Coordinator::unpublish_transceiver_exact`. -/
def eraseJoin (s : State κ) (p : InstanceId) : State κ :=
  match s.joinedProcessBranch p with
  | none => s
  | some branch =>
    { s with
      inflightJoins := update s.inflightJoins branch none
      joinedProcessBranch := update s.joinedProcessBranch p none }

/-- Source: `Coordinator::mark_initialization_complete` -/
def markInitializationComplete (s : State κ) (p : InstanceId) : State κ :=
  { s.eraseJoin p with initializing := s.initializing.erase p }

/-- The unpublication of a `Managed_process`.
Source: `Coordinator::unpublish_transceiver_exact`,
`Coordinator::collect_pending_barrier_completions_unlocked` -/
def unpublish (s : State κ) (p : InstanceId) : State κ :=
  { s.eraseJoin p with
    initializing := s.initializing.erase p
    registered := s.registered.erase p
    tables := s.tables.forget p }

def makeProcessGroup (s : State κ) (name : String) (members : Finset InstanceId) (published : Bool) :
    State κ :=
  { s with
    tables := (s.tables.makeProcessGroup name members (makeInstanceId s.drawn) published).2
    drawn := if (s.tables.groups name).isSome then s.drawn else s.drawn + 1 }

/-- The claim of an external process commits or fails.
Source: `Coordinator::claim_external_process_invitation` -/
def claim (s : State κ) (p : InstanceId) (publishedAll publishedExternal : Bool) : State κ :=
  let (added, tables, drawn) :=
    s.tables.addExternalProcessToStandardGroups p s.drawn publishedAll publishedExternal
  { s with
    tables := tables
    drawn := drawn
    registered := if added then insert p s.registered else s.registered }

end State

/-! ### Steps -/

inductive Action (κ : Type*)
  | joinSwarm (th : κ) (branch : ℤ)
  | addToGroups (th : κ)
  | spawned (th : κ) (outcome : Outcome)
  /-- A call throws before its spawn. -/
  | throws (th : κ)
  | rollback (th : κ)
  /-- A launch reserves its initialisation, or registers its process. -/
  | beginInitialization (p : InstanceId)
  | register (p : InstanceId)
  | markInitializationComplete (p : InstanceId)
  | unpublish (p : InstanceId)
  | makeProcessGroup (name : String) (members : Finset InstanceId) (published : Bool)
  | claim (p : InstanceId) (publishedAll publishedExternal : Bool)
  | closeAdmission

/-- A call in the phase goes on. -/
def State.inPhase (s : State κ) (th : κ) (phase : Phase) (f : Call → State κ) : Option (State κ) :=
  (s.calls th).bind fun c => if c.phase = phase then some (f c) else none

def State.step (s : State κ) : Action κ → Option (State κ)
  | .joinSwarm th branch => s.joinSwarm th branch
  | .addToGroups th => s.inPhase th .reserved (s.addToGroups th)
  | .spawned th outcome => s.inPhase th .spawning fun c => s.spawned th c outcome
  | .throws th => s.inPhase th .reserved fun _ => { s.setCall th none with admission := none }
  | .rollback th => s.inPhase th .failed (s.rollback th)
  | .beginInitialization p => some { s with initializing := insert p s.initializing }
  | .register p => some { s with registered := insert p s.registered }
  | .markInitializationComplete p => some (s.markInitializationComplete p)
  | .unpublish p => if p ∈ s.registered then some (s.unpublish p) else none
  | .makeProcessGroup name members published => some (s.makeProcessGroup name members published)
  | .claim p publishedAll publishedExternal =>
    if s.admission.isSome then none
    -- A process that is registered or joining is no external one.
    else if p ∈ s.registered ∨ (s.joinedProcessBranch p).isSome then some s
    else some (s.claim p publishedAll publishedExternal)
  | .closeAdmission =>
    if s.admission.isSome then none else some { s with teardownAdmissionClosed := true }

/-- The coordinator's process is registered and no other. -/
def State.initial (κ : Type*) : State κ where
  tables := ⟨fun _ => none, fun _ => none⟩
  drawn := 0
  inflightJoins := fun _ => none
  joinedProcessBranch := fun _ => none
  processIndexCounter := mprocId + 1
  registered := {mprocId}
  initializing := ∅
  admission := none
  teardownAdmissionClosed := false
  calls := fun _ => none

/-- Joins and groups as a machine. -/
def machine (κ : Type*) [DecidableEq κ] : Machine (State κ) (Action κ) where
  init s := s = .initial κ
  step := State.step

end Sintra.Process.Joins
