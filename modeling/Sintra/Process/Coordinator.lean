import Sintra.Lib.Machine
import Sintra.Process.ProcessGroup

/-!
# The coordinator: publication, departure, groups

The part of `Coordinator` that decides who is a member of which process group and who is draining:
publication and unpublication of transceivers, `begin_process_draining`,
`begin_collective_shutdown`, `begin_shutdown`, invitations of external processes, `join_swarm`,
release of a child's custody, and the creation and removal of groups.

Operations interleave as the locks let them. What runs under `m_publish_mutex` alone is one step.
What runs under `m_groups_mutex` goes from group to group, one `m_call_mutex` at a time, and is the
`groupsWork` of the state. A call of `barrier` holds the `m_call_mutex` of its group while it looks
at the draining state of one member after the other (`calls`). Everything an operation still has to
do without holding one of these is a `Task`. The coordinator is at rest when nothing of the three is
left.

Processes are named by the id of their `Managed_process` instance. There is one for each process
slot and it is not used again for another process, so the arrays over slots are functions of it.

Sources without a file name are in `coordinator_impl.h`.
-/

namespace Sintra.Process.Coordinator

open Function

/-! ### Publications -/

/-- A transceiver instance: its process and its index there. Source: `id_types.h`,
`compose_instance` -/
structure Instance where
  process : InstanceId
  transceiver : ℕ
  deriving DecidableEq

/-- The `Managed_process` instance of a process. Source: `id_types.h`, `make_process_instance_id` -/
def managedProcess (p : InstanceId) : Instance := ⟨p, 1⟩

/-- Source: `coordinator.h`, `Process_reader_identity` -/
inductive ReaderIdentity
  | unbound
  | externalProcess (occurrence : ℕ)
  | managedChild (custodyIdentity occurrence : ℕ)
  deriving DecidableEq

/-- Source: `coordinator.h`, `Transceiver_publication` -/
structure Publication where
  name : String
  readerIdentity : ReaderIdentity

/-- Source: `config.h`, `max_public_transceivers_per_proc` -/
def maxPublicTransceiversPerProc : ℕ := 65535

/-- The process of the coordinator. Source: `s_mproc_id` -/
def mprocId : InstanceId := 2

def allProcesses : String := "_sintra_all_processes"

def externalProcesses : String := "_sintra_external_processes"

/-- The groups every process of the swarm belongs to. -/
def standardGroups : List String := [allProcesses, externalProcesses]

/-- Source: `coordinator.h`, `External_process_invitation_state` -/
inductive Invitation
  | pending
  | rejecting
  | removing
  deriving DecidableEq

/-! ### Operations in progress -/

/-- A call of `barrier` that holds the `m_call_mutex`: the members it has not looked at, and those it
found neither draining nor in collective shutdown. -/
structure BarrierCall where
  caller : InstanceId
  barrierName : String
  modeTag : ℤ
  unchecked : Finset InstanceId
  found : Finset InstanceId

/-- The arguments of `collect_pending_barrier_completions`. -/
structure Collection where
  process : InstanceId
  removeProcess : Bool
  scope : BarrierScope
  deriving DecidableEq

/-- What an operation has still to do, without holding a mutex now. -/
inductive Task
  /-- The second section of the last arriver of a round. -/
  | closeRound (group barrierName : String) (object : ℕ) (iid : InstanceId)
  /-- A collection without removal, which has still to take `m_groups_mutex`. -/
  | collect (p : InstanceId) (scope : BarrierScope)
  /-- `join_swarm` has drawn an id. -/
  | enlist (p : InstanceId)
  /-- `join_swarm` has added the process to the groups. -/
  | launch (p : InstanceId)
  /-- `join_swarm` has failed to spawn the process. -/
  | delist (p : InstanceId)
  /-- The release of a custody has marked the process and has still to unpublish it. -/
  | release (p : InstanceId)
  /-- `begin_shutdown` has set `m_shutdown`. -/
  | cancelInvitations
  /-- `begin_shutdown` has cancelled the invitations. -/
  | drainAttached
  /-- A loop of `begin_shutdown` has still to mark the process. -/
  | mark (p : InstanceId)
  deriving DecidableEq

/-- What the holder of `m_groups_mutex` does, with the groups that are left. -/
inductive GroupsWork
  /-- `dropped`: the first of the groups has only the removal left. -/
  | collect (c : Collection) (todo : List String) (dropped : Bool)
  | enlist (p : InstanceId) (todo : List String)
  | delist (p : InstanceId) (todo : List String)
  /-- The updates made so far, with the instance of the group if it was created for the process. -/
  | attach (p : InstanceId) (todo : List String) (updates : List (String × Option Instance))
  | rollback (p : InstanceId) (updates : List (String × Option Instance))

/-! ### States -/

structure State where
  /-- `m_transceiver_registry` -/
  registry : AList fun _ : InstanceId => AList fun _ : Instance => Publication
  /-- `m_instance_id_of_assigned_name` -/
  names : String → Option Instance
  /-- `m_external_attached_processes`, with the occurrence. -/
  attached : AList fun _ : InstanceId => ℕ
  /-- `m_draining_process_states` -/
  draining : InstanceId → Bool
  /-- `m_collective_shutdown_process_states` -/
  inCollectiveShutdown : InstanceId → Bool
  /-- `m_groups` -/
  groups : AList fun _ : String => ProcessGroup
  /-- `m_external_process_invitations` -/
  invitations : AList fun _ : InstanceId => Invitation
  /-- `m_shutdown` -/
  shutdown : Bool
  nextProcess : InstanceId
  nextTransceiver : ℕ
  nextIid : InstanceId
  nextObject : ℕ
  /-- Who holds the `m_call_mutex` of a group in a call of `barrier`. -/
  calls : AList fun _ : String => BarrierCall
  /-- Who holds `m_groups_mutex`. -/
  groupsWork : Option GroupsWork
  /-- The process whose claim is in progress: it holds the mutex of the invitations. -/
  claiming : Option InstanceId
  tasks : Multiset Task
  /-- A ghost: the process whose `Managed_process` the last step published. -/
  admitted : Option InstanceId

/-- The coordinator with its own process registered.
Source: `managed_process_impl.h`, `Managed_process::init` -/
def State.initial : State where
  registry := AList.singleton mprocId ∅
  names := fun _ => none
  attached := ∅
  draining := fun _ => false
  inCollectiveShutdown := fun _ => false
  groups := ∅
  invitations := ∅
  shutdown := false
  nextProcess := mprocId + 1
  nextTransceiver := 2
  nextIid := 1
  nextObject := 0
  calls := ∅
  groupsWork := none
  claiming := none
  tasks := 0
  admitted := none

namespace State

/-- No operation of the coordinator is in progress. -/
def AtRest (s : State) : Prop :=
  s.calls.keys = [] ∧ s.groupsWork = none ∧ s.claiming = none ∧ s.tasks = 0

instance (s : State) : Decidable s.AtRest := inferInstanceAs (Decidable (_ ∧ _ ∧ _ ∧ _))

/-- Source: `Coordinator::set_draining_state` -/
def setDraining (s : State) (p : InstanceId) (value : Bool) : State :=
  { s with draining := update s.draining p value }

/-- Source: `Coordinator::set_collective_shutdown_state` -/
def setCollectiveShutdown (s : State) (p : InstanceId) (value : Bool) : State :=
  { s with inCollectiveShutdown := update s.inCollectiveShutdown p value }

/-- The group of this name, if there is one, changes. -/
def modifyGroup (s : State) (g : String) (f : ProcessGroup → ProcessGroup) : State :=
  match s.groups.lookup g with
  | some group => { s with groups := s.groups.insert g (f group) }
  | none => s

def addTask (s : State) (t : Task) : State := { s with tasks := t ::ₘ s.tasks }

def endTask (s : State) (t : Task) : State := { s with tasks := s.tasks.erase t }

def setWork (s : State) (w : Option GroupsWork) : State := { s with groupsWork := w }

/-- Nobody holds the `m_call_mutex` of the group. -/
def callMutexFree (s : State) (g : String) : Bool := (s.calls.lookup g).isNone

/-- Nobody holds `m_publish_mutex`: an unpublication keeps it while it collects. -/
def publishMutexFree (s : State) : Bool :=
  match s.groupsWork with
  | some (.collect c _ _) => !c.removeProcess
  | _ => true

/-! ### Publication and unpublication -/

/-- A publication in the name of an external process is that of the attached occurrence. -/
def identityAttached (s : State) (p : InstanceId) : ReaderIdentity → Bool
  | .externalProcess occurrence => s.attached.lookup p = some occurrence
  | _ => true

/-- `none` when the publication is refused. The draining and collective shutdown states are reset
only when the process has no registry entry yet.
Source: `Coordinator::publish_transceiver_with_reader_identity` -/
def publishTransceiver (s : State) (iid : Instance) (assignedName : String)
    (readerIdentity : ReaderIdentity) : Option State :=
  if assignedName = "" || !s.identityAttached iid.process readerIdentity then none
  else
    let entry : Publication := ⟨assignedName, readerIdentity⟩
    match s.registry.lookup iid.process with
    | some processRegistry =>
      if maxPublicTransceiversPerProc ≤ processRegistry.keys.length ||
          (processRegistry.lookup iid).isSome || (s.names assignedName).isSome then none
      else some
        { s with
          names := update s.names assignedName (some iid)
          registry := s.registry.insert iid.process (processRegistry.insert iid entry) }
    | none =>
      if iid ≠ managedProcess iid.process || (s.names assignedName).isSome then none
      else some
        (({ s with
            names := update s.names assignedName (some iid)
            registry := s.registry.insert iid.process (AList.singleton iid entry) }
          ).setCollectiveShutdown iid.process false |>.setDraining iid.process false)

/-- An accepted publication into a registry entry leaves the draining states as they are, one that
makes the entry resets them. -/
theorem publishTransceiver_cases {s s' : State} {iid : Instance} {assignedName : String}
    {readerIdentity : ReaderIdentity}
    (h : s.publishTransceiver iid assignedName readerIdentity = some s') :
    ∃ names processRegistry,
      let published : State :=
        { s with names := names, registry := s.registry.insert iid.process processRegistry }
      (s.registry.lookup iid.process).isSome ∧ s' = published ∨
        s.registry.lookup iid.process = none ∧
          s' = (published.setCollectiveShutdown iid.process false).setDraining iid.process false := by
  unfold publishTransceiver at h
  split at h
  · cases h
  · cases hknown : s.registry.lookup iid.process with
    | none =>
      simp only [hknown] at h
      split at h
      · cases h
      · exact ⟨_, _, .inr ⟨rfl, (Option.some.inj h).symm⟩⟩
    | some processRegistry =>
      simp only [hknown] at h
      split at h
      · cases h
      · exact ⟨_, _, .inl ⟨rfl, (Option.some.inj h).symm⟩⟩

/-- The publication an unpublication is about, if it may go on.
Source: `Coordinator::unpublish_transceiver_exact` -/
def publicationOf (s : State) (iid : Instance) (expectedIdentity : Option ReaderIdentity) :
    Option Publication := do
  let processRegistry ← s.registry.lookup iid.process
  let publication ← processRegistry.lookup iid
  guard (expectedIdentity = none ∨ expectedIdentity = some publication.readerIdentity)
  guard (iid ≠ managedProcess iid.process ∨
    s.identityAttached iid.process publication.readerIdentity = true)
  return publication

/-- A transceiver that is not a `Managed_process` loses its name and its publication. -/
def unpublishInstance (s : State) (iid : Instance) (publication : Publication) : State :=
  { s with
    names := update s.names publication.name none
    registry := match s.registry.lookup iid.process with
      | some processRegistry => s.registry.insert iid.process (processRegistry.erase iid)
      | none => s.registry }

/-- A process loses all its names, its registry entry and its attachment, is marked as draining and
then dropped from the barriers of every group and removed from the group.
Source: `Coordinator::unpublish_transceiver_exact` -/
def unpublishProcess (s : State) (p : InstanceId) : State :=
  (({ s with
      names := fun n => (s.names n).filter fun iid => iid.process ≠ p
      registry := s.registry.erase p
      attached := s.attached.erase p }
    ).setDraining p true).setWork (some (.collect ⟨p, true, .all⟩ s.groups.keys false))

/-- A refused unpublication changes nothing. That of a process takes `m_groups_mutex`.
Source: `Coordinator::unpublish_transceiver` -/
def unpublishTransceiver (s : State) (iid : Instance) (expectedIdentity : Option ReaderIdentity) :
    Option State :=
  match s.publicationOf iid expectedIdentity with
  | none => if s.publishMutexFree then some s else none
  | some publication =>
    if iid = managedProcess iid.process then
      match s.groupsWork with
      | none => some (s.unpublishProcess iid.process)
      | some _ => none
    else if s.publishMutexFree then some (s.unpublishInstance iid publication)
    else none

/-! ### Calls of `barrier` -/

/-- The caller enters with the `m_call_mutex`, and looks at the members if it starts a round.
Source: `Process_group::barrier` -/
def barrier (s : State) (g : String) (caller : InstanceId) (barrierName : String) (modeTag : ℤ) :
    Option State :=
  match s.groups.lookup g with
  | none => none
  | some group =>
    if s.callMutexFree g = false then none
    else if caller ∉ group.processIds then some s
    else
      let newRound := (group.entry barrierName s.nextObject).processesPending = ∅
      some { s with
        calls := s.calls.insert g
          { caller := caller
            barrierName := barrierName
            modeTag := modeTag
            unchecked := if newRound then group.processIds else ∅
            found := ∅ } }

/-- The caller looks at the draining and collective shutdown states of one member. -/
def check (s : State) (g : String) (p : InstanceId) : Option State :=
  match s.calls.lookup g with
  | none => none
  | some call =>
    if p ∉ call.unchecked then none
    else
      let absent := ProcessGroup.absent s.draining s.inCollectiveShutdown call.barrierName p
      some { s with
        calls := s.calls.insert g
          { call with
            unchecked := call.unchecked.erase p
            found := if absent then call.found else insert p call.found } }

/-- The caller has looked at all members and arrives, or throws. -/
def arrive (s : State) (g : String) : Option State :=
  match s.calls.lookup g, s.groups.lookup g with
  | some call, some group =>
    if call.unchecked ≠ ∅ then none
    else
      let s' := { s with calls := s.calls.erase g }
      match group.barrier (fun p => p ∉ call.found) call.caller call.barrierName call.modeTag
          s.nextIid s.nextObject with
      | .error _ => some s'
      | .ok b =>
        let s' := { s' with
          groups := s.groups.insert g (group.put call.barrierName b)
          nextIid := s.nextIid + 1
          nextObject := s.nextObject + 1 }
        if b.processesPending = ∅ then
          some (s'.addTask (.closeRound g call.barrierName b.object b.commonFunctionIid))
        else some s'
  | _, _ => none

/-! ### Groups -/

/-- A group with these members, published under its name by the coordinator's process; `none` when
the publication is refused.
Source: `Coordinator::publish_process_group` -/
def createGroup (s : State) (name : String) (members : Finset InstanceId) : Option State :=
  let s' := { s with
    groups := s.groups.insert name { processIds := members, barriers := ∅ }
    nextTransceiver := s.nextTransceiver + 1 }
  s'.publishTransceiver ⟨mprocId, s.nextTransceiver⟩ name .unbound

/-- Source: `Coordinator::make_process_group` -/
def makeProcessGroup (s : State) (name : String) (memberProcessIds : Finset InstanceId) :
    Option State :=
  match s.groupsWork with
  | some _ => none
  | none =>
    if (s.groups.lookup name).isSome then some s
    else some ((s.createGroup name memberProcessIds).getD s)

/-- The members of a standard group that is created for `p`.
Source: `Coordinator::add_external_process_to_standard_groups` -/
def standardMembers (name : String) (p : InstanceId) : Finset InstanceId :=
  if name = allProcesses then {mprocId, p} else {p}

/-- `ensure_group` of `add_external_process_to_standard_groups`. A group whose publication is refused
does not stay, and the updates made before it are rolled back. -/
def ensureGroup (s : State) (p : InstanceId) (g : String) (todo : List String)
    (updates : List (String × Option Instance)) : State :=
  match s.groups.lookup g with
  | some _ =>
    (s.modifyGroup g (·.addProcess p)).setWork (some (.attach p todo ((g, none) :: updates)))
  | none =>
    let iid : Instance := ⟨mprocId, s.nextTransceiver⟩
    match s.createGroup g (standardMembers g p) with
    | some s' => s'.setWork (some (.attach p todo ((g, some iid) :: updates)))
    | none => s.setWork (some (.rollback p updates))

/-- One update is rolled back: a group created for the process is unpublished and erased, from any
other the process is removed.
Source: `rollback_updates` of `add_external_process_to_standard_groups` -/
def rollbackUpdate (s : State) (p : InstanceId) : String × Option Instance → State
  | (g, some iid) =>
    let s' := match s.publicationOf iid none with
      | some publication => s.unpublishInstance iid publication
      | none => s
    { s' with groups := s'.groups.erase g }
  | (g, none) => s.modifyGroup g (·.removeProcess p)

/-- The next step of the holder of `m_groups_mutex`.
Source: `Coordinator::collect_pending_barrier_completions_unlocked`, `Coordinator::join_swarm`,
`Coordinator::add_external_process_to_standard_groups`,
`Coordinator::claim_external_process_invitation` -/
def work (s : State) : Option State :=
  match s.groupsWork with
  | none => none
  | some (.collect _ [] _) => some (s.setWork none)
  | some (.collect c (g :: todo) false) =>
    if s.callMutexFree g then
      some ((s.modifyGroup g (·.dropFromInflightBarriers c.process c.scope)).setWork
        (some (if c.removeProcess then .collect c (g :: todo) true else .collect c todo false)))
    else none
  | some (.collect c (g :: todo) true) =>
    if s.callMutexFree g then
      some ((s.modifyGroup g (·.removeProcess c.process)).setWork (some (.collect c todo false)))
    else none
  | some (.enlist p []) => some ((s.setWork none).addTask (.launch p))
  | some (.enlist p (g :: todo)) =>
    if s.callMutexFree g then
      some ((s.modifyGroup g (·.addProcess p)).setWork (some (.enlist p todo)))
    else none
  | some (.delist _ []) => some (s.setWork none)
  | some (.delist p (g :: todo)) =>
    if s.callMutexFree g then
      some ((s.modifyGroup g (·.removeProcess p)).setWork (some (.delist p todo)))
    else none
  | some (.attach p [] _) =>
    some { s.setWork none with invitations := s.invitations.erase p, claiming := none }
  | some (.attach p (g :: todo) updates) =>
    if s.callMutexFree g then some (s.ensureGroup p g todo updates) else none
  | some (.rollback p []) =>
    some { s.setWork none with
      attached := s.attached.erase p
      registry := s.registry.erase p
      claiming := none }
  | some (.rollback p (update :: updates)) =>
    if s.callMutexFree update.1 then
      some ((s.rollbackUpdate p update).setWork (some (.rollback p updates)))
    else none

/-- The holder of `m_groups_mutex` begins with `w`. -/
def takeGroups (s : State) (w : GroupsWork) : Option State :=
  match s.groupsWork with
  | none => some (s.setWork (some w))
  | some _ => none

/-! ### Invitations -/

/-- A process id that is already known is not invited.
Source: `Coordinator::reserve_external_process_invitation`,
`process_id_is_known_for_external_invitation` -/
def reserveInvitation (s : State) (p : InstanceId) : Option State :=
  if s.claiming.isSome then none
  else if (s.invitations.lookup p).isSome || p = mprocId || (s.registry.lookup p).isSome ||
      s.groups.entries.any (fun e => p ∈ e.2.processIds) ||
      .enlist p ∈ s.tasks || .launch p ∈ s.tasks then some s
  else some { s with invitations := s.invitations.insert p .pending }

/-- Source: `Coordinator::cancel_external_process_invitation` -/
def cancelInvitation (s : State) (p : InstanceId) : Option State :=
  if s.claiming.isSome then none
  else if s.invitations.lookup p = some .pending then
    some { s with invitations := s.invitations.insert p .rejecting }
  else some s

/-- The time of an invitation, of its rejection, or of the removal of its reader is over. A rejected
invitation leaves its process marked as draining.
Source: `Coordinator::transition_expired_external_process_invitations`,
`external_process_invitation_cleanup_loop` -/
def expireInvitation (s : State) (p : InstanceId) : Option State :=
  if s.claiming.isSome then none
  else match s.invitations.lookup p with
    | none => none
    | some .pending => some { s with invitations := s.invitations.insert p .rejecting }
    | some .rejecting =>
      some { s.setDraining p true with invitations := s.invitations.insert p .removing }
    | some .removing => some { s with invitations := s.invitations.erase p }

/-- The sections of a claim before the groups: the process is registered and attached, and active.
Source: `Coordinator::claim_external_process_invitation` -/
def claimInvitation (s : State) (p : InstanceId) (occurrence : ℕ) : Option State :=
  if s.claiming.isSome || !s.publishMutexFree then none
  else if s.shutdown || s.invitations.lookup p ≠ some .pending || (s.registry.lookup p).isSome then
    some s
  else
    some (({ s with
        registry := s.registry.insert p ∅
        attached := s.attached.insert p occurrence
        claiming := some p }
      ).setCollectiveShutdown p false |>.setDraining p false)

/-- A claim goes on with the groups. -/
def attach (s : State) : Option State :=
  match s.claiming with
  | some p => s.takeGroups (.attach p standardGroups [])
  | none => none

/-! ### Tasks -/

/-- A task goes on. -/
def resume (s : State) : Task → Option State
  | .closeRound g barrierName object iid =>
    if s.callMutexFree g then some (s.modifyGroup g (·.closeRound barrierName object iid))
    else none
  | .collect p scope => s.takeGroups (.collect ⟨p, false, scope⟩ s.groups.keys false)
  | .enlist p => s.takeGroups (.enlist p standardGroups)
  | .launch _ => none
  | .delist p => s.takeGroups (.delist p standardGroups)
  | .release p => s.unpublishTransceiver (managedProcess p) none
  | .cancelInvitations =>
    if s.claiming.isSome then none
    else some ({ s with
      invitations := ∅
      tasks := (s.invitations.keys.map Task.mark : List Task) + s.tasks }.addTask .drainAttached)
  | .drainAttached =>
    if s.publishMutexFree then
      some { s with tasks := (s.attached.keys.map Task.mark : List Task) + s.tasks }
    else none
  | .mark p => some (s.setDraining p true)

/-- How the launch of a process ends. -/
inductive LaunchResult
  | spawned
  | failed
  | threw
  deriving DecidableEq

/-- A registry entry is made for the process, unless it has one.
Source: `managed_process_impl.h`, `Managed_process::spawn_swarm_process_impl` -/
def spawn (s : State) (p : InstanceId) : Option State :=
  if !s.publishMutexFree then none
  else if (s.registry.lookup p).isSome then some s
  else some { s with registry := s.registry.insert p ∅ }

/-- Source: `Coordinator::join_swarm` -/
def launched (s : State) (p : InstanceId) : LaunchResult → Option State
  | .spawned => s.spawn p
  | .failed => some (s.addTask (.delist p))
  | .threw => some s

end State

/-! ### Steps -/

inductive Action
  | barrier (g : String) (caller : InstanceId) (barrierName : String) (modeTag : ℤ)
  | check (g : String) (p : InstanceId)
  | arrive (g : String)
  | publishTransceiver (iid : Instance) (assignedName : String) (readerIdentity : ReaderIdentity)
  | unpublishTransceiver (iid : Instance) (expectedIdentity : Option ReaderIdentity)
  | spawn (p : InstanceId)
  | beginProcessDraining (p : InstanceId)
  | beginCollectiveShutdown (p : InstanceId)
  | beginShutdown
  | makeProcessGroup (name : String) (memberProcessIds : Finset InstanceId)
  | joinSwarm
  | launched (p : InstanceId) (r : State.LaunchResult)
  | releaseCustody (p : InstanceId)
  | reserveInvitation (p : InstanceId)
  | cancelInvitation (p : InstanceId)
  | expireInvitation (p : InstanceId)
  | claimInvitation (p : InstanceId) (occurrence : ℕ)
  | attach
  | work
  | task (t : Task)

namespace State

/-- The step without its ghost. `begin_process_draining` and `begin_collective_shutdown` mark the
process and go on to collect; the release of a custody marks it and goes on to unpublish.
Source: `Coordinator::begin_process_draining`, `Coordinator::begin_collective_shutdown`,
`Coordinator::begin_shutdown`, `Coordinator::join_swarm`; `managed_process_impl.h`,
`Managed_process::execute_current_slot_child_retirement` -/
def next (s : State) : Action → Option State
  | .barrier g caller barrierName modeTag => s.barrier g caller barrierName modeTag
  | .check g p => s.check g p
  | .arrive g => s.arrive g
  | .publishTransceiver iid assignedName readerIdentity =>
    if s.publishMutexFree then
      some ((s.publishTransceiver iid assignedName readerIdentity).getD s)
    else none
  | .unpublishTransceiver iid expectedIdentity => s.unpublishTransceiver iid expectedIdentity
  | .spawn p => s.spawn p
  | .beginProcessDraining p => some ((s.setDraining p true).addTask (.collect p .all))
  | .beginCollectiveShutdown p =>
    some ((s.setCollectiveShutdown p true).addTask (.collect p .userOnly))
  | .beginShutdown => some ({ s with shutdown := true }.addTask .cancelInvitations)
  | .makeProcessGroup name memberProcessIds => s.makeProcessGroup name memberProcessIds
  | .joinSwarm =>
    some ({ s with nextProcess := s.nextProcess + 1 }.addTask (.enlist s.nextProcess))
  | .launched p r => if .launch p ∈ s.tasks then (s.endTask (.launch p)).launched p r else none
  | .releaseCustody p => some ((s.setDraining p true).addTask (.release p))
  | .reserveInvitation p => s.reserveInvitation p
  | .cancelInvitation p => s.cancelInvitation p
  | .expireInvitation p => s.expireInvitation p
  | .claimInvitation p occurrence => s.claimInvitation p occurrence
  | .attach => s.attach
  | .work => s.work
  | .task t => if t ∈ s.tasks then (s.endTask t).resume t else none

/-- The process whose `Managed_process` the action publishes, if it is accepted. -/
def admits (s : State) : Action → Option InstanceId
  | .publishTransceiver iid assignedName readerIdentity =>
    if iid = managedProcess iid.process ∧
        (s.publishTransceiver iid assignedName readerIdentity).isSome then some iid.process
    else none
  | _ => none

def step (s : State) (a : Action) : Option State :=
  (s.next a).map fun s' => { s' with admitted := s.admits a }

end State

/-- The coordinator as a machine. -/
def machine : Machine State Action where
  init s := s = State.initial
  step := State.step

end Sintra.Process.Coordinator
