import Sintra.Process.StandardGroups

/-!
# Invitations of external processes

An invitation is reserved for a process id, with a token, an expiry and an occurrence number; the
process that attaches claims it. The records are guarded by `m_external_process_invitations_mutex`. A
claim holds it, and the admission mutex, from its first look at the record to its return, and goes
through the readers, the registry, the initialisation tracking, the draining states and the groups,
each under a lock of its own. The cleanup loop drops the mutex while it removes readers.

A step is what runs under one of these locks. A claim stands at a `Phase`. What `begin_shutdown` and
`cancel_all_external_process_invitations` have still to do is a `Task`.

`reserved`, `claimed` and `retired` are ghosts: the process ids and occurrences for which a record was
made, for which a claim has returned true, and whose record has left the pending state otherwise. So
are the clock reading and the membership a claim has started from.

Sources without a file name are in `coordinator_impl.h`.
-/

namespace Sintra.Process.Invitations

open Function

open Coordinator (Instance managedProcess mprocId Invitation)
open Registry (makeInstanceId)

/-! ### Records -/

/-- Source: `id_types.h`, `max_process_index` -/
def maxProcessIndex : ℕ := 2 ^ 7 - 1

/-- Source: `id_types.h`, `is_valid_process_instance_id` -/
def isValidProcessInstanceId (p : InstanceId) : Bool := 0 < p && p ≤ maxProcessIndex

/-- In nanoseconds. Source: `k_external_process_invitation_rejection_grace` -/
def externalProcessInvitationRejectionGrace : ℕ := 2000000000

/-- The last occurrence number. -/
def maxOccurrence : ℕ := 2 ^ 32 - 1

/-- Source: `external_attach_tokens_equal` -/
def externalAttachTokensEqual (lhs rhs : List UInt8) : Bool :=
  lhs.length == rhs.length &&
    ((List.zipWith (fun x y => x ^^^ y) lhs rhs).foldl (fun diff x => diff ||| x) 0 == 0)

/-- Source: `coordinator.h`, `External_process_invitation_record` -/
structure InvitationRecord where
  token : List UInt8
  expiresAt : ℕ
  occurrence : ℕ
  state : Invitation

namespace InvitationRecord

/-- The record is rejected, until `expiresAt`. -/
def reject (r : InvitationRecord) (expiresAt : ℕ) : InvitationRecord :=
  { r with state := .rejecting, expiresAt := expiresAt }

/-- Source: `Coordinator::transition_expired_external_process_invitations` -/
def transition (now : ℕ) (r : InvitationRecord) : InvitationRecord :=
  if r.expiresAt ≤ now then
    if r.state = .pending then r.reject (now + externalProcessInvitationRejectionGrace)
    else { r with state := .removing }
  else r

/-- The reader of the record is to be removed. -/
def leaves (now : ℕ) (r : InvitationRecord) : Bool := r.expiresAt ≤ now && r.state ≠ .pending

end InvitationRecord

/-- `m_external_process_invitations` -/
abbrev Records := AList fun _ : InstanceId => InvitationRecord

/-- Every record goes on. -/
def Records.map (l : Records) (f : InvitationRecord → InvitationRecord) : Records :=
  ⟨l.entries.map fun e => ⟨e.1, f e.2⟩, by
    have hkeys : (l.entries.map fun e => (⟨e.1, f e.2⟩ : Σ _ : InstanceId, InvitationRecord)).keys =
        l.entries.keys := by
      simp [List.keys, comp_def]
    rw [List.NodupKeys, hkeys]
    exact l.nodupKeys⟩

/-- The process ids and occurrences of the records that meet the condition. -/
def Records.occurrences (l : Records) (f : InvitationRecord → Bool) : List (InstanceId × ℕ) :=
  (l.entries.filter fun e => f e.2).map fun e => (e.1, e.2.occurrence)

/-! ### Claims -/

/-- The arguments of a claim and what its message is stamped with. -/
structure Call where
  process : InstanceId
  token : List UInt8
  sender : InstanceId
  custodyIdentity : ℕ
  occurrence : ℕ
  deriving DecidableEq

/-- Where a claim is. -/
inductive Phase
  /-- It waits for the mutexes. -/
  | waiting
  /-- The record admits it. -/
  | checked
  /-- The reader is that of the record. -/
  | bound
  /-- The process is registered and attached. -/
  | attached
  /-- The process is not starting up. -/
  | admitted
  /-- The process is starting up. -/
  | refused
  /-- The draining and collective shutdown states are clear. -/
  | activated
  /-- The process could not be added to the groups. -/
  | failed
  deriving DecidableEq

structure Claim where
  call : Call
  phase : Phase
  /-- A ghost: the clock reading of the claim. -/
  checkedAt : ℕ
  /-- A ghost: what the claim has found. -/
  before : Option Membership

/-! ### States -/

/-- What `begin_shutdown` and `cancel_all_external_process_invitations` have still to do. -/
inductive Task
  /-- `drain`: the attached processes are marked in the end. -/
  | cancelAll (drain : Bool)
  | removeReaders (processIds : List InstanceId) (drain : Bool)
  | drainAttached
  deriving DecidableEq

structure State (κ : Type*) where
  /-- `steady_clock::now()` -/
  now : ℕ
  membership : Membership
  /-- How many instance ids `make_instance_id` has drawn. -/
  drawn : ℕ
  invitations : Records
  /-- `m_external_process_invitation_next_occurrence` -/
  nextOccurrence : InstanceId → ℕ
  /-- The custody identity and the occurrence of the readers in `m_readers`. -/
  readers : InstanceId → Option (ℕ × ℕ)
  /-- `m_joined_process_branch` or `m_inflight_joins` has the process. -/
  joining : InstanceId → Bool
  /-- `m_cached_spawns` has the process. -/
  cachedSpawn : InstanceId → Bool
  /-- `m_processes_in_initialization` -/
  initializing : InstanceId → Bool
  /-- `m_shutdown` -/
  shutdown : Bool
  /-- `s_teardown_admission_closed` -/
  teardownAdmissionClosed : Bool
  /-- The claim that holds the admission mutex and the mutex of the invitations. -/
  lock : Option κ
  claims : κ → Option Claim
  /-- What the cleanup loop has collected, and the readers it has still to remove. -/
  cleanup : Option (List InstanceId × List InstanceId)
  tasks : Multiset Task
  reserved : List (InstanceId × ℕ)
  claimed : List (InstanceId × ℕ)
  retired : List (InstanceId × ℕ)

namespace State

variable {κ : Type*} [DecidableEq κ]

def setRecord (s : State κ) (p : InstanceId) (r : InvitationRecord) : State κ :=
  { s with invitations := s.invitations.insert p r }

/-- A pending record leaves its state without being claimed. -/
def reject (s : State κ) (p : InstanceId) (r : InvitationRecord) (expiresAt : ℕ) : State κ :=
  { s.setRecord p (r.reject expiresAt) with retired := s.retired ++ [(p, r.occurrence)] }

/-- The processes are marked as draining. -/
def drain (s : State κ) (f : InstanceId → Bool) : State κ :=
  { s with membership :=
    { s.membership with draining := fun p => f p || s.membership.draining p } }

/-! ### Reservation -/

/-- Source: `Coordinator::process_id_is_known_for_external_invitation` -/
def isKnown (s : State κ) (p : InstanceId) : Bool :=
  !isValidProcessInstanceId p || p = mprocId || (s.membership.books.registry p).isSome ||
    s.joining p || s.cachedSpawn p || s.initializing p ||
    s.membership.groupsOfProcess p ≠ ∅ || (s.readers p).isSome

/-- `prepared`: `prepare_process_reader` succeeds. An occurrence number is used up even if not.
Source: `Coordinator::reserve_external_process_invitation` -/
def reserve (s : State κ) (p : InstanceId) (token : List UInt8) (expiresAt : ℕ) (prepared : Bool) :
    Option (State κ) :=
  if s.lock.isSome then none
  else if token = [] ∨ expiresAt ≤ s.now ∨ (s.invitations.lookup p).isSome ∨ s.isKnown p ∨
      s.nextOccurrence p = maxOccurrence then some s
  else
    let occurrence := s.nextOccurrence p + 1
    let s' := { s with nextOccurrence := update s.nextOccurrence p occurrence }
    if !prepared then some s'
    else some { s'.setRecord p ⟨token, expiresAt, occurrence, .pending⟩ with
      readers := update s.readers p (some (0, occurrence))
      reserved := s.reserved ++ [(p, occurrence)] }

/-! ### Cancellation -/

/-- Source: `Coordinator::cancel_external_process_invitation` -/
def cancel (s : State κ) (p : InstanceId) : Option (State κ) :=
  if s.lock.isSome then none
  else
    match s.invitations.lookup p with
    | none => some s
    | some r =>
      if r.state ≠ .pending then some s
      else some (s.reject p r (s.now + externalProcessInvitationRejectionGrace))

/-- Source: `Coordinator::cancel_external_process_invitation` -/
def cancelWithToken (s : State κ) (p : InstanceId) (token : List UInt8) : Option (State κ) :=
  if s.lock.isSome then none
  else
    match s.invitations.lookup p with
    | none => some s
    | some r =>
      if r.state ≠ .pending ∨ token = [] ∨ !externalAttachTokensEqual r.token token then some s
      else some (s.reject p r (s.now + externalProcessInvitationRejectionGrace))

/-! ### The cleanup loop -/

/-- One pass over the records. The loop goes on with their readers if there are any.
Source: `Coordinator::transition_expired_external_process_invitations` -/
def transition (s : State κ) : Option (State κ) :=
  if s.lock.isSome ∨ s.cleanup.isSome then none
  else
    let readersToRemove := (s.invitations.occurrences (·.leaves s.now)).map Prod.fst
    some { s.drain (fun p => (s.invitations.lookup p).any (·.leaves s.now)) with
      invitations := s.invitations.map (·.transition s.now)
      cleanup := if readersToRemove = [] then none else some (readersToRemove, readersToRemove)
      retired := s.retired ++
        s.invitations.occurrences fun r => r.expiresAt ≤ s.now && r.state = .pending }

/-- Source: `Coordinator::remove_external_process_invitation_readers`,
`external_process_invitation_cleanup_loop` -/
def cleanUp (s : State κ) : Option (State κ) :=
  match s.cleanup with
  | none => none
  | some (processIds, p :: rest) =>
    some { s with
      readers := update s.readers p none
      cleanup := some (processIds, rest) }
  | some (processIds, []) =>
    if s.lock.isSome then none
    else some { s with
      invitations := processIds.foldl (fun l p =>
        if (l.lookup p).any (·.state = .removing) then l.erase p else l) s.invitations
      cleanup := none }

/-! ### Shutdown -/

def addTask (s : State κ) (t : Task) : State κ := { s with tasks := t ::ₘ s.tasks }

/-- A task goes on.
Source: `Coordinator::cancel_all_external_process_invitations`, `Coordinator::begin_shutdown` -/
def resume (s : State κ) : Task → Option (State κ)
  | .cancelAll drain =>
    if s.lock.isSome then none
    else some ({ s.drain (fun p => (s.invitations.lookup p).isSome) with
        invitations := ∅
        retired := s.retired ++ s.invitations.occurrences fun _ => true }.addTask
      (.removeReaders s.invitations.keys drain))
  | .removeReaders (p :: processIds) drain =>
    some ({ s with readers := update s.readers p none }.addTask
      (.removeReaders processIds drain))
  | .removeReaders [] drain => some (if drain then s.addTask .drainAttached else s)
  | .drainAttached => some (s.drain fun p => (s.membership.books.attached p).isSome)

/-! ### Claims -/

def setClaim (s : State κ) (th : κ) (c : Option Claim) : State κ :=
  { s with claims := update s.claims th c }

/-- A claim returns and releases its mutexes. -/
def leave (s : State κ) (th : κ) : State κ := { s.setClaim th none with lock := none }

def setPhase (s : State κ) (th : κ) (c : Claim) (phase : Phase) : State κ :=
  s.setClaim th (some { c with phase := phase })

/-- The checks of a claim before it takes a mutex. A message with the stamp of an external process has
come through a reader that was prepared for a reservation.
Source: `Coordinator::claim_external_process_invitation` -/
def claim (s : State κ) (th : κ) (call : Call) : Option (State κ) :=
  if (s.claims th).isSome ∨
      (call.custodyIdentity = 0 ∧ s.nextOccurrence call.process < call.occurrence) then none
  else if !isValidProcessInstanceId call.process ∨ call.token = [] ∨ s.shutdown ∨
      call.sender ≠ call.process then some s
  else some (s.setClaim th (some ⟨call, .waiting, 0, none⟩))

/-- The checks of a claim on its record.
Source: `Coordinator::claim_external_process_invitation` -/
def check (s : State κ) (th : κ) (c : Claim) : State κ :=
  match s.invitations.lookup c.call.process with
  | none => s.leave th
  | some r =>
    if c.call.custodyIdentity ≠ 0 ∨ c.call.occurrence ≠ r.occurrence ∨ r.state ≠ .pending then
      s.leave th
    else if r.expiresAt ≤ s.now then
      (s.reject c.call.process r (s.now + externalProcessInvitationRejectionGrace)).leave th
    else if !externalAttachTokensEqual r.token c.call.token then
      (s.reject c.call.process r s.now).leave th
    else if s.teardownAdmissionClosed then s.leave th
    else { s.setClaim th (some { c with
        phase := .checked, checkedAt := s.now, before := some s.membership }) with lock := some th }

/-- The section of a claim under `m_publish_mutex`. -/
def attach (s : State κ) (th : κ) (c : Claim) : State κ :=
  let p := c.call.process
  if (s.membership.books.registry p).isSome ∨ s.joining p ∨ s.cachedSpawn p then s.leave th
  else
    { s with membership := { s.membership with
        books := s.membership.books.attach p c.call.occurrence } }.setPhase th c .attached

/-- The draining and collective shutdown states are cleared. -/
def activate (s : State κ) (th : κ) (c : Claim) : State κ :=
  let p := c.call.process
  { s with membership := { s.membership with
      inCollectiveShutdown := update s.membership.inCollectiveShutdown p false
      draining := update s.membership.draining p false } }.setPhase th c .activated

/-- The process is added to the standard groups; then its record is erased and the claim returns
true. -/
def join (s : State κ) (th : κ) (c : Claim) (typeId : ℕ) : State κ :=
  let p := c.call.process
  let (added, membership, drawn) :=
    s.membership.addExternalProcessToStandardGroups p s.drawn typeId
  let s' := { s with membership := membership, drawn := drawn }
  if added then
    { s' with
      invitations := s.invitations.erase p
      claimed := s.claimed ++ [(p, c.call.occurrence)] }.leave th
  else s'.setPhase th c .failed

/-- The end of a claim that fails after the process was attached. -/
def withdraw (s : State κ) (th : κ) (c : Claim) : State κ :=
  { s with membership := { s.membership with
      books := s.membership.books.withdraw c.call.process } }.leave th

/-- A claim takes its next step. `typeId` is that of `Process_group`.
Source: `Coordinator::claim_external_process_invitation` -/
def proceed (s : State κ) (th : κ) (c : Claim) (typeId : ℕ) : Option (State κ) :=
  match c.phase with
  | .waiting => if s.lock.isSome then none else some (s.check th c)
  | .checked =>
    if s.readers c.call.process = some (0, c.call.occurrence) then some (s.setPhase th c .bound)
    else some (s.leave th)
  | .bound => some (s.attach th c)
  | .attached =>
    some (s.setPhase th c (if s.initializing c.call.process then .refused else .admitted))
  | .refused => some (s.withdraw th c)
  | .admitted => some (s.activate th c)
  | .activated => some (s.join th c typeId)
  | .failed => some (s.withdraw th c)

end State

/-! ### Steps -/

inductive Action (κ : Type*)
  | tick (n : ℕ)
  /-- Launches come and go. -/
  | launch (joining cachedSpawn initializing : InstanceId → Bool)
  /-- `s_teardown_admission_closed` is set, under the admission mutex. -/
  | setAdmission (closed : Bool)
  | reserve (p : InstanceId) (token : List UInt8) (expiresAt : ℕ) (prepared : Bool)
  | cancel (p : InstanceId)
  | cancelWithToken (p : InstanceId) (token : List UInt8)
  | transition
  | cleanUp
  | beginShutdown
  | cancelAll
  | task (t : Task)
  | claim (th : κ) (call : Call)
  | proceed (th : κ) (typeId : ℕ)

variable {κ : Type*} [DecidableEq κ]

def State.step (s : State κ) : Action κ → Option (State κ)
  | .tick n => some { s with now := s.now + n }
  | .launch joining cachedSpawn initializing =>
    some { s with joining := joining, cachedSpawn := cachedSpawn, initializing := initializing }
  | .setAdmission closed =>
    if s.lock.isSome then none else some { s with teardownAdmissionClosed := closed }
  | .reserve p token expiresAt prepared => s.reserve p token expiresAt prepared
  | .cancel p => s.cancel p
  | .cancelWithToken p token => s.cancelWithToken p token
  | .transition => s.transition
  | .cleanUp => s.cleanUp
  | .beginShutdown => some ({ s with shutdown := true }.addTask (.cancelAll true))
  | .cancelAll => some (s.addTask (.cancelAll false))
  | .task t => if t ∈ s.tasks then { s with tasks := s.tasks.erase t }.resume t else none
  | .claim th call => s.claim th call
  | .proceed th typeId => (s.claims th).bind fun c => s.proceed th c typeId

/-- No invitation was made out yet; the groups and the books are in any state the coordinator may have
brought them into. -/
structure State.Initial (s : State κ) : Prop where
  membership : s.membership.Ok s.drawn
  invitations : s.invitations = ∅
  nextOccurrence : ∀ p, s.nextOccurrence p = 0
  shutdown : s.shutdown = false
  lock : s.lock = none
  claims : ∀ th, s.claims th = none
  cleanup : s.cleanup = none
  tasks : s.tasks = 0
  reserved : s.reserved = []
  claimed : s.claimed = []
  retired : s.retired = []

/-- The invitations as a machine. -/
def machine (κ : Type*) [DecidableEq κ] : Machine (State κ) (Action κ) where
  init := State.Initial
  step := State.step

end Sintra.Process.Invitations
