import Sintra.Custody.ReleaseState
import Sintra.Process.ProcessGroup

/-!
# A custody and the occurrences it has admitted

The record of a managed child: its release state, and for each occurrence of the child how far its
setup has come, whether it holds a reservation of the initialisation, how far its transport is
retired, and what is known about the native process. The functions are the sections under the mutex
of the custody, as functions of the record. This is the POSIX side: the process handle and the exit
observer of Windows are left out.

`occurrences` is a vector that is searched for a process and an occurrence; admission never enters a
pair twice, so it is a map from such pairs here.

* `CustodyRecord.find_set_of_ne`, `CustodyRecord.tryUpdate_eq_some` — what a section changes.

Sources without a file name are in `managed_process.h`.
-/

namespace Sintra.Custody

open Option

open Process (InstanceId)

/-! ### Readers and transports -/

/-- An occurrence of a process. -/
structure OccurrenceKey where
  process : InstanceId
  occurrence : ℕ
  deriving DecidableEq

/-- A `Process_message_reader`. `object` stands for its address: the code compares readers by it. -/
structure Reader where
  object : ℕ
  key : OccurrenceKey
  custodyIdentity : ℕ
  deriving DecidableEq

/-- Source: `Managed_child_transport_retirement::State` -/
inductive TransportPhase
  | uncaptured
  | captured
  | retiring
  | retired
  deriving DecidableEq

/-- Source: `Managed_child_transport_retirement` -/
structure Transport where
  publicationRetired : Bool
  phase : TransportPhase
  reader : Option Reader
  deriving DecidableEq

namespace Transport

/-- The transport of an occurrence that was just admitted. -/
def fresh : Transport := ⟨false, .uncaptured, none⟩

/-- Source: `retirement_started` -/
def retirementStarted (t : Transport) : Bool := t.phase = .retiring

/-- Source: `retirement_terminal` -/
def retirementTerminal (t : Transport) : Bool := t.phase = .retired

/-- Source: `ready_to_retire` -/
def readyToRetire (t : Transport) : Bool := t.publicationRetired && t.phase = .captured

/-- Source: `fully_retired` -/
def fullyRetired (t : Transport) : Bool := t.publicationRetired && t.phase = .retired

/-- Source: `note_publication_retired` -/
def notePublicationRetired (t : Transport) : Transport := { t with publicationRetired := true }

/-- Source: `capture_authority` -/
def captureAuthority (t : Transport) (reader : Option Reader) : Option Transport :=
  if t.phase = .retired then if reader = none ∧ t.reader = none then some t else none
  else if t.phase ≠ .uncaptured then if t.reader = reader then some t else none
  else some { t with reader := reader, phase := .captured }

/-- Source: `begin_retirement` -/
def beginRetirement (t : Transport) : Option Transport :=
  if t.phase ≠ .captured then none else some { t with phase := .retiring }

/-- Source: `reset_retirement` -/
def resetRetirement (t : Transport) : Option Transport :=
  if t.phase ≠ .retiring ∧ t.phase ≠ .captured then none else some { t with phase := .captured }

/-- Source: `complete_retirement` -/
def completeRetirement (t : Transport) (reader : Option Reader) : Option Transport :=
  if t.phase = .retired then if reader = none ∧ t.reader = none then some t else none
  else if t.phase ≠ .retiring ∨ t.reader ≠ reader then none
  else some { t with phase := .retired, reader := none }

end Transport

/-! ### The native process -/

/-- Source: `Managed_child_native_authority::Phase` -/
inductive NativePhase
  | absent
  | running
  | exited
  deriving DecidableEq

/-- Source: `Managed_child_native_authority` -/
structure NativeAuthority where
  phase : NativePhase
  pid : Option ℕ
  startStamp : Option UInt64
  waitStatus : Option UInt32
  deriving DecidableEq

namespace NativeAuthority

/-- Nothing was created. -/
def fresh : NativeAuthority := ⟨.absent, none, none, none⟩

/-- Source: `confirm_absent` -/
def confirmAbsent (n : NativeAuthority) : Bool := n = fresh

/-- Source: `created` -/
def created (n : NativeAuthority) : Bool := n.phase ≠ .absent

/-- Source: `exited` -/
def exited (n : NativeAuthority) : Bool := n.phase = .exited

/-- Source: `commit_created` -/
def commitCreated (n : NativeAuthority) (pid : ℕ) (startStamp : Option UInt64) (alreadyExited : Bool)
    (waitStatus : Option UInt32) : Option NativeAuthority :=
  if !n.confirmAbsent ∨ pid = 0 ∨ (!alreadyExited ∧ waitStatus.isSome) then none
  else some ⟨if alreadyExited then .exited else .running, some pid, startStamp, waitStatus⟩

/-- Whether the report is valid, and what is known then.
Source: `note_exit` -/
def noteExit (n : NativeAuthority) (waitStatus : Option UInt32) : Bool × NativeAuthority :=
  match n.phase with
  | .absent => (false, n)
  | .exited => (n.waitStatus = waitStatus, n)
  | .running => (true, { n with phase := .exited, waitStatus := waitStatus })

end NativeAuthority

/-! ### Occurrences -/

/-- Source: `Managed_child_occurrence_record::setup_state` -/
inductive SetupState
  | pending
  | noChild
  | ownershipReady
  deriving DecidableEq

/-- Source: `Managed_child_occurrence_record` -/
structure Occurrence where
  setup : SetupState
  initializationReservationActive : Bool
  transport : Transport
  native : NativeAuthority
  deriving DecidableEq

/-- An occurrence that was just admitted. -/
def Occurrence.fresh : Occurrence := ⟨.pending, false, .fresh, .fresh⟩

/-- Nothing is left to be done about the occurrence.
Source: `managed_process_impl.h`, `all_terminal` of `plan_managed_child_release_action_locked` -/
def Occurrence.terminal (o : Occurrence) : Bool :=
  !o.initializationReservationActive &&
    (o.setup = .noChild ||
      (o.setup = .ownershipReady && o.transport.fullyRetired && o.native.exited))

/-- Source: `Readiness_phase` -/
inductive ReadinessPhase
  | notRequested
  | pending
  | reached
  | stopped
  deriving DecidableEq

/-- Source: `Managed_child_custody_record` -/
structure CustodyRecord where
  identity : ℕ
  readiness : ReadinessPhase
  releaseState : ReleaseState
  occurrences : AList fun _ : OccurrenceKey => Occurrence

/-- Source: `managed_process_impl.h`, `capture_child_communication_retirement_authority` -/
inductive AuthorityCapture
  | captured
  | alreadyTerminal
  | conflict
  deriving DecidableEq

/-- Source: `Managed_child_release_occurrence` -/
structure ReleaseTarget where
  key : OccurrenceKey
  slotCurrent : Bool
  deriving DecidableEq

/-- Source: `managed_process_impl.h`, `Managed_child_release_action_plan` -/
inductive ReleasePlan
  | stopAttempt
  | completeRelease
  | applyCleanup (targets : List ReleaseTarget)
  | retireCurrentTransport (targets : List ReleaseTarget)
  | retireHistoricalCommunication (targets : List ReleaseTarget)
  | waitForChange
  deriving DecidableEq

namespace CustodyRecord

/-- A custody that was just accepted. -/
def fresh (identity : ℕ) (readiness : ReadinessPhase) : CustodyRecord :=
  ⟨identity, readiness, .opened, ∅⟩

/-- Source: `find_occurrence_locked` -/
def find (c : CustodyRecord) (k : OccurrenceKey) : Option Occurrence := c.occurrences.lookup k

def set (c : CustodyRecord) (k : OccurrenceKey) (o : Occurrence) : CustodyRecord :=
  { c with occurrences := c.occurrences.insert k o }

/-- The record of the occurrence changes, if there is one. -/
def update (c : CustodyRecord) (k : OccurrenceKey) (f : Occurrence → Occurrence) : CustodyRecord :=
  match c.find k with
  | some o => c.set k (f o)
  | none => c

/-- The record changes if `f` allows it. -/
def tryUpdate (c : CustodyRecord) (k : OccurrenceKey) (f : Occurrence → Option Occurrence) :
    Option CustodyRecord :=
  match c.find k with
  | some o => (f o).map (c.set k)
  | none => none

/-! ### Launches -/

/-- Source: `managed_process_impl.h`, `Managed_process::admit_child_custody_occurrence` -/
def admitOccurrence (c : CustodyRecord) (k : OccurrenceKey) : Option CustodyRecord :=
  if c.releaseState ≠ .opened then none
  else if (c.find k).isSome then none
  else some (c.set k .fresh)

/-- The mapping of the process has failed; the record is taken back.
Source: `managed_process_impl.h`, `Managed_process::admit_child_custody_occurrence` -/
def withdraw (c : CustodyRecord) (k : OccurrenceKey) : CustodyRecord :=
  match c.find k with
  | some o =>
    if o.setup = .pending ∧ o.native.confirmAbsent then
      { c with occurrences := c.occurrences.erase k }
    else c
  | none => c

/-- Source: `managed_process_impl.h`,
`Managed_child_launch_attempt::acquire_initialization_reservation` -/
def acquireInitializationReservation (c : CustodyRecord) (k : OccurrenceKey) : Option CustodyRecord :=
  c.tryUpdate k fun o => some { o with initializationReservationActive := true }

/-- Source: `managed_process_impl.h`, `Managed_child_launch_attempt::commit_posix_native_handoff` -/
def commitCreated (c : CustodyRecord) (k : OccurrenceKey) (pid : ℕ) (startStamp : Option UInt64)
    (alreadyReaped : Bool) (waitStatus : Option UInt32) : Option CustodyRecord :=
  c.tryUpdate k fun o =>
    (o.native.commitCreated pid startStamp alreadyReaped waitStatus).map fun n => { o with native := n }

/-- Source: `Managed_child_setup_settlement::settle` -/
def settle (c : CustodyRecord) (k : OccurrenceKey) : Option CustodyRecord :=
  c.tryUpdate k fun o =>
    if o.setup = .pending then
      some { o with setup := if o.native.created then .ownershipReady else .noChild }
    else none

/-! ### Reports -/

/-- Source: `managed_process_impl.h`, `Managed_process::note_child_initialization_complete` -/
def noteInitializationComplete (c : CustodyRecord) (k : OccurrenceKey) : CustodyRecord :=
  c.update k fun o => { o with initializationReservationActive := false }

/-- Source: `managed_process_impl.h`, `Managed_process::note_child_publication_retired` -/
def notePublicationRetired (c : CustodyRecord) (k : OccurrenceKey) : CustodyRecord :=
  c.update k fun o => { o with transport := o.transport.notePublicationRetired }

/-- Source: `managed_process_impl.h`, `Managed_process::note_child_os_exit` -/
def noteOsExit (c : CustodyRecord) (k : OccurrenceKey) (waitStatus : Option UInt32) : CustodyRecord :=
  c.update k fun o => { o with native := (o.native.noteExit waitStatus).2 }

/-! ### Retirement of the transport -/

/-- Source: `managed_process_impl.h`,
`Managed_process::capture_child_communication_retirement_authority` -/
def captureAuthority (c : CustodyRecord) (k : OccurrenceKey) (reader : Option Reader) :
    AuthorityCapture × CustodyRecord :=
  if reader.any fun r => r.key ≠ k ∨ r.custodyIdentity ≠ c.identity then (.conflict, c)
  else match c.find k with
    | none => (.conflict, c)
    | some o =>
      if o.transport.fullyRetired then (.alreadyTerminal, c)
      else match o.transport.captureAuthority reader with
        | none => (.conflict, c)
        | some t => (.captured, c.set k { o with transport := t })

/-- The generation and the reader of the claim. An expected generation of zero is none.
Source: `managed_process_impl.h`, `Managed_process::begin_child_communication_retirement` -/
def beginRetirement (c : CustodyRecord) (k : OccurrenceKey) (expectedGeneration : UInt64) :
    Option (UInt64 × Option Reader × CustodyRecord) :=
  if expectedGeneration ≠ 0 ∧ !c.releaseState.running expectedGeneration then none
  else if c.releaseState.hasAttempt .failing ∨ c.releaseState.hasAttempt .retryable then none
  else match c.find k with
    | none => none
    | some o =>
      o.transport.beginRetirement.map fun t =>
        (if c.releaseState.hasAttempt .running then c.releaseState.generation else 0,
          o.transport.reader, c.set k { o with transport := t })

/-- Source: `managed_process_impl.h`, `Managed_process::complete_child_communication_retirement` -/
def completeRetirement (c : CustodyRecord) (k : OccurrenceKey) (reader : Option Reader) :
    Option CustodyRecord :=
  c.tryUpdate k fun o => (o.transport.completeRetirement reader).map fun t => { o with transport := t }

/-- Source: `managed_process_impl.h`, `Managed_process::reset_child_communication_retirement` -/
def resetRetirement (c : CustodyRecord) (k : OccurrenceKey) : Option CustodyRecord :=
  c.tryUpdate k fun o => o.transport.resetRetirement.map fun t => { o with transport := t }

/-! ### Release -/

def setRelease (c : CustodyRecord) (release : ReleaseState) : CustodyRecord :=
  { c with releaseState := release }

/-- Source: `managed_process_impl.h`, `Managed_process::request_child_custody_release` -/
def request (c : CustodyRecord) (mode : ReleaseMode) : UInt64 × CustodyRecord :=
  ((c.releaseState.request mode).1, c.setRelease (c.releaseState.request mode).2)

/-- Source: `managed_process_impl.h`, `Managed_process::record_release_attempt_blocker` -/
def recordBlocker (c : CustodyRecord) (generation : UInt64) : Option CustodyRecord :=
  (c.releaseState.markFailing generation).map c.setRelease

/-- Source: `managed_process_impl.h`, `all_terminal` of `plan_managed_child_release_action_locked` -/
def allTerminal (c : CustodyRecord) : Bool := c.occurrences.entries.all fun e => e.2.terminal

/-- The current occurrence of its slot has a transport to be retired.
Source: `managed_process_impl.h`, `plan_managed_child_release_action_locked` -/
def currentTarget (c : CustodyRecord) (cleanupApplied : Bool) (target : ReleaseTarget) : Bool :=
  (c.find target.key).any fun o =>
    target.slotCurrent && (cleanupApplied || o.native.exited) && !o.transport.retirementStarted &&
      (o.initializationReservationActive || !o.transport.publicationRetired ||
        !o.transport.retirementTerminal)

/-- The occurrence has a reader to be joined.
Source: `managed_process_impl.h`, `plan_managed_child_release_action_locked` -/
def historicalTarget (c : CustodyRecord) (target : ReleaseTarget) : Bool :=
  (c.find target.key).any fun o => o.transport.readyToRetire

/-- Source: `managed_process_impl.h`, `plan_managed_child_release_action_locked` -/
def plan (c : CustodyRecord) (roster : List ReleaseTarget) (generation : UInt64)
    (cleanupApplied : Bool) : ReleasePlan :=
  if !c.releaseState.running generation then .stopAttempt
  else if c.allTerminal then .completeRelease
  else if c.releaseState.cleanupRequested ∧ !cleanupApplied then .applyCleanup roster
  else if roster.filter (c.currentTarget cleanupApplied) ≠ [] then
    .retireCurrentTransport (roster.filter (c.currentTarget cleanupApplied))
  else if roster.filter c.historicalTarget ≠ [] then
    .retireHistoricalCommunication (roster.filter c.historicalTarget)
  else .waitForChange

/-! ### What the sections change -/

variable {c c' : CustodyRecord} {k k' : OccurrenceKey} {o : Occurrence}

@[simp] theorem find_set_self (c : CustodyRecord) (k : OccurrenceKey) (o : Occurrence) :
    (c.set k o).find k = some o := AList.lookup_insert _

theorem find_set_of_ne (c : CustodyRecord) (o : Occurrence) (h : k' ≠ k) :
    (c.set k o).find k' = c.find k' := AList.lookup_insert_ne h

theorem update_of_find (h : c.find k = some o) (f : Occurrence → Occurrence) :
    c.update k f = c.set k (f o) := by
  rw [update, h]

theorem update_of_none (h : c.find k = none) (f : Occurrence → Occurrence) : c.update k f = c := by
  rw [update, h]

theorem tryUpdate_eq_some {f : Occurrence → Option Occurrence} (h : c.tryUpdate k f = some c') :
    ∃ o o', c.find k = some o ∧ f o = some o' ∧ c' = c.set k o' := by
  unfold tryUpdate at h
  cases hk : c.find k with
  | none => rw [hk] at h; cases h
  | some o =>
    rw [hk] at h
    obtain ⟨o', ho', rfl⟩ := map_eq_some_iff.1 h
    exact ⟨o, o', rfl, ho', rfl⟩

theorem beginRetirement_eq_some {e γ : UInt64} {reader : Option Reader}
    (h : c.beginRetirement k e = some (γ, reader, c')) :
    ∃ o, c.find k = some o ∧ o.transport.phase = .captured ∧ reader = o.transport.reader ∧
      c' = c.set k { o with transport := { o.transport with phase := .retiring } } := by
  unfold beginRetirement at h
  rw [ite_none_left_eq_some, ite_none_left_eq_some] at h
  obtain ⟨-, -, h⟩ := h
  cases hk : c.find k with
  | none => rw [hk] at h; cases h
  | some o =>
    rw [hk] at h
    obtain ⟨t, ht, heq⟩ := map_eq_some_iff.1 h
    obtain ⟨hphase, ht⟩ := ite_none_left_eq_some.1 ht
    cases ht
    cases heq
    exact ⟨o, rfl, not_not.1 hphase, rfl, rfl⟩

/-- What a capture of the authority changes. -/
theorem captureAuthority_eq_captured {reader : Option Reader}
    (h : c.captureAuthority k reader = (.captured, c')) : ∃ o t, c.find k = some o ∧
      o.transport.captureAuthority reader = some t ∧ c' = c.set k { o with transport := t } := by
  unfold captureAuthority at h
  split_ifs at h
  · cases h
  split at h
  · cases h
  next o ho =>
    split_ifs at h
    · cases h
    split at h
    · cases h
    next t ht =>
      cases h
      exact ⟨o, t, ho, ht, rfl⟩

theorem allTerminal_iff : c.allTerminal = true ↔ ∀ k o, c.find k = some o → o.terminal = true := by
  rw [allTerminal, List.all_eq_true]
  constructor
  · exact fun h k o hk => h ⟨k, o⟩ (AList.mem_lookup_iff.1 hk)
  · exact fun h e he => h e.1 e.2 (AList.mem_lookup_iff.2 he)

end CustodyRecord

end Sintra.Custody
