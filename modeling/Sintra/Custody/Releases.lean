import Sintra.Lib.Machine
import Sintra.Custody.Occurrences

/-!
# The release of a custody at work

One custody with everything that acts on it: launches of its occurrences, reports about them,
retirements of their transports, requests to release it, and the release workers, which plan under the
mutex of the custody and wait on its condition variable when there is nothing to do. The registries of
the runtime stand beside it, with what other custodies do to the entries of the same processes.

A section under the mutex of the custody, or of the registries, is a step. What a thread does after
its section is another one: it maps the process it has admitted, notifies the condition variable,
completes or resets the retirement it has claimed, or records a blocker of the release attempt. What
the release worker does to carry out a plan consists of such sections too, and they may be taken at
any time.

`notify_all` under the mutex is part of the section; a thread that notifies after it is counted in
`notifiers` until then.

Sources without a file name are in `managed_process_impl.h`.
-/

namespace Sintra.Custody.Releases

open Function

open Process (InstanceId)

/-! ### Threads -/

/-- What a release worker keeps over its loop. -/
structure Job where
  generation : UInt64
  roster : List ReleaseTarget
  cleanupApplied : Bool
  deriving DecidableEq

/-- Where a thread stands in a release attempt.
Source: `Managed_process::execute_child_custody_release_attempt` -/
inductive Worker
  | idle
  /-- In `start_child_custody_release_worker`. -/
  | starting (generation : UInt64)
  /-- Waits until no setup is pending. -/
  | settingUp (generation : UInt64)
  /-- Looks up who is current in its slot. -/
  | lookingUp (generation : UInt64) (roster : List ReleaseTarget) (rest : List OccurrenceKey)
  /-- Before the section that plans. -/
  | planning (job : Job)
  /-- In the unconditional wait. -/
  | waiting (job : Job)
  /-- Carries out a plan. -/
  | acting (job : Job) (plan : ReleasePlan)
  /-- The start has failed or the worker has thrown. -/
  | failed (generation : UInt64)
  deriving DecidableEq

/-- A notification ends the wait. -/
def Worker.wake : Worker → Worker
  | .waiting job => .planning job
  | w => w

/-- A retirement that was begun and not yet completed or reset. -/
structure Claim where
  key : OccurrenceKey
  generation : UInt64
  reader : Option Reader
  deriving DecidableEq

/-- A launch attempt, from the admission of its occurrence to its settlement. -/
inductive Launch
  /-- The process is not mapped yet. -/
  | mapping
  | launching
  deriving DecidableEq

structure State (τ : Type*) where
  custody : CustodyRecord
  workers : τ → Worker
  launches : OccurrenceKey → Option Launch
  claims : Multiset Claim
  /-- Threads in `reset_child_communication_retirement` before `record_release_attempt_blocker`. -/
  blockers : Multiset UInt64
  /-- Threads about to notify. -/
  notifiers : ℕ
  /-- `m_child_custodies` has the custody. -/
  registered : Bool
  /-- The custody whose recipe is in `m_cached_spawns`. -/
  cachedSpawns : InstanceId → Option ℕ
  /-- `m_child_custody_by_process`: a custody and an occurrence. -/
  custodyByProcess : InstanceId → Option (ℕ × ℕ)
  /-- Threads in `retire_child_custody_if_complete` after the first section. -/
  retirers : ℕ

variable {τ : Type*}

namespace State

/-- The custody was accepted.
Source: `Managed_process::accept_child_custody` -/
def initial (τ : Type*) (identity : ℕ) (readiness : ReadinessPhase) : State τ where
  custody := .fresh identity readiness
  workers := fun _ => .idle
  launches := fun _ => none
  claims := 0
  blockers := 0
  notifiers := 0
  registered := true
  cachedSpawns := fun _ => none
  custodyByProcess := fun _ => none
  retirers := 0

def setCustody (s : State τ) (c : CustodyRecord) : State τ := { s with custody := c }

def setLaunch (s : State τ) (k : OccurrenceKey) (l : Option Launch) : State τ :=
  { s with launches := update s.launches k l }

/-- `notify_all` -/
def wakeAll (s : State τ) : State τ := { s with workers := fun th => (s.workers th).wake }

/-- A thread will notify. -/
def willNotify (s : State τ) : State τ := { s with notifiers := s.notifiers + 1 }

/-- A thread is about to notify: it is on its way to `notify_all`, or to `record_release_attempt_blocker`
with the generation of the attempt that runs, which marks it as failing and notifies. -/
def AboutToNotify (s : State τ) : Prop :=
  0 < s.notifiers ∨ ∃ g ∈ s.blockers, s.custody.releaseState.running g = true

instance (s : State τ) : Decidable s.AboutToNotify :=
  haveI : Decidable (∃ g ∈ s.blockers, s.custody.releaseState.running g = true) :=
    Multiset.decidableExistsMultiset
  inferInstanceAs (Decidable (_ ∨ _))

section threads

variable [DecidableEq τ]

def goto (s : State τ) (th : τ) (w : Worker) : State τ :=
  { s with workers := update s.workers th w }

/-! ### Release workers -/

/-- Source: `Managed_process::request_child_custody_release` -/
def request (s : State τ) (th : τ) (mode : ReleaseMode) : State τ :=
  if (s.custody.request mode).1 = 0 then (s.setCustody (s.custody.request mode).2).wakeAll
  else (s.setCustody (s.custody.request mode).2).goto th (.starting (s.custody.request mode).1)

/-- The request that comes with a native termination, which notifies after its section.
Source: `Managed_process::request_child_native_termination` -/
def requestTermination (s : State τ) (th : τ) : State τ :=
  let s' := (s.setCustody (s.custody.request .cleanup).2).willNotify
  if (s.custody.request .cleanup).1 = 0 then s'
  else s'.goto th (.starting (s.custody.request .cleanup).1)

/-- The attempt ends; it may have been asked to run again.
Source: `Managed_process::fail_release_attempt`, and the `stop_attempt` branch of
`Managed_process::execute_child_custody_release_attempt` -/
def retry (s : State τ) (th : τ) (release : ReleaseState) : State τ :=
  let s' := (s.setCustody (s.custody.setRelease release)).willNotify
  if release.hasAttempt .running then s'.goto th (.starting release.generation) else s'.goto th .idle

/-- Source: `Managed_process::fail_release_attempt` -/
def fail (s : State τ) (th : τ) (generation : UInt64) : State τ :=
  match s.custody.releaseState.markRetryable generation with
  | some release => s.retry th release
  | none => s.goto th .idle

/-- The occurrences that the attempt is about.
Source: `Managed_process::execute_child_custody_release_attempt` -/
def rosterKeys (s : State τ) : List OccurrenceKey :=
  (s.custody.occurrences.entries.filter fun e => e.2.setup = .ownershipReady).map fun e => e.1

/-- The occurrence is the current one of its process.
Source: `Managed_process::execute_child_custody_release_attempt` -/
def slotCurrent (s : State τ) (k : OccurrenceKey) : Bool :=
  s.custodyByProcess k.process = some (s.custody.identity, k.occurrence)

/-- The section that plans, with what it does before it gives up the mutex.
Source: `Managed_process::execute_child_custody_release_attempt` -/
def plan (s : State τ) (th : τ) (job : Job) : State τ :=
  match s.custody.plan job.roster job.generation job.cleanupApplied with
  | .stopAttempt =>
    match s.custody.releaseState.markRetryable job.generation with
    | some release => s.retry th release
    | none => s.willNotify.goto th .idle
  | .completeRelease =>
    match s.custody.releaseState.markReleased job.generation with
    | some release => (s.setCustody (s.custody.setRelease release)).willNotify.goto th .idle
    | none => s.willNotify.goto th .idle
  | .waitForChange => s.goto th (.waiting job)
  | plan => s.goto th (.acting job plan)

end threads

/-- Source: `Managed_process::record_release_attempt_blocker` -/
def recordBlocker (s : State τ) (generation : UInt64) : State τ :=
  match s.custody.recordBlocker generation with
  | some c => (s.setCustody c).willNotify
  | none => s

/-! ### The registries -/

/-- The registries forget the custody.
Source: `Managed_process::retire_child_custody_if_complete` -/
def retire (s : State τ) : State τ :=
  if s.registered then
    { s with
      registered := false
      cachedSpawns := fun p =>
        if s.cachedSpawns p = some s.custody.identity then none else s.cachedSpawns p
      custodyByProcess := fun p =>
        if (s.custodyByProcess p).any fun m => m.1 = s.custody.identity then none
        else s.custodyByProcess p
      retirers := s.retirers - 1 }
  else { s with retirers := s.retirers - 1 }

end State

/-! ### Steps -/

inductive Action (τ : Type*)
  -- release workers
  | request (th : τ) (mode : ReleaseMode)
  | requestTermination (th : τ)
  | start (th th' : τ)
  | startFails (th : τ)
  | setUp (th : τ)
  | lookUp (th : τ)
  | plan (th : τ)
  /-- The plan was carried out; whether the cleanup was. -/
  | act (th : τ) (applied : Bool)
  /-- What the worker does to carry out its plan is blocked. -/
  | blocked (th : τ)
  | throws (th : τ)
  | fail (th : τ)
  | spuriousWake (th : τ)
  | notify
  -- launches
  | admitOccurrence (k : OccurrenceKey)
  | map (k : OccurrenceKey)
  | mapFails (k : OccurrenceKey)
  | cacheRecipe (k : OccurrenceKey)
  | acquireReservation (k : OccurrenceKey)
  | commitCreated (k : OccurrenceKey) (pid : ℕ) (startStamp : Option UInt64) (alreadyReaped : Bool)
      (waitStatus : Option UInt32)
  | settle (k : OccurrenceKey)
  -- reports
  | initializationComplete (k : OccurrenceKey)
  | publicationRetired (k : OccurrenceKey)
  | osExit (k : OccurrenceKey) (waitStatus : Option UInt32)
  | readiness (reached : Bool)
  -- retirements
  | capture (k : OccurrenceKey) (reader : Option Reader)
  | begin (k : OccurrenceKey) (expectedGeneration : UInt64)
  | complete (claim : Claim)
  | reset (claim : Claim)
  | recordBlocker (generation : UInt64)
  -- registries
  | checkRetire
  | retire
  | otherAdmits (p : InstanceId) (identity occurrence : ℕ)
  | otherCaches (p : InstanceId) (identity : ℕ)

variable [DecidableEq τ]

/-- Launches of the occurrences. -/
def State.launchStep (s : State τ) : Action τ → Option (State τ)
  | .admitOccurrence k =>
    (s.custody.admitOccurrence k).map fun c => (s.setCustody c).setLaunch k (some .mapping)
  | .map k =>
    if s.launches k = some .mapping then
      some { (s.setLaunch k (some .launching)).willNotify with
        custodyByProcess :=
          update s.custodyByProcess k.process (some (s.custody.identity, k.occurrence)) }
    else none
  | .mapFails k =>
    if s.launches k = some .mapping then
      some ((s.setCustody (s.custody.withdraw k)).setLaunch k none).willNotify
    else none
  | .cacheRecipe k =>
    if s.launches k = some .launching then
      some { s with
        cachedSpawns := update s.cachedSpawns k.process (some s.custody.identity) }
    else none
  | .acquireReservation k =>
    if s.launches k = some .launching then
      (s.custody.acquireInitializationReservation k).map fun c => (s.setCustody c).willNotify
    else none
  | .commitCreated k pid startStamp alreadyReaped waitStatus =>
    if s.launches k = some .launching then
      (s.custody.commitCreated k pid startStamp alreadyReaped waitStatus).map fun c =>
        (s.setCustody c).willNotify
    else none
  | .settle k =>
    if s.launches k = some .launching then
      (s.custody.settle k).map fun c => ((s.setCustody c).setLaunch k none).willNotify
    else none
  | _ => none

/-- Reports, and retirements of transports. -/
def State.reportStep (s : State τ) : Action τ → Option (State τ)
  | .initializationComplete k =>
    some (s.setCustody (s.custody.noteInitializationComplete k)).wakeAll
  | .publicationRetired k => some (s.setCustody (s.custody.notePublicationRetired k)).wakeAll
  | .osExit k waitStatus => some (s.setCustody (s.custody.noteOsExit k waitStatus)).wakeAll
  | .readiness reached =>
    if s.custody.readiness = .pending then
      some (s.setCustody
        { s.custody with readiness := if reached then .reached else .stopped }).willNotify
    else none
  | .capture k reader =>
    match s.custody.captureAuthority k reader with
    | (.captured, c) => some (s.setCustody c).wakeAll
    | _ => some s
  | .begin k expectedGeneration =>
    (s.custody.beginRetirement k expectedGeneration).map fun (generation, reader, c) =>
      { s.setCustody c with claims := ⟨k, generation, reader⟩ ::ₘ s.claims }
  | .complete claim =>
    if claim ∈ s.claims then
      (s.custody.completeRetirement claim.key claim.reader).map fun c =>
        { (s.setCustody c).willNotify with claims := s.claims.erase claim }
    else none
  | .reset claim =>
    if claim ∈ s.claims then
      match s.custody.resetRetirement claim.key with
      | some c => some { s.setCustody c with
          claims := s.claims.erase claim
          blockers := claim.generation ::ₘ s.blockers }
      | none => some { s with claims := s.claims.erase claim }
    else none
  | .recordBlocker generation =>
    if generation ∈ s.blockers then
      some { s.recordBlocker generation with blockers := s.blockers.erase generation }
    else none
  | _ => none

/-- Release workers and the condition variable. -/
def State.workerStep (s : State τ) : Action τ → Option (State τ)
  | .request th mode =>
    match s.workers th with
    | .idle => some (s.request th mode)
    | _ => none
  | .requestTermination th =>
    match s.workers th with
    | .idle => some (s.requestTermination th)
    | _ => none
  | .start th th' =>
    match s.workers th, s.workers th' with
    | .starting g, .idle => some ((s.goto th .idle).goto th' (.settingUp g))
    | _, _ => none
  | .startFails th =>
    match s.workers th with
    | .starting g => some (s.goto th (.failed g))
    | _ => none
  | .setUp th =>
    match s.workers th with
    | .settingUp g =>
      if s.custody.occurrences.entries.all fun e => e.2.setup ≠ .pending then
        some (s.goto th (.lookingUp g [] s.rosterKeys))
      else none
    | _ => none
  | .lookUp th =>
    match s.workers th with
    | .lookingUp g roster (k :: rest) =>
      some (s.goto th (.lookingUp g (roster ++ [⟨k, s.slotCurrent k⟩]) rest))
    | .lookingUp g roster [] => some (s.goto th (.planning ⟨g, roster, false⟩))
    | _ => none
  | .plan th =>
    match s.workers th with
    | .planning job => some (s.plan th job)
    | _ => none
  | .act th applied =>
    match s.workers th with
    | .acting job (.applyCleanup _) =>
      some (s.goto th (.planning { job with cleanupApplied := applied }))
    | .acting job _ => some (s.goto th (.planning job))
    | _ => none
  | .blocked th =>
    match s.workers th with
    | .acting job _ => some (s.recordBlocker job.generation)
    | _ => none
  | .throws th =>
    match s.workers th with
    | .settingUp g | .lookingUp g _ _ => some (s.goto th (.failed g))
    | .planning job | .acting job _ => some (s.goto th (.failed job.generation))
    | _ => none
  | .fail th =>
    match s.workers th with
    | .failed g => some (s.fail th g)
    | _ => none
  | .spuriousWake th =>
    match s.workers th with
    | .waiting job => some (s.goto th (.planning job))
    | _ => none
  | .notify =>
    if 0 < s.notifiers then some { s.wakeAll with notifiers := s.notifiers - 1 } else none
  | _ => none

/-- The registries. Another custody may take over the entries of a process at any time: not everybody who
admits one asks `can_accept_child_custody` before. -/
def State.registryStep (s : State τ) : Action τ → Option (State τ)
  | .checkRetire =>
    if s.custody.releaseState = .released ∧ s.custody.readiness ≠ .pending then
      some { s with retirers := s.retirers + 1 }
    else none
  | .retire => if 0 < s.retirers then some s.retire else none
  | .otherAdmits p identity occurrence =>
    if identity ≠ s.custody.identity then
      some { s with
        custodyByProcess := update s.custodyByProcess p (some (identity, occurrence)) }
    else none
  | .otherCaches p identity =>
    if identity ≠ s.custody.identity then
      some { s with cachedSpawns := update s.cachedSpawns p (some identity) }
    else none
  | _ => none

def State.step (s : State τ) (a : Action τ) : Option (State τ) :=
  match a with
  | .admitOccurrence _ | .map _ | .mapFails _ | .cacheRecipe _ | .acquireReservation _
  | .commitCreated _ _ _ _ _ | .settle _ => s.launchStep a
  | .initializationComplete _ | .publicationRetired _ | .osExit _ _ | .readiness _ | .capture _ _
  | .begin _ _ | .complete _ | .reset _ | .recordBlocker _ => s.reportStep a
  | .checkRetire | .retire | .otherAdmits _ _ _ | .otherCaches _ _ => s.registryStep a
  | _ => s.workerStep a

/-- The release of a custody as a machine. -/
def machine (τ : Type*) [DecidableEq τ] (identity : ℕ) (readiness : ReadinessPhase) :
    Machine (State τ) (Action τ) where
  init s := s = .initial τ identity readiness
  step := State.step

end Sintra.Custody.Releases
