import Sintra.Process.Publications

/-!
# The coordinator's registry at work

Publication, unpublication, `wait_for_instance`, the claim of an invitation, the creation of groups
and the tracking of initialisation, as the threads of the coordinator's process interleave them.
Requests of other processes are relayed to the coordinator's own ring and handled one after the
other by its request reader, the `service` thread; the coordinator's process calls publication,
unpublication and the creation of groups from its other threads too.

A step is a section under `m_publish_mutex`, or one message placed on a ring. What a thread does
next stands in its `ThreadState`: the `Task` it is at, what follows (`Cont`), and its thread-local
variables for deferred replies. `m_publication_notifications_mutex` and `m_groups_mutex`, which are
held across steps, have their holder in the state.

The checks of the record of an invitation, the readers and the draining states play no part here: a
claim is attempted at any time, and an unpublication that is refused for the sake of its reader or
its custody is one that is not made. So are the replies to requests other than publication and
`wait_for_instance`.

Sources without a file name are in `coordinator_impl.h`.
-/

namespace Sintra.Process.Registry

open Function

open Coordinator (Instance managedProcess ReaderIdentity mprocId standardGroups)

/-! ### Messages -/

/-- Source: `coordinator.h`, `Coordinator::Pending_instance_publication` -/
structure PendingInstancePublication where
  typeId : ℕ
  instanceId : Instance
  assignedName : String
  deriving DecidableEq

/-- What the coordinator announces on its request ring.
Source: `coordinator.h`, `instance_published`, `instance_unpublished` -/
inductive Notification
  | published (publication : PendingInstancePublication)
  | unpublished (publication : PendingInstancePublication)
  deriving DecidableEq

/-- The answer to the deferred calls of one receiver; `none` is `invalid_instance_id`. -/
structure Completion where
  functionIid : Instance
  receiver : Instance
  value : Option Instance
  deriving DecidableEq

/-- What the coordinator writes to its reply ring. -/
inductive Reply
  | deferral (receiver functionIid commonFunctionIid : Instance)
  | completion (c : Completion)
  | result (receiver functionIid : Instance) (value : Option Instance)
  deriving DecidableEq

/-! ### Waiting for a name -/

/-- Source: `coordinator.h`, `Coordinator::waited_instance_info` -/
structure Waited where
  waiters : List Instance
  commonFunctionIid : Instance

/-- The answers to all who waited. -/
def Waited.completions (w : Waited) (value : Instance) : List Completion :=
  w.waiters.map fun waiter => ⟨w.commonFunctionIid, waiter, some value⟩

structure Waits where
  /-- `m_instances_waited` -/
  waited : String → Option Waited
  /-- `m_out_rep_c` -/
  replyRing : List Reply
  /-- A ghost: the completions that publications have taken on. -/
  taken : List Completion

namespace Waits

def write (w : Waits) (r : Reply) : Waits := { w with replyRing := w.replyRing ++ [r] }

/-- The caller waits for a name that is not published; `fresh` is the instance id that is drawn if
nobody waits for the name yet.
Source: `Coordinator::wait_for_instance` -/
def defer (w : Waits) (assignedName : String) (sender functionIid fresh : Instance) : Waits :=
  let info := (w.waited assignedName).getD ⟨[], fresh⟩
  { w with
    waited := update w.waited assignedName
      (some { info with waiters := info.waiters.insert sender })
    replyRing := w.replyRing ++ [.deferral sender functionIid info.commonFunctionIid] }

/-- A publication takes those who wait for its name. -/
def take (w : Waits) (assignedName : String) (iid : Instance) : Waits :=
  { w with
    waited := update w.waited assignedName none
    taken := w.taken ++ ((w.waited assignedName).elim [] (·.completions iid)) }

end Waits

/-! ### Notifications -/

structure News where
  /-- `m_processes_in_initialization` -/
  initializing : Finset InstanceId
  /-- `m_delayed_instance_publications` -/
  delayed : List PendingInstancePublication
  /-- The notifications on `m_out_req_c`. -/
  requestRing : List Notification

namespace News

def emit (n : News) (events : List Notification) : News :=
  { n with requestRing := n.requestRing ++ events }

/-- The notification of a publication is placed, or put off while a process is starting up.
Source: `true_sequence` of `publish_transceiver_with_reader_identity` -/
def announce (n : News) (publication : PendingInstancePublication) (allowDelay : Bool) : News :=
  if allowDelay ∧ n.initializing ≠ ∅ then { n with delayed := n.delayed ++ [publication] }
  else n.emit [.published publication]

/-- The process is no longer starting up.
Source: `Coordinator::finalize_initialization_tracking` -/
def finalize (n : News) (p : InstanceId) : News :=
  { n with
    initializing := n.initializing.erase p
    delayed := if n.initializing.erase p = ∅ then [] else n.delayed }

/-- What `finalize_initialization_tracking` hands out. -/
def ready (n : News) (p : InstanceId) : List PendingInstancePublication :=
  if n.initializing.erase p = ∅ then n.delayed else []

end News

/-! ### Threads -/

inductive Thread (κ : Type*)
  | service
  | caller (k : κ)
  deriving DecidableEq

/-- `s_tl_common_function_iid` and `s_tl_additional_piids` -/
structure Deferred where
  commonFunctionIid : Option Instance
  additionalPiids : List Instance

/-- Nobody is to be answered. -/
def Deferred.empty : Deferred := ⟨none, []⟩

/-- What a publication has left to the thread. -/
def Deferred.ofWaited : Option Waited → Deferred
  | some w => ⟨some w.commonFunctionIid, w.waiters⟩
  | none => .empty

/-- What a thread does now. -/
inductive Task
  | ready
  /-- `rpc_handler` has the result of the function. -/
  | returning (value : Option Instance) (sender functionIid : Instance)
  /-- `emit_direct_publish_waiters` is called. -/
  | emitDirect (value : Instance)
  /-- `emit_direct_publish_waiters` has copied the waiters. -/
  | answering (commonFunctionIid : Instance) (waiters : List Instance) (value : Instance)
  /-- An unpublication has released `m_publish_mutex` and places its notifications. -/
  | notifying (events : List Notification)

/-- A group a claim has created (`true`) or joined. -/
abbrev GroupUpdate := String × Bool

/-- What follows. -/
inductive Cont
  | done
  /-- The end of `publish_local_transceiver`: the thread-local variables are restored. -/
  | restore (saved : Deferred)
  | releaseGroups
  /-- A claim has attached the process. -/
  | claimed (p : InstanceId)
  /-- A claim goes on with the groups. -/
  | attaching (p : InstanceId)
  | joining (p : InstanceId) (todo : List String) (updates : List GroupUpdate)
  | rollback (p : InstanceId) (updates : List GroupUpdate)
  | withdraw (p : InstanceId)

/-- The process whose claim is in progress. -/
def Cont.claimant : Cont → Option InstanceId
  | .claimed p | .attaching p | .joining p _ _ | .rollback p _ | .withdraw p => some p
  | .done | .restore _ | .releaseGroups => none

structure ThreadState where
  task : Task
  cont : Cont
  deferred : Deferred

/-- The thread is not in the coordinator. -/
def ThreadState.idle (t : ThreadState) : Bool :=
  match t.task, t.cont with
  | .ready, .done => true
  | _, _ => false

/-! ### States -/

/-- Source: `id_types.h`, `num_reserved_service_instances` -/
def numReservedServiceInstances : ℕ := 0x1000

/-- The instance id that `make_instance_id` returns after `n` others.
Source: `id_types.h`, `make_instance_id` -/
def makeInstanceId (n : ℕ) : Instance := ⟨mprocId, 2 + numReservedServiceInstances + n⟩

theorem makeInstanceId_inj {m n : ℕ} : makeInstanceId m = makeInstanceId n ↔ m = n := by
  simp [makeInstanceId]

theorem makeInstanceId_ne_managedProcess (n : ℕ) (p : InstanceId) :
    makeInstanceId n ≠ managedProcess p := by
  simp only [makeInstanceId, managedProcess, ne_eq, Instance.mk.injEq, not_and]
  omega

/-- Source: `coordinator.h`, `Process_group` -/
structure Group where
  /-- The group has the instance id that was drawn as this one. -/
  drawn : ℕ
  published : Bool

structure State (κ : Type*) where
  books : Books
  waits : Waits
  news : News
  /-- `m_groups`, without the members. -/
  groups : String → Option Group
  /-- How many instance ids `make_instance_id` has drawn. -/
  drawn : ℕ
  groupsMutex : Option (Thread κ)
  /-- `m_publication_notifications_mutex` -/
  notificationsMutex : Option (Thread κ)
  threads : Thread κ → ThreadState

/-- The coordinator before any operation. -/
def State.initial (κ : Type*) : State κ where
  books := .initial
  waits := ⟨fun _ => none, [], []⟩
  news := ⟨∅, [], []⟩
  groups := fun _ => none
  drawn := 0
  groupsMutex := none
  notificationsMutex := none
  threads := fun _ => ⟨.ready, .done, .empty⟩

namespace State

variable {κ : Type*} [DecidableEq κ]

def setThread (s : State κ) (th : Thread κ) (t : ThreadState) : State κ :=
  { s with threads := update s.threads th t }

/-! ### Publication -/

/-- An accepted publication: the books, the notification and the waiters. The thread goes on with
the waiters in its thread-local variables.
Source: `Coordinator::publish_transceiver_with_reader_identity` -/
def publishTransceiver (s : State κ) (th : Thread κ) (iid : Instance)
    (entry : TransceiverPublication) (task : Task) (cont : Cont) : Option (State κ) :=
  (s.books.publishTransceiver iid entry).map fun books =>
    ({ s with
        books := books
        news := s.news.announce ⟨entry.typeId, iid, entry.name⟩ (s.books.registry iid.process).isNone
        waits := s.waits.take entry.name iid }
      ).setThread th ⟨task, cont, .ofWaited (s.waits.waited entry.name)⟩

/-- A request to publish. Source: `Coordinator::publish_transceiver` -/
def publish (s : State κ) (iid : Instance) (entry : TransceiverPublication)
    (sender functionIid : Instance) : Option (State κ) :=
  if !(s.threads .service).idle ∨ s.notificationsMutex.isSome then none
  else some ((s.publishTransceiver .service iid entry (.returning (some iid) sender functionIid)
    .done).getD (s.setThread .service
      ⟨.returning none sender functionIid, .done, (s.threads .service).deferred⟩))

/-- Source: `Coordinator::publish_local_transceiver` -/
def publishLocal (s : State κ) (th : Thread κ) (typeId : ℕ) (iid : Instance)
    (assignedName : String) : Option (State κ) :=
  if !(s.threads th).idle ∨ s.notificationsMutex.isSome ∨ iid.process ≠ mprocId then none
  else
    let saved := (s.threads th).deferred
    some ((s.publishTransceiver th iid ⟨typeId, assignedName, .unbound⟩ (.emitDirect iid)
      (.restore saved)).getD (s.setThread th ⟨.ready, .restore saved, .empty⟩))

/-! ### Unpublication -/

/-- The thread places the notifications of an unpublication. -/
def notify (s : State κ) (th : Thread κ) (events : List Notification) (cont : Cont) : State κ :=
  { s with notificationsMutex := some th }.setThread th
    ⟨.notifying events, cont, (s.threads th).deferred⟩

/-- The section of an unpublication under `m_publish_mutex`, for a transceiver. -/
def unpublishInstance (s : State κ) (th : Thread κ) (iid : Instance)
    (publication : TransceiverPublication) (cont : Cont) : State κ :=
  { s with books := s.books.unpublishInstance iid publication }.notify th
    [.unpublished ⟨publication.typeId, iid, publication.name⟩] cont

/-- The section of an unpublication under `m_publish_mutex`, for a `Managed_process`. The
notifications that become ready leave out those of the process itself. -/
def unpublishProcess (s : State κ) (th : Thread κ) (p : InstanceId)
    (publication : TransceiverPublication) : State κ :=
  let ready := (s.news.ready p).filter fun delayed => delayed.instanceId.process ≠ p
  { s with
    books := s.books.unpublishProcess p
    news := s.news.finalize p
    groupsMutex := some th }.notify th
      (.unpublished ⟨publication.typeId, managedProcess p, publication.name⟩ ::
        ready.map .published) .releaseGroups

/-- A refused unpublication changes nothing. That of a process needs `m_groups_mutex`; a crash is
reported as one that expects the identity of the reader.
Source: `Coordinator::unpublish_transceiver_exact` -/
def unpublish (s : State κ) (th : Thread κ) (iid : Instance)
    (expectedIdentity : Option ReaderIdentity) : Option (State κ) :=
  if !(s.threads th).idle ∨ s.notificationsMutex.isSome then none
  else
    match s.books.publicationOf iid expectedIdentity with
    | none => some s
    | some publication =>
      if iid = managedProcess iid.process then
        if s.groupsMutex.isSome then none else some (s.unpublishProcess th iid.process publication)
      else some (s.unpublishInstance th iid publication .done)

/-! ### Groups -/

/-- The group is entered in `m_groups`. -/
def setGroup (s : State κ) (name : String) (group : Option Group) : State κ :=
  { s with groups := update s.groups name group }

/-- The instance id of a new group is drawn. -/
def drawInstance (s : State κ) : State κ := { s with drawn := s.drawn + 1 }

/-- The new group is published; `none` when that is refused.
Source: `Coordinator::publish_process_group` -/
def publishProcessGroup (s : State κ) (th : Thread κ) (name : String) (typeId : ℕ) (cont : Cont) :
    Option (State κ) :=
  (s.drawInstance.setGroup name (some ⟨s.drawn, true⟩)).publishTransceiver th (makeInstanceId s.drawn)
    ⟨typeId, name, .unbound⟩ (.emitDirect (makeInstanceId s.drawn)) cont

/-- Source: `Coordinator::make_process_group` -/
def makeProcessGroup (s : State κ) (th : Thread κ) (name : String) (typeId : ℕ) :
    Option (State κ) :=
  if !(s.threads th).idle ∨ s.groupsMutex.isSome ∨ s.notificationsMutex.isSome then none
  else
    match s.groups name with
    | some _ => some s
    | none =>
      some (({ s with groupsMutex := some th }.publishProcessGroup th name typeId
        .releaseGroups).getD s.drawInstance)

/-- `ensure_group` of `add_external_process_to_standard_groups`. A group whose publication is refused
is left to the rollback. -/
def ensureGroup (s : State κ) (th : Thread κ) (p : InstanceId) (g : String) (todo : List String)
    (updates : List GroupUpdate) (typeId : ℕ) : Option (State κ) :=
  let deferred := (s.threads th).deferred
  match s.groups g with
  | some _ => some (s.setThread th ⟨.ready, .joining p todo ((g, false) :: updates), deferred⟩)
  | none =>
    if s.notificationsMutex.isSome then none
    else some ((s.publishProcessGroup th g typeId (.joining p todo ((g, true) :: updates))).getD
      ((s.drawInstance.setGroup g (some ⟨s.drawn, false⟩)).setThread th
        ⟨.ready, .rollback p ((g, true) :: updates), deferred⟩))

/-- One update is rolled back: a group created for the process is unpublished and erased.
Source: `rollback_updates` of `add_external_process_to_standard_groups` -/
def rollbackUpdate (s : State κ) (th : Thread κ) (p : InstanceId) (update : GroupUpdate)
    (updates : List GroupUpdate) : Option (State κ) :=
  let next := s.setThread th ⟨.ready, .rollback p updates, (s.threads th).deferred⟩
  match s.groups update.1, update.2 with
  | some group, true =>
    match group.published, s.books.publicationOf (makeInstanceId group.drawn) none with
    | true, some publication =>
      if s.notificationsMutex.isSome then none
      else some ((s.setGroup update.1 none).unpublishInstance th (makeInstanceId group.drawn)
        publication (.rollback p updates))
    | _, _ => some (next.setGroup update.1 none)
  | _, _ => some next

/-! ### Claims -/

/-- The first section of a claim. No invitation is made out for the coordinator's own process.
Source: `Coordinator::claim_external_process_invitation` -/
def claim (s : State κ) (p : InstanceId) (occurrence : ℕ) : Option (State κ) :=
  if !(s.threads .service).idle ∨ p = mprocId then none
  else if (s.books.registry p).isSome then some s
  else some ({ s with books := s.books.attach p occurrence }.setThread .service
    ⟨.ready, .claimed p, (s.threads .service).deferred⟩)

/-! ### Waiting -/

/-- Source: `Coordinator::wait_for_instance` -/
def waitForInstance (s : State κ) (assignedName : String) (sender functionIid : Instance) :
    Option (State κ) :=
  if !(s.threads .service).idle then none
  else
    match s.books.names assignedName with
    | some iid => some { s with waits := s.waits.write (.result sender functionIid (some iid)) }
    | none =>
      some { s with
        waits := s.waits.defer assignedName sender functionIid (makeInstanceId s.drawn)
        drawn :=
          if (s.waits.waited assignedName).isSome then s.drawn
          else s.drawn + 1 }

/-! ### Initialisation -/

/-- Source: `Coordinator::mark_initialization_complete` -/
def markInitializationComplete (s : State κ) (p : InstanceId) : Option (State κ) :=
  if s.notificationsMutex.isSome then none
  else some { s with news := (s.news.finalize p).emit ((s.news.ready p).map .published) }

/-! ### Threads go on -/

/-- A thread goes on with what follows. `typeId` is that of `Process_group`. -/
def resume (s : State κ) (th : Thread κ) (typeId : ℕ) : Option (State κ) :=
  let deferred := (s.threads th).deferred
  match (s.threads th).cont with
  | .done => none
  | .restore saved => some (s.setThread th ⟨.ready, .done, saved⟩)
  | .releaseGroups => some ({ s with groupsMutex := none }.setThread th ⟨.ready, .done, deferred⟩)
  | .claimed p =>
    some (s.setThread th
      ⟨.ready, if p ∈ s.news.initializing then .withdraw p else .attaching p, deferred⟩)
  | .attaching p =>
    if s.groupsMutex.isSome then none
    else some ({ s with groupsMutex := some th }.setThread th
      ⟨.ready, .joining p standardGroups [], deferred⟩)
  | .joining p (g :: todo) updates => s.ensureGroup th p g todo updates typeId
  | .joining _ [] _ =>
    some ({ s with groupsMutex := none }.setThread th ⟨.ready, .done, deferred⟩)
  | .rollback p (update :: updates) => s.rollbackUpdate th p update updates
  | .rollback p [] =>
    some ({ s with groupsMutex := none }.setThread th ⟨.ready, .withdraw p, deferred⟩)
  | .withdraw p =>
    some ({ s with books := s.books.withdraw p }.setThread th ⟨.ready, .done, deferred⟩)

/-- The return of a function called by `rpc_handler`: the deferred callers are answered, then the
caller. Source: `transceiver_impl.h`, `Transceiver::rpc_handler` -/
def rpcReturn (s : State κ) (th : Thread κ) (value : Option Instance) (sender functionIid : Instance) :
    State κ :=
  let cont := (s.threads th).cont
  match (s.threads th).deferred with
  | ⟨some commonFunctionIid, waiter :: waiters⟩ =>
    { s with waits := s.waits.write (.completion ⟨commonFunctionIid, waiter, value⟩) }.setThread th
      ⟨.returning value sender functionIid, cont, ⟨some commonFunctionIid, waiters⟩⟩
  | ⟨some _, []⟩ | ⟨none, _⟩ =>
    { s with waits := s.waits.write (.result sender functionIid value) }.setThread th
      ⟨.ready, cont, .empty⟩

/-- A thread takes its next step.
Source: `emit_direct_publish_waiters`, `Coordinator::unpublish_transceiver_exact` -/
def proceed (s : State κ) (th : Thread κ) (typeId : ℕ) : Option (State κ) :=
  let cont := (s.threads th).cont
  let deferred := (s.threads th).deferred
  match (s.threads th).task with
  | .ready => s.resume th typeId
  | .returning value sender functionIid => some (s.rpcReturn th value sender functionIid)
  | .emitDirect value =>
    match deferred with
    | ⟨some commonFunctionIid, waiters⟩ =>
      some (s.setThread th ⟨.answering commonFunctionIid waiters value, cont, .empty⟩)
    | ⟨none, _⟩ => some (s.setThread th ⟨.ready, cont, deferred⟩)
  | .answering commonFunctionIid (waiter :: waiters) value =>
    some ({ s with
        waits := s.waits.write (.completion ⟨commonFunctionIid, waiter, some value⟩) }.setThread th
      ⟨.answering commonFunctionIid waiters value, cont, deferred⟩)
  | .answering _ [] _ => some (s.setThread th ⟨.ready, cont, deferred⟩)
  | .notifying (event :: events) =>
    some ({ s with news := s.news.emit [event] }.setThread th ⟨.notifying events, cont, deferred⟩)
  | .notifying [] =>
    some ({ s with notificationsMutex := none }.setThread th ⟨.ready, cont, deferred⟩)

end State

/-! ### Steps -/

inductive Action (κ : Type*)
  | publish (iid : Instance) (entry : TransceiverPublication) (sender functionIid : Instance)
  | publishLocal (th : Thread κ) (typeId : ℕ) (iid : Instance) (assignedName : String)
  | unpublish (th : Thread κ) (iid : Instance) (expectedIdentity : Option ReaderIdentity)
  | makeProcessGroup (th : Thread κ) (name : String) (typeId : ℕ)
  | claim (p : InstanceId) (occurrence : ℕ)
  | waitForInstance (assignedName : String) (sender functionIid : Instance)
  /-- The launch of a process makes its registry entry. -/
  | register (p : InstanceId)
  /-- The launch of a process enters it in `m_processes_in_initialization`. -/
  | beginInitialization (p : InstanceId)
  | markInitializationComplete (p : InstanceId)
  | proceed (th : Thread κ) (typeId : ℕ)

variable {κ : Type*} [DecidableEq κ]

def State.step (s : State κ) : Action κ → Option (State κ)
  | .publish iid entry sender functionIid => s.publish iid entry sender functionIid
  | .publishLocal th typeId iid assignedName => s.publishLocal th typeId iid assignedName
  | .unpublish th iid expectedIdentity => s.unpublish th iid expectedIdentity
  | .makeProcessGroup th name typeId => s.makeProcessGroup th name typeId
  | .claim p occurrence => s.claim p occurrence
  | .waitForInstance assignedName sender functionIid =>
    s.waitForInstance assignedName sender functionIid
  | .register p => some { s with books := s.books.register p }
  | .beginInitialization p =>
    some { s with news := { s.news with initializing := insert p s.news.initializing } }
  | .markInitializationComplete p => s.markInitializationComplete p
  | .proceed th typeId => s.proceed th typeId

/-- The registry as a machine. -/
def machine (κ : Type*) [DecidableEq κ] : Machine (State κ) (Action κ) where
  init s := s = State.initial κ
  step := State.step

end Sintra.Process.Registry
