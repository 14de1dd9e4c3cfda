import Sintra.Lib.Gatherings
import Sintra.Lib.Machine
import Sintra.Process.ProcessGroup

/-!
# Deferred replies, from the coordinator's threads to the caller's reply reader

A call of `barrier` or `wait_for_instance` that has to wait is answered by a deferral, which names the
function id under which the result will come; the caller's reply reader moves its return handler to
that id. The deferral is written under the lock of the barrier, or under `m_publish_mutex`. Who
completes the waiting calls (the last arriver, a drop, a publication) collects them under the same
lock, and writes the completions later without it.

A section under a lock is a step; what a thread has to do after it stands in its `Handler`. Several
groups, and calls of any process, share the coordinator's reply ring, which the reply reader of each
process reads from its beginning. The values that the replies carry are left out. A call has its
return handler when the coordinator executes it: it is activated before the request is written.

`State.book` shows the calls that wait as gatherings; `book_putBarrier`, `book_write` and the others
say what a step does to it.

Sources without a file name are in `transceiver_impl.h`.
-/

namespace Sintra.Process.Deferrals

open Function

open Gatherings

/-! ### Replies and the caller's side -/

/-- What the coordinator writes to the reply ring. A completion is the second return of a deferred
call, under the common function id; a result is the normal return of a call, or what it threw.
Source: `Transceiver::rpc_handler`; `coordinator_impl.h`, `Process_group::barrier`,
`emit_barrier_completions`, `Coordinator::wait_for_instance` -/
inductive Reply
  | deferral (receiver functionIid newFunctionIid : InstanceId)
  | completion (receiver commonFunctionIid : InstanceId)
  | result (receiver functionIid : InstanceId) (thrown : Option String)
  deriving DecidableEq

namespace Reply

def receiver : Reply → InstanceId
  | .deferral p _ _ | .completion p _ | .result p _ _ => p

/-- `function_instance_id` -/
def functionIid : Reply → InstanceId
  | .deferral _ f _ | .completion _ f | .result _ f _ => f

/-- The call that the reply is the first answer to. -/
def call : Reply → Option InstanceId
  | .deferral _ f _ | .result _ f _ => some f
  | .completion _ _ => none

/-- The reply as an entry of the book. -/
def entry : Reply → Entry InstanceId InstanceId
  | .deferral p _ f => .announced p f
  | .completion p f => .settled p f
  | .result _ _ _ => .other

end Reply

/-- A process that calls: how far its reply reader has come, and for each active return handler
whether its call keeps waiting. -/
structure Caller where
  position : ℕ
  /-- `m_active_return_handlers`, with `keep_waiting` of the call -/
  returnHandlers : InstanceId → Option Bool
  /-- An exception has left the reply reader: `std::terminate`. -/
  terminated : Bool

namespace Caller

/-- Source: `Transceiver::activate_return_handler` -/
def activateReturnHandler (c : Caller) (functionIid : InstanceId) : Caller :=
  { c with returnHandlers := update c.returnHandlers functionIid (some true) }

/-- Source: `Transceiver::deactivate_return_handler` -/
def deactivateReturnHandler (c : Caller) (functionIid : InstanceId) : Caller :=
  { c with returnHandlers := update c.returnHandlers functionIid none }

@[simp] theorem returnHandlers_activate_self (c : Caller) (f : InstanceId) :
    (c.activateReturnHandler f).returnHandlers f = some true := update_self _ _ _

theorem returnHandlers_activate_of_ne (c : Caller) {f g : InstanceId} (h : g ≠ f) :
    (c.activateReturnHandler f).returnHandlers g = c.returnHandlers g := update_of_ne h _ _

@[simp] theorem returnHandlers_deactivate_self (c : Caller) (f : InstanceId) :
    (c.deactivateReturnHandler f).returnHandlers f = none := update_self _ _ _

theorem returnHandlers_deactivate_of_ne (c : Caller) {f g : InstanceId} (h : g ≠ f) :
    (c.deactivateReturnHandler f).returnHandlers g = c.returnHandlers g :=
  update_of_ne h _ _

/-- The handler of a waiting call is moved; a handler that is active under the new id makes it throw.
Source: `Transceiver::replace_return_handler_id` -/
def replaceReturnHandlerId (c : Caller) (oldId newId : InstanceId) : Caller :=
  let c := c.deactivateReturnHandler oldId
  if (c.returnHandlers newId).isSome then { c with terminated := true }
  else c.activateReturnHandler newId

/-- The reply reader has found the handler of a reply, with this `keep_waiting`.
Source: `rpc_async_impl`, `return_handler`, `exception_handler`, `deferral_handler` -/
def handle (c : Caller) (keepWaiting : Bool) : Reply → Caller
  | .deferral _ functionIid newFunctionIid =>
    if keepWaiting then c.replaceReturnHandlerId functionIid newFunctionIid else c
  | .completion _ functionIid | .result _ functionIid _ =>
    { c with returnHandlers := update c.returnHandlers functionIid (some false) }

end Caller

/-! ### The coordinator's side -/

/-- Source: `coordinator.h`, `Coordinator::waited_instance_info` -/
structure WaitedInstanceInfo where
  waiters : Finset InstanceId
  commonFunctionIid : InstanceId

/-- What the coordinator's threads share. -/
structure Tables where
  groups : InstanceId → ProcessGroup
  draining : InstanceId → Bool
  inCollectiveShutdown : InstanceId → Bool
  /-- `m_instance_id_of_assigned_name` -/
  instanceIdOfAssignedName : String → Option InstanceId
  /-- `m_instances_waited` -/
  instancesWaited : String → Option WaitedInstanceInfo

namespace Tables

def setGroup (t : Tables) (group : InstanceId) (g : ProcessGroup) : Tables :=
  { t with groups := update t.groups group g }

def setWaited (t : Tables) (name : String) (info : Option WaitedInstanceInfo) : Tables :=
  { t with instancesWaited := update t.instancesWaited name info }

def setName (t : Tables) (name : String) (iid : Option InstanceId) : Tables :=
  { t with instanceIdOfAssignedName := update t.instanceIdOfAssignedName name iid }

end Tables

/-- The normal return of a call, or what it threw. -/
structure Answer where
  receiver : InstanceId
  functionIid : InstanceId
  thrown : Option String
  deriving DecidableEq

/-- A thread of the coordinator after its locked section: the round the last arriver still has to
close, the deferred calls it has to complete with their common function id, and the answer to the
call it executes, which comes last. -/
structure Handler where
  closing : Option (InstanceId × String × ℕ × InstanceId)
  queue : Multiset (InstanceId × InstanceId)
  reply : Option Answer
  deriving DecidableEq

/-- Each of the recipients under the common function id. -/
def completions (recipients : Finset InstanceId) (iid : InstanceId) :
    Multiset (InstanceId × InstanceId) :=
  recipients.val.map fun p => (p, iid)

structure State where
  tables : Tables
  /-- The next result of `make_instance_id`, of the coordinator and of the calling processes. -/
  nextIid : InstanceId
  nextObject : ℕ
  handlers : Multiset Handler
  /-- `m_out_rep_c` -/
  replyRing : List Reply
  callers : InstanceId → Caller
  /-- A ghost: who made the call with this function id. -/
  calls : InstanceId → Option InstanceId
  /-- A ghost: replies that found no return handler. -/
  discarded : List Reply

namespace State

/-- Nobody has called yet. -/
def initial : State where
  tables :=
    { groups := fun _ => { processIds := ∅, barriers := ∅ }
      draining := fun _ => false
      inCollectiveShutdown := fun _ => false
      instanceIdOfAssignedName := fun _ => none
      instancesWaited := fun _ => none }
  nextIid := 1
  nextObject := 0
  handlers := 0
  replyRing := []
  callers := fun _ => ⟨0, fun _ => none, false⟩
  calls := fun _ => none
  discarded := []

def setTables (s : State) (t : Tables) : State := { s with tables := t }

def setCaller (s : State) (p : InstanceId) (c : Caller) : State :=
  { s with callers := update s.callers p c }

/-- A thread is left with work to do. -/
def addHandler (s : State) (h : Handler) : State := { s with handlers := h ::ₘ s.handlers }

/-- The handler `h` goes on as `h'`. -/
def replaceHandler (s : State) (h h' : Handler) : State :=
  { s with handlers := h' ::ₘ s.handlers.erase h }

/-- A message is written. -/
def send (s : State) (m : Reply) : State := { s with replyRing := s.replyRing ++ [m] }

/-- The call of `p` that is about to be executed, under the next function id.
Source: `rpc_async_impl` -/
def call (s : State) (p : InstanceId) : State :=
  { s.setCaller p ((s.callers p).activateReturnHandler s.nextIid) with
    nextIid := s.nextIid + 1
    calls := update s.calls s.nextIid (some p) }

/-- The common function id and the object that a call may draw are used up. -/
def draw (s : State) : State := { s with nextIid := s.nextIid + 1, nextObject := s.nextObject + 1 }

/-- The call returns or throws; the answer is written later. -/
def answer (s : State) (caller functionIid : InstanceId) (thrown : Option String) : State :=
  s.addHandler { closing := none, queue := 0, reply := some ⟨caller, functionIid, thrown⟩ }

/-! ### Barriers -/

/-- The barrier of this name gets its new state. -/
def putBarrier (s : State) (group : InstanceId) (name : String) (b : Barrier) : State :=
  s.setTables (s.tables.setGroup group ((s.tables.groups group).put name b))

/-- The barrier is erased from the map of its group. -/
def eraseBarrier (s : State) (group : InstanceId) (name : String) : State :=
  s.setTables (s.tables.setGroup group ((s.tables.groups group).erase name))

/-- The end of the first section of `barrier`: the caller is the last arriver, or is deferred.
Source: `coordinator_impl.h`, `Process_group::barrier` -/
def arrived (s : State) (group caller : InstanceId) (name : String) (functionIid : InstanceId)
    (b : Barrier) : State :=
  let s := s.putBarrier group name b
  if b.processesPending = ∅ then
    s.addHandler
      { closing := some (group, name, b.object, b.commonFunctionIid)
        queue := completions (b.processesArrived.erase caller) b.commonFunctionIid
        reply := some ⟨caller, functionIid, none⟩ }
  else s.send (.deferral caller functionIid b.commonFunctionIid)

/-- Source: `coordinator_impl.h`, `Process_group::barrier` -/
def barrier (s : State) (group caller : InstanceId) (name : String) (modeTag : ℤ) : State :=
  let t := s.tables
  let called := s.call caller
  match (t.groups group).barrier (ProcessGroup.absent t.draining t.inCollectiveShutdown name) caller
      name modeTag called.nextIid called.nextObject with
  | .ok b => called.draw.arrived group caller name s.nextIid b
  | .error what => called.draw.answer caller s.nextIid (some what)

/-- The second section of a last arriver. Source: `coordinator_impl.h`, `Process_group::barrier` -/
def closeRound (s : State) (h : Handler) : Option State :=
  match h.closing with
  | some (group, name, object, iid) =>
    if h ∈ s.handlers then
      let g := (s.tables.groups group).closeRound name object iid
      some ((s.setTables (s.tables.setGroup group g)).replaceHandler h { h with closing := none })
    else none
  | none => none

/-- One iteration of a drop, with the emission of the completion left to a handler.
Source: `coordinator_impl.h`, `Process_group::drop_from_inflight_barriers`,
`emit_barrier_completions` -/
def dropFromBarrier (s : State) (group p : InstanceId) (scope : BarrierScope) (name : String) :
    State :=
  match (s.tables.groups group).barriers.lookup name with
  | none => s
  | some b =>
    if scope.skips name then s
    else match b.drop p with
      | .untouched => s
      | .kept b' => s.putBarrier group name b'
      | .completed c =>
        (s.eraseBarrier group name).addHandler
          { closing := none
            queue :=
              if c.commonFunctionIid = invalidInstanceId then 0
              else completions c.recipients c.commonFunctionIid
            reply := none }

/-- Source: `coordinator_impl.h`, `Process_group::drop_from_inflight_barriers` -/
def drop (s : State) (group p : InstanceId) (scope : BarrierScope) : State :=
  (s.tables.groups group).barriers.keys.foldl (fun s n => s.dropFromBarrier group p scope n) s

/-! ### Waiting for an instance -/

/-- Who waits for the name, with the caller among them.
Source: `coordinator_impl.h`, `Coordinator::wait_for_instance` -/
def waitedInfo (s : State) (name : String) : WaitedInstanceInfo :=
  (s.tables.instancesWaited name).getD ⟨∅, s.nextIid⟩

/-- Source: `coordinator_impl.h`, `Coordinator::wait_for_instance` -/
def waitForInstance (s : State) (caller : InstanceId) (name : String) : State :=
  let called := s.call caller
  match s.tables.instanceIdOfAssignedName name with
  | some _ => called.answer caller s.nextIid none
  | none =>
    let info := called.waitedInfo name
    ((called.draw.setTables (s.tables.setWaited name
      (some { info with waiters := insert caller info.waiters }))).send
      (.deferral caller s.nextIid info.commonFunctionIid))

/-- The section of a publication; `reply` is the answer to the request, if it is one.
Source: `coordinator_impl.h`, `publish_transceiver_with_reader_identity`,
`emit_direct_publish_waiters` -/
def published (s : State) (name : String) (iid : InstanceId) (reply : Option Answer) : State :=
  match s.tables.instanceIdOfAssignedName name with
  | some _ => s.addHandler { closing := none, queue := 0, reply := reply }
  | none =>
    (s.setTables ((s.tables.setName name (some iid)).setWaited name none)).addHandler
      { closing := none
        queue := (s.tables.instancesWaited name).elim 0 fun info =>
          completions info.waiters info.commonFunctionIid
        reply := reply }

/-- A publication by request of a process, or by a thread of the coordinator's own process. -/
def publish (s : State) (caller : Option InstanceId) (name : String) (iid : InstanceId) : State :=
  match caller with
  | some p => (s.call p).published name iid (some ⟨p, s.nextIid, none⟩)
  | none => s.published name iid none

/-! ### Writing and reading -/

/-- A handler writes a completion.
Source: `Transceiver::rpc_handler`; `coordinator_impl.h`, `emit_barrier_completions`,
`emit_direct_publish_waiters` -/
def write (s : State) (h : Handler) (x : InstanceId × InstanceId) : Option State :=
  if h ∈ s.handlers ∧ h.closing = none ∧ x ∈ h.queue then
    some ((s.send (.completion x.1 x.2)).replaceHandler h { h with queue := h.queue.erase x })
  else none

/-- A handler answers the call it has executed. Source: `rpc_handler` -/
def writeReply (s : State) (h : Handler) : Option State :=
  match h.reply with
  | some a =>
    if h ∈ s.handlers ∧ h.closing = none ∧ h.queue = 0 then
      some ((s.send (.result a.receiver a.functionIid a.thrown)).replaceHandler h
        { h with reply := none })
    else none
  | none => none

/-- The reply reader of `p` reads a message.
Source: `process_message_reader_impl.h`, `reply_reader_function` -/
def read (s : State) (p : InstanceId) : Option State :=
  if (s.callers p).terminated then none
  else match s.replyRing[(s.callers p).position]? with
    | none => none
    | some m =>
      let c := { s.callers p with position := (s.callers p).position + 1 }
      if m.receiver = p then
        match c.returnHandlers m.functionIid with
        | some keepWaiting => some (s.setCaller p (c.handle keepWaiting m))
        | none => some { s.setCaller p c with discarded := s.discarded ++ [m] }
      else some (s.setCaller p c)

/-- The caller cleans up a call that no longer waits.
Source: `cleanup_rpc_state_if_needed` -/
def cleanup (s : State) (p functionIid : InstanceId) : Option State :=
  if (s.callers p).returnHandlers functionIid = some false then
    some (s.setCaller p ((s.callers p).deactivateReturnHandler functionIid))
  else none

end State

inductive Action
  | barrier (group caller : InstanceId) (name : String) (modeTag : ℤ)
  | closeRound (h : Handler)
  | drop (group p : InstanceId) (scope : BarrierScope)
  | waitForInstance (caller : InstanceId) (name : String)
  | publish (caller : Option InstanceId) (name : String) (iid : InstanceId)
  | unpublish (name : String)
  | write (h : Handler) (x : InstanceId × InstanceId)
  | writeReply (h : Handler)
  | read (p : InstanceId)
  | cleanup (p functionIid : InstanceId)
  | setDraining (p : InstanceId) (b : Bool)
  | setInCollectiveShutdown (p : InstanceId) (b : Bool)
  | setMembers (group : InstanceId) (ids : Finset InstanceId)

def State.step (s : State) : Action → Option State
  | .barrier group caller name modeTag => some (s.barrier group caller name modeTag)
  | .closeRound h => s.closeRound h
  | .drop group p scope => some (s.drop group p scope)
  | .waitForInstance caller name => some (s.waitForInstance caller name)
  | .publish caller name iid => some (s.publish caller name iid)
  | .unpublish name => some (s.setTables (s.tables.setName name none))
  | .write h x => s.write h x
  | .writeReply h => s.writeReply h
  | .read p => s.read p
  | .cleanup p functionIid => s.cleanup p functionIid
  | .setDraining p b =>
    some (s.setTables { s.tables with draining := update s.tables.draining p b })
  | .setInCollectiveShutdown p b =>
    some (s.setTables
      { s.tables with inCollectiveShutdown := update s.tables.inCollectiveShutdown p b })
  | .setMembers group ids =>
    some (s.setTables
      (s.tables.setGroup group { s.tables.groups group with processIds := ids }))

/-- The calls that defer, their completion and their callers as a machine. -/
def machine : Machine State Action where
  init s := s = State.initial
  step := State.step

/-! ### The book -/

/-- Where calls wait. -/
inductive Key
  | barrier (group : InstanceId) (name : String)
  | waited (name : String)
  deriving DecidableEq

/-- The round of a barrier that awaits somebody: those who arrived wait. A barrier that awaits nobody
is one whose last arriver has not closed it yet. -/
def flight (b : Barrier) : Option (Gathering InstanceId InstanceId) :=
  if b.processesPending = ∅ then none else some ⟨b.commonFunctionIid, b.processesArrived⟩

def Tables.inFlight (t : Tables) : Key → Option (Gathering InstanceId InstanceId)
  | .barrier group name => ((t.groups group).barriers.lookup name).bind flight
  | .waited name => (t.instancesWaited name).map fun info => ⟨info.commonFunctionIid, info.waiters⟩

/-- The deferred calls that threads still have to complete. -/
def State.owed (s : State) : Multiset (InstanceId × InstanceId) := s.handlers.bind Handler.queue

/-- Who waits, who is owed a completion, and the ring. -/
def State.book (s : State) : Book Key InstanceId InstanceId where
  inFlight := s.tables.inFlight
  owed := s.owed
  log := s.replyRing.map Reply.entry

theorem Tables.inFlight_setGroup (t : Tables) (group : InstanceId) (g : ProcessGroup)
    (name : String) (h : ∀ m, m ≠ name → g.barriers.lookup m = (t.groups group).barriers.lookup m) :
    (t.setGroup group g).inFlight =
      update t.inFlight (.barrier group name) ((g.barriers.lookup name).bind flight) := by
  funext k
  cases k with
  | waited n =>
    rfl
  | barrier group' n =>
    obtain rfl | hgroup := eq_or_ne group' group
    · by_cases hn : n = name
      · subst hn
        simp [inFlight, setGroup]
      · rw [update_of_ne (fun heq => hn (Key.barrier.inj heq).2)]
        simp [inFlight, setGroup, h n hn]
    · rw [update_of_ne (fun heq => hgroup (Key.barrier.inj heq).1)]
      simp [inFlight, setGroup, update_of_ne hgroup]

theorem State.book_putBarrier (s : State) (group : InstanceId) (name : String) (b : Barrier) :
    (s.putBarrier group name b).book =
      { s.book with
        inFlight := update s.book.inFlight (.barrier group name) (flight b) } := by
  have h := s.tables.inFlight_setGroup group ((s.tables.groups group).put name b) name fun m hm => by
    simp [ProcessGroup.put, AList.lookup_insert_ne hm]
  rw [ProcessGroup.put, AList.lookup_insert] at h
  exact congrArg (fun f => ({ s.book with inFlight := f } : Book Key InstanceId InstanceId)) h

theorem State.book_eraseBarrier (s : State) (group : InstanceId) (name : String) :
    (s.eraseBarrier group name).book = s.book.cancel (.barrier group name) := by
  have h := s.tables.inFlight_setGroup group ((s.tables.groups group).erase name) name fun m hm => by
    simp [ProcessGroup.erase, AList.lookup_erase_ne hm]
  rw [ProcessGroup.erase, AList.lookup_erase] at h
  exact congrArg (fun f => ({ s.book with inFlight := f } : Book Key InstanceId InstanceId)) h

theorem Tables.inFlight_setWaited (t : Tables) (name : String) (info : Option WaitedInstanceInfo) :
    (t.setWaited name info).inFlight = update t.inFlight (.waited name)
      (info.map fun info => ⟨info.commonFunctionIid, info.waiters⟩) := by
  funext k
  cases k with
  | barrier group n =>
    rfl
  | waited n =>
    obtain rfl | hn := eq_or_ne n name
    · simp [inFlight, setWaited]
    · rw [update_of_ne (fun heq => hn (Key.waited.inj heq))]
      simp [inFlight, setWaited, update_of_ne hn]

theorem State.owed_addHandler (s : State) (h : Handler) :
    (s.addHandler h).owed = s.owed + h.queue := by
  rw [State.owed, State.addHandler, Multiset.cons_bind, add_comm]
  rfl

/-- What all handlers have to do together, when `h` goes on as `h'`. -/
theorem bind_replaceHandler {β : Type*} (work : Handler → Multiset β) {s : State} {h : Handler}
    (hmem : h ∈ s.handlers) (h' : Handler) :
    (s.replaceHandler h h').handlers.bind work + work h = s.handlers.bind work + work h' := by
  have hs : s.handlers.bind work = work h + (s.handlers.erase h).bind work := by
    rw [← Multiset.cons_bind, Multiset.cons_erase hmem]
  rw [State.replaceHandler, Multiset.cons_bind, hs, add_right_comm, add_comm (work h'),
    add_right_comm]

/-- One of them has as much to do as before. -/
theorem bind_replaceHandler_same {β : Type*} (work : Handler → Multiset β) {s : State}
    {h h' : Handler} (hmem : h ∈ s.handlers) (hwork : work h' = work h) :
    (s.replaceHandler h h').handlers.bind work = s.handlers.bind work := by
  have hsum := bind_replaceHandler work hmem h'
  rw [hwork] at hsum
  exact add_right_cancel hsum

/-- One of them has one thing less to do. -/
theorem bind_replaceHandler_erase {β : Type*} [DecidableEq β] (work : Handler → Multiset β)
    {s : State} {h : Handler} (hmem : h ∈ s.handlers) (h' : Handler) {x : β} (hx : x ∈ work h)
    (hwork : work h' = (work h).erase x) :
    x ∈ s.handlers.bind work ∧
      (s.replaceHandler h h').handlers.bind work = (s.handlers.bind work).erase x := by
  have hall : x ∈ s.handlers.bind work := Multiset.mem_bind.2 ⟨h, hmem, hx⟩
  refine ⟨hall, ?_⟩
  have hsum := bind_replaceHandler work hmem h'
  obtain ⟨mine, hmine⟩ := Multiset.exists_cons_of_mem hx
  obtain ⟨all, hall⟩ := Multiset.exists_cons_of_mem hall
  rw [hwork, hmine, hall, Multiset.erase_cons_head, Multiset.add_cons, Multiset.cons_add,
    Multiset.cons_inj_right] at hsum
  rw [hall, Multiset.erase_cons_head]
  exact add_right_cancel hsum

end Sintra.Process.Deferrals
