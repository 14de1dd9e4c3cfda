import Sintra.Messaging.Star

/-!
# A call

The life of one `rpc_async` call in the process of the caller: it is put into the set of outstanding
calls and its return handler into the map of return handlers, the request is written, and the caller
gets a handle. Replies, cancellation and the caller compete for the outcome. Three mutexes protect the
set, the state of the call and the map; a section under one of them is a step, except that the
registration holds the mutex of the call over two steps.

The thread that owns the handle calls one function of it at a time, and may move the state of the call
to another handle; a handle without the state does nothing. Reply readers look a handler up, copy it and
call it later, and there may be many of them. Other calls come and go in the map under ids of their own.
The process is not torn down meanwhile. What the owner was told is kept in a ghost, `reports`, and the
outcomes that were committed in another one, `commits`.

Sources without a file name are in `transceiver_impl.h`.
-/

namespace Sintra.Messaging.Rpc

open Function

/-! ### Outcomes and reports -/

/-- Source: `transceiver.h`, `Rpc_completion_state`, other than pending, with what `get` makes of it -/
inductive Completion
  | returned (body : ℕ)
  | remoteException (typeId : ℕ) (what : String)
  | cancelled
  | abandoned
  deriving DecidableEq

/-- A message of the reply ring: a value, an exception or a deferral, by its `exception_type_id`. -/
structure Reply where
  exceptionTypeId : ℕ
  body : ℕ
  what : String
  newFunctionId : ℕ
  deriving DecidableEq

/-- Whose handler it is. -/
inductive Handler
  | this
  | other
  deriving DecidableEq

/-- What a function of the handle says when it returns or throws. -/
inductive Report
  /-- `wait` returns, or `wait_until` with `completed` -/
  | completed
  /-- `wait_until` -/
  | deadlineExceeded
  /-- `state`; none for `pending` -/
  | state (completion : Option Completion)
  /-- `abandon` -/
  | abandon (transitioned : Bool)
  /-- `get` returns a value or throws; none for "RPC is still pending." -/
  | get (completion : Option Completion)
  /-- `get_until` throws `rpc_timeout`. -/
  | timeout
  /-- `get` throws `rpc_cancelled` because of its stop token. -/
  | stopped
  deriving DecidableEq

/-- The report says that the call has come to its end. -/
def Report.terminal : Report → Bool
  | .deadlineExceeded => false
  | .state none => false
  | _ => true

/-! ### Control points of the owner -/

/-- The functions of the handle. -/
inductive Job
  | wait
  | waitUntil
  | state
  | abandon
  | get
  | getUntil
  | getStop
  /-- The destructor, or the assignment of another handle -/
  | destroy
  deriving DecidableEq

/-- What follows a cleanup. -/
inductive Next
  | report (r : Report)
  /-- `get` goes on with `state`. -/
  | read
  /-- `get_until` and `get` with a stop token go on with `get`. -/
  | get
  /-- The destructor ends. -/
  | gone
  deriving DecidableEq

inductive Pc
  /-- `rpc_async_impl`, before the registration -/
  | calling
  /-- The call is in the outstanding set. -/
  | inserted
  /-- The return handler is active; `keep_waiting_mutex` is held. -/
  | activated
  /-- Something has thrown, and the mutex was released. -/
  | unwinding
  /-- `rpc_async_impl` has thrown. -/
  | thrown
  /-- The owner has the handle. -/
  | idle
  /-- In the wait on the condition variable. -/
  | waiting (job : Job)
  /-- `get` with a stop token, after its wait -/
  | woken
  /-- Before the section of `state`. -/
  | reading (job : Job)
  /-- Before the section of `abandon`. -/
  | abandoning (job : Job)
  /-- `cleanup_rpc_state_if_needed` is called. -/
  | cleanup (next : Next)
  /-- The call is cleaned up: it is to be erased from the outstanding set. -/
  | erasing (functionInstanceId : ℕ) (next : Next)
  /-- Its return handler is to be deactivated. -/
  | deactivating (functionInstanceId : ℕ) (next : Next)
  /-- The handle was destroyed. -/
  | gone
  deriving DecidableEq

/-! ### States -/

structure State where
  /-- The members of `Outstanding_rpc_control` and `Rpc_state`. -/
  keepWaiting : Bool
  cancelled : Bool
  abandoned : Bool
  cleanedUp : Bool
  returnBody : ℕ
  exceptionTypeId : ℕ
  exceptionWhat : String
  functionInstanceId : ℕ
  /-- `s_outstanding_rpcs` contains the call. -/
  outstanding : Bool
  /-- `m_active_return_handlers` -/
  returnHandlers : ℕ → Option Handler
  /-- Replies for which a reader has a copy of the handler. -/
  inFlight : List Reply
  stopRequested : Bool
  /-- The handle whose `m_state` is the state of the call. -/
  holder : ℕ
  pc : Pc
  reports : List Report
  commits : List Completion

namespace State

def initial (returnHandlers : ℕ → Option Handler) : State where
  keepWaiting := true
  cancelled := false
  abandoned := false
  cleanedUp := false
  returnBody := 0
  exceptionTypeId := notDefinedTypeId
  exceptionWhat := ""
  functionInstanceId := invalidFunctionId
  outstanding := false
  returnHandlers := returnHandlers
  inFlight := []
  stopRequested := false
  holder := 0
  pc := .calling
  reports := []
  commits := []

def goto (s : State) (pc : Pc) : State := { s with pc := pc }

/-- A function of the handle ends. -/
def report (s : State) (r : Report) : State := { s with pc := .idle, reports := s.reports ++ [r] }

/-- What `state` finds, none for `pending`. Source: `Rpc_handle::state` -/
def completion (s : State) : Option Completion :=
  if s.keepWaiting then none
  else if s.abandoned then some .abandoned
  else if s.cancelled then some .cancelled
  else if s.exceptionTypeId ≠ notDefinedTypeId then
    some (.remoteException s.exceptionTypeId s.exceptionWhat)
  else some (.returned s.returnBody)

/-! ### Replies -/

/-- Source: `rpc_async_impl`, `return_handler` -/
def returnHandler (s : State) (reply : Reply) : State :=
  if !s.keepWaiting then s
  else
    { s with
      returnBody := reply.body
      keepWaiting := false
      commits := s.commits ++ [.returned reply.body] }

/-- Source: `rpc_async_impl`, `exception_handler` -/
def exceptionHandler (s : State) (reply : Reply) : State :=
  if !s.keepWaiting then s
  else
    { s with
      exceptionTypeId := reply.exceptionTypeId
      exceptionWhat := reply.what
      keepWaiting := false
      commits := s.commits ++ [.remoteException reply.exceptionTypeId reply.what] }

/-- Source: `replace_return_handler_id`, onto an id that is not active -/
def replaceReturnHandlerId (s : State) (oldId newId : ℕ) : State :=
  match s.returnHandlers oldId with
  | none => s
  | some handler =>
    { s with
      returnHandlers :=
        update (update s.returnHandlers oldId none) newId (some handler) }

/-- Source: `rpc_async_impl`, `deferral_handler` -/
def deferralHandler (s : State) (reply : Reply) : State :=
  if !s.keepWaiting then s
  else
    { s.replaceReturnHandlerId s.functionInstanceId reply.newFunctionId with
      functionInstanceId := reply.newFunctionId }

/-- The handler is called. Source: `process_message_reader_impl.h`, `reply_reader_function` -/
def handle (s : State) (reply : Reply) : State :=
  if reply.exceptionTypeId = notDefinedTypeId then s.returnHandler reply
  else if reply.exceptionTypeId ≠ deferralTypeId then s.exceptionHandler reply
  else s.deferralHandler reply

/-! ### Cancellation and the owner -/

/-- The part of the scan that is about the call. Source: `managed_process_impl.h`, `unblock_rpc` -/
def unblockRpc (s : State) (remoteProcess processInstanceId : ℕ) : State :=
  if s.outstanding && s.keepWaiting &&
      (processInstanceId = invalidFunctionId || remoteProcess = processInstanceId) then
    { s with keepWaiting := false, cancelled := true, commits := s.commits ++ [.cancelled] }
  else s

/-- The section of `abandon`. -/
def abandon (s : State) : State :=
  if s.keepWaiting then
    { s with keepWaiting := false, abandoned := true, commits := s.commits ++ [.abandoned] }
  else s

/-- Source: `deactivate_return_handler` -/
def deactivateReturnHandler (s : State) (functionInstanceId : ℕ) : State :=
  { s with returnHandlers := update s.returnHandlers functionInstanceId none }

/-- The end of a cleanup. -/
def resume (s : State) : Next → State
  | .report r => s.report r
  | .read => s.goto (.reading .get)
  | .get => s.goto (.waiting .get)
  | .gone => s.goto .gone

/-- Where a function of the handle begins. -/
def start (s : State) : Job → State
  | .state => s.goto (.reading .state)
  | .abandon => s.goto (.abandoning .abandon)
  | .destroy => s.goto (.abandoning .destroy)
  | job => s.goto (.waiting job)

/-- The wait of the owner ends because the call has.
Source: `Rpc_handle::wait`, `wait_until`, `get_until`, `get` -/
def wake (s : State) : Job → State
  | .get => s.goto (.cleanup .read)
  | .getUntil => s.goto (.cleanup .get)
  | .getStop => s.goto .woken
  | _ => s.goto (.cleanup (.report .completed))

/-- The sections of the owner that follow the wait. Source: `transceiver_impl.h`,
`cleanup_rpc_state_if_needed`, `Rpc_handle::state`, `abandon`, `get`, `get_until` -/
def advance (s : State) : Option State :=
  match s.pc with
  | .woken => some (s.goto (if s.stopRequested then .abandoning .getStop else .waiting .get))
  | .reading .get =>
    if s.keepWaiting then some (s.report (.get none))
    else some (s.goto (.cleanup (.report (.get s.completion))))
  | .reading _ =>
    if s.keepWaiting then some (s.report (.state none))
    else some (s.goto (.cleanup (.report (.state s.completion))))
  | .abandoning .getUntil =>
    some (s.abandon.goto (.cleanup (if s.keepWaiting then .report .timeout else .get)))
  | .abandoning .getStop =>
    some (s.abandon.goto (.cleanup (if s.keepWaiting then .report .stopped else .get)))
  | .abandoning .destroy => some (s.abandon.goto (.cleanup .gone))
  | .abandoning _ => some (s.abandon.goto (.cleanup (.report (.abandon s.keepWaiting))))
  | .cleanup next =>
    if s.cleanedUp then some (s.resume next)
    else some { s with cleanedUp := true, pc := .erasing s.functionInstanceId next }
  | .erasing functionInstanceId next =>
    some { s with outstanding := false, pc := .deactivating functionInstanceId next }
  | .deactivating functionInstanceId next =>
    if functionInstanceId ≠ invalidFunctionId then
      some ((s.deactivateReturnHandler functionInstanceId).resume next)
    else some (s.resume next)
  | _ => none

end State

/-! ### Steps -/

inductive Action
  /-- The call is registered, unless the transport has stopped. -/
  | insert (mustStop : Bool)
  /-- The return handler is activated under a new id; none if that throws. -/
  | activate (functionInstanceId : Option ℕ)
  /-- The request is written, or that throws. -/
  | write (throws : Bool)
  | unwind
  /-- A function of a handle is called. -/
  | start (handle : ℕ) (job : Job)
  /-- The handle is moved to another one. -/
  | move (handle : ℕ)
  | wake
  /-- The deadline of the owner's wait has passed. -/
  | deadline
  | advance
  | requestStop
  /-- A reply reader finds the handler for a reply, and copies it. -/
  | lookup (functionInstanceId : ℕ) (reply : Reply)
  /-- It calls the copy. -/
  | invoke (i : ℕ)
  | unblockRpc (processInstanceId : ℕ)
  /-- Another call changes its own entry in the map of return handlers. -/
  | foreign (functionInstanceId : ℕ) (active : Bool)

/-- The steps; `remoteProcess` is the process of the instance that is called.
Source: `rpc_async_impl` -/
def step (remoteProcess : ℕ) (s : State) : Action → Option State
  | .insert mustStop =>
    if s.pc = .calling then
      some (if mustStop then s.goto .thrown else { s with outstanding := true, pc := .inserted })
    else none
  | .activate functionInstanceId =>
    if s.pc = .inserted then
      match functionInstanceId with
      | none => some (s.goto .unwinding)
      | some id =>
        if id ≠ invalidFunctionId ∧ s.returnHandlers id = none then
          some { s with
            returnHandlers := update s.returnHandlers id (some .this)
            functionInstanceId := id
            pc := .activated }
        else none
    else none
  | .write throws =>
    if s.pc = .activated then
      some (if throws then (s.deactivateReturnHandler s.functionInstanceId).goto .unwinding
        else s.goto .idle)
    else none
  | .unwind => if s.pc = .unwinding then some { s with outstanding := false, pc := .thrown } else none
  | .start handle job =>
    if s.pc = .idle then some (if handle = s.holder then s.start job else s) else none
  | .move handle => if s.pc = .idle then some { s with holder := handle } else none
  | .wake =>
    match s.pc with
    | .waiting job =>
      if !s.keepWaiting then some (s.wake job)
      else if job = .getStop ∧ s.stopRequested then some (s.goto .woken)
      else none
    | _ => none
  | .deadline =>
    if s.keepWaiting then
      match s.pc with
      | .waiting .waitUntil => some (s.report .deadlineExceeded)
      | .waiting .getUntil => some (s.goto (.abandoning .getUntil))
      | _ => none
    else none
  | .advance => s.advance
  | .requestStop => some { s with stopRequested := true }
  | .lookup functionInstanceId reply =>
    if s.returnHandlers functionInstanceId = some .this then
      some { s with inFlight := s.inFlight ++ [reply] }
    else none
  | .invoke i =>
    if s.pc ≠ .activated then
      (s.inFlight[i]?).bind fun reply =>
        -- the id of a deferral is new
        if reply.exceptionTypeId = deferralTypeId ∧
            ¬(reply.newFunctionId ≠ invalidFunctionId ∧ s.returnHandlers reply.newFunctionId = none)
        then none
        else some ({ s with inFlight := s.inFlight.eraseIdx i }.handle reply)
    else none
  | .unblockRpc processInstanceId =>
    if s.pc ≠ .activated then some (s.unblockRpc remoteProcess processInstanceId) else none
  | .foreign functionInstanceId active =>
    if s.returnHandlers functionInstanceId ≠ some .this then
      some { s with
        returnHandlers := update s.returnHandlers functionInstanceId
          (if active then some .other else none) }
    else none

/-- Initially the map has the handlers of other calls. -/
def machine (remoteProcess : ℕ) : Machine State Action where
  init s := ∃ returnHandlers, (∀ id, returnHandlers id ≠ some .this) ∧
    s = State.initial returnHandlers
  step := step remoteProcess

end Sintra.Messaging.Rpc
