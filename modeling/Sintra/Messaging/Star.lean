import Sintra.Lib.Machine
import Sintra.Messaging.InstanceIds

/-!
# The star

One process has the coordinator, the others are leaves. Every process writes a request and a reply
ring. The coordinator's process reads its own two rings and those of every leaf; a leaf reads those of
the coordinator's process only. What a leaf has to say to another one, and to itself, is relayed by
the coordinator's process into its own rings.

A ring is the list of what was written to it, and a reader knows how far it has come. Readers are in
state NORMAL, and none is evicted. To take a frame from a ring and to act on it is one step, up to the
execution of an RPC handler, which ends in a step of its own; meanwhile the reader waits and everybody
else goes on.

Frames carry a ghost: where they were written first. Leaves may write what they like (`forge`,
`forgeReply`); what the runtime writes is written by `send`, `settle` and the readers.

Sources without a file name are in `process_message_reader_impl.h`.
-/

namespace Sintra.Messaging

open Function

/-! ### Messages -/

/-- `invalid_instance_id`, as a function id. -/
def invalidFunctionId : ℕ := 0

/-- `not_defined_type_id` -/
def notDefinedTypeId : ℕ := 2 ^ 64 - 1

/-- Source: `message.h`, `Message_prefix` -/
structure Message where
  sender : InstanceId
  receiver : InstanceId
  /-- `message_type_id`, in a reply `exception_type_id`. -/
  typeId : ℕ
  functionId : ℕ
  custodyIdentity : ℕ
  occurrence : ℕ
  deriving DecidableEq

/-- The reserved type ids of replies. Source: `id_types.h`, `reserved_id` -/
def deferralTypeId : ℕ := 18

def rpcUnavailableTypeId : ℕ := 31

/-- A copy with the identity of the reader. Source: `message.h`, `Message_ring_W::relay` -/
def Message.relayed (m : Message) (custodyIdentity occurrence : ℕ) : Message :=
  { m with custodyIdentity := custodyIdentity, occurrence := occurrence }

/-! ### What a reader does with a message -/

section

variable (coordinator me ringOwner : ℕ) (m : Message)

/-- Source: `validate_relay_sender` -/
def validateRelaySender : Bool :=
  ringOwner = (processOf m.sender).process || ringOwner = coordinator

/-- Source: `validate_request_message` -/
def validateRequestMessage : Bool :=
  validateRelaySender coordinator ringOwner m && m.typeId ≠ notDefinedTypeId

/-- Source: `validate_reply_message` -/
def validateReplyMessage : Bool :=
  validateRelaySender coordinator ringOwner m && m.receiver ≠ anyLocal

/-- What a request reader does with a message. -/
inductive RequestAction
  /-- The message is not valid. -/
  | drop
  /-- It is not for this process. -/
  | ignore
  /-- `dispatch_event_handlers`, for these sender scopes -/
  | dispatch (scopeIds : List InstanceId)
  | relay
  /-- The target or its function is missing: an exception is replied, if a reply is expected. -/
  | reject (reason : String)
  /-- The RPC handler is called. -/
  | execute
  deriving DecidableEq

/-- What a targeted request finds. -/
structure Target where
  receiverExists : Bool
  handlerKnown : Bool

/-- One round of the loop, with `s_coord` in the process with index `coordinator`.
Source: `request_reader_function` -/
def requestReaderFunction (target : Target) : RequestAction :=
  let coordinatorLocal : Bool := me = coordinator
  let sameMapping : Bool := ringOwner = me
  if !validateRequestMessage coordinator ringOwner m then .drop
  else if isLocalInstance me m.receiver then
    if m.receiver = anyLocal then
      if sameMapping then .dispatch [m.sender, anyLocal, anyLocalOrRemote] else .ignore
    else if coordinatorLocal && !sameMapping && isServiceInstance m.receiver then .relay
    else if !target.receiverExists then .reject "RPC target is no longer available."
    else if !target.handlerKnown then .reject "RPC function is not available."
    else .execute
  else if anyRemote ≤ m.receiver then
    let skipLocalSender := m.receiver = anyRemote && isLocal me m.sender
    let coordinatorReadingRemote := coordinatorLocal && !sameMapping
    -- the message is relayed in the case in which it is not dispatched for the sake of its copy
    if !coordinatorReadingRemote && !skipLocalSender then
      .dispatch [m.sender, anyRemote, anyLocalOrRemote]
    else if coordinatorReadingRemote then .relay
    else .ignore
  else if coordinatorLocal && !sameMapping then .relay
  else .ignore

/-- What a reply reader does with a message. -/
inductive ReplyAction
  | drop
  | ignore
  /-- The return handler is looked up. -/
  | lookup
  | relay
  deriving DecidableEq

/-- One round of the loop. Source: `reply_reader_function` -/
def replyReaderFunction : ReplyAction :=
  if !validateReplyMessage coordinator ringOwner m then .drop
  else if isLocalInstance me m.receiver then .lookup
  else if me = coordinator && ringOwner ≠ me then .relay
  else .ignore

end

/-! ### Replies -/

/-- The reply to a request, from its receiver to its sender. -/
def Message.reply (m : Message) (typeId : ℕ) : Message where
  sender := m.receiver
  receiver := m.sender
  typeId := typeId
  functionId := m.functionId
  custodyIdentity := 0
  occurrence := 0

/-- What comes of the execution of an RPC handler. -/
inductive Outcome
  /-- The object is gone or shutting down. -/
  | unavailable
  | returned
  /-- The function has thrown; a response that cannot be serialized becomes an exception too. -/
  | thrown (exceptionTypeId : ℕ)
  /-- The function has written a deferral. -/
  | deferred
  deriving DecidableEq

/-- The reply that is written for a request. Source: `transceiver_impl.h`, `rpc_handler`;
`coordinator_impl.h`, `wait_for_instance`, `Process_group::barrier` -/
def rpcHandler (fireAndForget : Bool) (m : Message) : Outcome → Option Message
  | .unavailable =>
    if m.functionId = invalidFunctionId then none else some (m.reply rpcUnavailableTypeId)
  | .returned => if fireAndForget then none else some (m.reply notDefinedTypeId)
  | .thrown exceptionTypeId => if fireAndForget then none else some (m.reply exceptionTypeId)
  | .deferred => some (m.reply deferralTypeId)

/-! ### States -/

/-- A process: that of the coordinator, or a leaf. -/
inductive Proc (ι : Type)
  | coordinator
  | leaf (i : ι)
  deriving DecidableEq

/-- A finite star has finitely many processes. -/
instance [Fintype ι] : Fintype (Proc ι) :=
  Fintype.ofEquiv (Option ι)
    { toFun := fun o => o.elim .coordinator .leaf
      invFun := fun p => match p with
        | .coordinator => none
        | .leaf i => some i
      left_inv := fun o => by cases o <;> rfl
      right_inv := fun p => by cases p <;> rfl }

/-- The processes and their readers. -/
structure Star (ι : Type) where
  /-- The process indices. -/
  index : Proc ι → ℕ
  /-- What the reader of a leaf's rings stamps on a relayed request. -/
  custodyIdentity : ι → ℕ
  occurrence : ι → ℕ
  /-- The messages without a reply: events, and fire-and-forget functions. -/
  oneWay : ℕ → Bool
  index_injective : Injective index
  processIndex : ∀ p, ProcessIndex (index p)

/-- A star with two leaves; messages of type 100 are events. -/
def Star.twoLeaves : Star (Fin 2) where
  index
    | .coordinator => 2
    | .leaf i => 3 + i
  custodyIdentity i := 10 + i
  occurrence _ := 1
  oneWay typeId := typeId = 100
  index_injective := by decide
  processIndex := by decide

/-- Where a frame was written first: the owner of the ring, and the position. -/
abbrev Origin (ι : Type) := Proc ι × ℕ

/-- What a reply answers: the ring the request was read from, and where it was written first. -/
structure Answer (ι : Type) where
  ring : Proc ι
  request : Origin ι
  deriving DecidableEq

/-- A message in a ring. Ghosts: its origin and, of a reply, what it answers. -/
structure Frame (ι : Type) where
  msg : Message
  origin : Origin ι
  answers : Option (Answer ι)
  deriving DecidableEq

structure State (ι : Type) where
  requests : Proc ι → List (Frame ι)
  replies : Proc ι → List (Frame ι)
  /-- What the reader of process `q` for the ring of `r` has read and done. -/
  requestLog : Proc ι → Proc ι → List (Frame ι × RequestAction)
  /-- Ghost: what the reader has found for each of these requests. -/
  found : Proc ι → Proc ι → List Target
  replyLog : Proc ι → Proc ι → List (Frame ι × ReplyAction)
  /-- The request whose RPC handler a reader executes. -/
  executing : Proc ι → Proc ι → Option (Frame ι)

variable {ι : Type} [DecidableEq ι]

namespace State

def initial : State ι where
  requests _ := []
  replies _ := []
  requestLog _ _ := []
  found _ _ := []
  replyLog _ _ := []
  executing _ _ := none

/-- The process writes a request of its own. -/
def writeRequest (s : State ι) (p : Proc ι) (m : Message) : State ι :=
  { s with
    requests := update s.requests p
      (s.requests p ++ [⟨m, (p, (s.requests p).length), none⟩]) }

/-- The process writes a reply of its own. -/
def writeReply (s : State ι) (p : Proc ι) (m : Message) (answers : Option (Answer ι)) : State ι :=
  { s with
    replies := update s.replies p
      (s.replies p ++ [⟨m, (p, (s.replies p).length), answers⟩]) }

/-- The process copies a request into its own ring. -/
def relayRequest (s : State ι) (q : Proc ι) (f : Frame ι) (custodyIdentity occurrence : ℕ) : State ι :=
  { s with
    requests := update s.requests q
      (s.requests q ++ [{ f with msg := f.msg.relayed custodyIdentity occurrence }]) }

def relayReply (s : State ι) (q : Proc ι) (f : Frame ι) : State ι :=
  { s with
    replies := update s.replies q
      (s.replies q ++ [{ f with msg := f.msg.relayed 0 0 }]) }

/-- The reader has read one more frame. -/
def logRequest (s : State ι) (q r : Proc ι) (f : Frame ι) (act : RequestAction) : State ι :=
  { s with
    requestLog := update s.requestLog q
      (update (s.requestLog q) r (s.requestLog q r ++ [(f, act)])) }

/-- What the reader has found is kept. -/
def logFound (s : State ι) (q r : Proc ι) (target : Target) : State ι :=
  { s with found := update s.found q (update (s.found q) r (s.found q r ++ [target])) }

def logReply (s : State ι) (q r : Proc ι) (f : Frame ι) (act : ReplyAction) : State ι :=
  { s with
    replyLog := update s.replyLog q
      (update (s.replyLog q) r (s.replyLog q r ++ [(f, act)])) }

def setExecuting (s : State ι) (q r : Proc ι) (f : Option (Frame ι)) : State ι :=
  { s with executing := update s.executing q (update (s.executing q) r f) }

/-- The next request for a reader. -/
def nextRequest (s : State ι) (q r : Proc ι) : Option (Frame ι) :=
  (s.requests r)[(s.requestLog q r).length]?

def nextReply (s : State ι) (q r : Proc ι) : Option (Frame ι) :=
  (s.replies r)[(s.replyLog q r).length]?

/-- The effect of a round of the reply reader. -/
def performReply (s : State ι) (q : Proc ι) (f : Frame ι) : ReplyAction → State ι
  | .relay => s.relayReply q f
  | _ => s

end State

/-! ### Steps -/

/-- A process reads the rings of another one, or its own.
Source: `managed_process_impl.h`, `Managed_process::init`, `prepare_process_reader` -/
def Reads (q r : Proc ι) : Prop := q = .coordinator ∨ r = .coordinator

instance (q r : Proc ι) : Decidable (Reads q r) := inferInstanceAs (Decidable (_ ∨ _))

inductive Action (ι : Type)
  /-- A transceiver of a process sends an event, or a request to an instance. -/
  | send (p : Proc ι) (transceiver : ℕ) (receiver : InstanceId) (typeId functionId : ℕ)
  /-- A transceiver of a process completes a call that was deferred. -/
  | settle (p : Proc ι) (transceiver : ℕ) (receiver : InstanceId) (functionId : ℕ)
  /-- A leaf writes whatever it likes into one of its rings. -/
  | forge (i : ι) (m : Message)
  | forgeReply (i : ι) (m : Message)
  | readRequest (q r : Proc ι) (target : Target)
  | complete (q r : Proc ι) (outcome : Outcome)
  | readReply (q r : Proc ι)

namespace Star

variable (S : Star ι)

/-- The stamp of the reader of a ring. -/
def stamp : Proc ι → ℕ × ℕ
  | .coordinator => (0, 0)
  | .leaf i => (S.custodyIdentity i, S.occurrence i)

/-- A request as the runtime writes it. Source: `transceiver_impl.h`, `write_outbound_request` -/
def outboundRequest (p : Proc ι) (transceiver : ℕ) (receiver : InstanceId) (typeId functionId : ℕ) :
    Message where
  sender := ⟨S.index p, transceiver⟩
  receiver := receiver
  typeId := typeId
  functionId := functionId
  custodyIdentity := 0
  occurrence := 0

/-- The effect of a round of the request reader. -/
def perform (s : State ι) (q r : Proc ι) (f : Frame ι) : RequestAction → State ι
  | .relay => s.relayRequest q f (S.stamp r).1 (S.stamp r).2
  | .reject _ =>
    if f.msg.functionId = invalidFunctionId then s
    else s.writeReply q (f.msg.reply rpcUnavailableTypeId) (some ⟨r, f.origin⟩)
  | .execute => s.setExecuting q r (some f)
  | _ => s

def step (s : State ι) : Action ι → Option (State ι)
  | .send p transceiver receiver typeId functionId =>
    if typeId ≠ notDefinedTypeId ∧ (S.oneWay typeId = true ↔ functionId = invalidFunctionId) then
      some (s.writeRequest p (S.outboundRequest p transceiver receiver typeId functionId))
    else none
  | .settle p transceiver receiver functionId =>
    some (s.writeReply p
      ⟨⟨S.index p, transceiver⟩, receiver, notDefinedTypeId, functionId, 0, 0⟩ none)
  | .forge i m => some (s.writeRequest (.leaf i) m)
  | .forgeReply i m => some (s.writeReply (.leaf i) m none)
  | .readRequest q r target =>
    if Reads q r ∧ s.executing q r = none then
      (s.nextRequest q r).map fun f =>
        let act := requestReaderFunction (S.index .coordinator) (S.index q) (S.index r) f.msg target
        (S.perform (s.logRequest q r f act) q r f act).logFound q r target
    else none
  | .complete q r outcome =>
    (s.executing q r).bind fun f =>
      let fireAndForget := S.oneWay f.msg.typeId
      if outcome = .deferred ∧ fireAndForget = true then none
      else
        let s := s.setExecuting q r none
        match rpcHandler fireAndForget f.msg outcome with
        | none => some s
        | some m => some (s.writeReply q m (some ⟨r, f.origin⟩))
  | .readReply q r =>
    if Reads q r then
      (s.nextReply q r).map fun f =>
        let act := replyReaderFunction (S.index .coordinator) (S.index q) (S.index r) f.msg
        (s.logReply q r f act).performReply q f act
    else none

def machine : Machine (State ι) (Action ι) where
  init s := s = State.initial
  step := S.step

end Star

/-- The processes that `trusted` names do not forge. -/
def Faithful (trusted : Proc ι → Prop) (_ : State ι) : Action ι → Prop
  | .forge i _ | .forgeReply i _ => ¬trusted (.leaf i)
  | _ => True

/-- Nobody forges. -/
def Genuine : State ι → Action ι → Prop := Faithful fun _ => True

instance (s : State ι) (act : Action ι) : Decidable (Genuine s act) := by
  cases act with
  | forge i m | forgeReply i m => exact .isFalse fun h => h trivial
  | _ => exact .isTrue trivial

end Sintra.Messaging
