import Sintra.Lib.Machine
import Sintra.Messaging.EventHandlers

/-!
# Handler slots

The handlers of a process while threads dispatch events, activate handlers and deactivate them. A
dispatch collects the slots of an event under `m_handlers_mutex` and then invokes them one by one
without it, each under the mutex of its slot. The deactivator of a slot clears the flag `active`, takes
the slot out of its lists if it is the first to do so, and waits until the slot counts no invocation.
What happens under `m_handlers_mutex` is one step; every other access to a slot is a step of its own.

A deactivator may be copied and called any number of times. It is called by `deactivate_all` too, and the
handler itself may call it. An activation by name has an entry in the list of deactivators before there
is a slot.

Two ghosts count how often a slot is erased from its list of handlers, and an entry from its list of
deactivators.
-/

namespace Sintra.Messaging.Handlers

open Function

/-- A transceiver; it has a list `m_deactivators`. -/
abbrev Owner := ℕ

/-- An entry of `m_deactivators`: the deactivator of a slot, or of an activation by name. -/
inductive Deactivator
  | slot (x : Slot)
  | named (n : ℕ)
  deriving DecidableEq

/-- What the deactivator of a slot has captured. Source: `transceiver_impl.h`, `activate_impl` -/
structure Registration where
  owner : Owner
  messageTypeId : TypeId
  effectiveSenderId : InstanceId
  /-- `deactivator_it` -/
  entry : Deactivator
  deriving DecidableEq

/-- Source: `transceiver.h`, `Handler_slot_state` -/
structure SlotState (τ : Type*) where
  active : Bool
  deactivationClaimed : Bool
  invocations : ℕ
  /-- Who holds `invocation_mutex`. -/
  invocationMutex : Option τ

def SlotState.initial {τ : Type*} : SlotState τ where
  active := true
  deactivationClaimed := false
  invocations := 0
  invocationMutex := none

/-- Source: `transceiver_impl.h`, `Named_activation_state` -/
structure NamedActivation where
  owner : Owner
  cancelled : Bool
  /-- `m_handler_deactivator`, once there is a slot -/
  handlerDeactivator : Option Slot

/-- Where a thread is in `dispatch_event_handlers`, with the collected slots that are left. -/
inductive Stage
  | idle
  /-- The loop. -/
  | next (todo : List Slot)
  /-- The slot has been found active; `invocation_mutex` is to be locked. -/
  | locking (x : Slot) (todo : List Slot)
  | locked (x : Slot) (todo : List Slot)
  /-- The slot has been found active under the mutex. -/
  | admitting (x : Slot) (todo : List Slot)
  /-- The invocation is counted. -/
  | entered (x : Slot) (todo : List Slot)
  | running (x : Slot) (todo : List Slot)
  /-- The scope of the invocation is to be left, … -/
  | leaving (x : Slot) (todo : List Slot)
  /-- … and then the mutex is to be unlocked. -/
  | unlocking (x : Slot) (todo : List Slot)
  deriving DecidableEq

namespace Stage

/-- The slot whose mutex the thread holds. -/
def held : Stage → Option Slot
  | locked x _ | admitting x _ | entered x _ | running x _ | leaving x _ | unlocking x _ => some x
  | _ => none

/-- `tl_current_handler_slot_state`. It is set and restored with the counter of the slot; an event is
dispatched by the loop of a reader only, so that it is null outside. -/
def currentHandlerSlotState : Stage → Option Slot
  | entered x _ | running x _ | leaving x _ => some x
  | _ => none

/-- The slots that the dispatch has a reference to. -/
def slots : Stage → List Slot
  | idle => []
  | next todo => todo
  | locking x todo | locked x todo | admitting x todo | entered x todo | running x todo
  | leaving x todo | unlocking x todo => x :: todo

/-- The thread is not in the code of the library. -/
def user : Stage → Bool
  | idle | running _ _ => true
  | _ => false

end Stage

/-- Where a thread is in a deactivator. -/
inductive Call
  | none
  /-- The deactivator of an activation by name has been called. -/
  | named (n : ℕ)
  /-- The deactivator of a slot has been called. -/
  | slot (x : Slot)
  /-- `active` is cleared. -/
  | stored (x : Slot)
  /-- The deactivation is claimed; the slot is to be erased. -/
  | removing (x : Slot)
  /-- The loop that waits for the invocations. -/
  | waiting (x : Slot)
  /-- The loop of `deactivate_all`. -/
  | fetching (o : Owner)
  deriving DecidableEq

/-- The lists, and what is known of their entries. All of it is guarded by `m_handlers_mutex`, except
for the state of an activation by name, which has a mutex of its own. -/
structure Registry where
  /-- `m_active_handlers` -/
  handlers : TypeId → InstanceId → List Slot
  /-- `m_deactivators` -/
  deactivators : Owner → List Deactivator
  /-- The slots that have been made. -/
  registration : Slot → Option Registration
  named : ℕ → Option NamedActivation
  /-- The list that an entry was put in. -/
  ownerOf : Deactivator → Option Owner
  removals : Slot → ℕ
  entryRemovals : Deactivator → ℕ

namespace Registry

/-- A new entry at the end of a list of deactivators. -/
def addEntry (g : Registry) (entry : Deactivator) (owner : Owner) : Registry :=
  { g with
    deactivators := update g.deactivators owner (g.deactivators owner ++ [entry])
    ownerOf := update g.ownerOf entry (some owner) }

def eraseEntry (g : Registry) (entry : Deactivator) (owner : Owner) : Registry :=
  { g with
    deactivators := update g.deactivators owner ((g.deactivators owner).erase entry)
    entryRemovals := update g.entryRemovals entry (g.entryRemovals entry + 1) }

/-- A new slot at the end of a list of handlers. -/
def addSlot (g : Registry) (x : Slot) (r : Registration) : Registry :=
  { g with
    handlers := fun t sid =>
      if t = r.messageTypeId ∧ sid = r.effectiveSenderId then g.handlers t sid ++ [x]
      else g.handlers t sid
    registration := update g.registration x (some r) }

def eraseSlot (g : Registry) (x : Slot) (r : Registration) : Registry :=
  { g with
    handlers := fun t sid =>
      if t = r.messageTypeId ∧ sid = r.effectiveSenderId then (g.handlers t sid).erase x
      else g.handlers t sid
    removals := update g.removals x (g.removals x + 1) }

def setNamed (g : Registry) (n : ℕ) (a : NamedActivation) : Registry :=
  { g with named := update g.named n (some a) }

/-- The deactivator of an activation by name, under the mutex of the activation.
Source: `transceiver_impl.h`, `activate` -/
def cancelNamed (g : Registry) (n : ℕ) (a : NamedActivation) : Registry :=
  if a.cancelled then g
  else
    match a.handlerDeactivator with
    | none => (g.setNamed n { a with cancelled := true }).eraseEntry (.named n) a.owner
    | some _ => g.setNamed n { a with cancelled := true }

/-- The deactivator is in somebody's hands. -/
def issued (g : Registry) : Deactivator → Bool
  | .slot x => (g.registration x).isSome
  | .named n => (g.named n).isSome

end Registry

structure State (τ : Type*) where
  registry : Registry
  slots : Slot → SlotState τ
  stage : τ → Stage
  call : τ → Call
  /-- The transceiver whose list is emptied, in `deactivate_all`. -/
  all : τ → Option Owner

inductive Action (τ : Type*)
  /-- A handler is activated for an instance or for a wildcard. -/
  | activate (x : Slot) (owner : Owner) (messageTypeId : TypeId)
      (coordinatorLocal exportedByCoordinator : Bool) (senderId : InstanceId)
  /-- A handler is activated for a name. -/
  | activateNamed (n : ℕ) (owner : Owner)
  /-- The named instance is there: `wrapped_activation`. -/
  | available (n : ℕ) (x : Slot) (messageTypeId : TypeId)
      (coordinatorLocal exportedByCoordinator : Bool) (senderId : InstanceId)
  /-- A copy of a deactivator is called. -/
  | deactivate (th : τ) (d : Deactivator)
  | deactivateAll (th : τ) (owner : Owner)
  | dispatch (th : τ) (messageTypeId : TypeId) (scopeIds : List InstanceId)
  /-- The dispatch goes on. -/
  | advance (th : τ)
  /-- The handler returns or throws. -/
  | finish (th : τ) (throws : Bool)
  /-- The deactivator goes on. -/
  | call (th : τ)

namespace State

variable {τ : Type*} [DecidableEq τ]

def setStage (s : State τ) (th : τ) (stage : Stage) : State τ :=
  { s with stage := update s.stage th stage }

def setCall (s : State τ) (th : τ) (call : Call) : State τ :=
  { s with call := update s.call th call }

def setSlot (s : State τ) (x : Slot) (slot : SlotState τ) : State τ :=
  { s with slots := update s.slots x slot }

/-- The deactivator returns, to its caller or into the loop of `deactivate_all`. -/
def returned (s : State τ) (th : τ) : State τ :=
  s.setCall th (match s.all th with | none => .none | some o => .fetching o)

def invoke (s : State τ) (th : τ) : Deactivator → State τ
  | .slot x => s.setCall th (.slot x)
  | .named n => s.setCall th (.named n)

/-- The thread is in code that may call a deactivator. -/
def inUserCode (s : State τ) (th : τ) : Bool :=
  (s.stage th).user && s.call th = .none

/-- Source: `process_message_reader_impl.h`, `dispatch_event_handlers`, `Handler_slot_invocation_scope` -/
def advance (s : State τ) (th : τ) : Option (State τ) :=
  match s.stage th with
  | .next [] => some (s.setStage th .idle)
  | .next (x :: todo) =>
    some (s.setStage th (if (s.slots x).active then .locking x todo else .next todo))
  | .locking x todo =>
    if (s.slots x).invocationMutex = none then
      some ((s.setStage th (.locked x todo)).setSlot x { s.slots x with invocationMutex := some th })
    else none
  | .locked x todo =>
    some (s.setStage th (if (s.slots x).active then .admitting x todo else .unlocking x todo))
  | .admitting x todo =>
    some ((s.setStage th (.entered x todo)).setSlot x
      { s.slots x with invocations := (s.slots x).invocations + 1 })
  | .entered x todo =>
    some (s.setStage th (if (s.slots x).active then .running x todo else .leaving x todo))
  | .leaving x todo =>
    some ((s.setStage th (.unlocking x todo)).setSlot x
      { s.slots x with invocations := (s.slots x).invocations - 1 })
  | .unlocking x todo =>
    some ((s.setStage th (.next todo)).setSlot x { s.slots x with invocationMutex := none })
  | _ => none

def allowedInvocations (s : State τ) (th : τ) (x : Slot) : ℕ :=
  if (s.stage th).currentHandlerSlotState = some x then 1 else 0

/-- Source: `transceiver_impl.h`, `activate_impl`, `activate`, `deactivate_all` -/
def callStep (s : State τ) (th : τ) : Option (State τ) :=
  match s.call th with
  | .none => none
  | .named n =>
    (s.registry.named n).map fun a =>
      let s' := { s with registry := s.registry.cancelNamed n a }
      match a.handlerDeactivator with
      | none => s'.returned th
      | some x => s'.setCall th (.slot x)
  | .slot x => some ((s.setCall th (.stored x)).setSlot x { s.slots x with active := false })
  | .stored x =>
    if (s.slots x).deactivationClaimed then some (s.setCall th (.waiting x))
    else some ((s.setCall th (.removing x)).setSlot x { s.slots x with deactivationClaimed := true })
  | .removing x =>
    (s.registry.registration x).map fun r =>
      { s.setCall th (.waiting x) with
        registry := (s.registry.eraseSlot x r).eraseEntry r.entry r.owner }
  | .waiting x =>
    if s.allowedInvocations th x < (s.slots x).invocations then none else some (s.returned th)
  | .fetching o =>
    -- An entry is empty only while `m_handlers_mutex` is held.
    match (s.registry.deactivators o).getLast? with
    | none => some { s.setCall th .none with all := update s.all th none }
    | some d => some (s.invoke th d)

def step (s : State τ) : Action τ → Option (State τ)
  | .activate x owner t coordinatorLocal exported senderId =>
    if s.registry.registration x = none then
      some { s.setSlot x .initial with
        registry := (s.registry.addSlot x ⟨owner, t,
          HandlerTable.effectiveSenderId coordinatorLocal exported senderId, .slot x⟩).addEntry
            (.slot x) owner }
    else none
  | .activateNamed n owner =>
    match s.registry.named n with
    | some _ => none
    | none =>
      some { s with
        registry := (s.registry.addEntry (.named n) owner).setNamed n ⟨owner, false, none⟩ }
  | .available n x t coordinatorLocal exported senderId =>
    match s.registry.named n with
    | none => none
    | some a =>
      if a.cancelled = false ∧ a.handlerDeactivator = none ∧ s.registry.registration x = none then
        some { s.setSlot x .initial with
          registry := (s.registry.addSlot x ⟨a.owner, t,
            HandlerTable.effectiveSenderId coordinatorLocal exported senderId, .named n⟩).setNamed n
              { a with handlerDeactivator := some x } }
      else none
  | .deactivate th d =>
    if s.inUserCode th && s.registry.issued d then some (s.invoke th d) else none
  | .deactivateAll th o =>
    if s.inUserCode th then
      some { s.setCall th (.fetching o) with all := update s.all th (some o) }
    else none
  | .dispatch th t scopeIds =>
    if s.stage th = .idle ∧ s.call th = .none then
      some (s.setStage th (.next (scopeIds.flatMap (s.registry.handlers t))))
    else none
  | .advance th => s.advance th
  | .finish th throws =>
    match s.stage th with
    | .running x todo =>
      if s.call th = .none then
        some (s.setStage th (.leaving x (if throws then [] else todo)))
      else none
    | _ => none
  | .call th => s.callStep th

/-- The thread is inside the handler of the slot. -/
def Running (s : State τ) (th : τ) (x : Slot) : Prop := ∃ todo, s.stage th = .running x todo

end State

/-- Initially there is no handler, and no thread does anything. -/
def machine (τ : Type*) [DecidableEq τ] : Machine (State τ) (Action τ) where
  init s :=
    s.registry = ⟨fun _ _ => [], fun _ => [], fun _ => none, fun _ => none, fun _ => none,
      fun _ => 0, fun _ => 0⟩ ∧
      (∀ x, s.slots x = .initial) ∧ ∀ th, s.stage th = .idle ∧ s.call th = .none ∧ s.all th = none
  step := State.step

end Sintra.Messaging.Handlers
