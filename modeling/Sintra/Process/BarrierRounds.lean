import Sintra.Lib.Machine
import Sintra.Process.ProcessGroup

/-!
# Barrier rounds on the coordinator

The coordinator's side of a barrier as a machine over one process group: calls of `barrier`, drops,
changes of the membership and of who is absent, in any order, with the replies they send. A section
that runs under the locks is one step. What follows it without a lock is left to a *handler*: the
second section of the last arriver (`closeRound`) and the writing of the replies, one step each, so
that everything else can happen in between.

Rounds are named by their common function id. `State.rounds` is a ghost: for each round, who was
captured into it, who called, who was dropped from it, who was deferred and who arrived last.
-/

namespace Sintra.Process.Barriers

/-! ### Messages, handlers and rounds -/

/-- What the coordinator writes to the reply ring. The last argument of a completion is a ghost: the
round it belongs to.
Source: `coordinator_impl.h`, `Process_group::barrier`, `emit_barrier_completions`;
`transceiver_impl.h`, `Transceiver::rpc_handler` -/
inductive Message
  | deferral (recipient functionIid commonFunctionIid : InstanceId)
  | completion (recipient functionIid round : InstanceId)
  | exception (recipient functionIid : InstanceId) (what : String)
  deriving DecidableEq

/-- The round a completion belongs to. -/
def Message.round : Message → Option InstanceId
  | .completion _ _ f => some f
  | _ => none

/-- A thread of the coordinator after its locked section: the round the last arriver still has to
close, the replies to the processes that wait, and the normal return of its own call, which comes
last. -/
structure Handler where
  closing : Option (String × ℕ × InstanceId)
  queue : Multiset Message
  reply : Option Message
  deriving DecidableEq

/-- Everything a handler has still to write. -/
def Handler.outstanding (h : Handler) : Multiset Message :=
  h.queue + (h.reply.toFinset).val

/-- The completions with the common function id, one for each recipient.
Source: `coordinator_impl.h`, `Process_group::emit_barrier_completions` -/
def completions (recipients : Finset InstanceId) (iid : InstanceId) : Multiset Message :=
  recipients.val.map fun p => .completion p iid iid

/-- The ghost record of a round. -/
structure Round where
  name : String
  /-- Pending at its creation. -/
  captured : Finset InstanceId
  /-- Called `barrier` in it. -/
  called : Finset InstanceId
  /-- Dropped from it while pending. -/
  dropped : Finset InstanceId
  /-- Were sent a deferral. -/
  deferred : Finset InstanceId
  /-- The last arriver with the function id of its call. -/
  last : Option (InstanceId × InstanceId)
  complete : Bool
  /-- A process was dropped from it after it had arrived. -/
  arrivedDropped : Bool

/-- A round nobody has arrived in. -/
def Round.opened (name : String) (captured : Finset InstanceId) : Round where
  name := name
  captured := captured
  called := ∅
  dropped := ∅
  deferred := ∅
  last := none
  complete := false
  arrivedDropped := false

/-- The last arrival. -/
def Round.lastArrival (r : Round) (caller callIid : InstanceId) : Round :=
  { r with called := insert caller r.called, last := some (caller, callIid), complete := true }

/-- The arrival of a process that has to wait. -/
def Round.deferral (r : Round) (caller : InstanceId) : Round :=
  { r with called := insert caller r.called, deferred := insert caller r.deferred }

/-- A drop of `p`, which was pending or had arrived in `b`. -/
def Round.leave (r : Round) (b : Barrier) (p : InstanceId) : Round :=
  { r with
    dropped := if p ∈ b.processesPending then insert p r.dropped else r.dropped
    arrivedDropped := r.arrivedDropped || p ∈ b.processesArrived }

/-! ### States and steps -/

structure State where
  group : ProcessGroup
  draining : InstanceId → Bool
  inCollectiveShutdown : InstanceId → Bool
  /-- The next result of `make_instance_id`, of the coordinator and of the calling processes. -/
  nextIid : InstanceId
  nextObject : ℕ
  handlers : Multiset Handler
  sent : List Message
  rounds : InstanceId → Option Round

/-- An empty group. -/
def State.initial : State where
  group := { processIds := ∅, barriers := ∅ }
  draining := fun _ => false
  inCollectiveShutdown := fun _ => false
  nextIid := 1
  nextObject := 0
  handlers := 0
  sent := []
  rounds := fun _ => none

/-- The group changes. -/
def State.setGroup (s : State) (g : ProcessGroup) : State := { s with group := g }

/-- The ghost record of a round changes. -/
def State.setRound (s : State) (f : InstanceId) (r : Option Round) : State :=
  { s with rounds := Function.update s.rounds f r }

/-- A thread is left with work to do. -/
def State.addHandler (s : State) (h : Handler) : State := { s with handlers := h ::ₘ s.handlers }

/-- A message is written. -/
def State.send (s : State) (m : Message) : State := { s with sent := s.sent ++ [m] }

/-- Everything sent or still to be written. -/
def State.messages (s : State) : Multiset Message :=
  (s.sent : Multiset Message) + s.handlers.bind Handler.outstanding

/-- One step of the coordinator. -/
inductive Action
  | barrier (caller : InstanceId) (barrierName : String) (modeTag : ℤ)
  | closeRound (h : Handler)
  | write (h : Handler) (m : Message)
  | drop (p : InstanceId) (scope : BarrierScope)
  | setDraining (p : InstanceId) (b : Bool)
  | setInCollectiveShutdown (p : InstanceId) (b : Bool)
  | setMembers (ids : Finset InstanceId)

/-- The ids a call of `barrier` may draw are used up. -/
def State.tick (s : State) : State :=
  { s with nextIid := s.nextIid + 2, nextObject := s.nextObject + 1 }

/-- The ghost record of the round that `b` is in. -/
def State.roundOf (s : State) (barrierName : String) (b : Barrier) : Round :=
  (s.rounds b.commonFunctionIid).getD
    (Round.opened barrierName (s.group.processIds.filter fun p =>
      ProcessGroup.absent s.draining s.inCollectiveShutdown barrierName p = false))

/-- The end of the first section: `caller` is the last arriver of the round, or is deferred.
Source: `coordinator_impl.h`, `Process_group::barrier` -/
def State.arrived (s : State) (caller : InstanceId) (barrierName : String) (callIid : InstanceId)
    (b : Barrier) : State :=
  let iid := b.commonFunctionIid
  let r := s.roundOf barrierName b
  let s := s.setGroup (s.group.put barrierName b)
  if b.processesPending = ∅ then
    (s.setRound iid (some (r.lastArrival caller callIid))).addHandler
      { closing := some (barrierName, b.object, iid)
        queue := completions (b.processesArrived.erase caller) iid
        reply := some (.completion caller callIid iid) }
  else
    (s.setRound iid (some (r.deferral caller))).send (.deferral caller callIid iid)

/-- The call of `caller` throws; the handler replies with the exception.
Source: `transceiver_impl.h`, `Transceiver::rpc_handler` -/
def State.refused (s : State) (caller callIid : InstanceId) (what : String) : State :=
  s.addHandler { closing := none, queue := 0, reply := some (.exception caller callIid what) }

/-- A call of `barrier`. Source: `coordinator_impl.h`, `Process_group::barrier` -/
def State.barrier (s : State) (caller : InstanceId) (barrierName : String) (modeTag : ℤ) : State :=
  let callIid := s.nextIid
  match s.group.barrier (ProcessGroup.absent s.draining s.inCollectiveShutdown barrierName) caller
      barrierName modeTag (s.nextIid + 1) s.nextObject with
  | .ok b => s.tick.arrived caller barrierName callIid b
  | .error what => s.tick.refused caller callIid what

/-- One iteration of a drop, with the emission of the completion left to a handler.
Source: `coordinator_impl.h`, `Process_group::drop_from_inflight_barriers`,
`emit_barrier_completions` -/
def State.dropFromBarrier (s : State) (p : InstanceId) (scope : BarrierScope)
    (barrierName : String) : State :=
  match s.group.barriers.lookup barrierName with
  | none => s
  | some b =>
    if scope.skips barrierName then s
    else
      let iid := b.commonFunctionIid
      match b.drop p with
      | .untouched => s
      | .kept b' =>
        (s.setGroup (s.group.put barrierName b')).setRound iid
          ((s.rounds iid).map (·.leave b p))
      | .completed c =>
        ((s.setGroup (s.group.erase barrierName)).setRound iid
          ((s.rounds iid).map fun r => { r.leave b p with complete := true })).addHandler
          { closing := none
            queue :=
              if c.commonFunctionIid = invalidInstanceId then 0
              else completions c.recipients c.commonFunctionIid
            reply := none }

/-- A drop of `p` from all barriers in flight. -/
def State.drop (s : State) (p : InstanceId) (scope : BarrierScope) : State :=
  s.group.barriers.keys.foldl (fun s n => s.dropFromBarrier p scope n) s

/-- The handler `h` goes on as `h'`. -/
def State.replaceHandler (s : State) (h h' : Handler) : State :=
  { s with handlers := h' ::ₘ s.handlers.erase h }

/-- The second section of a last arriver. -/
def State.closeRound (s : State) (h : Handler) : Option State :=
  match h.closing with
  | some (barrierName, object, iid) =>
    if h ∈ s.handlers then
      some ((s.setGroup (s.group.closeRound barrierName object iid)).replaceHandler h
        { h with closing := none })
    else none
  | none => none

/-- A handler writes one of its replies; its own return comes last. -/
def State.write (s : State) (h : Handler) (m : Message) : Option State :=
  if h ∈ s.handlers ∧ h.closing = none then
    if m ∈ h.queue then
      some ((s.send m).replaceHandler h { h with queue := h.queue.erase m })
    else if h.queue = 0 ∧ h.reply = some m then
      some ((s.send m).replaceHandler h { h with reply := none })
    else none
  else none

def State.step (s : State) : Action → Option State
  | .barrier caller barrierName modeTag => some (s.barrier caller barrierName modeTag)
  | .closeRound h => s.closeRound h
  | .write h m => s.write h m
  | .drop p scope => some (s.drop p scope)
  | .setDraining p b => some { s with draining := Function.update s.draining p b }
  | .setInCollectiveShutdown p b =>
    some { s with inCollectiveShutdown := Function.update s.inCollectiveShutdown p b }
  | .setMembers ids => some (s.setGroup { s.group with processIds := ids })

/-- The barriers of a group as a machine. -/
def machine : Machine State Action where
  init s := s = State.initial
  step := State.step

/-- A call is refused, or arrives in the round it joins. -/
theorem barrier_cases (s : State) (caller : InstanceId) (n : String) (modeTag : ℤ) :
    (∃ what, s.barrier caller n modeTag = s.tick.refused caller s.nextIid what) ∨
      ∃ b, s.group.joinRound (ProcessGroup.absent s.draining s.inCollectiveShutdown n) n modeTag
          (s.nextIid + 1) s.nextObject = .ok b ∧
        s.barrier caller n modeTag = s.tick.arrived caller n s.nextIid (b.arrive caller) := by
  unfold State.barrier ProcessGroup.barrier
  by_cases hmember : caller ∈ s.group.processIds
  · simp only [hmember, not_true_eq_false, if_false]
    cases s.group.joinRound (ProcessGroup.absent s.draining s.inCollectiveShutdown n) n modeTag
        (s.nextIid + 1) s.nextObject with
    | error what => exact .inl ⟨what, rfl⟩
    | ok b => exact .inr ⟨b, rfl, rfl⟩
  · simp only [hmember, not_false_eq_true, if_true]
    exact .inl ⟨_, rfl⟩

/-- The group changes as `drop_from_inflight_barriers` changes it. -/
theorem group_dropFromBarrier (s : State) (p : InstanceId) (scope : BarrierScope) (n : String) :
    (s.dropFromBarrier p scope n).group = s.group.dropFromBarrier p scope n := by
  unfold State.dropFromBarrier ProcessGroup.dropFromBarrier
  cases s.group.barriers.lookup n with
  | none => rfl
  | some b =>
    by_cases hskip : scope.skips n = true
    · simp [hskip]
    · simp only [hskip, Bool.false_eq_true, if_false]
      cases b.drop p <;> rfl

theorem group_drop (s : State) (p : InstanceId) (scope : BarrierScope) :
    (s.drop p scope).group = s.group.dropFromInflightBarriers p scope := by
  unfold State.drop ProcessGroup.dropFromInflightBarriers
  generalize s.group.barriers.keys = names
  induction names generalizing s with
  | nil => rfl
  | cons n names ih =>
    rw [List.foldl_cons, List.foldl_cons, ih, group_dropFromBarrier]

end Sintra.Process.Barriers
