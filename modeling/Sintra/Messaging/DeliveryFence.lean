import Sintra.Lib.Machine

/-!
# Delivery fences

The readers of a process, their threads, and `wait_for_delivery_fence`. A reader has a request stream and
a reply stream, each served by a thread that reads messages, handles them and publishes its progress. A
fence captures the head of every stream and waits until the progress of each has come that far, or the
stream has stopped. A request reader that waits in a fence announces it, so that fences of other
request readers do not wait for it.

Sequence numbers are counted in messages here. Every load and store that another thread can see is a step
of its own; a notification, which is made under `m_delivery_mutex`, is one step. The mutex of `m_readers`
is held during the capture, so that the readers are those of the entry.

Ghosts record which messages have been handled, which readers a fence was to look at, which heads it
captured, and which of them it left out as its own or as parked.
-/

namespace Sintra.Messaging.Fence

open Function

/-- Source: `process_message_reader.h`, `Delivery_stream` -/
inductive Stream
  | request
  | reply
  deriving DecidableEq

/-- Source: `rings.h` -/
def invalidSequence : ℕ := 2 ^ 64 - 1

/-- `starting` is `COMMUNICATION_STOPPED` before the initialisation.
Source: `managed_process.h`, `Communication_state` -/
inductive CommunicationState
  | starting
  | running
  | paused
  | stopped
  deriving DecidableEq

/-- Source: `process_message_reader.h`, `State` -/
inductive ReaderState
  | normal
  | service
  | stopping
  deriving DecidableEq

/-- Whether there is a reader, and whether it is in `m_readers`. -/
inductive Status
  | absent
  | present
  | removed
  | destroyed
  deriving DecidableEq

structure Reader where
  status : Status
  state : ReaderState
  /-- `stop_nowait` has been entered. -/
  stopRequested : Bool
  /-- `request_fence_parked` -/
  requestFenceParked : ℕ

/-- A stream of a reader, with its part of `Delivery_progress`. -/
structure StreamState where
  /-- The leading sequence of the ring. -/
  leading : ℕ
  /-- The message reading sequence. -/
  reading : ℕ
  /-- Every message below has been handled. -/
  handled : ℕ
  /-- `request_sequence` or `reply_sequence` -/
  sequence : ℕ
  /-- `request_stopped` or `reply_stopped` -/
  stopped : Bool
  /-- The thread has published its progress. -/
  published : Bool

/-- Source: `process_message_reader.h`, `Delivery_target` -/
structure Target (ρ : Type*) where
  reader : ρ
  stream : Stream
  target : ℕ
  deriving DecidableEq

inductive Thread (ρ κ : Type*)
  /-- The thread of a stream. -/
  | serve (r : ρ) (stream : Stream)
  | control (k : κ)
  deriving DecidableEq

/-- `calling_thread_serves_a_request_stream` -/
def Thread.servesRequests {ρ κ : Type*} : Thread ρ κ → Bool
  | .serve _ .request => true
  | _ => false

/-- The handlers of replies are those of `rpc_async_impl`, which call no fence. -/
def Thread.callsFences {ρ κ : Type*} : Thread ρ κ → Bool
  | .serve _ .reply => false
  | _ => true

/-- Where a thread rests between its steps. -/
inductive Place
  /-- The loop of a reader. -/
  | loop
  /-- In a handler, or in any code of another thread. -/
  | user
  | ended
  deriving DecidableEq

/-- Where a thread is, outside of a fence. -/
inductive Pc (ρ : Type*)
  | at (place : Place)
  /-- The thread of a reader has not begun. -/
  | unstarted
  /-- It has cleared its `stopped` flag. -/
  | starting
  /-- A message is handled; the progress is to be published. -/
  | publish
  /-- `notify_delivery_progress` is to be called. -/
  | notify (next : Place)
  /-- The loop is over. -/
  | exit
  /-- The last progress is stored. -/
  | exitStored
  /-- In `stop_nowait`, before `request_stopped` and before `reply_stopped`. -/
  | stopRequests (r : ρ)
  | stopReplies (r : ρ)
  deriving DecidableEq

/-- Where a thread is in `all_targets_satisfied`, with the targets that are left. -/
inductive Eval (ρ : Type*)
  | state
  | next (todo : List (Target ρ))
  /-- The progress is locked. -/
  | observe (q : Target ρ) (todo : List (Target ρ))
  /-- The sequence is below the target. -/
  | stopped (q : Target ρ) (todo : List (Target ρ))
  /-- The stream has not stopped. -/
  | parked (q : Target ρ) (todo : List (Target ρ))
  deriving DecidableEq

/-- Where a thread is in `wait_for_delivery_fence`. -/
inductive Stage (ρ : Type*)
  /-- The loop over the readers. -/
  | capture (todo : List ρ)
  | head (r : ρ) (stream : Stream) (todo : List ρ)
  /-- In `prepare_delivery_target`, before the exemptions and before the progress is loaded. -/
  | exempt (q : Target ρ) (todo : List ρ)
  | observe (q : Target ρ) (todo : List ρ)
  /-- `all_targets_satisfied`, without the mutex or under it -/
  | evaluate (held : Bool) (e : Eval ρ)
  /-- `Delivery_fence_parking` -/
  | park
  | parkNotify
  | lock
  /-- The target is not reached; the condition is to be waited for. -/
  | wait (q : Target ρ)
  | waiting (q : Target ρ)
  | woken
  | unlock
  | unpark
  | done
  deriving DecidableEq

/-- A call of `wait_for_delivery_fence`. -/
structure Frame (ρ : Type*) where
  targets : List (Target ρ)
  stage : Stage ρ
  /-- The readers that were normal at the entry, and those that were not when the capture came to them. -/
  entered : List ρ
  skipped : List ρ
  /-- The streams of the others, with their heads. -/
  required : List (Target ρ)
  /-- The streams that the capture left out as the caller's own or as parked. -/
  exempted : List (Target ρ)
  /-- The targets that the last evaluation passed over as parked. -/
  passed : List (Target ρ)
  deriving DecidableEq

structure State (ρ κ : Type*) where
  communication : CommunicationState
  /-- `m_readers` -/
  readers : List ρ
  reader : ρ → Reader
  stream : ρ → Stream → StreamState
  /-- Who holds `m_delivery_mutex`. -/
  mutex : Option (Thread ρ κ)
  pc : Thread ρ κ → Pc ρ
  /-- The calls that a thread is in, the innermost first. -/
  frames : Thread ρ κ → List (Frame ρ)

inductive Action (ρ κ : Type*)
  | run
  /-- A message is written into the ring that a stream reads. -/
  | write (r : ρ) (stream : Stream)
  /-- The reader is evicted from its ring and resumes at the head. -/
  | evict (r : ρ) (stream : Stream)
  /-- A reader is constructed. -/
  | add (r : ρ)
  | remove (r : ρ)
  | destroy (r : ρ)
  /-- `Process_message_reader::pause` -/
  | pauseReader (r : ρ)
  /-- The reader thread goes on. -/
  | serve (r : ρ) (stream : Stream)
  | fetch (r : ρ) (stream : Stream)
  /-- The loop of a stopping reader ends. -/
  | quit (r : ρ) (stream : Stream)
  /-- The handler returns. -/
  | finish (r : ρ) (stream : Stream)
  /-- `Process_message_reader::stop_nowait` -/
  | stopNowait (th : Thread ρ κ) (r : ρ)
  /-- The end of `Managed_process::pause` or `Managed_process::stop` -/
  | setState (th : Thread ρ κ) (c : CommunicationState)
  /-- A thread in `stop_nowait`, or with a notification to make, goes on. -/
  | proceed (th : Thread ρ κ)
  | enter (th : Thread ρ κ)
  | fence (th : Thread ρ κ)
  | spurious (th : Thread ρ κ)

section

variable {ρ κ : Type*} [DecidableEq ρ] [DecidableEq κ]

/-- `notify_all` -/
def Frame.wake (f : Frame ρ) : Frame ρ :=
  match f.stage with
  | .waiting _ => { f with stage := .woken }
  | _ => f

namespace State

def setPc (s : State ρ κ) (th : Thread ρ κ) (pc : Pc ρ) : State ρ κ :=
  { s with pc := update s.pc th pc }

def setFrames (s : State ρ κ) (th : Thread ρ κ) (fs : List (Frame ρ)) : State ρ κ :=
  { s with frames := update s.frames th fs }

def setReader (s : State ρ κ) (r : ρ) (reader : Reader) : State ρ κ :=
  { s with reader := update s.reader r reader }

def setStream (s : State ρ κ) (r : ρ) (stream : Stream) (x : StreamState) : State ρ κ :=
  { s with stream := update s.stream r (update (s.stream r) stream x) }

/-- Every thread that waits is woken. -/
def wakeAll (s : State ρ κ) : State ρ κ :=
  { s with frames := fun th =>
      match s.frames th with
      | [] => []
      | f :: fs => f.wake :: fs }

/-- `publish_request_progress`, `publish_reply_progress` -/
def publish (s : State ρ κ) (r : ρ) (stream : Stream) : State ρ κ :=
  let x := s.stream r stream
  (s.setStream r stream { x with sequence := x.reading, published := true }).setPc (.serve r stream)
    (if x.sequence = x.reading then .at .loop else .notify .loop)

/-- Source: `process_message_reader_impl.h`, `request_reader_function`, `reply_reader_function` -/
def serveStep (s : State ρ κ) (r : ρ) (stream : Stream) : Option (State ρ κ) :=
  let x := s.stream r stream
  match s.pc (.serve r stream) with
  | .unstarted =>
    if (s.reader r).status = .present ∨ (s.reader r).status = .removed then
      some ((s.setStream r stream { x with stopped := false }).setPc (.serve r stream) .starting)
    else none
  | .starting | .publish => some (s.publish r stream)
  | .exit =>
    some ((s.setStream r stream { x with sequence := x.reading }).setPc (.serve r stream) .exitStored)
  | .exitStored =>
    some ((s.setStream r stream { x with stopped := true }).setPc (.serve r stream) (.notify .ended))
  | _ => none

/-- The rest of `stop_nowait`, and a notification.
Source: `process_message_reader_impl.h`, `stop_nowait`; `managed_process_impl.h`,
`notify_delivery_progress` -/
def proceed (s : State ρ κ) (th : Thread ρ κ) : Option (State ρ κ) :=
  match s.pc th with
  | .stopRequests r =>
    some ((s.setStream r .request { s.stream r .request with stopped := true }).setPc th (.stopReplies r))
  | .stopReplies r =>
    some ((s.setStream r .reply { s.stream r .reply with stopped := true }).setPc th (.notify .user))
  | .notify next => if s.mutex = none then some (s.wakeAll.setPc th (.at next)) else none
  | _ => none

/-- The capture goes on to the next stream. -/
def captureNext (q : Target ρ) (todo : List ρ) : Stage ρ :=
  match q.stream with
  | .request => .head q.reader .reply todo
  | .reply => .capture todo

/-- The stream is parked in a fence, for a caller that is a request reader. -/
def parkedFor (s : State ρ κ) (th : Thread ρ κ) (q : Target ρ) : Bool :=
  q.stream = .request && th.servesRequests && (s.reader q.reader).requestFenceParked != 0

/-- Source: `managed_process_impl.h`, `wait_for_delivery_fence`; `process_message_reader_impl.h`,
`prepare_delivery_target` -/
def captureStep (s : State ρ κ) (th : Thread ρ κ) (f : Frame ρ) : Option (Frame ρ) :=
  match f.stage with
  | .capture [] => some { f with stage := if f.targets = [] then .done else .evaluate false .state }
  | .capture (r :: todo) =>
    if (s.reader r).state = .normal then some { f with stage := .head r .request todo }
    else some { f with skipped := r :: f.skipped, stage := .capture todo }
  | .head r stream todo =>
    let q : Target ρ := ⟨r, stream, (s.stream r stream).leading⟩
    some { f with required := q :: f.required, stage := .exempt q todo }
  | .exempt q todo =>
    if q.target = invalidSequence then some { f with stage := captureNext q todo }
    else if q.stream = .request ∧ th = .serve q.reader .request ∨ s.parkedFor th q then
      some { f with exempted := q :: f.exempted, stage := captureNext q todo }
    else some { f with stage := .observe q todo }
  | .observe q todo =>
    if q.target ≤ (s.stream q.reader q.stream).sequence then some { f with stage := captureNext q todo }
    else some { f with targets := f.targets ++ [q], stage := captureNext q todo }
  | _ => none

/-- Source: `managed_process_impl.h`, `wait_for_delivery_fence`, `all_targets_satisfied` -/
def evaluateStep (s : State ρ κ) (th : Thread ρ κ) (f : Frame ρ) (held : Bool) : Eval ρ → Frame ρ
  | .state =>
    if s.communication = .running then { f with passed := [], stage := .evaluate held (.next f.targets) }
    else { f with stage := if held then .unlock else .done }
  | .next [] => { f with stage := if held then .unlock else .done }
  | .next (q :: todo) =>
    if (s.reader q.reader).status = .destroyed then { f with stage := .evaluate held (.next todo) }
    else { f with stage := .evaluate held (.observe q todo) }
  | .observe q todo =>
    if q.target ≤ (s.stream q.reader q.stream).sequence then
      { f with stage := .evaluate held (.next todo) }
    else { f with stage := .evaluate held (.stopped q todo) }
  | .stopped q todo =>
    if (s.stream q.reader q.stream).stopped then { f with stage := .evaluate held (.next todo) }
    else { f with stage := .evaluate held (.parked q todo) }
  | .parked q todo =>
    if s.parkedFor th q then { f with passed := q :: f.passed, stage := .evaluate held (.next todo) }
    else { f with stage := if held then .wait q else .park }

/-- The counter of the stream that a request reader serves. -/
def addParked (s : State ρ κ) (th : Thread ρ κ) (change : ℕ → ℕ) : State ρ κ :=
  match th with
  | .serve r .request =>
    s.setReader r { s.reader r with requestFenceParked := change (s.reader r).requestFenceParked }
  | _ => s

/-- Source: `managed_process_impl.h`, `wait_for_delivery_fence`, `Delivery_fence_parking` -/
def fenceStep (s : State ρ κ) (th : Thread ρ κ) : Option (State ρ κ) :=
  match s.frames th with
  | [] => none
  | f :: fs =>
    let goto (s : State ρ κ) (stage : Stage ρ) : State ρ κ := s.setFrames th ({ f with stage := stage } :: fs)
    match f.stage with
    | .evaluate held e => some (s.setFrames th (s.evaluateStep th f held e :: fs))
    | .park =>
      if th.servesRequests then some (goto (s.addParked th (· + 1)) .parkNotify)
      else some (goto s .lock)
    | .parkNotify => if s.mutex = none then some (goto s.wakeAll .lock) else none
    | .lock =>
      if s.mutex = none then some (goto { s with mutex := some th } (.evaluate true .state)) else none
    | .wait q => some (goto { s with mutex := none } (.waiting q))
    | .waiting _ => none
    | .woken =>
      if s.mutex = none then some (goto { s with mutex := some th } (.evaluate true .state)) else none
    | .unlock => some (goto { s with mutex := none } .unpark)
    | .unpark => some (goto (s.addParked th (· - 1)) .done)
    | .done => some (s.setFrames th fs)
    | _ => (s.captureStep th f).map fun f' => s.setFrames th (f' :: fs)

/-- A call of `wait_for_delivery_fence` begins. -/
def entry (s : State ρ κ) : Frame ρ where
  targets := []
  stage := .capture s.readers
  entered := s.readers.filter fun r => (s.reader r).state = .normal
  skipped := []
  required := []
  exempted := []
  passed := []

/-- The thread may call `wait_for_delivery_fence`: it is in the code of the user, or in a fence at a point
where it has announced itself and holds no mutex. -/
def mayEnter (s : State ρ κ) (th : Thread ρ κ) : Bool :=
  th.callsFences &&
    match s.frames th with
    | [] => s.pc th = .at .user
    | f :: _ => f.stage = .lock

/-- The thread is in code that may call the process. -/
def inUserCode (s : State ρ κ) (th : Thread ρ κ) : Bool :=
  s.pc th = .at .user && (s.frames th).isEmpty

def step (s : State ρ κ) : Action ρ κ → Option (State ρ κ)
  | .run => if s.communication = .starting then some { s with communication := .running } else none
  | .write r stream =>
    let x := s.stream r stream
    -- The counters do not come to the invalid sequence.
    if x.leading + 1 < invalidSequence then
      some (s.setStream r stream { x with leading := x.leading + 1 })
    else none
  | .evict r stream =>
    let x := s.stream r stream
    if s.pc (.serve r stream) = .at .loop then
      some (s.setStream r stream { x with reading := x.leading })
    else none
  | .add r =>
    if (s.reader r).status = .absent then
      let begun (x : StreamState) : StreamState := { x with reading := x.leading, handled := x.leading }
      some { s with
        readers := r :: s.readers
        reader := update s.reader r { s.reader r with status := .present }
        stream := update s.stream r fun stream => begun (s.stream r stream) }
    else none
  | .remove r =>
    if (s.reader r).status = .present then
      some { s.setReader r { s.reader r with status := .removed } with
        readers := s.readers.filter (· ≠ r) }
    else none
  | .destroy r =>
    if (s.reader r).status = .removed ∧ s.pc (.serve r .request) = .at .ended ∧
        s.pc (.serve r .reply) = .at .ended then
      some (s.setReader r { s.reader r with status := .destroyed })
    else none
  | .pauseReader r =>
    if (s.reader r).status = .present then
      some (s.setReader r { s.reader r with state := .service })
    else none
  | .serve r stream => s.serveStep r stream
  | .fetch r stream =>
    let x := s.stream r stream
    if s.pc (.serve r stream) = .at .loop ∧ x.reading < x.leading then
      some ((s.setStream r stream { x with reading := x.reading + 1 }).setPc (.serve r stream) (.at .user))
    else none
  | .quit r stream =>
    if s.pc (.serve r stream) = .at .loop ∧ (s.reader r).stopRequested then
      some (s.setPc (.serve r stream) .exit)
    else none
  | .finish r stream =>
    let x := s.stream r stream
    if s.inUserCode (.serve r stream) then
      some ((s.setStream r stream { x with handled := x.reading }).setPc (.serve r stream) .publish)
    else none
  | .stopNowait th r =>
    if s.inUserCode th ∧ ((s.reader r).status = .present ∨ (s.reader r).status = .removed) then
      some ((s.setReader r { s.reader r with state := .stopping, stopRequested := true }).setPc th
        (.stopRequests r))
    else none
  | .setState th c =>
    if s.inUserCode th ∧ (s.communication = .running ∧ c = .paused ∨
        (s.communication = .running ∨ s.communication = .paused) ∧ c = .stopped) then
      some ({ s with communication := c }.setPc th (.notify .user))
    else none
  | .proceed th => s.proceed th
  | .enter th =>
    if s.mayEnter th then some (s.setFrames th (s.entry :: s.frames th)) else none
  | .fence th => s.fenceStep th
  | .spurious th =>
    match s.frames th with
    | [] => none
    | f :: fs => if f.wake.stage = f.stage then none else some (s.setFrames th (f.wake :: fs))

end State

/-- Initially there is no reader, and no thread is in a fence. What there is of a reader is as a new one
has it. -/
def machine (ρ κ : Type*) [DecidableEq ρ] [DecidableEq κ] : Machine (State ρ κ) (Action ρ κ) where
  init s :=
    s.communication = .starting ∧ s.readers = [] ∧ s.mutex = none ∧
      (∀ r, s.reader r = ⟨.absent, .normal, false, 0⟩) ∧
      (∀ r stream, s.stream r stream = ⟨0, 0, 0, invalidSequence, false, false⟩) ∧
      (∀ r stream, s.pc (.serve r stream) = .unstarted) ∧ (∀ k, s.pc (.control k) = .at .user) ∧
      ∀ th, s.frames th = []
  step := State.step

end

end Sintra.Messaging.Fence
