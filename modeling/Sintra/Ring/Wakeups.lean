import Sintra.Lib.Machine

/-!
# Waiting readers and their wakeups

The blocking side of `rings.h`: `Ring_R::wait_for_new_data` with its spins, naps and the wait on the
semaphore of the reader's slot; the sections under `m_spinlock` that publish a new head, a global
unblock, a stop or the close of the writer and post the semaphores of the registered readers; and the
retries of posts that failed.

Each load of a shared variable by a reader is a step, and so is each of its sections under
`m_spinlock`. A section that posts is taken apart further: it publishes, posts one semaphore at a time
from the top of `sleeping_stack`, and ends. Nobody else has the lock meanwhile, but readers run on.

The outcome of a post, of a reset and of a wait is in the action that makes it. A post that fails may
have left its token all the same, and a reset that fails may have taken it: the count of a semaphore
is stored before its waiter is woken. What `produce_range` and `start_reading` do to the guard of the
slot is the subject of `Sintra.Ring.Guards`; here they only set the reading sequence.
-/

namespace Sintra.Ring

open Function

/-! ### `Index_stack` -/

namespace IndexStack

variable {α : Type*} [DecidableEq α]

/-- Source: `rings.h`, `Index_stack::push`; `none` if it throws. -/
def push (capacity : ℕ) (stack : List α) (value : α) : Option (List α) :=
  if stack.length < capacity then some (stack ++ [value]) else none

/-- Source: `rings.h`, `Index_stack::remove_value`: the last entry takes the place of the first one
with this value. -/
def removeValue (stack : List α) (value : α) : List α :=
  match stack.getLast? with
  | none => stack
  | some last =>
    if last = value then stack.dropLast
    else if value ∈ stack then (stack.set (stack.idxOf value) last).dropLast
    else stack

end IndexStack

namespace Wakeups

/-! ### Readers -/

/-- Where a reader stands in `wait_for_new_data`. `stay` is `stay_in_blocking_phase`. -/
inductive Pc
  | idle
  /-- The head of the loop: `m_stopping`. -/
  | top (stay : Bool)
  /-- `writer_closed` is next … -/
  | closed (stay : Bool)
  /-- … it was set: is there unread data? -/
  | drained (stay : Bool)
  /-- Phase 1: the test of the spin, and the test of `m_stopping` in its body. -/
  | spin
  | spinStop
  /-- Phase 2: its first test, the test of the loop, and the two tests in its body. -/
  | naps
  | nap
  | napStop
  | napUnblock
  /-- A global unblock was seen: return data if there is any. -/
  | unblocked
  /-- Phase 3: its first two tests, and the section that registers. -/
  | park
  | parkUnblock
  | register
  /-- Registered: `m_stopping` is tested once more. -/
  | registered
  /-- In `wait_for` on the semaphore. -/
  | blocked
  /-- The wait is over: `m_stopping`. -/
  | woken (timedOut : Bool)
  /-- `~Wakeup_cleanup`, and then `return` or the end of the scope. -/
  | cleanup (timedOut : Option Bool)
  /-- The last test of the loop. -/
  | finish (timedOut : Bool)
  /-- `produce_range` -/
  | produce
  deriving DecidableEq

/-- A `Ring_R`. `sleepy` says that `m_sleepy_index` is the index of its slot, and not -1. -/
structure Reader where
  /-- `*m_reading_sequence` -/
  reading : ℕ
  /-- `m_seen_unblock_sequence` -/
  seen : ℕ
  stopping : Bool
  sleepy : Bool
  pc : Pc

/-- Registered, or about to block, or blocked. -/
def Pc.waiting : Pc → Bool
  | .registered => true
  | .blocked => true
  | _ => false

/-! ### The ring -/

/-- The section under `m_spinlock` that is under way. -/
inductive Section (n : ℕ)
  /-- `flush_wakeups`: the first `k` entries of the stack are still to be posted. -/
  | flush (k : ℕ) (errors : Bool)
  /-- `request_stop` is to post the semaphore of a reader. -/
  | stop (i : Fin n)
  deriving DecidableEq

/-- A `Ring_W`: there is none, it is there, or its destructor has published the close. -/
inductive Writer
  | none
  | attached
  | closing
  deriving DecidableEq

structure State (n : ℕ) where
  /-- `leading_sequence` -/
  leading : ℕ
  /-- `writer_closed` -/
  closed : Bool
  /-- `global_unblock_sequence` -/
  unblock : ℕ
  /-- `sleeping_stack` -/
  stack : List (Fin n)
  /-- The counts of `dirty_semaphores`, which are binary. -/
  token : Fin n → Bool
  readers : Fin n → Reader
  writer : Writer
  /-- Who holds `m_spinlock`, and for what. -/
  inside : Option (Section n)
  /-- Ghost: a post to the reader has failed since it registered. -/
  failed : Fin n → Bool

/-- The outcome of `post`. -/
structure Post where
  error : Bool
  /-- A post that failed has left its token. -/
  landed : Bool
  deriving DecidableEq

/-- The outcome of `reset_quiescent`. -/
structure Reset where
  error : Bool
  /-- A reset that failed has taken the token. -/
  drained : Bool
  deriving DecidableEq

/-- What a reader learns from outside. -/
structure Choice where
  /-- The spin or the naps are over. -/
  timeUp : Bool
  /-- `wait_for` returns `timeout`, or throws. -/
  timeout : Bool
  error : Bool
  /-- The outcomes of the two resets of a section. -/
  reset : Reset
  resetAgain : Reset
  /-- `produce_range` finds the slot evicted and resumes at the head, or finds the reader stopped. -/
  evicted : Bool
  stopped : Bool

namespace State

variable {n : ℕ}

def setReader (s : State n) (i : Fin n) (r : Reader) : State n :=
  { s with readers := update s.readers i r }

/-- A reader goes on. -/
def goto (s : State n) (i : Fin n) (c : Pc) : State n := s.setReader i { s.readers i with pc := c }

/-- `sequences_equal` -/
def sequencesEqual (s : State n) (i : Fin n) : Bool := (s.readers i).reading = s.leading

/-- Source: `rings.h`, `sintra_ring_semaphore::post` -/
def post (s : State n) (i : Fin n) (p : Post) : State n :=
  { s with
    token := update s.token i (s.token i || !p.error || p.landed)
    failed := update s.failed i (s.failed i || p.error) }

/-- Source: `rings.h`, `Control::clear_reader_wakeup_unlocked`, for a reader whose `m_sleepy_index` it
also clears when the reset succeeds -/
def clearReaderWakeup (s : State n) (i : Fin n) (r : Reset) : State n :=
  if (s.readers i).sleepy then
    if r.error then { s with token := update s.token i (s.token i && !r.drained) }
    else
      { s with
        token := update s.token i false
        stack := IndexStack.removeValue s.stack i
        readers := update s.readers i { s.readers i with sleepy := false } }
  else s

/-- The registration proper: the reader has nothing to read and is to sleep, or it has to stop.
`none` if the stack has no room. -/
def enroll (s : State n) (i : Fin n) : Option (State n) :=
  if s.sequencesEqual i then
    if (s.readers i).stopping || s.closed then
      some (s.setReader i { s.readers i with stopping := true, pc := .idle })
    else
      (IndexStack.push n s.stack i).map fun stack =>
        { s with
          stack := stack
          readers := update s.readers i { s.readers i with sleepy := true, pc := .registered }
          failed := update s.failed i false }
  else some (s.goto i (.finish false))

/-- The end of the registration: a global unblock takes it back. A reader that has to stop returns
either way. -/
def recheck (s : State n) (i : Fin n) (r : Reset) : State n :=
  if s.unblock = (s.readers i).seen then s
  else
    let t := (s.setReader i { s.readers i with seen := s.unblock }).clearReaderWakeup i r
    if (s.readers i).pc = .idle then t else t.goto i .unblocked

/-- Source: `rings.h`, the section of `wait_for_new_data` that registers. A reset that fails ends the
call with an exception, and so does a stack without room. -/
def register (s : State n) (i : Fin n) (ch : Choice) : State n :=
  if (s.readers i).sleepy && ch.reset.error then
    (s.clearReaderWakeup i ch.reset).goto i .idle
  else
    match (s.clearReaderWakeup i ch.reset).enroll i with
    | none => (s.clearReaderWakeup i ch.reset).goto i .idle
    | some t => t.recheck i ch.resetAgain

/-- Source: `rings.h`, `produce_range` of `wait_for_new_data`, for a ring of `size` elements. -/
def produceRange (s : State n) (size : ℕ) (i : Fin n) (ch : Choice) : State n :=
  let r := s.readers i
  if ch.stopped then s.goto i .idle
  else if ch.evicted then s.setReader i { r with reading := s.leading, pc := .idle }
  else s.setReader i { r with reading := r.reading + min (s.leading - r.reading) size, pc := .idle }

/-- The next step of a reader in `wait_for_new_data`; `none` while it is blocked or the lock is taken.
Source: `rings.h`, `Ring_R::wait_for_new_data` -/
def readerStep (s : State n) (size : ℕ) (i : Fin n) (ch : Choice) : Option (State n) :=
  let r := s.readers i
  match r.pc with
  | .idle => none
  | .top stay => some (s.goto i (if r.stopping then .idle else .closed stay))
  | .closed stay =>
    some (s.goto i (if s.closed then .drained stay else if stay then .park else .spin))
  | .drained stay =>
    if s.sequencesEqual i then some (s.setReader i { r with stopping := true, pc := .idle })
    else some (s.goto i (if stay then .park else .spin))
  -- phase 1
  | .spin => some (s.goto i (if s.sequencesEqual i && !ch.timeUp then .spinStop else .naps))
  | .spinStop => some (s.goto i (if r.stopping then .idle else .spin))
  -- phase 2
  | .naps => some (s.goto i (if s.sequencesEqual i then .nap else .park))
  | .nap => some (s.goto i (if s.sequencesEqual i && !ch.timeUp then .napStop else .park))
  | .napStop => some (s.goto i (if r.stopping then .idle else .napUnblock))
  | .napUnblock =>
    if s.unblock = r.seen then some (s.goto i .nap)
    else some (s.setReader i { r with seen := s.unblock, pc := .unblocked })
  | .unblocked => some (s.goto i (if s.sequencesEqual i then .idle else .produce))
  -- phase 3
  | .park => some (s.goto i (if s.sequencesEqual i then .parkUnblock else .finish false))
  | .parkUnblock =>
    if s.unblock = r.seen then some (s.goto i .register)
    else some (s.setReader i { r with seen := s.unblock, pc := .unblocked })
  | .register => if s.inside = none then some (s.register i ch) else none
  | .registered => some (s.goto i (if r.stopping then .cleanup none else .blocked))
  | .blocked =>
    if ch.error then some (s.goto i (.cleanup none))
    else if ch.timeout then some (s.goto i (.woken true))
    else if s.token i then
      some { s.goto i (.woken false) with token := update s.token i false }
    else none
  | .woken timedOut => some (s.goto i (.cleanup (if r.stopping then none else some timedOut)))
  | .cleanup timedOut =>
    if s.inside = none then
      some ((s.clearReaderWakeup i ch.reset).goto i
        (match timedOut with
        | none => .idle
        | some timedOut => .finish timedOut))
    else none
  | .finish timedOut =>
    some (s.goto i (if s.sequencesEqual i then if timedOut then .top true else .idle else .produce))
  | .produce => some (s.produceRange size i ch)

/-- A section begins to post the readers that are registered. -/
def flushWakeups (s : State n) : State n := { s with inside := some (.flush s.stack.length false) }

end State

/-! ### Steps -/

inductive Action (n : ℕ)
  /-- `wait_for_new_data` is called, with the hint BLOCKING or not. -/
  | wait (i : Fin n) (blocking : Bool)
  /-- Between two calls `start_reading` or a recovery sets the reading sequence. -/
  | seek (i : Fin n) (sequence : ℕ)
  | reader (i : Fin n) (ch : Choice)
  /-- `done_writing` commits a head. -/
  | doneWriting (sequence : ℕ)
  | unblockGlobal
  | requestStop (i : Fin n)
  | unblockLocal (i : Fin n) (p : Post)
  /-- `Ring_W()`, and `~Ring_W()` with the further rounds of its loop. -/
  | openWriter
  | closeWriter
  | retryClose
  /-- The section under way makes its next post, and ends. -/
  | post (p : Post)
  | leave

variable {n : ℕ}

namespace State

/-- The next post of the section under way. -/
def postNext (s : State n) (p : Post) : Option (State n) :=
  match s.inside with
  | some (.flush (k + 1) errors) =>
    match s.stack[k]? with
    | some i => some { s.post i p with inside := some (.flush k (errors || p.error)) }
    | none => none
  | some (.stop i) =>
    if (s.readers i).sleepy then some { s.post i p with inside := none } else none
  | _ => none

/-- The section under way ends. Source: `rings.h`, the end of `flush_wakeups`, and the end of the loop
in `~Ring_W` -/
def leaveSection (s : State n) : Option (State n) :=
  match s.inside with
  | some (.flush 0 errors) =>
    some { s with
      inside := none
      stack := if errors then s.stack else []
      writer := if s.writer = .closing ∧ errors = false then .none else s.writer }
  | some (.stop i) => if (s.readers i).sleepy then none else some { s with inside := none }
  | _ => none

def step (s : State n) (size : ℕ) : Action n → Option (State n)
  | .wait i blocking =>
    if (s.readers i).pc = .idle then some (s.goto i (.top blocking)) else none
  | .seek i sequence =>
    if (s.readers i).pc = .idle then some (s.setReader i { s.readers i with reading := sequence })
    else none
  | .reader i ch => s.readerStep size i ch
  | .doneWriting sequence =>
    if s.inside = none ∧ s.writer = .attached then some { s with leading := sequence }.flushWakeups
    else none
  | .unblockGlobal =>
    if s.inside = none ∧ s.writer = .attached then
      some { s with unblock := s.unblock + 1 }.flushWakeups
    else none
  | .requestStop i =>
    if s.inside = none then
      some { s.setReader i { s.readers i with stopping := true } with inside := some (.stop i) }
    else none
  | .unblockLocal i p =>
    if s.inside = none then some (if (s.readers i).sleepy then s.post i p else s) else none
  | .openWriter =>
    if s.inside = none ∧ s.writer = .none then
      some { s with closed := false, writer := .attached }.flushWakeups
    else none
  | .closeWriter =>
    if s.inside = none ∧ s.writer = .attached then
      some { s with closed := true, unblock := s.unblock + 1, writer := .closing }.flushWakeups
    else none
  | .retryClose =>
    if s.inside = none ∧ s.writer = .closing then some s.flushWakeups else none
  | .post p => s.postNext p
  | .leave => s.leaveSection

/-- Nobody waits, and nothing is registered or posted. -/
def Initial (s : State n) : Prop :=
  s.stack = [] ∧ s.inside = none ∧ s.writer = .none ∧
    ∀ i, (s.readers i).pc = .idle ∧ (s.readers i).sleepy = false

end State

/-- A ring of `size` elements with `n` readers. -/
def machine (n size : ℕ) : Machine (State n) (Action n) where
  init := State.Initial
  step s := s.step size

end Wakeups

end Sintra.Ring
