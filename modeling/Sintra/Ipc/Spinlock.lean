import Sintra.Lib.Machine
import Sintra.Ipc.ProcessTable

/-!
# The interprocess spinlock

`spinlock.h`: two 64-bit words, `owner` (a process instance, zero when unowned) and `generation`.
`lock` sets the owner by compare-and-swap and then makes the generation odd; `unlock` makes it even
and then clears the owner; a waiter that finds the owner exited bumps the generation by two, swaps
itself in and makes the generation odd again. A waiter that has spent its effort on one unchanged
pair of words reaches the live-stall verdict.

Each action below is one atomic operation of one thread, so a process can die between any two of
them. What the waiter reads from clocks (the effort samples, the poll timer, a debugger pause) is
chosen by the action.

The last five fields of `State` are ghosts: they are written and never read.
-/

namespace Sintra.Ipc.Spinlock

open Function

/-! ### Control points -/

/-- A thread: its process and its number in it. -/
abbrev Thread := Incarnation × ℕ

/-- What a waiter saw when its observation window opened. `marks` and `hold` are ghosts: the
unwrapped generation at the generation load and the number of the hold at the owner load.
Source: `spinlock.h`, `spinlock::witness_t`; the effort samples are the environment's -/
structure Witness where
  generation : ℕ
  owner : ℕ
  marks : ℕ
  hold : ℕ
  deriving DecidableEq

/-- Where a thread stands: the constructor names the atomic operation it performs next.
Source: `spinlock.h`, `spinlock::lock`, `unlock`, `start_witness`, `advance_witness`,
`try_take_over_exited_owner` -/
inductive Pc
  /-- Outside the lock. -/
  | idle
  /-- The head of `lock`'s loop: the relaxed owner load. -/
  | contend (w : Option Witness)
  /-- The owner was zero: the acquiring compare-and-swap. -/
  | acquireCas (w : Option Witness)
  /-- The owner word is set: the odd mark. -/
  | oddMark
  /-- `lock` has returned. -/
  | holding
  /-- `unlock` made the generation even: the zero store. -/
  | zeroStore
  /-- `try_take_over_exited_owner`: the owner load. -/
  | takeoverOwner (w : Option Witness)
  /-- The liveness probe of the loaded owner. -/
  | takeoverProbe (owner : ℕ) (w : Option Witness)
  /-- The owner has exited: the generation bump. -/
  | takeoverBump (owner : ℕ) (w : Option Witness)
  /-- The compare-and-swap of the exited owner. -/
  | takeoverCas (owner : ℕ) (w : Option Witness)
  /-- Taken over: the generation load of the marking loop. -/
  | takeoverLoad
  /-- The weak compare-and-swap of the marking loop. -/
  | takeoverMark (actual : ℕ)
  /-- `start_witness`: the generation load. -/
  | startGeneration
  /-- `start_witness`: the owner load. -/
  | startOwner (generation marks : ℕ)
  /-- `advance_witness`: the owner load. -/
  | endOwner (w : Witness)
  /-- `advance_witness`: the generation load. -/
  | endGeneration (w : Witness) (owner : ℕ)
  /-- The effort reached the timeout: the final owner load. -/
  | finalOwner (w : Witness)
  /-- The final generation load. -/
  | finalGeneration (w : Witness) (owner hold : ℕ)
  /-- `report_live_owner_stall`: the process is about to abort. -/
  | stalled (w : Witness) (hold : ℕ)
  deriving DecidableEq

/-- The thread is between a successful lock (or takeover) and the matching unlock. -/
def Pc.inSection : Pc → Bool
  | .oddMark | .holding | .zeroStore | .takeoverLoad | .takeoverMark _ => true
  | _ => false

/-- What follows a takeover attempt that did not take the lock.
Source: `spinlock.h`, `spinlock::lock` -/
def notTaken : Option Witness → Pc
  | none => .startGeneration
  | some w => .endOwner w

/-! ### States and actions -/

/-- The processes, the two shared words, the control point of every thread, and the ghosts. -/
structure State where
  procs : ProcessTable
  /-- `m_words.owner` -/
  owner : ℕ
  /-- `m_words.generation` -/
  generation : ℕ
  pc : Thread → Pc
  /-- The sum of all increments of the generation: the generation without its wrap. -/
  marks : ℕ
  /-- Acquisitions out of the unowned state. -/
  locks : ℕ
  /-- Takeover attempts that bumped the generation. -/
  bumps : ℕ
  /-- Takeovers. -/
  takeovers : ℕ
  /-- The unwrapped generation at the end of every finished hold, the latest first: a hold ends
  when the owner word leaves its holder. -/
  endMarks : List ℕ
  /-- The generation word at the end of every finished hold. -/
  ends : List ℕ

/-- The acquisitions so far. -/
def State.acquisitions (s : State) : ℕ := s.locks + s.takeovers

/-- The hold in force: holds are numbered by acquisition. -/
def State.hold (s : State) : Option ℕ := if s.owner = 0 then none else some s.acquisitions

/-- Nobody has run yet and the words are zero. -/
def State.initial : State where
  procs := ProcessTable.empty
  owner := 0
  generation := 0
  pc := fun _ => .idle
  marks := 0
  locks := 0
  bumps := 0
  takeovers := 0
  endMarks := []
  ends := []

/-- `m_words.generation.fetch_add(n)`. -/
def State.addGeneration (s : State) (n : ℕ) : State :=
  { s with generation := (s.generation + n) % 2 ^ 64, marks := s.marks + n }

/-- The hold in force ends and the owner word becomes `owner`. -/
def State.endHold (s : State) (owner : ℕ) : State :=
  { s with owner := owner, endMarks := s.marks :: s.endMarks, ends := s.generation :: s.ends }

/-- Thread `t` moves to `pc`. -/
def State.goto (s : State) (t : Thread) (pc : Pc) : State :=
  { s with pc := update s.pc t pc }

/-- One step of the system. -/
inductive Action
  /-- A process starts. -/
  | start (p : Incarnation)
  /-- A process dies. -/
  | exit (p : Incarnation)
  /-- A thread calls `lock`. -/
  | lock (t : Thread)
  /-- A thread calls `unlock` and makes the generation even. -/
  | unlock (t : Thread)
  /-- The next atomic operation of a thread, with the environment's answers. -/
  | next (t : Thread) (b c : Bool)

/-- The next atomic operation of thread `t`.
Source: `spinlock.h`, `spinlock::lock` and the functions it calls -/
def State.next (s : State) (t : Thread) (b c : Bool) : Option State :=
  let self := t.1.processInstance
  match s.pc t with
  | .idle | .holding | .stalled _ _ => none
  | .contend w =>
    if s.owner = 0 then some (s.goto t (.acquireCas w))
    -- `b`: the poll timer has elapsed
    else some (s.goto t (if b then .takeoverOwner w else .contend w))
  | .acquireCas w =>
    if s.owner = 0 then
      some ({ s with owner := self, locks := s.locks + 1 }.goto t .oddMark)
    else some (s.goto t (if b then .takeoverOwner w else .contend w))
  | .oddMark => some ((s.addGeneration 1).goto t .holding)
  | .zeroStore => some ((s.endHold 0).goto t .idle)
  | .takeoverOwner w =>
    some (s.goto t (if s.owner = 0 then notTaken w else .takeoverProbe s.owner w))
  | .takeoverProbe o w =>
    -- `b`: the answer of `is_process_alive`
    if s.procs.MayAnswerAlive (processInstancePid o) b then
      some (s.goto t (if processInstanceHasExited o self b then .takeoverBump o w else notTaken w))
    else none
  | .takeoverBump o w =>
    some ({ s.addGeneration 2 with bumps := s.bumps + 1 }.goto t (.takeoverCas o w))
  | .takeoverCas o w =>
    if s.owner = o then
      some ({ s.endHold self with takeovers := s.takeovers + 1 }.goto t .takeoverLoad)
    else some (s.goto t (notTaken w))
  | .takeoverLoad => some (s.goto t (.takeoverMark s.generation))
  | .takeoverMark actual =>
    -- `b`: the weak compare-and-swap does not fail spuriously
    if s.generation = actual ∧ b then
      some ((s.addGeneration (if actual % 2 = 1 then 2 else 1)).goto t .holding)
    else some (s.goto t (.takeoverMark s.generation))
  | .startGeneration => some (s.goto t (.startOwner s.generation s.marks))
  | .startOwner g m =>
    -- `b`: the effort sample is valid
    some (s.goto t (.contend
      (if g % 2 = 1 ∧ s.owner ≠ 0 ∧ b then some ⟨g, s.owner, m, s.acquisitions⟩ else none)))
  | .endOwner w => some (s.goto t (.endGeneration w s.owner))
  | .endGeneration w o =>
    -- `b`: the effort sample is valid and has not gone back; `c`: it reached the timeout
    some (s.goto t
      (if b ∧ o = w.owner ∧ s.generation = w.generation then
        (if c then .finalOwner w else .contend (some w))
      else .contend none))
  | .finalOwner w =>
    -- `b`: a debugger pause is active
    some (s.goto t (if b then .contend none else .finalGeneration w s.owner s.acquisitions))
  | .finalGeneration w o h =>
    some (s.goto t
      (if o = w.owner ∧ s.generation = w.generation ∧ w.owner = self then .stalled w h
      else .contend none))

/-- One step of the system; only live processes act. -/
def State.step (s : State) : Action → Option State
  | .start p => if h : s.procs.Startable p then some { s with procs := s.procs.start p h } else none
  | .exit p => if p ∈ s.procs.live then some { s with procs := s.procs.exit p } else none
  | .lock t =>
    if t.1 ∈ s.procs.live ∧ s.pc t = .idle then some (s.goto t (.contend none)) else none
  | .unlock t =>
    if t.1 ∈ s.procs.live ∧ s.pc t = .holding then some ((s.addGeneration 1).goto t .zeroStore)
    else none
  | .next t b c => if t.1 ∈ s.procs.live then s.next t b c else none

/-- The spinlock as a machine. -/
def machine : Machine State Action where
  init s := s = State.initial
  step := State.step

/-! ### The fields after a move -/

section fields

variable (s : State) (t t' : Thread) (pc : Pc) (n o : ℕ)

@[simp] theorem goto_marks : (s.goto t pc).marks = s.marks := rfl
@[simp] theorem goto_locks : (s.goto t pc).locks = s.locks := rfl
@[simp] theorem goto_bumps : (s.goto t pc).bumps = s.bumps := rfl
@[simp] theorem goto_takeovers : (s.goto t pc).takeovers = s.takeovers := rfl

theorem goto_pc : (s.goto t pc).pc t' = if t' = t then pc else s.pc t' :=
  update_apply _ _ _ _

end fields

end Sintra.Ipc.Spinlock
