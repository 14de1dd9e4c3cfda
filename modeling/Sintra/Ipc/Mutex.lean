import Sintra.Lib.Machine
import Sintra.Ipc.ProcessTable

/-!
# The interprocess mutex

`mutex.h`: the owner word (PID and thread id), the owner's start stamp and process instance, and the
recovery gate. Every acquisition and every recovery runs under the gate, which is itself a word
naming the process that holds it; the gate of an exited process is cleared by the next one.

The operating system's answers (liveness, start stamps, the time left in a timed attempt) are chosen
by the action, within what the system promises. The test hooks (`operation`) have no effect outside
test builds and are left out.
-/

namespace Sintra.Ipc.Mutex

/-! ### Owner tokens -/

/-- A thread: its process and the id `get_current_tid` returns, a `uint32_t`. -/
structure Thread where
  proc : Incarnation
  tid : ℕ
  tid_lt : tid < 2 ^ 32

instance : DecidableEq Thread := fun a b =>
  decidable_of_iff (a.proc = b.proc ∧ a.tid = b.tid) (by cases a; cases b; simp)

/-- The token of an owning thread.
Source: `mutex.h`, `interprocess_mutex::make_owner_token` -/
def Thread.ownerToken (t : Thread) : ℕ := (t.proc.pid <<< 32) ||| t.tid

/-- The PID in an owner token.
Source: `mutex.h`, `interprocess_mutex::owner_pid` -/
def ownerPid (token : ℕ) : ℕ := token >>> 32

theorem Thread.ownerToken_eq (t : Thread) : t.ownerToken = t.proc.pid * 2 ^ 32 + t.tid := by
  unfold Thread.ownerToken
  rw [← Nat.shiftLeft_add_eq_or_of_lt t.tid_lt, Nat.shiftLeft_eq]

@[simp] theorem ownerPid_ownerToken (t : Thread) : ownerPid t.ownerToken = t.proc.pid := by
  have := t.tid_lt
  rw [ownerPid, t.ownerToken_eq, Nat.shiftRight_eq_div_pow]
  omega

theorem Thread.ownerToken_ne_zero (t : Thread) : t.ownerToken ≠ 0 := by
  have := t.proc.pid_pos
  rw [t.ownerToken_eq]
  omega

/-- A token determines the thread within its process. -/
theorem Thread.eq_of_ownerToken {t t' : Thread} (h : t.ownerToken = t'.ownerToken)
    (hproc : t.proc = t'.proc) : t = t' := by
  obtain ⟨p, i, hi⟩ := t
  obtain ⟨p', i', hi'⟩ := t'
  cases hproc
  rw [Thread.ownerToken_eq, Thread.ownerToken_eq] at h
  have : i = i' := by simpa using h
  subst this
  rfl

/-! ### The exit test of the owner -/

/-- Whether a start stamp read now proves that the PID names another process. On FreeBSD it never
does, which the model covers by an unanswered query.
Source: `process_utils.h`, `start_stamp_proves_other_incarnation` -/
def startStampProvesOtherIncarnation (published observed : ℕ) : Bool := observed != published

/-- Source: `mutex.h`, `interprocess_mutex::owner_generation_is_stale`; `current` is the answer of
`query_process_start_stamp` -/
def ownerGenerationIsStale (stored : ℕ) (current : Option ℕ) : Bool :=
  if stored = 0 then false
  else match current with
    | none => false
    | some c => startStampProvesOtherIncarnation stored c

/-- The answer `query_process_start_stamp(pid)` may give: the stamp of the live process with that
PID, if there is one and the query succeeds. -/
def MayAnswerStamp (t : ProcessTable) (pid : ℕ) (current : Option ℕ) : Prop :=
  ∀ q ∈ t.live, q.pid = pid → ∀ c ∈ current, c = q.stamp

instance (t : ProcessTable) (pid : ℕ) (current : Option ℕ) :
    Decidable (MayAnswerStamp t pid current) := by
  unfold MayAnswerStamp
  infer_instance

/-- A stored stamp that is stale is not that of a live process. -/
theorem not_live_of_ownerGenerationIsStale {t : ProcessTable} {p : Incarnation} {stored : ℕ}
    {current : Option ℕ} (hstored : stored = 0 ∨ stored = p.stamp)
    (hcur : MayAnswerStamp t p.pid current) (h : ownerGenerationIsStale stored current = true) :
    p ∉ t.live := by
  intro hp
  unfold ownerGenerationIsStale at h
  split_ifs at h with h0
  cases current with
  | none => cases h
  | some c =>
    have hc : c = p.stamp := hcur p hp rfl c rfl
    have hs : stored = p.stamp := hstored.resolve_left h0
    simp [startStampProvesOtherIncarnation, hc, hs] at h

/-! ### Control points -/

/-- The calls that acquire. -/
inductive Call
  | lock
  | tryLock
  | tryLockFor
  | tryLockCleanup
  | lockCleanup
  deriving DecidableEq

/-- Source: `mutex.h`, the `throw_on_recursive` argument of each caller of `try_acquire` -/
def Call.throwOnRecursive : Call → Bool
  | .lock => true
  | _ => false

/-- Whether the call makes another attempt after a failed one; `again` says that the deadline of a
timed call has not passed.
Source: `mutex.h`, the loops of `lock`, `try_lock_for_impl` and `lock_cleanup` -/
def Call.retries : Call → Bool → Bool
  | .lock, _ | .lockCleanup, _ => true
  | .tryLockFor, again => again
  | .tryLock, _ | .tryLockCleanup, _ => false

/-- The two attempts of `try_acquire` at an unowned mutex: before recovery, and after the recovery
of the owner `expected`. -/
inductive Attempt
  | first
  | second (expected : ℕ)
  deriving DecidableEq

/-- What a thread wants the gate for. -/
inductive GateUse
  | attempt (a : Attempt)
  | recover (expected : ℕ)
  | recursion
  deriving DecidableEq

/-- What a thread does after it released the gate. -/
inductive After
  | acquired
  | notAcquired (a : Attempt)
  | recovered (expected : ℕ) (result : Bool)
  /-- `own` is a ghost: the thread owned the mutex when it loaded the owner word. -/
  | recursive (result own : Bool)
  deriving DecidableEq

/-- Where a thread stands: the constructor names the atomic operation it performs next. The numbers
`hold` and the flags `own` are ghosts, as are the stamps carried by an acquisition.
Source: `mutex.h`, `acquire_recovery_gate`, `release_recovery_gate`,
`try_acquire_unowned_when_no_recovery`, `try_acquire`, `try_recover`, `owner_has_exited` -/
inductive Pc
  | idle
  /-- `acquire_recovery_gate`: the load of the gate. -/
  | gateLoad (u : GateUse)
  /-- The liveness probe of the gate's holder. -/
  | gateProbe (u : GateUse) (holder : ℕ)
  /-- The gate's holder has exited: the clearing compare-and-swap. -/
  | gateClear (u : GateUse) (holder : ℕ)
  /-- The acquiring compare-and-swap of the gate. -/
  | gateCas (u : GateUse)
  /-- `try_acquire_unowned_when_no_recovery`: the owner load. -/
  | checkUnowned (a : Attempt)
  | storeStamp (a : Attempt)
  | storeInstance (a : Attempt) (stamp : ℕ)
  | ownerCas (a : Attempt) (stamp : ℕ)
  /-- `try_acquire`: the owner load after the first attempt. -/
  | loadExpected
  /-- `try_recover`: the owner load. -/
  | recoverOwner (expected : ℕ)
  /-- The load of the stored stamp. -/
  | recoverStamp (expected hold : ℕ)
  /-- `owner_has_exited`, the owner has this process's PID: the load of its instance. -/
  | recoverInstance (expected hold : ℕ)
  /-- `owner_has_exited`, another PID: the liveness probe. -/
  | recoverAlive (expected stamp hold : ℕ)
  /-- The start stamp query. -/
  | recoverQuery (expected stamp hold : ℕ)
  /-- The owner has exited: the releasing compare-and-swap. -/
  | recoverCas (expected hold : ℕ)
  /-- The recursion check: the owner load. -/
  | recursionOwner
  /-- The recursion check: the load of the owner's instance. -/
  | recursionInstance (own : Bool)
  /-- The gate's release. -/
  | release (after : After)
  /-- `lock` throws `resource_deadlock_would_occur`. -/
  | raised (own : Bool)
  deriving DecidableEq

/-- The thread holds the gate. -/
def Pc.inGate : Pc → Bool
  | .checkUnowned _ | .storeStamp _ | .storeInstance _ _ | .ownerCas _ _ | .recoverOwner _
  | .recoverStamp _ _ | .recoverInstance _ _ | .recoverAlive _ _ _ | .recoverQuery _ _ _
  | .recoverCas _ _ | .recursionOwner | .recursionInstance _ | .release _ => true
  | _ => false

/-- The first operation under the gate. -/
def GateUse.entry : GateUse → Pc
  | .attempt a => .checkUnowned a
  | .recover e => .recoverOwner e
  | .recursion => .recursionOwner

/-- `try_acquire` returned false. -/
def failed (c : Call) (again : Bool) : Pc :=
  if c.retries again then .gateLoad (.attempt .first) else .idle

/-- The end of `try_acquire`: the recursion check if the expected owner is this thread. -/
def afterAttempts (self : ℕ) (c : Call) (again : Bool) (expected : ℕ) : Pc :=
  if expected = self then .gateLoad .recursion else failed c again

/-- What follows a failed acquisition of the gate. -/
def gateRefused (self : ℕ) (c : Call) (again : Bool) : GateUse → Pc
  | .attempt .first => .loadExpected
  | .attempt (.second e) | .recover e => afterAttempts self c again e
  | .recursion => failed c again

/-- What follows the release of the gate. -/
def afterRelease (self : ℕ) (c : Call) (again : Bool) : After → Pc
  | .acquired => .idle
  | .notAcquired .first => .loadExpected
  | .notAcquired (.second e) => afterAttempts self c again e
  | .recovered e true => .gateLoad (.attempt (.second e))
  | .recovered e false => afterAttempts self c again e
  | .recursive result own =>
    if result ∧ c.throwOnRecursive then .raised own else failed c again

/-! ### States and steps -/

/-- The processes, the four shared words, where every thread stands, and the ghosts. -/
structure State where
  procs : ProcessTable
  /-- `m_owner` -/
  owner : ℕ
  /-- `m_owner_start_stamp` -/
  ownerStartStamp : ℕ
  /-- `m_owner_instance` -/
  ownerInstance : ℕ
  /-- `m_recovering` -/
  recovering : ℕ
  /-- The call each thread is in. -/
  call : Thread → Call
  pc : Thread → Pc
  /-- The thread that set the owner word, with the stamp that it had read; none while it is zero. -/
  holder : Option (Thread × ℕ)
  /-- The number of acquisitions so far. -/
  acquisitions : ℕ
  /-- The thread acquired the mutex and neither `unlock` nor `unlock_owned` has released it. -/
  held : Thread → Bool

/-- Nobody has run yet and the words are zero. -/
def State.initial : State where
  procs := ProcessTable.empty
  owner := 0
  ownerStartStamp := 0
  ownerInstance := 0
  recovering := 0
  call := fun _ => .lock
  pc := fun _ => .idle
  holder := none
  acquisitions := 0
  held := fun _ => false

/-- Thread `t` moves to `pc`. -/
def State.goto (s : State) (t : Thread) (pc : Pc) : State :=
  { s with pc := Function.update s.pc t pc }

/-- The owner word is set by the thread `t`, which published `stamp`. -/
def State.acquire (s : State) (t : Thread) (stamp : ℕ) : State :=
  { s with
    owner := t.ownerToken
    holder := some (t, stamp)
    acquisitions := s.acquisitions + 1
    held := Function.update s.held t true }

/-- The owner word is cleared by the call of a thread of `p`, which releases `token`. -/
def State.releaseOwned (s : State) (p : Incarnation) (token : ℕ) : State :=
  { s with
    owner := 0
    holder := none
    held := fun t => if t.proc = p ∧ t.ownerToken = token then false else s.held t }

/-- One step of the system. -/
inductive Action
  | start (p : Incarnation)
  | exit (p : Incarnation)
  /-- A thread calls one of the acquiring functions. -/
  | call (t : Thread) (c : Call)
  | unlock (t : Thread)
  | unlockOwned (t : Thread) (token : ℕ)
  /-- The next atomic operation of a thread, with the environment's answers. -/
  | next (t : Thread) (b : Bool) (current : Option ℕ)

/-- The next atomic operation of thread `t`.
Source: `mutex.h`, `interprocess_mutex::try_acquire` and the functions it calls -/
def State.next (s : State) (t : Thread) (b : Bool) (current : Option ℕ) : Option State :=
  let gate := t.proc.processInstance
  let self := t.ownerToken
  match s.pc t with
  | .idle => none
  | .gateLoad u =>
    some (s.goto t (if s.recovering ≠ 0 then .gateProbe u s.recovering else .gateCas u))
  | .gateProbe u h =>
    if s.procs.MayAnswerAlive (processInstancePid h) b then
      some (s.goto t (if processInstanceHasExited h gate b then .gateClear u h else .gateCas u))
    else none
  | .gateClear u h =>
    if s.recovering = h then some ({ s with recovering := 0 }.goto t (.gateCas u))
    else some (s.goto t (.gateCas u))
  | .gateCas u =>
    if s.recovering = 0 then some ({ s with recovering := gate }.goto t u.entry)
    else some (s.goto t (gateRefused self (s.call t) b u))
  | .checkUnowned a =>
    some (s.goto t (if s.owner ≠ 0 then .release (.notAcquired a) else .storeStamp a))
  | .storeStamp a =>
    let stamp := if b then t.proc.stamp else 0
    some ({ s with ownerStartStamp := stamp }.goto t (.storeInstance a stamp))
  | .storeInstance a stamp => some ({ s with ownerInstance := gate }.goto t (.ownerCas a stamp))
  | .ownerCas a stamp =>
    if s.owner = 0 then some ((s.acquire t stamp).goto t (.release .acquired))
    else some (s.goto t (.release (.notAcquired a)))
  | .loadExpected =>
    some (s.goto t
      (if s.owner ≠ 0 then .gateLoad (.recover s.owner) else afterAttempts self (s.call t) b 0))
  | .recoverOwner e =>
    some (s.goto t
      (if s.owner = 0 then .release (.recovered e true)
      else if s.owner = e then .recoverStamp e s.acquisitions
      else .release (.recovered e false)))
  | .recoverStamp e hold =>
    some (s.goto t
      (if ownerPid e = processInstancePid gate then .recoverInstance e hold
      else .recoverAlive e s.ownerStartStamp hold))
  | .recoverInstance e hold =>
    some (s.goto t
      (if s.ownerInstance ≠ gate then .recoverCas e hold else .release (.recovered e false)))
  | .recoverAlive e stamp hold =>
    if s.procs.MayAnswerAlive (ownerPid e) b then
      some (s.goto t (if b then .recoverQuery e stamp hold else .recoverCas e hold))
    else none
  | .recoverQuery e stamp hold =>
    if MayAnswerStamp s.procs (ownerPid e) current then
      some (s.goto t
        (if ownerGenerationIsStale stamp current then .recoverCas e hold
        else .release (.recovered e false)))
    else none
  | .recoverCas e _ =>
    if s.owner = e then
      some ({ s with owner := 0, holder := none }.goto t (.release (.recovered e true)))
    else some (s.goto t (.release (.recovered e false)))
  | .recursionOwner =>
    some (s.goto t
      (if s.owner = self then .recursionInstance (s.holder.map Prod.fst == some t)
      else .release (.recursive false false)))
  | .recursionInstance own => some (s.goto t (.release (.recursive (s.ownerInstance == gate) own)))
  | .release after =>
    some ({ s with recovering := if s.recovering = gate then 0 else s.recovering }.goto t
      (afterRelease self (s.call t) b after))
  | .raised _ => some (s.goto t .idle)

/-- One step of the system; only live processes act. A call that fails or throws without touching
the words is a step that changes nothing.
Source: `mutex.h`, `interprocess_mutex::unlock`, `unlock_owned` -/
def State.step (s : State) : Action → Option State
  | .start p => if h : s.procs.Startable p then some { s with procs := s.procs.start p h } else none
  | .exit p => if p ∈ s.procs.live then some { s with procs := s.procs.exit p } else none
  | .call t c =>
    if t.proc ∈ s.procs.live ∧ s.pc t = .idle then
      some ({ s with call := Function.update s.call t c }.goto t (.gateLoad (.attempt .first)))
    else none
  | .unlock t =>
    if t.proc ∈ s.procs.live ∧ s.pc t = .idle then
      some (if s.owner = t.ownerToken then s.releaseOwned t.proc t.ownerToken else s)
    else none
  | .unlockOwned t token =>
    if t.proc ∈ s.procs.live ∧ s.pc t = .idle then
      some (if ownerPid token = t.proc.pid ∧ s.owner = token then s.releaseOwned t.proc token
        else s)
    else none
  | .next t b current => if t.proc ∈ s.procs.live then s.next t b current else none

/-- The mutex as a machine. -/
def machine : Machine State Action where
  init s := s = State.initial
  step := State.step

end Sintra.Ipc.Mutex
