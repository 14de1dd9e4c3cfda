import Sintra.Ring.ReaderSlots

/-!
# Reader guards of a ring

The ring is divided into eight octiles. A reader keeps the writer out of an octile by a count in
`read_access` and by the guard in the state word of its slot. This is the machine of every operation of
`rings.h` on these words: `acquire_guard`, `release_guard`, `done_reading` and `with_copying_mark` of a
reader, the clearing of a slot by a constructor, a destructor or `scavenge_orphans`, the recovery of
counts that no reader shows, and the writer's `advance_writer_octile_if_needed` with the eviction of
slow readers.

Each atomic operation on shared memory is a step, and a process may die between any two. A loop that
repeats a compare-and-swap until it succeeds is one step, as its failed attempts change nothing. So is
`publish_owner`: a slot whose owner is half written is INACTIVE or names no process.

What comes from outside is in the `Choice` of a step: the answers of `probe_process_identity`, the
clock, whether a reader is asked to stop and how far it lags. Diagnostic counters are left out, and so
is the freelist, from which a constructor gets an INACTIVE slot (see `Sintra.Ring.ReaderSlots`).

Sources without a file name are in `rings.h`.
-/

namespace Sintra.Ring

open Function

/-! ### The state word of a slot -/

/-- One of the eight parts of the ring. -/
abbrev Octile := Fin 8

def Octile.first : Octile := 0

/-- What the 32-bit state word of a slot says; `pending` is `none` for `k_no_pending_octile`.
Source: `Reader_state_union` -/
structure ReaderState where
  status : ReaderStatus
  guardOctile : Octile
  guardPresent : Bool
  copying : Bool
  request : Bool
  pending : Option Octile
  deriving DecidableEq

namespace ReaderState

/-- The word of a slot of a new ring. -/
def initial : ReaderState := ⟨.inactive, .first, false, false, false, none⟩

/-- Source: `Reader_state_union::guard_transition_allowed` -/
def guardTransitionAllowed (w : ReaderState) : Bool := !w.copying && !w.request && w.pending.isNone

/-- Source: `Reader_state_union::with_status` -/
def withStatus (w : ReaderState) (status : ReaderStatus) : ReaderState := { w with status := status }

/-- Source: `Reader_state_union::with_guard` -/
def withGuard (w : ReaderState) (octile : Octile) (present : Bool) : ReaderState :=
  { w with guardOctile := octile, guardPresent := present }

/-- Source: `Reader_state_union::with_pending` -/
def withPending (w : ReaderState) (octile : Octile) : ReaderState := { w with pending := some octile }

/-- Source: `Reader_state_union::clear_pending` -/
def clearPending (w : ReaderState) : ReaderState := { w with pending := none }

/-- `fetch_and(~request_mask)` -/
def clearRequest (w : ReaderState) : ReaderState := { w with request := false }

/-- `fetch_and(~(copying_mask | request_mask))` -/
def clearFlags (w : ReaderState) : ReaderState := { w with copying := false, request := false }

/-- The octile the slot guards. -/
def guard (w : ReaderState) : Option Octile := if w.guardPresent then some w.guardOctile else none

/-- The slot gives up its guard and keeps the octile pending until the count is released.
Source: `rings.h`, the update of `release_guard` and `done_reading` -/
def releasing (w : ReaderState) : ReaderState :=
  (w.withGuard w.guardOctile false).withPending w.guardOctile

/-- Source: `rings.h`, the update of `run_reclamation_pass` -/
def evicted (w : ReaderState) : ReaderState :=
  (w.withGuard w.guardOctile false).withStatus .evicted

/-- Source: `rings.h`, the update of `acquire_guard` after the count is added -/
def attached (w : ReaderState) (octile : Octile) (previous : Option Octile) : ReaderState :=
  { w.withGuard octile true with pending := previous }

end ReaderState

namespace Guards

open Slots (Agent)

/-- The word of counts, by its bytes. -/
abbrev Counts := Octile → ℕ

/-! ### Control points -/

/-- What the last call of a reader returned. -/
inductive Outcome
  | none
  /-- `Guard_admission` -/
  | acquired
  | evicted
  | stopped
  /-- `release_guard`, `try_rollback_unpaired_read_access` -/
  | released (b : Bool)
  /-- `Copy_admission`, with `evicted` and `stopped` -/
  | copied
  | retry
  deriving DecidableEq

/-- Source: `Slot_read_access_release` -/
inductive Release
  | none
  | paired
  | unpaired
  deriving DecidableEq

/-- Who called `scavenge_orphans`. In `advance_writer_octile_if_needed`, `o` is the octile the writer
is to enter and `published` is `requests_published`. -/
inductive Caller
  | alone
  /-- The loop of `advance_writer_octile_if_needed`. -/
  | recover (o : Octile) (published : Bool)
  /-- `run_reclamation_pass` -/
  | pass (o : Octile) (published : Bool)
  deriving DecidableEq

/-- Why a slot is cleared. -/
inductive Purpose
  /-- `Ring_R()` -/
  | admission
  /-- `~Ring_R()` -/
  | retire
  /-- `scavenge_orphans`, of an INACTIVE slot. -/
  | inactive (c : Caller)
  /-- `scavenge_orphans`, of a slot whose owner is DEAD. -/
  | dead (c : Caller)
  deriving DecidableEq

/-- Who called `cancel_requests`. -/
inductive Cleanup
  /-- `Ring_W()` -/
  | opened
  /-- `~Ring_W()` -/
  | closed
  /-- `Request_cleanup` when `advance_writer_octile_if_needed` returns. -/
  | returned
  /-- `Request_cleanup` when it throws. -/
  | threw
  /-- The handler of `prepare_write`. -/
  | caught
  deriving DecidableEq

/-- Who called `count_guards_for_octile`. -/
inductive Query (n : ℕ)
  /-- The first scan of the writer's loop, without the lock. -/
  | blocking (o : Octile) (published : Bool)
  /-- The scans of the locked block: after the load of `access_snapshot` … -/
  | confirmed (o : Octile) (access : Counts) (published : Bool)
  /-- … before the load of `confirm_snapshot` … -/
  | leaked (o : Octile) (access : Counts) (published : Bool)
  /-- … and after it. -/
  | last (o : Octile) (access confirm : Counts) (published : Bool)
  /-- The two scans of `try_rollback_unpaired_read_access`. -/
  | rollback (i : Fin n) (o : Octile)
  | rollbackAgain (i : Fin n) (o : Octile) (access : Counts)
  /-- `release_unpaired_read_access_count` -/
  | unpaired (i : Fin n) (o : Octile) (access : Counts) (p : Purpose)
  deriving DecidableEq

/-- What waits for `rs_stack_spinlock`. -/
inductive Entry (n : ℕ)
  | admission
  | retire (i : Fin n)
  | done (i : Fin n)
  | rollback (i : Fin n) (o : Octile)
  | scavenge (c : Caller)
  | cancel (c : Cleanup)
  | recover (o : Octile) (published : Bool)
  | pass (o : Octile) (i : Fin n) (published : Bool)
  | evict (o : Octile) (i : Fin n) (published : Bool)
  deriving DecidableEq

/-- What follows the release of the lock. -/
inductive Exit (n : ℕ)
  | idle
  | owns (i : Fin n) (r : Outcome)
  /-- A destructor whose semaphore was not reset tries again. -/
  | retire (i : Fin n)
  | scavenged (c : Caller)
  | cancelled (c : Cleanup)
  | blocked (o : Octile) (published : Bool)
  | recheck (o : Octile) (published : Bool)
  | reclaim (o : Octile) (published : Bool)
  | pass (o : Octile) (k : ℕ) (published : Bool)
  | evict (o : Octile) (i : Fin n) (published : Bool)
  | throw (published : Bool)
  deriving DecidableEq

/-- Where an agent stands. -/
inductive Pc (n : ℕ)
  | idle
  /-- A reader with its slot, between calls. -/
  | owns (i : Fin n) (r : Outcome)
  | wait (e : Entry n)
  | leave (x : Exit n)
  /-- `acquire_guard`, before an attempt to publish the octile as pending. -/
  | acquire (i : Fin n) (o : Octile) (allowEvicted : Bool)
  /-- … pending is published, the count is next. -/
  | acquirePending (i : Fin n) (o : Octile) (previous : Option Octile)
  /-- … the count is added, the guard is next. -/
  | acquireAdded (i : Fin n) (o : Octile) (previous : Option Octile)
  /-- … the guard is published, the count of the previous octile is to be released. -/
  | acquireMoved (i : Fin n) (o previous : Octile)
  /-- `release_guard`, before an attempt. -/
  | release (i : Fin n)
  /-- … the guard is given up, its count is to be released. -/
  | released (i : Fin n) (o : Octile)
  /-- The last `clear_pending` of either. -/
  | settle (i : Fin n) (o : Octile) (r : Outcome)
  /-- `with_copying_mark`, before an attempt to set COPYING. -/
  | copy (i : Fin n)
  /-- … COPYING is set; the slot guards `o`. -/
  | copying (i : Fin n) (o : Octile)
  /-- `done_reading` -/
  | done (i : Fin n)
  | doneCount (i : Fin n) (o : Octile)
  | donePending (i : Fin n) (o : Option Octile)
  | doneRequest (i : Fin n)
  /-- `clear_slot_guard`, and what it has loaded. -/
  | clear (i : Fin n) (mode : Release) (p : Purpose)
  | clearGuard (i : Fin n) (guard : Option Octile) (mode : Release) (p : Purpose)
  | clearPending (i : Fin n) (guard : Option Octile) (mode : Release) (p : Purpose)
  | clearCount (i : Fin n) (o : Octile) (p : Purpose)
  | unpaired (i : Fin n) (o : Octile) (p : Purpose)
  | unpairedSwap (i : Fin n) (o : Octile) (access : Counts) (p : Purpose)
  /-- `count_guards_for_octile`, before slot `k` is loaded. -/
  | count (q : Query n) (k : ℕ) (sum : ℕ)
  /-- … slot `k` shows a pending octile, its owner is to be probed. -/
  | probe (q : Query n) (k : Fin n) (sum : ℕ)
  /-- `Ring_R()` -/
  | admission
  | publish (i : Fin n)
  | admitLoad (i : Fin n)
  | admitStore (i : Fin n) (w : ReaderState)
  /-- `~Ring_R()` -/
  | retire (i : Fin n)
  | retireOwner (i : Fin n)
  | retireFlags (i : Fin n)
  | retireStatus (i : Fin n)
  /-- `scavenge_orphans`, at slot `k`. -/
  | scavenge (k : ℕ) (c : Caller)
  | orphan (i : Fin n) (c : Caller)
  | orphanStatus (i : Fin n) (c : Caller)
  | orphanFlags (i : Fin n) (c : Caller)
  | orphanOwner (i : Fin n) (c : Caller)
  /-- `try_rollback_unpaired_read_access` -/
  | rollback (i : Fin n) (o : Octile)
  | rollbackAgain (i : Fin n) (o : Octile)
  | rollbackSwap (i : Fin n) (o : Octile) (access : Counts)
  /-- A `Ring_W` between calls; `ok` unless the last call threw. -/
  | writer (ok : Bool)
  | closing
  /-- `cancel_requests`, at slot `k`. -/
  | cancel (k : ℕ) (c : Cleanup)
  /-- `advance_writer_octile_if_needed`, its first look at the octile. -/
  | check (o : Octile)
  /-- The head of its loop. -/
  | blocked (o : Octile) (published : Bool)
  /-- The locked block of the loop, and its two compare-and-swaps. -/
  | recover (o : Octile) (published : Bool)
  | confirm (o : Octile) (access : Counts) (published : Bool)
  | confirmSwap (o : Octile) (access confirm : Counts) (published : Bool)
  | staleSwap (o : Octile) (access : Counts) (published : Bool)
  /-- The look at the octile after the block. -/
  | recheck (o : Octile) (published : Bool)
  /-- A reader blocks: it may be time for a pass. -/
  | reclaim (o : Octile) (published : Bool)
  /-- `run_reclamation_pass` at slot `i`. -/
  | pass (o : Octile) (i : Fin n) (published : Bool)
  | identity (o : Octile) (i : Fin n) (published : Bool)
  | identityCount (o : Octile) (i : Fin n) (published : Bool)
  | identityState (o : Octile) (i : Fin n) (published : Bool)
  | eligible (o : Octile) (i : Fin n) (published : Bool)
  | unrequest (o : Octile) (i : Fin n) (published : Bool)
  | request (o : Octile) (i : Fin n) (published : Bool)
  | evict (o : Octile) (i : Fin n) (published : Bool)
  | evictCount (o : Octile) (i : Fin n) (guard : Octile) (published : Bool)
  | evictCheck (o : Octile) (i : Fin n) (published : Bool)
  deriving DecidableEq

namespace Pc

variable {n : ℕ}

/-- The guard is published: `acquire_guard` returns, or releases the count of the previous octile. -/
def attached (i : Fin n) (o : Octile) : Option Octile → Pc n
  | none => .owns i .acquired
  | some p => .acquireMoved i o p

/-- `advance_writer_octile_if_needed` returns; `Request_cleanup` cancels what was published. -/
def returned (published : Bool) : Pc n :=
  if published then .wait (.cancel .returned) else .writer true

/-- It throws, and `prepare_write` catches. -/
def thrown (published : Bool) : Pc n :=
  if published then .wait (.cancel .threw) else .wait (.cancel .caught)

/-- The pass goes on with slot `k`, or is over. -/
def passFrom (o : Octile) (k : ℕ) (published : Bool) : Pc n :=
  if h : k < n then .wait (.pass o ⟨k, h⟩ published) else .blocked o published

end Pc

section

variable {n : ℕ}

/-- With the lock. -/
def Entry.pc : Entry n → Pc n
  | .admission => .admission
  | .retire i => .retire i
  | .done i => .done i
  | .rollback i o => .rollback i o
  | .scavenge c => .scavenge 0 c
  | .cancel c => .cancel 0 c
  | .recover o published => .recover o published
  | .pass o i published => .pass o i published
  | .evict o i published => .evict o i published

/-- Without it. -/
def Exit.pc : Exit n → Pc n
  | .idle => .idle
  | .owns i r => .owns i r
  | .retire i => .wait (.retire i)
  | .scavenged .alone => .idle
  | .scavenged (.recover o published) => .wait (.recover o published)
  | .scavenged (.pass o published) => .passFrom o 0 published
  | .cancelled .opened => .writer true
  | .cancelled .closed => .closing
  | .cancelled .returned => .writer true
  | .cancelled .threw => .wait (.cancel .caught)
  | .cancelled .caught => .writer false
  | .blocked o published => .blocked o published
  | .recheck o published => .recheck o published
  | .reclaim o published => .reclaim o published
  | .pass o k published => .passFrom o k published
  | .evict o i published => .wait (.evict o i published)
  | .throw published => .thrown published

/-- Where `clear_slot_guard` returns to. -/
def Purpose.next (i : Fin n) : Purpose → Pc n
  | .admission => .publish i
  | .retire => .retireOwner i
  | .inactive c => .orphanFlags i c
  | .dead c => .orphanStatus i c

/-- The octile whose guards are counted. -/
def Query.octile : Query n → Octile
  | .blocking o _ | .confirmed o _ _ | .leaked o _ _ | .last o _ _ _ | .rollback _ o
  | .rollbackAgain _ o _ | .unpaired _ o _ _ => o

/-- What follows a count. -/
def Query.answer (sum : ℕ) : Query n → Pc n
  | .blocking o published =>
    if sum = 0 then .wait (.scavenge (.recover o published)) else .reclaim o published
  | .confirmed o access published =>
    if sum = 0 then
      if access o ≠ 0 then .count (.leaked o access published) 0 0
      else .leave (.recheck o published)
    else .leave (.reclaim o published)
  | .leaked o access published =>
    if sum = 0 then .confirm o access published else .staleSwap o access published
  | .last o access confirm published =>
    if sum = 0 then .confirmSwap o access confirm published else .staleSwap o access published
  | .rollback i o =>
    if sum = 0 then .rollbackAgain i o else .leave (.owns i (.released false))
  | .rollbackAgain i o access =>
    if sum = 0 then .rollbackSwap i o access else .leave (.owns i (.released false))
  | .unpaired i o access p => if access o ≤ sum then p.next i else .unpairedSwap i o access p

end

/-! ### States and steps -/

/-- What a step learns from outside. -/
structure Choice where
  /-- `read_can_continue` does not hold. -/
  stop : Bool
  /-- `reset_quiescent` failed. -/
  resetError : Bool
  /-- The slot on top of the freelist. -/
  slot : ℕ
  /-- `probe_process_identity` answers DEAD. -/
  dead : Bool
  /-- It answers UNKNOWN for the third time in a row. -/
  unknown : Bool
  /-- The reading sequence of the slot is below the writer's threshold. -/
  lagging : Bool
  /-- The count has not changed for `k_stale_guard_delay`. -/
  stale : Bool
  /-- The eviction budget is spent. -/
  pass : Bool

structure State (n : ℕ) where
  /-- `read_access` -/
  readAccess : Counts
  slots : Fin n → ReaderState
  owner : Fin n → Option Process
  /-- Who holds `rs_stack_spinlock`. -/
  holder : Option Agent
  /-- Who holds `ownership_mutex`. -/
  writer : Option Agent
  /-- The processes that are dead. -/
  exited : Finset Process
  pc : Agent → Pc n

/-- The ring as its creator leaves it. -/
def State.initial (n : ℕ) : State n where
  readAccess _ := 0
  slots _ := .initial
  owner _ := none
  holder := none
  writer := none
  exited := ∅
  pc _ := .idle

/-- What a step does to the shared memory. -/
inductive Effect (n : ℕ)
  | skip
  | word (i : Fin n) (w : ReaderState)
  | add (o : Octile)
  /-- Source: `release_read_access_count`: never below zero. -/
  | sub (o : Octile)
  /-- A compare-and-swap of `read_access` has succeeded. -/
  | store (o : Octile) (count : ℕ)
  | owner (i : Fin n) (p : Option Process)
  | lock
  | unlock
  /-- `ownership_mutex` is taken. -/
  | assume
  | resign

namespace State

variable {n : ℕ}

/-- No live process holds the lock. -/
def lockFree (s : State n) : Bool := s.holder.all fun a => a.process ∈ s.exited

/-- The owner of the slot is a process that is dead. -/
def ownerExited (s : State n) (i : Fin n) : Bool := (s.owner i).any fun p => p ∈ s.exited

def goto (s : State n) (a : Agent) (c : Pc n) : State n :=
  { s with pc := update s.pc a c }

def apply (s : State n) (a : Agent) : Effect n → State n
  | .skip => s
  | .word i w => { s with slots := update s.slots i w }
  | .add o => { s with readAccess := update s.readAccess o (s.readAccess o + 1) }
  | .sub o => { s with readAccess := update s.readAccess o (s.readAccess o - 1) }
  | .store o count => { s with readAccess := update s.readAccess o count }
  | .owner i p => { s with owner := update s.owner i p }
  | .lock => { s with holder := some a }
  | .unlock => { s with holder := none }
  | .assume => { s with writer := some a }
  | .resign => { s with writer := none }

end State

section

variable {n : ℕ}

/-- Source: `blocks_on_identity` with slow-reader eviction -/
def blocksOnIdentity (o : Octile) (w : ReaderState) : Bool :=
  w.status = .active &&
    (w.pending = some o ||
      (w.guardPresent && w.guardOctile = o && (w.copying || w.pending.isSome)))

/-- Source: `eligible` of `run_reclamation_pass` -/
def eligible (o : Octile) (lagging : Bool) (w : ReaderState) : Bool :=
  w.status = .active && w.guardPresent && (lagging || w.guardOctile = o)

/-- How the count of a slot is released that a destructor or `scavenge_orphans` clears. -/
def releaseMode (w : ReaderState) : Release := if w.status = .active then .paired else .unpaired

end

namespace State

variable {n : ℕ}

/-- Source: `Ring_R::acquire_guard`, an attempt -/
def acquireStep (s : State n) (ch : Choice) (i : Fin n) (o : Octile) (allowEvicted : Bool) :
    Effect n × Pc n :=
  let w := s.slots i
  if ch.stop then (.skip, .owns i .stopped)
  else if w.guardTransitionAllowed && (w.status = .active || (allowEvicted && w.status = .evicted)) then
    (.word i ((w.withStatus .active).withPending o), .acquirePending i o w.guard)
  else if w.status = .inactive then (.skip, .owns i .stopped)
  else if !allowEvicted && w.status = .evicted then (.skip, .owns i .evicted)
  else (.skip, .acquire i o allowEvicted)

/-- Source: `Ring_R::release_guard`, an attempt -/
def releaseStep (s : State n) (ch : Choice) (i : Fin n) : Effect n × Pc n :=
  let w := s.slots i
  if ch.stop then (.skip, .owns i (.released false))
  else if w.status = .active && w.guardPresent && w.guardTransitionAllowed then
    (.word i w.releasing, .released i w.guardOctile)
  else if w.status ≠ .active || !w.guardPresent then (.skip, .owns i (.released false))
  else (.skip, .release i)

/-- Source: `Ring_R::with_copying_mark`, an attempt -/
def copyStep (s : State n) (ch : Choice) (i : Fin n) : Effect n × Pc n :=
  let w := s.slots i
  if ch.stop then (.skip, .owns i .stopped)
  else if w.status = .evicted then (.skip, .owns i .evicted)
  else if w.status ≠ .active then (.skip, .owns i .stopped)
  else if !w.guardPresent || !w.guardTransitionAllowed then (.skip, .owns i .retry)
  else (.word i { w with copying := true }, .copying i w.guardOctile)

/-- Source: `Control::count_guards_for_octile`, one slot -/
def countStep (s : State n) (q : Query n) (i : Fin n) (sum : ℕ) : Effect n × Pc n :=
  let w := s.slots i
  if w.status ≠ .active then (.skip, .count q (i + 1) sum)
  else
    let sum := if w.guard = some q.octile then sum + 1 else sum
    if w.pending = some q.octile then (.skip, .probe q i sum) else (.skip, .count q (i + 1) sum)

/-- Source: `Control::scavenge_orphans`, up to `clear_slot_guard` or the next slot. DEAD is only
answered for the owner of a process that is dead. -/
def scavengeStep (s : State n) (ch : Choice) (i : Fin n) (c : Caller) : Option (Effect n × Pc n) :=
  if (s.slots i).status = .inactive then
    if ch.resetError then some (.skip, .scavenge (i + 1) c)
    else some (.skip, .clear i .unpaired (.inactive c))
  else if ch.dead then
    if s.ownerExited i = false then none
    else if ch.resetError then some (.skip, .scavenge (i + 1) c)
    else some (.skip, .orphan i c)
  else some (.skip, .scavenge (i + 1) c)

/-- The last step of `clear_slot_guard` before its release. -/
def clearPendingStep (s : State n) (i : Fin n) (mode : Release) (p : Purpose) :
    Option Octile → Effect n × Pc n
  | none => (.word i (s.slots i).clearPending, p.next i)
  | some o =>
    (.word i (s.slots i).clearPending,
      match mode with
      | .none => p.next i
      | .paired => .clearCount i o p
      | .unpaired => .unpaired i o p)

/-- Source: `run_reclamation_pass`, from the second load of the slot -/
def eligibleStep (s : State n) (ch : Choice) (o : Octile) (i : Fin n) (published : Bool) :
    Effect n × Pc n :=
  let w := s.slots i
  if eligible o ch.lagging w then
    if w.request then (.skip, .leave (.evict o i published)) else (.skip, .request o i published)
  else if w.request then (.skip, .unrequest o i published)
  else (.skip, .leave (.pass o (i + 1) published))

/-- Source: `run_reclamation_pass`, the eviction -/
def evictStep (s : State n) (ch : Choice) (o : Octile) (i : Fin n) (published : Bool) :
    Effect n × Pc n :=
  let w := s.slots i
  if eligible o ch.lagging w && w.request && !w.copying && w.pending.isNone then
    (.word i w.evicted, .evictCount o i w.guardOctile published)
  else (.skip, .evictCheck o i published)

/-- The next operation of an agent on the shared memory, and where it leads. -/
def next (s : State n) (a : Agent) (ch : Choice) : Option (Effect n × Pc n) :=
  match s.pc a with
  | .idle => none
  | .owns _ _ => none
  | .wait e => if s.lockFree then some (.lock, e.pc) else none
  | .leave x => some (.unlock, x.pc)
  -- a reader
  | .acquire i o allowEvicted => some (s.acquireStep ch i o allowEvicted)
  | .acquirePending i o previous => some (.add o, .acquireAdded i o previous)
  | .acquireAdded i o previous =>
    some (.word i ((s.slots i).attached o previous), .attached i o previous)
  | .acquireMoved i _ p => some (.sub p, .settle i p .acquired)
  | .release i => some (s.releaseStep ch i)
  | .released i o => some (.sub o, .settle i o (.released true))
  | .settle i _ r => some (.word i (s.slots i).clearPending, .owns i r)
  | .copy i => some (s.copyStep ch i)
  | .copying i _ => some (.word i { s.slots i with copying := false }, .owns i .copied)
  | .done i =>
    if (s.slots i).status = .active && (s.slots i).guardPresent then
      some (.word i (s.slots i).releasing, .doneCount i (s.slots i).guardOctile)
    else some (.skip, .donePending i none)
  | .doneCount i o => some (.sub o, .donePending i (some o))
  | .donePending i _ => some (.word i (s.slots i).clearPending, .doneRequest i)
  | .doneRequest i => some (.word i (s.slots i).clearRequest, .leave (.owns i .none))
  -- the clearing of a slot
  | .clear i mode p => some (.skip, .clearGuard i (s.slots i).guard mode p)
  | .clearGuard i guard mode p =>
    some (.word i ((s.slots i).withGuard 0 false), .clearPending i guard mode p)
  | .clearPending i guard mode p => some (s.clearPendingStep i mode p guard)
  | .clearCount i o p => some (.sub o, p.next i)
  | .unpaired i o p =>
    if s.readAccess o = 0 then some (.skip, p.next i)
    else some (.skip, .count (.unpaired i o s.readAccess p) 0 0)
  | .unpairedSwap i o access p =>
    if s.readAccess = access then some (.store o (access o - 1), p.next i)
    else some (.skip, .unpaired i o p)
  -- the count of guards
  | .count q k sum =>
    if h : k < n then some (s.countStep q ⟨k, h⟩ sum) else some (.skip, q.answer sum)
  | .probe q k sum =>
    if ch.dead then
      if s.ownerExited k then some (.skip, .count q (k + 1) sum) else none
    else some (.skip, .count q (k + 1) (sum + 1))
  -- the constructor and the destructor of a reader
  | .admission =>
    if h : ch.slot < n then
      if (s.slots ⟨ch.slot, h⟩).status ≠ .inactive then none
      else if ch.resetError then some (.skip, .leave .idle)
      else some (.skip, .clear ⟨ch.slot, h⟩ .unpaired .admission)
    else some (.skip, .leave .idle)
  | .publish i => some (.owner i (some a.process), .admitLoad i)
  | .admitLoad i => some (.skip, .admitStore i (s.slots i))
  | .admitStore i w => some (.word i (w.clearFlags.withStatus .active), .leave (.owns i .none))
  | .retire i =>
    if ch.resetError then some (.skip, .leave (.retire i))
    else some (.skip, .clear i (releaseMode (s.slots i)) .retire)
  | .retireOwner i => some (.owner i none, .retireFlags i)
  | .retireFlags i => some (.word i (s.slots i).clearFlags, .retireStatus i)
  | .retireStatus i => some (.word i ((s.slots i).withStatus .inactive), .leave .idle)
  -- scavenge_orphans
  | .scavenge k c =>
    if h : k < n then s.scavengeStep ch ⟨k, h⟩ c else some (.skip, .leave (.scavenged c))
  | .orphan i c => some (.skip, .clear i (releaseMode (s.slots i)) (.dead c))
  | .orphanStatus i c => some (.word i ((s.slots i).withStatus .inactive), .orphanFlags i c)
  | .orphanFlags i c => some (.word i (s.slots i).clearFlags, .orphanOwner i c)
  | .orphanOwner i c => some (.owner i none, .scavenge (i + 1) c)
  -- try_rollback_unpaired_read_access
  | .rollback i o =>
    if s.readAccess o = 0 then some (.skip, .leave (.owns i (.released false)))
    else some (.skip, .count (.rollback i o) 0 0)
  | .rollbackAgain i o =>
    if s.readAccess o = 0 then some (.skip, .leave (.owns i (.released false)))
    else some (.skip, .count (.rollbackAgain i o s.readAccess) 0 0)
  | .rollbackSwap i o access =>
    if s.readAccess = access then
      some (.store o (access o - 1), .leave (.owns i (.released true)))
    else some (.skip, .leave (.owns i (.released false)))
  -- the writer
  | .writer _ => none
  | .closing => some (.resign, .idle)
  | .cancel k c =>
    if h : k < n then some (.word ⟨k, h⟩ (s.slots ⟨k, h⟩).clearRequest, .cancel (k + 1) c)
    else some (.skip, .leave (.cancelled c))
  | .check o =>
    if s.readAccess o = 0 then some (.skip, .writer true) else some (.skip, .blocked o false)
  | .blocked o published =>
    if s.readAccess o = 0 then some (.skip, .returned published)
    else some (.skip, .count (.blocking o published) 0 0)
  | .recover o published => some (.skip, .count (.confirmed o s.readAccess published) 0 0)
  | .confirm o access published =>
    if s.readAccess o ≠ 0 then some (.skip, .count (.last o access s.readAccess published) 0 0)
    else some (.skip, .staleSwap o access published)
  | .confirmSwap o access confirm published =>
    if s.readAccess = confirm then some (.store o 0, .leave (.blocked o published))
    else some (.skip, .staleSwap o access published)
  | .staleSwap o access published =>
    if access o ≠ 0 ∧ ch.stale ∧ s.readAccess = access then
      some (.store o 0, .leave (.recheck o published))
    else some (.skip, .leave (.recheck o published))
  | .recheck o published =>
    if s.readAccess o = 0 then some (.skip, .returned published)
    else some (.skip, .blocked o published)
  | .reclaim o published =>
    if ch.pass then some (.skip, .wait (.scavenge (.pass o published)))
    else some (.skip, .blocked o published)
  | .pass o i published =>
    if blocksOnIdentity o (s.slots i) then some (.skip, .identity o i published)
    else some (.skip, .eligible o i published)
  | .identity o i published =>
    if ch.unknown then some (.skip, .identityCount o i published)
    else some (.skip, .eligible o i published)
  | .identityCount o i published =>
    if s.readAccess o ≠ 0 then some (.skip, .identityState o i published)
    else some (.skip, .eligible o i published)
  | .identityState o i published =>
    if blocksOnIdentity o (s.slots i) then some (.skip, .leave (.throw published))
    else some (.skip, .eligible o i published)
  | .eligible o i published => some (s.eligibleStep ch o i published)
  | .unrequest o i published =>
    some (.word i (s.slots i).clearRequest, .leave (.pass o (i + 1) published))
  | .request o i _ => some (.word i { s.slots i with request := true }, .leave (.evict o i true))
  | .evict o i published => some (s.evictStep ch o i published)
  | .evictCount o i guard published => some (.sub guard, .unrequest o i published)
  | .evictCheck o i published =>
    if eligible o ch.lagging (s.slots i) then some (.skip, .leave (.pass o (i + 1) published))
    else some (.skip, .unrequest o i published)

end State

/-- A call of an operation. -/
inductive Call
  | construct
  | destroy
  | acquireGuard (o : Octile) (allowEvicted : Bool)
  | releaseGuard
  | withCopyingMark
  | doneReading
  | tryRollback (o : Octile)
  | scavengeOrphans
  | openWriter
  | closeWriter
  | advanceWriter (o : Octile)

/-- An operation is called by a reader between calls, by the writer between calls, or by an agent that
is neither. -/
def State.call {n : ℕ} (s : State n) (a : Agent) : Call → Option (Effect n × Pc n)
  | .construct => if s.pc a = .idle then some (.skip, .wait .admission) else none
  | .scavengeOrphans => if s.pc a = .idle then some (.skip, .wait (.scavenge .alone)) else none
  | .openWriter =>
    if s.pc a = .idle ∧ s.writer.all (fun b => b.process ∈ s.exited) then
      some (.assume, .wait (.cancel .opened))
    else none
  | .destroy => ofReader fun i => .wait (.retire i)
  | .acquireGuard o allowEvicted => ofReader fun i => .acquire i o allowEvicted
  | .releaseGuard => ofReader .release
  | .withCopyingMark => ofReader .copy
  | .doneReading => ofReader fun i => .wait (.done i)
  | .tryRollback o => ofReader fun i => .wait (.rollback i o)
  | .closeWriter => ofWriter (.wait (.cancel .closed))
  | .advanceWriter o => ofWriter (.check o)
where
  ofReader (f : Fin n → Pc n) : Option (Effect n × Pc n) :=
    match s.pc a with
    | .owns i _ => some (.skip, f i)
    | _ => none
  ofWriter (c : Pc n) : Option (Effect n × Pc n) :=
    match s.pc a with
    | .writer _ => some (.skip, c)
    | _ => none

inductive Action
  | call (a : Agent) (c : Call)
  | advance (a : Agent) (ch : Choice)
  | exit (p : Process)

/-- A step of the guards. A dead process takes none. -/
def State.step {n : ℕ} (s : State n) : Action → Option (State n)
  | .call a c =>
    if a.process ∉ s.exited then (s.call a c).map fun m => (s.apply a m.1).goto a m.2 else none
  | .advance a ch =>
    if a.process ∉ s.exited then (s.next a ch).map fun m => (s.apply a m.1).goto a m.2 else none
  | .exit p => some { s with exited := insert p s.exited }

/-- The guards of a ring with `n` reader slots. -/
def machine (n : ℕ) : Machine (State n) Action where
  init s := s = State.initial n
  step := State.step

end Guards

end Sintra.Ring
