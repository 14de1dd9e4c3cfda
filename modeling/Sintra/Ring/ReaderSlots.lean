import Sintra.Lib.Machine

/-!
# Reader slots of a ring

The life of the reader slots of `rings.h`: a constructor of `Ring_R` pops a slot from the freelist,
publishes its owner and marks it ACTIVE; the destructor clears the owner, marks the slot INACTIVE and
pushes it back; `scavenge_orphans` does the same for the slots whose owner is dead. All of it happens
under `rs_stack_spinlock`, which is taken over from a holder that died.

Each store to shared memory is a step: the eight words of an owner, the status, the two words a push
or a pop changes. A process may die between any two of them. `arr[count++] = value` leaves the order
of its two stores open, so a push may make them either way.

What a step reads from outside is in its `Choice`: whether the reset of the semaphore failed and
what `probe_process_identity` answers. The guard and the pending octile of a slot are not part of
this model; the writes of `clear_slot_guard` do not touch the words that are.
-/

namespace Sintra.Ring

open Function

/-- Source: `rings.h`, `Reader_status` -/
inductive ReaderStatus
  | inactive
  | active
  | evicted
  deriving DecidableEq

/-- A process, by what identifies its incarnation. -/
structure Process where
  pid : ℕ
  startStamp : ℕ
  pid_ne_zero : pid ≠ 0
  startStamp_ne_zero : startStamp ≠ 0
  deriving DecidableEq

/-- One process for each number. -/
def Process.numbered (k : ℕ) : Process := ⟨k + 1, 1, Nat.succ_ne_zero k, Nat.one_ne_zero⟩

/-- The incarnation a slot publishes. Source: `process_utils.h`, `process_incarnation_t` -/
structure Owner where
  pid : ℕ
  startStamp : ℕ
  pidNamespaceState : ℕ
  pidNamespaceDevice : ℕ
  pidNamespaceInode : ℕ
  timeNamespaceState : ℕ
  timeNamespaceDevice : ℕ
  timeNamespaceInode : ℕ
  deriving DecidableEq

namespace Owner

/-- `process_incarnation_t{}` -/
def empty : Owner := ⟨0, 0, 0, 0, 0, 0, 0, 0⟩

/-- The number of stores that publish an owner. -/
def words : ℕ := 8

/-- The `k`-th store of `publish_owner`, of `new` over `old`.
Source: `rings.h`, `Payload::publish_owner` -/
def store (new old : Owner) : ℕ → Owner
  | 0 => { old with pid := new.pid }
  | 1 => { old with startStamp := new.startStamp }
  | 2 => { old with pidNamespaceState := new.pidNamespaceState }
  | 3 => { old with pidNamespaceDevice := new.pidNamespaceDevice }
  | 4 => { old with pidNamespaceInode := new.pidNamespaceInode }
  | 5 => { old with timeNamespaceState := new.timeNamespaceState }
  | 6 => { old with timeNamespaceDevice := new.timeNamespaceDevice }
  | 7 => { old with timeNamespaceInode := new.timeNamespaceInode }
  | _ => old

/-- The process an owner names, if `probe_process_identity` can look it up at all: with a zero PID or
stamp it answers UNKNOWN.
Source: `process_utils.h`, `probe_process_identity_native` -/
def process? (o : Owner) : Option Process :=
  if h : o.pid ≠ 0 ∧ o.startStamp ≠ 0 then some ⟨o.pid, o.startStamp, h.1, h.2⟩ else none

/-- The owner with the identity of `p`, and the namespaces of `o`.
Source: `process_utils.h`, `current_process_incarnation` -/
def ofProcess (p : Process) (o : Owner) : Owner :=
  { o with pid := p.pid, startStamp := p.startStamp }

theorem process?_eq_some {o : Owner} {p : Process} (hpid : o.pid = p.pid)
    (hstamp : o.startStamp = p.startStamp) : o.process? = some p := by
  have h : o.pid ≠ 0 ∧ o.startStamp ≠ 0 := by
    rw [hpid, hstamp]
    exact ⟨p.pid_ne_zero, p.startStamp_ne_zero⟩
  rw [process?, dif_pos h]
  congr

/-- After the first store the PID is the new one. -/
theorem pid_store {new old : Owner} {k : ℕ} (h : 1 ≤ k → old.pid = new.pid) :
    (new.store old k).pid = new.pid := by
  match k, h with
  | 0, _ => rfl
  | 1, h | 2, h | 3, h | 4, h | 5, h | 6, h | 7, h | _ + 8, h => exact h (by omega)

/-- After the second store the start stamp is the new one. -/
theorem startStamp_store {new old : Owner} {k : ℕ} (hk : 1 ≤ k)
    (h : 2 ≤ k → old.startStamp = new.startStamp) :
    (new.store old k).startStamp = new.startStamp := by
  match k, h with
  | 0, _ => omega
  | 1, _ => rfl
  | 2, h | 3, h | 4, h | 5, h | 6, h | 7, h | _ + 8, h => exact h (by omega)

end Owner

/-- The words of a slot that decide who owns it. -/
structure Slot where
  status : ReaderStatus
  owner : Owner
  deriving DecidableEq

/-- A stack of indices with capacity `n`; `none` stands for the `-1` of a popped entry.
Source: `rings.h`, `Index_stack` -/
structure IndexStack (n : ℕ) where
  arr : ℕ → Option (Fin n)
  count : ℕ

namespace IndexStack

variable {n : ℕ}

/-- Source: `rings.h`, `Index_stack::contains` -/
def contains (st : IndexStack n) (i : Fin n) : Bool :=
  (List.range st.count).any fun j => st.arr j = some i

theorem contains_iff {st : IndexStack n} {i : Fin n} :
    st.contains i = true ↔ ∃ j < st.count, st.arr j = some i := by
  simp [contains]

/-- The stack after `Control()` has pushed every index. -/
def full (n : ℕ) : IndexStack n where
  arr j := if h : j < n then some ⟨j, h⟩ else none
  count := n

end IndexStack

namespace Slots

/-- A thread that constructs or destroys a reader, or scavenges. -/
structure Agent where
  process : Process
  reader : ℕ
  deriving DecidableEq

/-- A call of `scavenge_orphans`. `orphans` and `clean` are ghosts: the slots no live reader owned
when the call took the lock, and that no reset has failed and no dead owner was left UNKNOWN. -/
structure Scan (n : ℕ) where
  forAdmission : Bool
  freed : Bool
  orphans : Finset (Fin n)
  clean : Bool
  deriving DecidableEq

/-- What follows a push. -/
inductive Return (n : ℕ)
  /-- The constructor throws. -/
  | failed
  /-- The destructor is done. -/
  | retired
  /-- `scavenge_orphans` goes on with slot `k`. -/
  | scan (c : Scan n) (k : ℕ)
  deriving DecidableEq

/-- Where an agent stands. -/
inductive Pc (n : ℕ)
  | idle
  /-- A `Ring_R` with its slot. -/
  | owns (i : Fin n)
  /-- `Ring_R()`, before it takes the lock. -/
  | admission (scavenged : Bool)
  | admitLocked (scavenged : Bool)
  /-- `pop_or` has written the count. -/
  | popped (i : Fin n)
  /-- `pop_or` has returned. -/
  | reserved (i : Fin n)
  /-- `k` words of the owner are published. -/
  | publish (i : Fin n) (o : Owner) (k : ℕ)
  /-- The slot is ACTIVE, the lock still held. -/
  | admitted (i : Fin n)
  /-- `~Ring_R()`, before it takes the lock. -/
  | retire (i : Fin n)
  | retireLocked (i : Fin n)
  /-- `k` words of the owner are cleared, the status is next. -/
  | clearing (i : Fin n) (k : ℕ)
  /-- The slot is to be pushed, unless the stack has it. -/
  | push (i : Fin n) (r : Return n)
  /-- One of the two stores of the push is made: that of the count if `countFirst`. -/
  | pushing (i : Fin n) (countFirst : Bool) (r : Return n)
  /-- The operation is over, the lock still held. -/
  | leave
  /-- `scavenge_orphans`, before it takes the lock. -/
  | scavenge (forAdmission : Bool)
  /-- The loop is at slot `k`; with `k = n` it is over and the lock still held. -/
  | scan (c : Scan n) (k : ℕ)
  /-- Slot `i` is INACTIVE and `k` words of its owner are cleared. -/
  | freeing (c : Scan n) (i : Fin n) (k : ℕ)
  deriving DecidableEq

/-- Where a push returns to; for a call of `scavenge_orphans` that pushed, a slot is freed. -/
def Return.next {n : ℕ} (pushed : Bool) : Return n → Pc n
  | .failed => .leave
  | .retired => .leave
  | .scan c k => .scan { c with freed := c.freed || pushed } k

/-- What a step learns from outside. -/
structure Choice where
  /-- `reset_quiescent` failed. -/
  resetError : Bool
  /-- `probe_process_identity` answers DEAD. -/
  answersDead : Bool
  /-- The push stores the count before the entry. -/
  countFirst : Bool
  /-- The namespaces of a new owner. -/
  namespaces : Owner

structure State (n : ℕ) where
  slots : Fin n → Slot
  /-- `free_rs_stack` -/
  stack : IndexStack n
  /-- Who holds `rs_stack_spinlock`. -/
  holder : Option Agent
  /-- The processes that are dead. -/
  exited : Finset Process
  pc : Agent → Pc n
  /-- A ghost: the reader that was admitted to a slot and neither retired nor scavenged. -/
  tenant : Fin n → Option Agent

/-- The ring as its creator leaves it. Source: `rings.h`, `Control::Control` -/
def State.initial (n : ℕ) : State n where
  slots _ := ⟨.inactive, Owner.empty⟩
  stack := IndexStack.full n
  holder := none
  exited := ∅
  pc _ := .idle
  tenant _ := none

namespace State

variable {n : ℕ}

/-- No live process holds the lock. -/
def lockFree (s : State n) : Bool := s.holder.all fun a => a.process ∈ s.exited

def goto (s : State n) (a : Agent) (c : Pc n) : State n :=
  { s with pc := update s.pc a c }

def lock (s : State n) (a : Agent) (c : Pc n) : Option (State n) :=
  if s.lockFree then some ({ s with holder := some a }.goto a c) else none

def unlock (s : State n) (a : Agent) (c : Pc n) : State n :=
  { s with holder := none }.goto a c

def setOwner (s : State n) (i : Fin n) (o : Owner) : State n :=
  { s with slots := update s.slots i { s.slots i with owner := o } }

def setStatus (s : State n) (i : Fin n) (status : ReaderStatus) : State n :=
  { s with slots := update s.slots i { s.slots i with status := status } }

def setTenant (s : State n) (i : Fin n) (a : Option Agent) : State n :=
  { s with tenant := update s.tenant i a }

def setCount (s : State n) (count : ℕ) : State n :=
  { s with stack := { s.stack with count := count } }

def setEntry (s : State n) (j : ℕ) (entry : Option (Fin n)) : State n :=
  { s with stack := { s.stack with arr := update s.stack.arr j entry } }

/-- A live reader owns the slot. -/
def ownedByLive (s : State n) (i : Fin n) : Bool :=
  (s.tenant i).any fun a => a.process ∉ s.exited

/-- The owner of the slot is a process that is dead. -/
def ownerExited (s : State n) (i : Fin n) : Bool :=
  (s.slots i).owner.process?.any fun p => p ∈ s.exited

/-- Source: `rings.h`, `Index_stack::push`, after `Index_stack::contains`. A push onto a full stack
throws. -/
def pushStep (s : State n) (a : Agent) (i : Fin n) (r : Return n) (countFirst : Bool) :
    Option (State n) :=
  if s.stack.contains i then some (s.goto a (r.next false))
  else if n ≤ s.stack.count then none
  else if countFirst then some ((s.setCount (s.stack.count + 1)).goto a (.pushing i true r))
  else some ((s.setEntry s.stack.count (some i)).goto a (.pushing i false r))

/-- The constructor with the lock: it pops a slot, scavenges once, or gives up.
Source: `rings.h`, `Ring_R::Ring_R` -/
def admitStep (s : State n) (a : Agent) (scavenged : Bool) : Option (State n) :=
  if s.stack.count = 0 then
    some (s.unlock a (if scavenged then .idle else .scavenge true))
  else match s.stack.arr (s.stack.count - 1) with
    | some i => some ((s.setCount (s.stack.count - 1)).goto a (.popped i))
    | none => none

/-- The loop body of `scavenge_orphans` up to the slot being INACTIVE. A DEAD answer is only given
for the owner of a process that is dead.
Source: `rings.h`, `Control::scavenge_orphans` -/
def scanStep (s : State n) (a : Agent) (ch : Choice) (c : Scan n) (i : Fin n) :
    Option (State n) :=
  let skipped := s.goto a (.scan { c with clean := false } (i + 1))
  if (s.slots i).status = .inactive then
    if ch.resetError then some skipped else some (s.goto a (.freeing c i 0))
  else if ch.answersDead then
    if s.ownerExited i = false then none
    else if ch.resetError then some skipped
    else
      some (((s.setStatus i .inactive).setTenant i none).goto a (.freeing { c with freed := true } i 0))
  else
    some (s.goto a (.scan { c with clean := c.clean && !s.ownerExited i } (i + 1)))

/-- The next store of an agent. -/
def advance (s : State n) (a : Agent) (ch : Choice) : Option (State n) :=
  match s.pc a with
  | .idle => none
  | .owns _ => none
  | .admission scavenged => s.lock a (.admitLocked scavenged)
  | .admitLocked scavenged => s.admitStep a scavenged
  | .popped i => some ((s.setEntry s.stack.count none).goto a (.reserved i))
  | .reserved i =>
    if ch.resetError then some (s.goto a (.push i .failed))
    else some (s.goto a (.publish i (Owner.ofProcess a.process ch.namespaces) 0))
  | .publish i o k =>
    if k < Owner.words then
      some ((s.setOwner i (o.store (s.slots i).owner k)).goto a (.publish i o (k + 1)))
    else some (((s.setStatus i .active).setTenant i (some a)).goto a (.admitted i))
  | .admitted i => some (s.unlock a (.owns i))
  | .retire i => s.lock a (.retireLocked i)
  | .retireLocked i =>
    if ch.resetError then some (s.unlock a (.retire i)) else some (s.goto a (.clearing i 0))
  | .clearing i k =>
    if k < Owner.words then
      some ((s.setOwner i (Owner.empty.store (s.slots i).owner k)).goto a (.clearing i (k + 1)))
    else some (((s.setStatus i .inactive).setTenant i none).goto a (.push i .retired))
  | .push i r => s.pushStep a i r ch.countFirst
  | .pushing i true r => some ((s.setEntry (s.stack.count - 1) (some i)).goto a (r.next true))
  | .pushing _ false r => some ((s.setCount (s.stack.count + 1)).goto a (r.next true))
  | .leave => some (s.unlock a .idle)
  | .scavenge forAdmission =>
    s.lock a (.scan
      { forAdmission := forAdmission
        freed := false
        orphans := Finset.univ.filter fun i => s.ownedByLive i = false
        clean := true } 0)
  | .scan c k =>
    if h : k < n then s.scanStep a ch c ⟨k, h⟩
    else some (s.unlock a (if c.forAdmission && c.freed then .admission true else .idle))
  | .freeing c i k =>
    if k < Owner.words then
      some ((s.setOwner i (Owner.empty.store (s.slots i).owner k)).goto a (.freeing c i (k + 1)))
    else some (s.goto a (.push i (.scan c (i + 1))))

end State

inductive Action (n : ℕ)
  | construct (a : Agent)
  | destroy (a : Agent)
  | scavenge (a : Agent)
  | advance (a : Agent) (ch : Choice)
  /-- The writer evicts a reader, under the lock. -/
  | evict (i : Fin n)
  /-- An evicted reader resumes. -/
  | resume (a : Agent)
  | exit (p : Process)

/-- A step of the slots. A dead process takes none. -/
def State.step {n : ℕ} (s : State n) : Action n → Option (State n)
  | .construct a =>
    if a.process ∉ s.exited ∧ s.pc a = .idle then some (s.goto a (.admission false)) else none
  | .destroy a =>
    match s.pc a with
    | .owns i => if a.process ∉ s.exited then some (s.goto a (.retire i)) else none
    | _ => none
  | .scavenge a =>
    if a.process ∉ s.exited ∧ s.pc a = .idle then some (s.goto a (.scavenge false)) else none
  | .advance a ch => if a.process ∉ s.exited then s.advance a ch else none
  | .evict i =>
    if s.lockFree ∧ (s.slots i).status = .active then some (s.setStatus i .evicted) else none
  | .resume a =>
    match s.pc a with
    | .owns i =>
      if a.process ∉ s.exited ∧ (s.slots i).status = .evicted then some (s.setStatus i .active)
      else none
    | _ => none
  | .exit p => some { s with exited := insert p s.exited }

/-- The reader slots of a ring with `n` of them. -/
def machine (n : ℕ) : Machine (State n) (Action n) where
  init s := s = State.initial n
  step := State.step

end Slots

end Sintra.Ring
