import Sintra.Ring.ReaderSlots

/-!
# The files of a ring

How the rings of `rings.h` share a data and a control file: the constructor of a `Ring` takes the
lifecycle mutex, finishes a removal that was interrupted, removes files that nobody is attached to,
opens or creates both files and claims a record in the attachment table; the destructor releases its
record and removes the files if no other live process is attached. The table, the flag `deleting` and
the mutex are in an anchor file, which is never removed. The mutex is taken over from a holder that
died.

Each store to the anchor, each file operation and each liveness probe is a step, and a process may die
between any two. Probes are exact and a removal that is attempted succeeds, so that
`remove_ring_files` finds both files absent. Opening and creating files may fail; the constructor then
throws, and the destructor of its base cleans up. `num_attached` is not part of the model: it is
written and never read.

Two ghosts: `interrupted` says that a process has died in a detach, no live record was left, and no
attach has succeeded since; `sole` says that no other live record was there when the detach under way
began to count.
-/

namespace Sintra.Ring.Lifecycle

open Slots (Agent)

/-! ### Records -/

/-- Source: `rings.h`, `ring_lifecycle_attachment_record` -/
structure Record where
  startStamp : ℕ
  pid : ℕ
  deriving DecidableEq

/-- The record of a process. -/
def Record.ofProcess (p : Process) : Record := ⟨p.startStamp, p.pid⟩

/-- Source: `rings.h`, `attachment_owner_live`, with exact probes -/
def Record.live (exited : Finset Process) (r : Record) : Bool :=
  r.pid ≠ 0 && decide (∀ p ∈ exited, Record.ofProcess p ≠ r)

/-! ### Control points -/

/-- Who calls `scavenge_dead_attachments` and `count_live_attachments`. -/
inductive Stage (k : ℕ)
  /-- `recover_before_data_attach` -/
  | recover
  /-- `claim_lifecycle_attachment` -/
  | claim
  /-- `~Ring_lifecycle_guard_base` after a constructor that threw. -/
  | abort
  /-- `release_lifecycle_attachment` -/
  | release (i : Fin k)
  deriving DecidableEq

/-- Why the files are removed. -/
inductive Removal
  /-- `recover_interrupted_delete` -/
  | interrupted
  /-- `recover_before_data_attach` finds nobody attached. -/
  | stale
  /-- A constructor threw and nobody is attached. -/
  | aborted
  /-- `~Ring` and `~Ring_data` of the last attachment … -/
  | final
  /-- … and then `~Ring_lifecycle_guard_base`. -/
  | again
  deriving DecidableEq

/-- What follows the release of the mutex. -/
inductive Exit (k : ℕ)
  | attached (i : Fin k)
  | failed
  | detached (final : Bool)
  deriving DecidableEq

/-- Where a ring object stands. -/
inductive Pc (k : ℕ)
  | idle
  /-- The constructor looks for the anchor, and creates it if there are no files either. -/
  | anchor
  | dataExists
  | controlExists
  | visible
  | create
  /-- `lock_lifecycle`, of an attach or of a detach. -/
  | wait (release : Option (Fin k))
  /-- `recover_interrupted_delete` -/
  | deleting
  /-- `scavenge_dead_attachments`, at record `j`; its pid is cleared, its stamp is next. -/
  | scavenge (w : Stage k) (j : ℕ)
  | scavengeStamp (w : Stage k) (j : Fin k)
  /-- `count_live_attachments`, at record `j`. -/
  | count (w : Stage k) (j : ℕ) (sum : ℕ)
  | removeControl (r : Removal)
  | removeData (r : Removal)
  | clearDeleting (r : Removal)
  /-- The files are opened, or created and opened. -/
  | attachData
  | mapData
  | attachControl
  | mapControl
  /-- `claim_lifecycle_attachment`: is record `j` free? -/
  | slot (j : ℕ)
  | claimPid (i : Fin k)
  | attached (i : Fin k)
  /-- `begin_lifecycle_delete` -/
  | setDeleting (i : Fin k)
  /-- `clear_owned_attachment_slot` -/
  | clearPid (i : Fin k) (final : Bool)
  | clearStamp (i : Fin k) (final : Bool)
  | leave (x : Exit k)
  deriving DecidableEq

variable {k : ℕ}

def Exit.pc : Exit k → Pc k
  | .attached i => .attached i
  | .failed => .idle
  | .detached _ => .idle

/-- What follows the count. -/
def Stage.counted (sum : ℕ) : Stage k → Pc k
  | .recover => if sum = 0 then .removeControl .stale else .attachData
  | .claim => .slot 0
  | .abort => if sum = 0 then .removeControl .aborted else .leave .failed
  | .release i => if sum ≤ 1 then .setDeleting i else .clearPid i false

/-- What follows a removal. -/
def Removal.removed : Removal → Pc k
  | .interrupted => .clearDeleting .interrupted
  | .stale => .attachData
  | .aborted => .leave .failed
  | .final => .removeControl .again
  | .again => .clearDeleting .again

/-- The flag `deleting` is cleared. -/
def Removal.cleared : Removal → Pc k
  | .interrupted => .scavenge .recover 0
  | _ => .leave (.detached true)

/-! ### States and steps -/

structure State (k : ℕ) where
  /-- The anchor file is there. -/
  anchor : Bool
  data : Bool
  control : Bool
  deleting : Bool
  records : Fin k → Record
  /-- Who holds the lifecycle mutex. -/
  holder : Option Agent
  exited : Finset Process
  pc : Agent → Pc k
  /-- Ghosts. -/
  interrupted : Bool
  sole : Bool

/-- There is no ring. -/
def State.initial (k : ℕ) : State k where
  anchor := false
  data := false
  control := false
  deleting := false
  records _ := ⟨0, 0⟩
  holder := none
  exited := ∅
  pc _ := .idle
  interrupted := false
  sole := false

/-- What a step does to the anchor and the files. -/
inductive Effect (k : ℕ)
  | skip
  | anchor
  | lock
  | unlock
  | deleting (b : Bool)
  | pid (i : Fin k) (v : ℕ)
  | startStamp (i : Fin k) (v : ℕ)
  | data (b : Bool)
  | control (b : Bool)
  /-- A detach begins to count; only a ghost changes. -/
  | counting (i : Fin k)

/-- What a step learns from outside: that a file could not be opened or created, or that the anchor did
not become visible. -/
structure Choice where
  error : Bool

namespace State

def lockFree (s : State k) : Bool := s.holder.all fun a => a.process ∈ s.exited

/-- The record is one of a live process. -/
def live (s : State k) (i : Fin k) : Bool := (s.records i).live s.exited

def goto (s : State k) (a : Agent) (c : Pc k) : State k :=
  { s with pc := Function.update s.pc a c }

def apply (s : State k) (a : Agent) : Effect k → State k
  | .skip => s
  | .anchor => { s with anchor := true }
  | .lock => { s with holder := some a }
  | .unlock => { s with holder := none }
  | .deleting b => { s with deleting := b }
  | .pid i v =>
    { s with
      records := Function.update s.records i { s.records i with pid := v }
      interrupted := s.interrupted && v = 0 }
  | .startStamp i v =>
    { s with records := Function.update s.records i { s.records i with startStamp := v } }
  | .data b => { s with data := b }
  | .control b => { s with control := b }
  | .counting i => { s with sole := decide (∀ j, s.live j = true → j = i) }

/-- `scavenge_dead_attachments` is done. -/
def scavenged : Stage k → Effect k × Pc k
  | .claim => (.skip, .slot 0)
  | .release i => (.counting i, .count (.release i) 0 0)
  | w => (.skip, .count w 0 0)

/-- The next operation of a ring object, and where it leads. -/
def next (s : State k) (a : Agent) (ch : Choice) : Option (Effect k × Pc k) :=
  match s.pc a with
  | .idle => none
  | .attached _ => none
  -- the anchor
  | .anchor => some (.skip, if s.anchor then .visible else .dataExists)
  | .dataExists => some (.skip, if s.data then .visible else .controlExists)
  | .controlExists => some (.skip, if s.control then .visible else .create)
  | .create => if ch.error then some (.skip, .idle) else some (.anchor, .visible)
  | .visible =>
    some (.skip, if s.anchor then .wait none else if ch.error then .idle else .visible)
  | .wait release =>
    if s.lockFree then
      some (.lock, match release with
        | none => .deleting
        | some i => .scavenge (.release i) 0)
    else none
  -- the recovery before an attach
  | .deleting =>
    some (.skip, if s.deleting then .removeControl .interrupted else .scavenge .recover 0)
  | .scavenge w j =>
    if h : j < k then
      if (s.records ⟨j, h⟩).pid ≠ 0 ∧ s.live ⟨j, h⟩ = false then
        some (.pid ⟨j, h⟩ 0, .scavengeStamp w ⟨j, h⟩)
      else some (.skip, .scavenge w (j + 1))
    else some (scavenged w)
  | .scavengeStamp w j => some (.startStamp j 0, .scavenge w (j + 1))
  | .count w j sum =>
    if h : j < k then some (.skip, .count w (j + 1) (if s.live ⟨j, h⟩ then sum + 1 else sum))
    else some (.skip, w.counted sum)
  | .removeControl r => some (.control false, .removeData r)
  | .removeData r => some (.data false, r.removed)
  | .clearDeleting r => some (.deleting false, r.cleared)
  -- the attach
  | .attachData =>
    if s.data then some (.skip, .mapData)
    else if ch.error then some (.skip, .scavenge .abort 0)
    else some (.data true, .mapData)
  | .mapData => some (.skip, if ch.error then .scavenge .abort 0 else .attachControl)
  | .attachControl =>
    if s.control then some (.skip, .mapControl)
    else if ch.error then some (.skip, .scavenge .abort 0)
    else some (.control true, .mapControl)
  | .mapControl => some (.skip, if ch.error then .scavenge .abort 0 else .scavenge .claim 0)
  | .slot j =>
    if h : j < k then
      if (s.records ⟨j, h⟩).pid = 0 then
        some (.startStamp ⟨j, h⟩ a.process.startStamp, .claimPid ⟨j, h⟩)
      else some (.skip, .slot (j + 1))
    else some (.skip, .scavenge .abort 0)
  | .claimPid i => some (.pid i a.process.pid, .leave (.attached i))
  -- the detach
  | .setDeleting i => some (.deleting true, .clearPid i true)
  | .clearPid i final => some (.pid i 0, .clearStamp i final)
  | .clearStamp i final =>
    some (.startStamp i 0, if final then .removeControl .final else .leave (.detached false))
  | .leave x => some (.unlock, x.pc)

end State

/-- The object is in its detach and has the mutex. -/
def Pc.detaching : Pc k → Bool
  | .scavenge (.release _) _ | .scavengeStamp (.release _) _ | .count (.release _) _ _
  | .setDeleting _ | .clearPid _ _ | .clearStamp _ _ | .removeControl .final
  | .removeData .final | .removeControl .again | .removeData .again | .clearDeleting .again
  | .leave (.detached _) => true
  | _ => false

/-- A process dies. -/
def State.die (s : State k) (p : Process) : State k :=
  { s with
    exited := insert p s.exited
    interrupted := s.interrupted ||
      ((s.holder.any fun a => a.process = p && (s.pc a).detaching) &&
        decide (∀ i, (s.records i).live (insert p s.exited) = false)) }

inductive Action
  /-- A ring is constructed, or destroyed. -/
  | attach (a : Agent)
  | detach (a : Agent)
  | advance (a : Agent) (ch : Choice)
  | exit (p : Process)

def State.step (s : State k) : Action → Option (State k)
  | .attach a =>
    if a.process ∉ s.exited ∧ s.pc a = .idle then some (s.goto a .anchor) else none
  | .detach a =>
    if a.process ∉ s.exited then
      match s.pc a with
      | .attached i => some (s.goto a (.wait (some i)))
      | _ => none
    else none
  | .advance a ch =>
    if a.process ∉ s.exited then (s.next a ch).map fun m => (s.apply a m.1).goto a m.2 else none
  | .exit p => some (s.die p)

/-- The files of a ring with `k` attachment records. -/
def machine (k : ℕ) : Machine (State k) Action where
  init s := s = State.initial k
  step := State.step

end Sintra.Ring.Lifecycle
