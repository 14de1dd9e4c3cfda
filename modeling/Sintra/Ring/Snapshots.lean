import Sintra.Ring.GuardsProgress

/-!
# Snapshots of a ring

One writer and any number of readers on the elements of a ring. The writer reserves elements in
`prepare_write`, stores them and publishes them in `done_writing`. A reader gets ranges from
`start_reading` and `wait_for_new_data`, and gives them back in `done_reading_new_data` and
`done_reading`. The words by which they keep out of each other's way are those of `Sintra.Ring.Guards`:
every change to them is a step of that machine, and the programs of this module call its operations and
go on when these return.

Positions are sequence numbers; the element at sequence number `x` is stored at index `x % numElements`
of the mapped memory. A thread uses its `Ring_R` alone, and others may only ask it to stop. No process
dies here. The writer has at most an octile of elements that it has not published, over all its calls of
`prepare_write`; the code has that bound for each call. Left out are the wake-ups (see `Sintra.Ring.Wakeups`), the diagnostic counters, and the call
of `try_rollback_unpaired_read_access` by `handle_eviction`.
-/

namespace Sintra.Ring

/-- Source: `rings.h`, `octile_of_index` -/
def octileOfIndex (idx ring : ℕ) : Octile := 
  ⟨8 * idx / ring % 8, Nat.mod_lt _ (Nat.succ_pos 7)⟩

/-- Source: `platform_defs.h`, `mod_pos_i64` -/
def modPosI64 (x : ℤ) (m : ℕ) : ℕ := (x % m).toNat

namespace Snapshots

open Slots (Agent)
open Guards (Outcome Call)

/-- A ring and who uses it. -/
structure Config where
  /-- An eighth of the ring. -/
  octileElements : ℕ
  /-- The agent with the `Ring_W`. -/
  writer : Agent
  /-- `m_max_trailing_elements` -/
  maxTrailingElements : Agent → ℕ
  octileElements_pos : 0 < octileElements
  maxTrailingElements_le : ∀ a, maxTrailingElements a ≤ 3 * (8 * octileElements) / 4

namespace Config

variable (cfg : Config)

/-- `m_num_elements` -/
def numElements : ℕ := 8 * cfg.octileElements

/-- The octile of a sequence number. -/
def octileOf (sequence : ℕ) : Octile := octileOfIndex (sequence % cfg.numElements) cfg.numElements

/-- Source: `rings.h`, `Ring_R::trailing_octile_of` -/
def trailingOctileOf (a : Agent) (sequence : ℕ) : Octile :=
  octileOfIndex (modPosI64 (sequence - cfg.maxTrailingElements a) cfg.numElements) cfg.numElements

end Config

/-! ### Readers -/

/-- Who called `handle_eviction`. -/
inductive Caller
  /-- `produce_range` of `wait_for_new_data` -/
  | produceRange
  | doneReadingNewData
  | handleEvictionIfNeeded
  deriving DecidableEq

/-- Where a reader stands in its own calls. -/
inductive Pc
  | idle
  /-- `start_reading`, at the head of its loop. -/
  | start (num : ℕ)
  /-- … in `acquire_guard`. -/
  | startGuard (num : ℕ) (o : Octile)
  /-- … the head is confirmed, the status is to be checked. -/
  | startStatus (num : ℕ) (o : Octile) (confirmed : ℕ)
  /-- … in `release_guard`. -/
  | startRelease (num : ℕ)
  /-- `wait_for_new_data`, before `produce_range`. -/
  | wait
  /-- `handle_eviction`, before the load of the state word. -/
  | eviction (c : Caller)
  /-- … in `acquire_guard`, of a slot that guards nothing. -/
  | reattach (c : Caller)
  /-- `resume_at_leading_sequence`, at the head of its loop. -/
  | resume (c : Caller)
  /-- … before the load of the head. -/
  | resumeHead (c : Caller)
  /-- … in `acquire_guard`. -/
  | resumeGuard (c : Caller)
  /-- … in `release_guard`. -/
  | resumeRelease (c : Caller)
  /-- `produce_range`, after `handle_eviction`. -/
  | produce
  /-- `done_reading_new_data`, in `acquire_guard`. -/
  | migrate (o : Octile)
  /-- `with_copying_mark` -/
  | copy
  /-- `done_reading` -/
  | done
  deriving DecidableEq

/-- A range of elements that a call returned, by their sequence numbers. -/
structure Range where
  first : ℕ
  last : ℕ
  /-- The slot of the reader has been EVICTED since. -/
  evicted : Bool
  deriving DecidableEq

/-- A `Ring_R`. -/
structure Reader where
  pc : Pc
  /-- `m_reading` -/
  reading : Bool
  /-- `m_stopping` -/
  stopping : Bool
  /-- `m_reading_sequence` -/
  readingSequence : ℕ
  /-- `m_trailing_octile` -/
  trailingOctile : Octile
  /-- `m_evicted_since_last_wait` -/
  evictedSinceLastWait : Bool
  /-- What the last `wait_for_new_data` returned, from one sequence number to another. -/
  result : Option (ℕ × ℕ)
  /-- The ranges that were returned and are not given back. -/
  held : List Range
  deriving DecidableEq

namespace Reader

/-- A new reader, in a slot whose reading sequence is `v`. -/
def constructed (v : ℕ) : Reader := ⟨.idle, false, false, v, .first, false, none, []⟩

/-- The slot of the reader is EVICTED. -/
def lose (r : Reader) : Reader := { r with held := r.held.map fun h => { h with evicted := true } }

/-- `handle_eviction` returns `b`, and its caller goes on. Source: `rings.h`, `produce_range`,
`done_reading_new_data` and `handle_eviction_if_needed` -/
def handled (cfg : Config) (a : Agent) (b : Bool) (r : Reader) : Caller → Reader × Option Call
  | .produceRange =>
    if b || r.stopping then ({ r with pc := .idle }, none) else ({ r with pc := .produce }, none)
  | .doneReadingNewData =>
    if b then
      if r.stopping then ({ r with pc := .idle }, none)
      else ({ r with pc := .eviction .doneReadingNewData }, none)
    else
      let newOctile := cfg.trailingOctileOf a r.readingSequence
      if newOctile = r.trailingOctile then ({ r with pc := .idle }, none)
      else ({ r with pc := .migrate newOctile }, some (.acquireGuard newOctile false))
  | .handleEvictionIfNeeded => ({ r with pc := .idle }, none)

/-- `start_reading` fails. -/
def failed (r : Reader) : Reader := { r with pc := .idle, reading := false }

/-- The next step of a reader that is not in an operation of its guard: the head is `leading`, the state
word of its slot is `w`, its last operation returned `out`, and `giveUp` says whether
`wait_for_new_data` returns an empty range. The second component is the operation that it calls.
Source: `rings.h`, `start_reading`, `wait_for_new_data`, `handle_eviction`,
`resume_at_leading_sequence`, `done_reading_new_data`, `with_copying_mark` and `done_reading` -/
def next (cfg : Config) (a : Agent) (leading : ℕ) (w : ReaderState) (out : Outcome) (giveUp : Bool)
    (r : Reader) : Option (Reader × Option Call) :=
  match r.pc with
  | .idle => none
  | .start num =>
    let o := cfg.trailingOctileOf a leading
    some ({ r with pc := .startGuard num o }, some (.acquireGuard o false))
  | .startGuard num o =>
    if out = .acquired then
      if cfg.trailingOctileOf a leading = o then
        some ({ r with pc := .startStatus num o leading }, none)
      else some ({ r with pc := .startRelease num }, some .releaseGuard)
    else some (r.failed, none)
  | .startStatus num o confirmed =>
    if w.status = .evicted then some (r.failed, none)
    else
      some ({ r with
        pc := .idle
        readingSequence := confirmed
        trailingOctile := o
        held := [⟨confirmed - num, confirmed, false⟩] }, none)
  | .startRelease num =>
    if out = .released true then some ({ r with pc := .start num }, none) else some (r.failed, none)
  | .wait =>
    if giveUp then some ({ r with pc := .idle }, none)
    else if r.readingSequence = leading then none
    else some ({ r with pc := .eviction .produceRange }, none)
  | .eviction c =>
    if w.guardPresent || r.stopping then some (r.handled cfg a false c)
    else if w.status = .evicted then some ({ r with pc := .resume c }, none)
    else if w.status = .inactive then some (r.handled cfg a false c)
    else if w.request then some (r, none)
    else
      let o := cfg.trailingOctileOf a r.readingSequence
      some ({ r with pc := .reattach c, trailingOctile := o }, some (.acquireGuard o true))
  | .reattach c => some (r.handled cfg a false c)
  | .resume c =>
    if r.stopping then some (r.handled cfg a true c)
    else if w.guardTransitionAllowed then some ({ r with pc := .resumeHead c }, none)
    else some (r, none)
  | .resumeHead c =>
    let o := cfg.trailingOctileOf a leading
    some ({ r with pc := .resumeGuard c, readingSequence := leading, trailingOctile := o },
      some (.acquireGuard o true))
  | .resumeGuard c =>
    if out = .acquired then
      if cfg.trailingOctileOf a leading = r.trailingOctile then
        some ({ r with readingSequence := leading, evictedSinceLastWait := true }.handled cfg a true c)
      else some ({ r with pc := .resumeRelease c }, some .releaseGuard)
    else some (r.handled cfg a true c)
  | .resumeRelease c => some ({ r with pc := .resume c }, none)
  | .produce =>
    let lag := min (leading - r.readingSequence) cfg.numElements
    if lag = 0 then some ({ r with pc := .idle }, none)
    else
      let last := r.readingSequence + lag
      some ({ r with
        pc := .idle
        readingSequence := last
        result := some (r.readingSequence, last)
        held := ⟨r.readingSequence, last, w.status = .evicted⟩ :: r.held }, none)
  | .migrate o =>
    if out = .acquired then some ({ r with pc := .idle, trailingOctile := o }, none)
    else if out = .evicted && !r.stopping then
      some ({ r with pc := .eviction .doneReadingNewData }, none)
    else some ({ r with pc := .idle }, none)
  | .copy => some ({ r with pc := .idle }, none)
  | .done => some ({ r with pc := .idle, reading := false }, none)

end Reader

/-- A call of a reader. -/
inductive ReaderCall
  | startReading (num : ℕ)
  | waitForNewData
  | doneReadingNewData
  | handleEvictionIfNeeded
  | withCopyingMark
  | doneReading

/-- A reader that is in no call makes one. `wait_for_new_data` and `with_copying_mark` are only called
between `start_reading` and `done_reading`. `done_reading_new_data` gives back all but the trailing
elements, `done_reading` everything. -/
def Reader.call (cfg : Config) (a : Agent) (r : Reader) : ReaderCall → Option (Reader × Option Call)
  | .startReading num =>
    if r.pc = .idle ∧ r.reading = false ∧ r.stopping = false ∧ num ≤ cfg.maxTrailingElements a then
      some ({ r with pc := .start num, reading := true, held := [] }, none)
    else none
  | .waitForNewData =>
    if r.pc = .idle ∧ r.reading then some ({ r with pc := .wait, result := none }, none) else none
  | .doneReadingNewData =>
    if r.pc = .idle then
      let tail := r.readingSequence - cfg.maxTrailingElements a
      let held := r.held.map fun h => { h with first := max h.first tail }
      if r.stopping then some ({ r with held := held }, none)
      else some ({ r with pc := .eviction .doneReadingNewData, held := held }, none)
    else none
  | .handleEvictionIfNeeded =>
    if r.pc = .idle then some ({ r with pc := .eviction .handleEvictionIfNeeded }, none) else none
  | .withCopyingMark =>
    if r.pc = .idle ∧ r.reading then some ({ r with pc := .copy }, some .withCopyingMark) else none
  | .doneReading =>
    if r.pc = .idle then
      some ({ r with pc := .done, stopping := r.stopping || !r.reading, held := [] },
        some .doneReading)
    else none

/-! ### States and steps -/

/-- The `Ring_W`. -/
structure Writer where
  /-- `m_pending_new_sequence` -/
  pending : ℕ
  /-- `m_octile` -/
  octile : Octile
  /-- `saved_sequence` of `prepare_write`, while `advance_writer_octile_if_needed` runs. -/
  saved : Option ℕ
  /-- The last octile, counted from sequence number zero, whose count the writer has seen at zero. -/
  cleared : ℕ
  deriving DecidableEq

structure State (n : ℕ) (β : Type*) where
  guards : Guards.State n
  /-- The elements by their indices. -/
  memory : ℕ → β
  /-- The elements that were published, from sequence number zero on. -/
  published : List β
  writer : Writer
  reader : Agent → Reader

/-- A step. -/
inductive Action (β : Type*)
  /-- `Ring_R()`, in a slot whose reading sequence is `v`. -/
  | construct (a : Agent) (v : ℕ)
  /-- `~Ring_R()`, after `done_reading`. -/
  | destroy (a : Agent)
  | scavengeOrphans (a : Agent)
  /-- An agent goes on with its operation on the guards. -/
  | advance (a : Agent) (ch : Guards.Choice)
  | openWriter
  | closeWriter
  | prepareWrite (num : ℕ)
  /-- `advance_writer_octile_if_needed` has returned or thrown. -/
  | prepared
  /-- An element that `prepare_write` has reserved is stored. -/
  | store (x : ℕ) (v : β)
  /-- The constructor of a payload has thrown: its `num` elements are given up. -/
  | abandon (num : ℕ)
  | doneWriting
  | requestStop (a : Agent)
  | consumeEvictionNotification (a : Agent)
  | reader (a : Agent) (c : ReaderCall)
  /-- A reader goes on with its call. -/
  | read (a : Agent) (giveUp : Bool)

namespace State

variable {n : ℕ} {β : Type*}

def initial (n : ℕ) (memory : ℕ → β) : State n β where
  guards := .initial n
  memory := memory
  published := []
  writer := ⟨0, .first, none, 0⟩
  reader _ := .constructed 0

/-- `leading_sequence` -/
def leading (s : State n β) : ℕ := s.published.length

/-- A step of the guards. -/
def act (s : State n β) (m : Guards.Action) : Option (State n β) :=
  ((Guards.machine n).step s.guards m).map fun g => { s with guards := g }

def setReader (s : State n β) (a : Agent) (r : Reader) : State n β :=
  { s with reader := Function.update s.reader a r }

/-- A reader goes on, and calls an operation on its guard if it needs one. -/
def perform (s : State n β) (a : Agent) (m : Reader × Option Call) : Option (State n β) :=
  match m.2 with
  | none => some (s.setReader a m.1)
  | some c => (s.setReader a m.1).act (.call a c)

/-- The readers whose slots are EVICTED. -/
def noteEvictions (g : Guards.State n) (reader : Agent → Reader) (a : Agent) : Reader :=
  match (g.pc a).slot with
  | some i => if (g.slots i).status = .evicted then (reader a).lose else reader a
  | none => reader a

/-- The `Ring_W` is between calls. -/
def writing (cfg : Config) (s : State n β) : Bool :=
  match s.guards.pc cfg.writer with
  | .writer _ => s.writer.saved.isNone
  | _ => false

/-- Source: `rings.h`, `prepare_write`, up to the call of `advance_writer_octile_if_needed`, and its
first test -/
def prepareWrite (cfg : Config) (s : State n β) (num : ℕ) : Option (State n β) :=
  let pending := s.writer.pending + num
  let newOctile := cfg.octileOf pending
  if s.writer.octile = newOctile then some { s with writer := { s.writer with pending := pending } }
  else
    { s with writer := { s.writer with pending := pending, saved := some s.writer.pending } }.act
      (.call cfg.writer (.advanceWriter newOctile))

/-- Source: `rings.h`, `prepare_write`, after `advance_writer_octile_if_needed` -/
def prepared (cfg : Config) (s : State n β) : Option (State n β) :=
  match s.guards.pc cfg.writer, s.writer.saved with
  | .writer true, some _ =>
    some { s with writer := { s.writer with octile := cfg.octileOf s.writer.pending, saved := none } }
  | .writer false, some saved =>
    some { s with writer := { s.writer with pending := saved, saved := none } }
  | _, _ => none

/-- The elements that `done_writing` publishes. -/
def reserved (cfg : Config) (s : State n β) : List β :=
  (List.range' s.leading (s.writer.pending - s.leading)).map fun x => s.memory (x % cfg.numElements)

/-- A step. A writer has at most an octile of elements that it has not published. -/
def step (cfg : Config) (s : State n β) : Action β → Option (State n β)
  | .construct a v => (s.setReader a (.constructed v)).act (.call a .construct)
  | .destroy a =>
    if (s.reader a).pc = .idle ∧ (s.reader a).reading = false then s.act (.call a .destroy) else none
  | .scavengeOrphans a => s.act (.call a .scavengeOrphans)
  | .advance a ch =>
    (s.act (.advance a { ch with stop := (s.reader a).stopping })).map fun t =>
      { t with
        reader := noteEvictions t.guards s.reader
        writer := { s.writer with
          cleared :=
            if s.guards.enters a then max s.writer.cleared (s.writer.pending / cfg.octileElements)
            else s.writer.cleared } }
  | .openWriter =>
    { s with writer :=
      { s.writer with pending := s.leading, octile := cfg.octileOf s.leading, saved := none } }.act
        (.call cfg.writer .openWriter)
  | .closeWriter => if s.writing cfg then s.act (.call cfg.writer .closeWriter) else none
  | .prepareWrite num =>
    if s.writing cfg ∧ num ≤ cfg.octileElements ∧
        s.writer.pending + num ≤ s.leading + cfg.octileElements then s.prepareWrite cfg num
    else none
  | .prepared => s.prepared cfg
  | .store x v =>
    if s.writing cfg ∧ s.leading ≤ x ∧ x < s.writer.pending then
      some { s with memory := Function.update s.memory (x % cfg.numElements) v }
    else none
  | .abandon num =>
    if s.writing cfg ∧ num ≤ s.writer.pending - s.leading then
      some { s with writer :=
        { s.writer with
          pending := s.writer.pending - num
          octile := cfg.octileOf (s.writer.pending - num) } }
    else none
  | .doneWriting =>
    if s.writing cfg then some { s with published := s.published ++ s.reserved cfg } else none
  | .requestStop a => some (s.setReader a { s.reader a with stopping := true })
  | .consumeEvictionNotification a =>
    if (s.reader a).pc = .idle then
      some (s.setReader a { s.reader a with evictedSinceLastWait := false })
    else none
  | .reader a c =>
    match s.guards.pc a with
    | .owns _ _ => ((s.reader a).call cfg a c).bind (s.perform a)
    | _ => none
  | .read a giveUp =>
    match s.guards.pc a with
    | .owns i out =>
      ((s.reader a).next cfg a s.leading (s.guards.slots i) out giveUp).bind (s.perform a)
    | _ => none

end State

/-- A ring with `n` reader slots. -/
def machine (cfg : Config) (n : ℕ) (β : Type*) : Machine (State n β) (Action β) where
  init s := ∃ memory, s = State.initial n memory
  step := State.step cfg

/-- The step is no compare-and-swap of a recovery of counts. -/
def Unrecovered {n : ℕ} {β : Type*} (s : State n β) : Action β → Prop
  | .advance a ch =>
    Guards.Unrecovered s.guards (.advance a { ch with stop := (s.reader a).stopping })
  | _ => True

end Snapshots

end Sintra.Ring
