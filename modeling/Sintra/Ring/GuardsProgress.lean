import Sintra.Ring.GuardsArbitration

/-!
# What the programs of a ring see of the guards

The writer and the readers of a ring call the operations of `Sintra.Ring.Guards` and go on when these
return.

* `Pc.stage`, `course_next` — how far the writer is with the octile it is to enter. It only succeeds by
  a look at the count of this octile that finds it at zero.
-/

namespace Sintra.Ring.Guards

open Function

open Slots (Agent)

variable {n : ℕ}

/-! ### The writer -/

/-- How far `advance_writer_octile_if_needed` is. -/
inductive Stage
  | outside
  | entering (o : Octile)
  | entered
  | failed
  deriving DecidableEq

def Caller.stage : Caller → Stage
  | .alone => .outside
  | .recover o _ | .pass o _ => .entering o

def Purpose.stage : Purpose → Stage
  | .admission | .retire => .outside
  | .inactive c | .dead c => c.stage

def Cleanup.stage : Cleanup → Stage
  | .opened | .closed => .outside
  | .returned => .entered
  | .threw | .caught => .failed

def Query.stage : Query n → Stage
  | .blocking o _ | .confirmed o _ _ | .leaked o _ _ | .last o _ _ _ => .entering o
  | .rollback _ _ | .rollbackAgain _ _ _ => .outside
  | .unpaired _ _ _ p => p.stage

def Entry.stage : Entry n → Stage
  | .admission | .retire _ | .done _ | .rollback _ _ => .outside
  | .scavenge c | .cancel c => c.stage
  | .recover o _ | .pass o _ _ | .evict o _ _ => .entering o

def Exit.stage : Exit n → Stage
  | .idle | .owns _ _ | .retire _ => .outside
  | .scavenged c | .cancelled c => c.stage
  | .blocked o _ | .recheck o _ | .reclaim o _ | .pass o _ _ | .evict o _ _ => .entering o
  | .throw _ => .failed

def Pc.stage : Pc n → Stage
  | .wait x | .leave x => x.stage
  | .clear _ _ p | .clearGuard _ _ _ p | .clearPending _ _ _ p | .clearCount _ _ p
  | .unpaired _ _ p | .unpairedSwap _ _ _ p => p.stage
  | .count q _ _ | .probe q _ _ => q.stage
  | .scavenge _ c | .orphan _ c | .orphanStatus _ c | .orphanFlags _ c | .orphanOwner _ c => c.stage
  | .writer ok => if ok then .entered else .failed
  | .cancel _ c => c.stage
  | .check o | .blocked o _ | .recover o _ | .confirm o _ _ | .confirmSwap o _ _ _
  | .staleSwap o _ _ | .recheck o _ | .reclaim o _ | .pass o _ _ | .identity o _ _
  | .identityCount o _ _ | .identityState o _ _ | .eligible o _ _ | .unrequest o _ _
  | .request o _ _ | .evict o _ _ | .evictCount o _ _ _ | .evictCheck o _ _ => .entering o
  | _ => .outside

/-- The agent is about to see that nobody reads the octile the writer is to enter. -/
def State.enters (s : State n) (a : Agent) : Bool :=
  match s.pc a with
  | .check o | .blocked o _ | .recheck o _ => s.readAccess o = 0
  | _ => false

section

variable {s : State n} {a b : Agent} {e : Effect n} {c : Pc n}

theorem State.entering_of_enters (h : s.enters b = true) :
    ∃ o, (s.pc b).stage = .entering o ∧ s.readAccess o = 0 := by
  unfold State.enters at h
  cases hpc : s.pc b with
  | check o | blocked o published | recheck o published => exact ⟨o, rfl, by simpa [hpc] using h⟩
  | _ => simp [hpc] at h

theorem Entry.stage_pc (x : Entry n) : x.pc.stage = x.stage := by
  cases x <;> rfl

theorem Pc.stage_returned (published : Bool) : (Pc.returned (n := n) published).stage = .entered := by
  cases published <;> rfl

theorem Pc.stage_thrown (published : Bool) : (Pc.thrown (n := n) published).stage = .failed := by
  cases published <;> rfl

theorem Pc.stage_passFrom (o : Octile) (k : ℕ) (published : Bool) :
    (Pc.passFrom (n := n) o k published).stage = .entering o := by
  unfold passFrom
  split_ifs <;> rfl

theorem Purpose.stage_next (p : Purpose) (i : Fin n) : (p.next i).stage = p.stage := by
  cases p <;> rfl

theorem Query.stage_answer (q : Query n) (sum : ℕ) : (q.answer sum).stage = q.stage := by
  cases q with
  | unpaired j o access p =>
    simp only [Query.answer]
    split_ifs
    · exact p.stage_next j
    · rfl
  | _ =>
    simp only [Query.answer]
    split_ifs <;> rfl

/-- How a step changes the stage. -/
inductive Course (s : State n) (b : Agent) (c : Pc n) : Prop
  | same : c.stage = (s.pc b).stage → Course s b c
  | enters : s.enters b = true → c.stage = .entered → Course s b c
  | fails (o : Octile) : (s.pc b).stage = .entering o → c.stage = .failed → Course s b c
  /-- `Ring_W()` returns. -/
  | opened : (s.pc b).stage = .outside → c = .writer true → Course s b c

theorem Course.ofPc {c₀ : Pc n} (hpc : s.pc b = c₀) (hsame : c.stage = c₀.stage) : Course s b c :=
  .same (hpc ▸ hsame)

theorem course_leave {x : Exit n} (hpc : s.pc b = .leave x) : Course s b x.pc := by
  cases x with
  | scavenged d =>
    cases d with
    | pass o published => exact .ofPc hpc (Pc.stage_passFrom o 0 published)
    | _ => exact .ofPc hpc rfl
  | cancelled d =>
    cases d with
    | opened => exact .opened (by rw [hpc]; rfl) rfl
    | _ => exact .ofPc hpc rfl
  | pass o k published => exact .ofPc hpc (Pc.stage_passFrom o k published)
  | throw published => exact .ofPc hpc (Pc.stage_thrown published)
  | _ => exact .ofPc hpc rfl

theorem course_next {ch : Choice} (h : s.next b ch = some (e, c)) : Course s b c := by
  unfold State.next at h
  cases hpc : s.pc b
  all_goals simp only [hpc, State.acquireStep, State.releaseStep, State.copyStep, State.countStep,
    State.clearPendingStep, State.scavengeStep, State.eligibleStep, State.evictStep] at h
  case wait x =>
    split_ifs at h
    cases h
    exact .ofPc hpc x.stage_pc
  case leave x =>
    cases h
    exact course_leave hpc
  case cancel k d =>
    split_ifs at h
    all_goals cases h
    all_goals exact .ofPc hpc rfl
  case acquireAdded j o previous =>
    cases h
    exact .ofPc hpc (by cases previous <;> rfl)
  case clearPending j guard mode p =>
    cases guard with
    | none =>
      cases h
      exact .ofPc hpc (p.stage_next j)
    | some o =>
      cases h
      refine .ofPc hpc ?_
      cases mode with
      | none => exact p.stage_next j
      | _ => rfl
  case clearCount j o p =>
    cases h
    exact .ofPc hpc (p.stage_next j)
  case unpaired j o p | unpairedSwap j o access p =>
    split_ifs at h
    · cases h
      exact .ofPc hpc (p.stage_next j)
    · cases h
      exact .ofPc hpc rfl
  case count q k sum =>
    split_ifs at h
    all_goals cases h
    all_goals first
      | exact .ofPc hpc rfl
      | exact .ofPc hpc (q.stage_answer sum)
  case check o =>
    split_ifs at h with hzero
    · cases h
      exact .enters (by simp [State.enters, hpc, hzero]) rfl
    · cases h
      exact .ofPc hpc rfl
  case blocked o published | recheck o published =>
    split_ifs at h with hzero
    · cases h
      exact .enters (by simp [State.enters, hpc, hzero]) (Pc.stage_returned published)
    · cases h
      exact .ofPc hpc rfl
  case identityState o j published =>
    split_ifs at h
    · cases h
      exact .fails o (by rw [hpc]; rfl) rfl
    · cases h
      exact .ofPc hpc rfl
  all_goals first
    | (cases h; done)
    | (cases h; exact .ofPc hpc rfl)
    | (split_ifs at h <;> cases h <;> exact .ofPc hpc rfl)

/-! ### What others do to a slot -/

/-- What the reader of a slot cannot tell from a step of another agent, but for an eviction while the
slot is not pending. -/
inductive Untouched (w w' : ReaderState) : Prop
  | same : w'.guard = w.guard → w'.status = w.status → Untouched w w'
  | evicted : w.pending = none → w'.status = .evicted → Untouched w w'

/-- What others do to the slot of a reader: nothing that it sees, or they evict it. -/
theorem Inv.untouched (hs : Inv s) (ha : s.Live a) (hb : s.Live b) (hba : b ≠ a) {i : Fin n}
    (hi : (s.pc a).slot = some i) {ch : Choice} (h : s.next b ch = some (e, c)) :
    Untouched (s.slots i) ((s.apply b e).slots i) := by
  by_cases hwrites : ∃ w, e = .word i w
  · obtain ⟨w, rfl⟩ := hwrites
    show Untouched (s.slots i) (update s.slots i w i)
    rw [update_self]
    rcases word_cases h with ⟨hown | hclaims, -, -⟩ | rfl | ⟨-, rfl⟩ | ⟨hevicts, rfl⟩
    · exact absurd (hs.own ha hi b hb hown) hba
    · exact absurd (hs.claim hb hclaims a ha hi).symm hba
    · exact .same rfl rfl
    · exact .same rfl rfl
    · exact .evicted hevicts.pending rfl
  · rw [State.slots_apply_of_ne _ _ fun w he => hwrites ⟨w, he⟩]
    exact .same rfl rfl

end

/-! ### A reader -/

/-- How far a reader is with `acquire_guard` for octile `o`, and what it has got. -/
inductive Acquiring (slots : Fin n → ReaderState) (stopping : Bool) (o : Octile)
    (allowEvicted : Bool) : Pc n → Prop
  | attempt (i : Fin n) : Acquiring slots stopping o allowEvicted (.acquire i o allowEvicted)
  | pending (i : Fin n) (previous : Option Octile) :
      Acquiring slots stopping o allowEvicted (.acquirePending i o previous)
  | added (i : Fin n) (previous : Option Octile) :
      Acquiring slots stopping o allowEvicted (.acquireAdded i o previous)
  | moved (i : Fin n) (previous : Octile) : (slots i).guard = some o →
      Acquiring slots stopping o allowEvicted (.acquireMoved i o previous)
  | settle (i : Fin n) (previous : Octile) : (slots i).guard = some o →
      Acquiring slots stopping o allowEvicted (.settle i previous .acquired)
  | acquired (i : Fin n) : (slots i).status = .evicted ∨ (slots i).guard = some o →
      Acquiring slots stopping o allowEvicted (.owns i .acquired)
  | refused (i : Fin n) (r : Outcome) : r ≠ .acquired →
      stopping = true ∨ r = .evicted ∧ allowEvicted = false →
      Acquiring slots stopping o allowEvicted (.owns i r)

namespace Acquiring

variable {slots slots' : Fin n → ReaderState} {stopping : Bool} {o : Octile} {allowEvicted : Bool}
variable {c : Pc n}

theorem stop (h : Acquiring slots stopping o allowEvicted c) :
    Acquiring slots true o allowEvicted c := by
  cases h with
  | attempt i => exact .attempt i
  | pending i previous => exact .pending i previous
  | added i previous => exact .added i previous
  | moved i previous hguard => exact .moved i previous hguard
  | settle i previous hguard => exact .settle i previous hguard
  | acquired i hguard => exact .acquired i hguard
  | refused i r hr _ => exact .refused i r hr (.inl rfl)

theorem untouched (h : Acquiring slots stopping o allowEvicted c) {i : Fin n} (hi : c.slot = some i)
    (hpending : (slots i).pending = c.pending) (hslot : Untouched (slots i) (slots' i)) :
    Acquiring slots' stopping o allowEvicted c := by
  cases h with
  | attempt j => exact .attempt j
  | pending j previous => exact .pending j previous
  | added j previous => exact .added j previous
  | moved j previous hguard =>
    cases hi
    cases hslot with
    | same hsame => exact .moved i previous (hsame.trans hguard)
    | evicted hnone => simp [hnone, Pc.pending] at hpending
  | settle j previous hguard =>
    cases hi
    cases hslot with
    | same hsame => exact .settle i previous (hsame.trans hguard)
    | evicted hnone => simp [hnone, Pc.pending] at hpending
  | acquired j hguard =>
    cases hi
    cases hslot with
    | same hsame hstatus => exact .acquired i (by rwa [hsame, hstatus])
    | evicted _ hevicted => exact .acquired i (.inl hevicted)
  | refused j r hr hstop => exact .refused j r hr hstop

end Acquiring

section

variable {s : State n} {a : Agent} {e : Effect n} {c : Pc n} {ch : Choice} {o : Octile}
  {allowEvicted : Bool} {i : Fin n}

/-- A step of `acquire_guard`. -/
theorem Acquiring.next (hs : Inv s) (ha : s.Live a)
    (h : Acquiring s.slots ch.stop o allowEvicted (s.pc a)) (hnext : s.next a ch = some (e, c)) :
    Acquiring (s.apply a e).slots ch.stop o allowEvicted c := by
  unfold State.next at hnext
  generalize hpc : s.pc a = c₀ at h
  cases h
  all_goals simp only [hpc] at hnext
  case attempt i =>
    have hstatus := (hs.owned a i ha (by rw [hpc]; rfl)).status
    simp only [State.acquireStep] at hnext
    split_ifs at hnext with hstop hallowed hevicted
    all_goals cases hnext
    · exact .refused i _ (by rintro ⟨⟩) (.inl hstop)
    · exact .pending i _
    · simp only [Bool.and_eq_true, Bool.not_eq_true'] at hevicted
      exact .refused i _ (by rintro ⟨⟩) (.inr ⟨rfl, hevicted.1⟩)
    · exact .attempt i
  case pending i previous =>
    cases hnext
    exact .added i previous
  case added i previous =>
    cases hnext
    have hguard : (update s.slots i ((s.slots i).attached o previous) i).guard = some o := by
      rw [update_self]
      rfl
    cases previous with
    | none => exact .acquired i (.inr hguard)
    | some p => exact .moved i p hguard
  case moved i previous hguard =>
    cases hnext
    exact .settle i previous hguard
  case settle i previous hguard =>
    cases hnext
    refine .acquired i (.inr ?_)
    show (update s.slots i (s.slots i).clearPending i).guard = some o
    rw [update_self]
    exact hguard
  case acquired | refused => cases hnext

/-- What a step of `acquire_guard` does to a slot that must not be EVICTED. -/
inductive AcquireStep (stopping : Bool) (o : Octile) (w w' : ReaderState) (c₀ c : Pc n) : Prop
  | keeps : w'.guard = w.guard → w'.status = w.status → (c.pending ≠ none → c₀.pending ≠ none) →
      AcquireStep stopping o w w' c₀ c
  | publishes : stopping = false → w'.guard = w.guard → w'.status = w.status →
      AcquireStep stopping o w w' c₀ c
  | attaches : c₀.pending ≠ none → w'.guard = some o → w'.status = w.status →
      AcquireStep stopping o w w' c₀ c

theorem Acquiring.acquireStep (h : Acquiring s.slots ch.stop o false (s.pc a))
    (hi : (s.pc a).slot = some i)
    (hnext : s.next a ch = some (e, c)) :
    c.slot = some i ∧ AcquireStep ch.stop o (s.slots i) ((s.apply a e).slots i) (s.pc a) c := by
  unfold State.next at hnext
  generalize hpc : s.pc a = c₀ at h hi
  cases h with
  | attempt j =>
    cases hi
    simp only [hpc, State.acquireStep] at hnext
    split_ifs at hnext with hstop hallowed hevicted <;> cases hnext
    any_goals exact ⟨rfl, .keeps rfl rfl (absurd rfl ·)⟩
    · have hactive : (s.slots i).status = .active := by
        simpa using (Bool.and_eq_true_iff.1 hallowed).2
      refine ⟨rfl, .publishes (by simpa using hstop) ?_ ?_⟩
      · simp [State.apply, ReaderState.guard, ReaderState.withPending, ReaderState.withStatus]
      · simp [State.apply, ReaderState.withPending, ReaderState.withStatus, hactive]
  | pending j previous | moved j previous hguard =>
    cases hi
    simp only [hpc] at hnext
    cases hnext
    exact ⟨rfl, .keeps rfl rfl fun _ => by rintro ⟨⟩⟩
  | added j previous =>
    cases hi
    simp only [hpc] at hnext
    cases hnext
    refine ⟨by cases previous <;> rfl, .attaches (by rintro ⟨⟩) ?_ ?_⟩
    · simp [State.apply, ReaderState.guard, ReaderState.attached, ReaderState.withGuard]
    · simp [State.apply, ReaderState.attached, ReaderState.withGuard]
  | settle j previous hguard =>
    cases hi
    simp only [hpc] at hnext
    cases hnext
    refine ⟨rfl, .keeps ?_ ?_ (absurd rfl ·)⟩
    · simp [State.apply, ReaderState.guard, ReaderState.clearPending]
    · simp [State.apply, ReaderState.clearPending]
  | acquired j | refused j r => simp [hpc] at hnext

end

/-- How far a reader is with `with_copying_mark`. -/
inductive Copying (i : Fin n) : Pc n → Prop
  | attempt : Copying i (.copy i)
  | copying (o : Octile) : Copying i (.copying i o)
  | owns (r : Outcome) : Copying i (.owns i r)

theorem Copying.slot {c : Pc n} {i : Fin n} (h : Copying i c) : c.slot = some i := by
  cases h <;> rfl

theorem Copying.pending {c : Pc n} {i : Fin n} (h : Copying i c) : c.pending = none := by
  cases h <;> rfl

/-- A step of `with_copying_mark` keeps the guard. -/
theorem Copying.next {s : State n} {a : Agent} {e : Effect n} {c : Pc n} {ch : Choice} {i : Fin n}
    (h : Copying i (s.pc a)) (hnext : s.next a ch = some (e, c)) :
    Copying i c ∧ ((s.apply a e).slots i).guard = (s.slots i).guard ∧
      ((s.apply a e).slots i).status = (s.slots i).status := by
  unfold State.next at hnext
  generalize hpc : s.pc a = c₀ at h
  cases h with
  | attempt =>
    simp only [hpc, State.copyStep] at hnext
    split_ifs at hnext <;> cases hnext
    any_goals exact ⟨.owns _, rfl, rfl⟩
    · refine ⟨.copying _, ?_, ?_⟩ <;> simp [State.apply, ReaderState.guard]
  | copying o =>
    simp only [hpc] at hnext
    cases hnext
    refine ⟨.owns _, ?_, ?_⟩ <;> simp [State.apply, ReaderState.guard]
  | owns r => simp [hpc] at hnext

end Sintra.Ring.Guards
