import Sintra.Ring.GuardsRecovery

/-!
# The arbitration between eviction and copies

A writer that is blocked publishes REQUEST in a slot and evicts it when the reader is neither copying
nor moving its guard. A reader that wants to copy or to move its guard sets COPYING or its pending
octile first, unless REQUEST is there. All of it happens in one word of the slot, one atomic operation
at a time.

* `Requests`, `reachable_requests` — REQUEST is only there while a live writer is to cancel it, or when
  the writer is dead.
-/

namespace Sintra.Ring.Guards

open Function

open Slots (Agent)

variable {n : ℕ}

section

variable {s : State n} {a b : Agent} {e : Effect n} {c : Pc n}

/-! ### Who writes a word -/

/-- The eviction of slot `i` by `run_reclamation_pass`. -/
structure Evicts (s : State n) (b : Agent) (i : Fin n) (c : Pc n) : Prop where
  active : (s.slots i).status = .active
  present : (s.slots i).guardPresent = true
  request : (s.slots i).request = true
  copying : (s.slots i).copying = false
  pending : (s.slots i).pending = none
  next : ∃ o published, s.pc b = .evict o i published ∧
    c = .evictCount o i (s.slots i).guardOctile published

/-- What a write to slot `i` can be. -/
inductive Writes (s : State n) (b : Agent) (i : Fin n) (w : ReaderState) (c : Pc n) : Prop
  /-- The reader of the slot, or who clears it. -/
  | own : ((s.pc b).slot = some i ∨ (s.pc b).claims = some i) →
      (w.status = .evicted → (s.slots i).status = .evicted) →
      (w.request = true → (s.slots i).request = true) → Writes s b i w c
  | unrequest : w = (s.slots i).clearRequest → Writes s b i w c
  | request : (∃ o published, s.pc b = .request o i published ∧ c = .leave (.evict o i true)) →
      w = { s.slots i with request := true } → Writes s b i w c
  | evict : Evicts s b i c → w = (s.slots i).evicted → Writes s b i w c

variable {ch : Choice} {w : ReaderState} {i j : Fin n}

theorem writes_acquireStep {o : Octile} {allowEvicted : Bool} (hpc : s.pc b = .acquire i o allowEvicted)
    (h : s.acquireStep ch i o allowEvicted = (.word j w, c)) : Writes s b j w c := by
  simp only [State.acquireStep] at h
  split_ifs at h
  all_goals cases h
  refine .own (.inl (by rw [hpc]; rfl)) (fun hw => ?_) id
  cases hw

theorem writes_releaseStep (hpc : s.pc b = .release i) (h : s.releaseStep ch i = (.word j w, c)) :
    Writes s b j w c := by
  simp only [State.releaseStep] at h
  split_ifs at h
  all_goals cases h
  exact .own (.inl (by rw [hpc]; rfl)) id id

theorem writes_copyStep (hpc : s.pc b = .copy i) (h : s.copyStep ch i = (.word j w, c)) :
    Writes s b j w c := by
  simp only [State.copyStep] at h
  split_ifs at h
  all_goals cases h
  exact .own (.inl (by rw [hpc]; rfl)) id id

theorem writes_evictStep {o : Octile} {published : Bool} (hpc : s.pc b = .evict o i published)
    (h : s.evictStep ch o i published = (.word j w, c)) : Writes s b j w c := by
  simp only [State.evictStep] at h
  split_ifs at h with hok
  all_goals cases h
  simp only [Bool.and_eq_true, Bool.not_eq_true', Option.isNone_iff_eq_none, eligible,
    decide_eq_true_eq] at hok
  obtain ⟨⟨⟨⟨⟨hactive, hpresent⟩, -⟩, hrequest⟩, hcopying⟩, hpending⟩ := hok
  exact .evict ⟨hactive, hpresent, hrequest, hcopying, hpending, o, published, hpc, rfl⟩ rfl

/-- **Who writes a word.** -/
theorem word_cases {i : Fin n} (h : s.next b ch = some (.word i w, c)) : Writes s b i w c := by
  unfold State.next at h
  cases hpc : s.pc b
  all_goals simp only [hpc, State.countStep, State.scavengeStep, State.eligibleStep] at h
  case acquire j o allowEvicted => exact writes_acquireStep hpc (Option.some.inj h)
  case release j => exact writes_releaseStep hpc (Option.some.inj h)
  case copy j => exact writes_copyStep hpc (Option.some.inj h)
  case evict o j published => exact writes_evictStep hpc (Option.some.inj h)
  case request o j published =>
    cases h
    exact .request ⟨o, published, hpc, rfl⟩ rfl
  case unrequest o j published =>
    cases h
    exact .unrequest rfl
  case cancel k d =>
    split_ifs at h
    all_goals cases h
    exact .unrequest rfl
  case done j =>
    split_ifs at h
    all_goals cases h
    exact .own (.inl (by rw [hpc]; rfl)) id id
  case clearGuard j guard mode p =>
    cases h
    exact .own (.inr (by rw [hpc]; rfl)) id id
  case clearPending j guard mode p =>
    cases guard <;> cases h <;> exact .own (.inr (by rw [hpc]; rfl)) id id
  case admitStore j v =>
    cases h
    exact .own (.inr (by rw [hpc]; rfl)) (by rintro ⟨⟩) (by rintro ⟨⟩)
  case retireFlags j | orphanFlags j d =>
    cases h
    exact .own (.inr (by rw [hpc]; rfl)) id (by rintro ⟨⟩)
  case retireStatus j | orphanStatus j d =>
    cases h
    exact .own (.inr (by rw [hpc]; rfl)) (by rintro ⟨⟩) id
  case acquireAdded j o previous | settle j o r | copying j o | donePending j o =>
    cases h
    exact .own (.inl (by rw [hpc]; rfl)) id id
  case doneRequest j =>
    cases h
    exact .own (.inl (by rw [hpc]; rfl)) id (by rintro ⟨⟩)
  all_goals first | (split_ifs at h <;> cases h) | cases h

end

/-! ### Where REQUEST may be -/

/-- Whether a writer that called `scavenge_orphans` may have published REQUEST. -/
def Caller.published : Caller → Option Bool
  | .alone => none
  | .recover _ published | .pass _ published => some published

def Purpose.published : Purpose → Option Bool
  | .admission => none
  | .retire => none
  | .inactive c | .dead c => c.published

def Query.published : Query n → Option Bool
  | .blocking _ published | .confirmed _ _ published | .leaked _ _ published
  | .last _ _ _ published => some published
  | .rollback _ _ => none
  | .rollbackAgain _ _ _ => none
  | .unpaired _ _ _ p => p.published

/-- Whether there may be anything to cancel. -/
def Cleanup.published : Cleanup → Bool
  | .opened => true
  | .closed => false
  | .returned => true
  | .threw => true
  | .caught => false

def Entry.published : Entry n → Option Bool
  | .admission | .retire _ | .done _ | .rollback _ _ => none
  | .scavenge c => c.published
  | .cancel c => some c.published
  | .recover _ published | .pass _ _ published | .evict _ _ published => some published

def Exit.published : Exit n → Option Bool
  | .idle | .owns _ _ | .retire _ => none
  | .scavenged c => c.published
  | .cancelled _ => some false
  | .blocked _ published | .recheck _ published | .reclaim _ published | .pass _ _ published
  | .evict _ _ published | .throw published => some published

/-- Whether slot `i` may carry REQUEST; `none` if the agent is no writer. -/
def Pc.published (i : Fin n) : Pc n → Option Bool
  | .wait x | .leave x => x.published
  | .clear _ _ p | .clearGuard _ _ _ p | .clearPending _ _ _ p | .clearCount _ _ p
  | .unpaired _ _ p | .unpairedSwap _ _ _ p => p.published
  | .count q _ _ | .probe q _ _ => q.published
  | .scavenge _ c | .orphan _ c | .orphanStatus _ c | .orphanFlags _ c | .orphanOwner _ c =>
    c.published
  | .writer _ | .closing => some false
  | .cancel k c => some (c.published && k ≤ i)
  | .check _ => some false
  | .blocked _ published | .recover _ published | .confirm _ _ published
  | .confirmSwap _ _ _ published | .staleSwap _ _ published | .recheck _ published
  | .reclaim _ published | .pass _ _ published | .identity _ _ published
  | .identityCount _ _ published | .identityState _ _ published | .eligible _ _ published
  | .unrequest _ _ published | .request _ _ published | .evict _ _ published
  | .evictCount _ _ _ published | .evictCheck _ _ published => some published
  | _ => none

/-- REQUEST is only in a slot where the writer, if it lives, is to cancel it. -/
structure Requests (s : State n) : Prop where
  role : ∀ a i, s.Live a → (s.pc a).published i ≠ none → s.writer = some a
  request : ∀ i, (s.slots i).request = true →
    ∃ a, s.writer = some a ∧ (s.Live a → (s.pc a).published i = some true)

theorem requests_initial : Requests (State.initial n) where
  role := by
    intro a i _ h
    exact absurd rfl h
  request := by
    intro i h
    cases h

section

variable {s : State n} {a b : Agent} {e : Effect n} {c : Pc n} {i : Fin n}

theorem Entry.published_pc (x : Entry n) : x.pc.published i = x.published := by
  cases x with
  | cancel c => simp [Entry.pc, Entry.published, Pc.published]
  | _ => rfl

theorem Pc.published_returned (published : Bool) :
    (Pc.returned published).published i = some published := by
  cases published <;> rfl

theorem Pc.published_thrown (published : Bool) :
    (Pc.thrown published).published i = some published := by
  cases published <;> rfl

theorem Pc.published_passFrom (o : Octile) (k : ℕ) (published : Bool) :
    (Pc.passFrom o k published).published i = some published := by
  unfold passFrom
  split_ifs <;> rfl

theorem Exit.published_pc (x : Exit n) : x.pc.published i = x.published := by
  cases x with
  | scavenged c =>
    cases c with
    | pass o published => exact Pc.published_passFrom o 0 published
    | _ => rfl
  | cancelled c => cases c <;> rfl
  | pass o k published => exact Pc.published_passFrom o k published
  | throw published => exact Pc.published_thrown published
  | _ => rfl

theorem Purpose.published_next (p : Purpose) (j : Fin n) :
    (p.next j).published i = p.published := by
  cases p <;> rfl

theorem Query.published_answer (q : Query n) (sum : ℕ) : (q.answer sum).published i = q.published := by
  cases q with
  | unpaired j o access p =>
    simp only [Query.answer]
    split_ifs
    · exact p.published_next j
    · rfl
  | _ =>
    simp only [Query.answer]
    split_ifs <;> rfl

/-- How a step changes where REQUEST may be. -/
inductive Stance (s : State n) (b : Agent) (e : Effect n) (c : Pc n) (i : Fin n) : Prop
  | same : c.published i = (s.pc b).published i → (s.apply b e).writer = s.writer → Stance s b e c i
  /-- `cancel_requests` at the slot. -/
  | cancel : (s.pc b).published i ≠ none → e = .word i (s.slots i).clearRequest → Stance s b e c i
  | publish : (s.pc b).published i ≠ none → c.published i = some true →
      (s.apply b e).writer = s.writer → Stance s b e c i
  | resign : (s.pc b).published i = some false → c = .idle → e = .resign → Stance s b e c i
  | assume : s.writer.all (fun d => d.process ∈ s.exited) = true → c.published i = some true →
      e = .assume → Stance s b e c i

theorem Stance.ofPc {c₀ : Pc n} (hpc : s.pc b = c₀) (hsame : c.published i = c₀.published i)
    (hwriter : (s.apply b e).writer = s.writer) : Stance s b e c i :=
  .same (hpc ▸ hsame) hwriter

theorem stance_next {ch : Choice} (h : s.next b ch = some (e, c)) : Stance s b e c i := by
  unfold State.next at h
  cases hpc : s.pc b
  all_goals simp only [hpc, State.acquireStep, State.releaseStep, State.copyStep, State.countStep,
    State.clearPendingStep, State.scavengeStep, State.eligibleStep, State.evictStep] at h
  case wait x =>
    split_ifs at h
    cases h
    exact .ofPc hpc x.published_pc rfl
  case leave x =>
    cases h
    exact .ofPc hpc x.published_pc rfl
  case cancel k d =>
    split_ifs at h with hk
    · cases h
      obtain rfl | hki := eq_or_ne k i
      · exact .cancel (by rw [hpc]; rintro ⟨⟩) rfl
      · refine .same ?_ rfl
        have hle : k + 1 ≤ i ↔ k ≤ i := by omega
        simp only [hpc, Pc.published, hle]
    · cases h
      refine .same ?_ rfl
      have hlt : ¬k ≤ i := by omega
      simp [hpc, Pc.published, Exit.published, hlt]
  case request o j published =>
    cases h
    exact .publish (by rw [hpc]; rintro ⟨⟩) rfl rfl
  case closing =>
    cases h
    exact .resign (by rw [hpc]; rfl) rfl rfl
  case acquireAdded j o previous =>
    cases h
    exact .ofPc hpc (by cases previous <;> rfl) rfl
  case clearPending j guard mode p =>
    cases guard with
    | none =>
      cases h
      exact .ofPc hpc (p.published_next j) rfl
    | some o =>
      cases h
      refine .same ?_ rfl
      rw [hpc]
      cases mode with
      | none => exact p.published_next j
      | _ => rfl
  case clearCount j o p =>
    cases h
    exact .ofPc hpc (p.published_next j) rfl
  case unpaired j o p | unpairedSwap j o access p =>
    split_ifs at h
    · cases h
      exact .ofPc hpc (p.published_next j) rfl
    · cases h
      exact .ofPc hpc rfl rfl
  case count q k sum =>
    split_ifs at h
    all_goals cases h
    all_goals first
      | exact .ofPc hpc rfl rfl
      | exact .ofPc hpc (q.published_answer sum) rfl
  case blocked o published | recheck o published =>
    split_ifs at h
    · cases h
      exact .ofPc hpc (Pc.published_returned published) rfl
    · cases h
      exact .ofPc hpc rfl rfl
  all_goals first
    | (cases h; done)
    | (cases h; exact .ofPc hpc rfl rfl)
    | (split_ifs at h <;> cases h <;> exact .ofPc hpc rfl rfl)

theorem stance_call {d : Call} (h : s.call b d = some (e, c)) : Stance s b e c i := by
  cases call_cases h with
  | reader hpc hstart => cases hstart <;> exact .ofPc hpc rfl rfl
  | openWriter hpc hdead => exact .assume hdead rfl rfl
  | construct hpc | scavengeOrphans hpc | closeWriter hpc | advanceWriter o hpc =>
      exact .ofPc hpc rfl rfl

theorem State.slots_apply_of_ne (s : State n) (b : Agent) (h : ∀ w, e ≠ .word i w) :
    (s.apply b e).slots i = s.slots i := by
  cases e with
  | word j w =>
    refine update_of_ne ?_ _ _
    rintro rfl
    exact h w rfl
  | _ => rfl

/-- What a step of an agent does to REQUEST and to the role of the writer. -/
theorem Requests.move (hr : Requests s) (hb : s.Live b) (hstance : ∀ i, Stance s b e c i)
    (hword : ∀ i w, e = .word i w → Writes s b i w c) : Requests ((s.apply b e).goto b c) := by
  have hlive := s.live_move b e c
  have hself := State.pc_goto_self (s.apply b e) b c
  have hother := s.pc_move b e c
  constructor
  · intro a i ha hwriter
    rw [hlive] at ha
    show (s.apply b e).writer = some a
    obtain rfl | hab := eq_or_ne a b
    · rw [hself] at hwriter
      obtain ⟨hsame, hkept⟩ | ⟨hrole, rfl⟩ | ⟨hrole, -, hkept⟩ | ⟨-, rfl, -⟩ | ⟨-, -, rfl⟩ := hstance i
      · rw [hkept]
        exact hr.role a i ha (hsame ▸ hwriter)
      · exact hr.role a i ha hrole
      · rw [hkept]
        exact hr.role a i ha hrole
      · exact absurd rfl hwriter
      · rfl
    · rw [hother a hab] at hwriter
      have hold := hr.role a i ha hwriter
      obtain ⟨-, hkept⟩ | ⟨-, rfl⟩ | ⟨-, -, hkept⟩ | ⟨hfalse, -, -⟩ | ⟨hdead, -, -⟩ := hstance i
      · rwa [hkept]
      · exact hold
      · rwa [hkept]
      · have hrole := hr.role b i hb (by rw [hfalse]; exact (nomatch ·))
        exact absurd (Option.mem_unique hold hrole) hab
      · rw [hold] at hdead
        exact absurd (by simpa using hdead) ha
  · intro i hreq
    change ((s.apply b e).slots i).request = true at hreq
    show ∃ a, (s.apply b e).writer = some a ∧ _
    -- the writer publishes it, or it was there before
    have hsource : (∃ o published, s.pc b = .request o i published ∧ c = .leave (.evict o i true) ∧
        (s.apply b e).writer = s.writer) ∨ (s.slots i).request = true := by
      by_cases hwrites : ∃ w, e = .word i w
      · obtain ⟨w, rfl⟩ := hwrites
        replace hreq : (update s.slots i w i).request = true := hreq
        rw [update_self] at hreq
        rcases hword i w rfl with ⟨-, -, hkept⟩ | rfl | ⟨⟨o, published, hpc, hc⟩, -⟩ | ⟨hevicts, -⟩
        · exact .inr (hkept hreq)
        · cases hreq
        · exact .inl ⟨o, published, hpc, hc, rfl⟩
        · exact .inr hevicts.request
      · rw [State.slots_apply_of_ne _ _ fun w he => hwrites ⟨w, he⟩] at hreq
        exact .inr hreq
    rcases hsource with ⟨o, published, hpc, rfl, hkept⟩ | hold
    · refine ⟨b, ?_, fun _ => by rw [hself]; rfl⟩
      rw [hkept]
      exact hr.role b i hb (by rw [hpc]; exact (nomatch ·))
    · obtain ⟨a, hwriter, hpublished⟩ := hr.request i hold
      rcases hstance i with ⟨hsame, hkept⟩ | ⟨-, rfl⟩ | ⟨hrole, htrue, hkept⟩ | ⟨hfalse, -, -⟩ |
        ⟨-, htrue, rfl⟩
      · refine ⟨a, by rw [hkept, hwriter], fun ha => ?_⟩
        rw [hlive] at ha
        obtain rfl | hab := eq_or_ne a b
        · rw [hself, hsame, hpublished ha]
        · rw [hother a hab, hpublished ha]
      · replace hreq : (update s.slots i (s.slots i).clearRequest i).request = true := hreq
        rw [update_self] at hreq
        cases hreq
      · refine ⟨b, ?_, fun _ => by rw [hself, htrue]⟩
        rw [hkept]
        exact hr.role b i hb hrole
      · have hrole := hr.role b i hb (by rw [hfalse]; exact (nomatch ·))
        obtain rfl := Option.mem_unique hwriter hrole
        simp [hfalse] at hpublished
        exact absurd hb hpublished
      · exact ⟨b, rfl, fun _ => by rw [hself, htrue]⟩

theorem Requests.die (hr : Requests s) (p : Process) :
    Requests { s with exited := insert p s.exited } := by
  have hlive : ∀ d, State.Live { s with exited := insert p s.exited } d → s.Live d := by
    intro d hd hmem
    exact hd (Finset.mem_insert_of_mem hmem)
  constructor
  · intro a i ha
    exact hr.role a i (hlive a ha)
  · intro i hi
    obtain ⟨a, hwriter, hpublished⟩ := hr.request i hi
    exact ⟨a, hwriter, fun ha => hpublished (hlive a ha)⟩

theorem Requests.step {t : State n} {act : Action} (hr : Requests s)
    (h : (machine n).step s act = some t) : Requests t := by
  cases step_cases h with
  | call hb hcall =>
    refine hr.move hb (fun i => stance_call hcall) ?_
    rintro i w rfl
    cases call_cases hcall
  | advance hb hnext =>
    refine hr.move hb (fun i => stance_next hnext) ?_
    rintro i w rfl
    exact word_cases hnext
  | exit p => exact hr.die p

end

theorem reachable_requests {s : State n} (h : (machine n).Reachable s) : Requests s :=
  h.invariant (fun _ h0 => h0 ▸ requests_initial) fun _ _ _ hr hstep => hr.step hstep

/-! ### A slot with COPYING or a pending octile -/

section

variable {s t : State n} {a b : Agent} {e : Effect n} {c : Pc n} {i : Fin n} {ch : Choice}

/-- The slot is copied from, or its guard is moved. -/
def Busy (w : ReaderState) : Prop := w.copying = true ∨ w.pending ≠ none

theorem Inv.active_of_busy (hs : Inv s) (ha : s.Live a) (hi : (s.pc a).slot = some i)
    (hbusy : Busy (s.slots i)) : (s.slots i).status = .active := by
  have howned := hs.owned a i ha hi
  rcases hbusy with hcopying | hpending
  · rw [howned.copying] at hcopying
    have hguard := howned.guard
    cases hpc : s.pc a with
    | copying j o =>
      rw [hpc] at hguard
      exact hguard.1
    | _ => simp [hpc, Pc.marked] at hcopying
  · by_contra hstatus
    exact hpending (hs.word i hstatus).2

/-- Others leave a busy slot of a live reader alone, but for REQUEST. -/
theorem Inv.spares_next (hs : Inv s) (ha : s.Live a) (hb : s.Live b) (hba : b ≠ a)
    (hi : (s.pc a).slot = some i) (h : s.next b ch = some (e, c)) :
    Spares (s.slots i) ((s.apply b e).slots i) := by
  by_cases hwrites : ∃ w, e = .word i w
  · obtain ⟨w, rfl⟩ := hwrites
    show Spares (s.slots i) (update s.slots i w i)
    rw [update_self]
    rcases word_cases h with ⟨hown | hclaims, -, -⟩ | rfl | ⟨-, rfl⟩ | ⟨hevicts, rfl⟩
    · exact absurd (hs.own ha hi b hb hown) hba
    · exact absurd (hs.claim hb hclaims a ha hi).symm hba
    · exact .request _ false
    · exact .request _ true
    · exact .evicted hevicts.pending hevicts.copying
  · rw [State.slots_apply_of_ne _ _ fun w he => hwrites ⟨w, he⟩]
    exact .refl _

/-- The reader itself keeps its slot ACTIVE and guarded while it is busy. -/
theorem Inv.keeps_next (hs : Inv s) (ha : s.Live a) (hi : (s.pc a).slot = some i)
    (hbusy : Busy (s.slots i)) (h : s.next a ch = some (e, c)) :
    ((s.apply a e).slots i).status = .active ∧
      ((s.slots i).guard ≠ none → ((s.apply a e).slots i).guard ≠ none) := by
  have hactive := hs.active_of_busy ha hi hbusy
  have howned := hs.owned a i ha hi
  unfold Busy at hbusy
  rw [howned.copying, howned.pending] at hbusy
  unfold State.next at h
  cases hpc : s.pc a with
  | acquireAdded j o previous =>
    obtain rfl : j = i := by simpa [hpc, Pc.slot] using hi
    simp only [hpc] at h
    cases h
    simp [State.apply, ReaderState.attached, ReaderState.withGuard, ReaderState.guard, hactive]
  | settle j o r | donePending j o =>
    obtain rfl : j = i := by simpa [hpc, Pc.slot] using hi
    simp only [hpc] at h
    cases h
    simp [State.apply, ReaderState.clearPending, ReaderState.guard, hactive]
  | copying j o =>
    obtain rfl : j = i := by simpa [hpc, Pc.slot] using hi
    simp only [hpc] at h
    cases h
    simp [State.apply, ReaderState.guard, hactive]
  | acquirePending j o previous | acquireMoved j o p | released j o | doneCount j o =>
    simp only [hpc] at h
    cases h
    exact ⟨hactive, id⟩
  | _ => simp [hpc, Pc.marked, Pc.pending] at hbusy

end

/-! ### Who returns COPIED -/

/-- What is to be returned after the last operation is not COPIED. -/
def Pc.Honest : Pc n → Prop
  | .settle _ _ r | .leave (.owns _ r) => r ≠ .copied
  | _ => True

/-- A step that returns COPIED has come from the copy. -/
structure Copies (i : Fin n) (c₀ c : Pc n) : Prop where
  honest : c.Honest
  copied : c₀.Honest → c = .owns i .copied → ∃ o, c₀ = .copying i o

section

variable {s t : State n} {a : Agent} {e : Effect n} {c c₀ : Pc n} {i : Fin n} {ch : Choice}

/-- A point at which nothing is returned. -/
def Pc.silent : Pc n → Bool
  | .owns _ _ | .settle _ _ _ | .leave (.owns _ _) => false
  | _ => true

theorem Copies.silent (h : c.silent = true) : Copies i c₀ c where
  honest := by
    cases c with
    | leave x =>
      cases x with
      | owns j r => cases h
      | _ => trivial
    | settle j o r => cases h
    | _ => trivial
  copied := by
    rintro - rfl
    cases h

theorem Copies.owns {j : Fin n} {r : Outcome} (hr : r ≠ .copied) : Copies i c₀ (.owns j r) where
  honest := trivial
  copied := by
    rintro - h
    cases h
    exact absurd rfl hr

theorem Copies.leave {j : Fin n} {r : Outcome} (hr : r ≠ .copied) :
    Copies i c₀ (.leave (.owns j r)) where
  honest := hr
  copied _ h := by cases h

theorem Copies.settle {j : Fin n} {o : Octile} {r : Outcome} (hr : r ≠ .copied) :
    Copies i c₀ (.settle j o r) where
  honest := hr
  copied _ h := by cases h

theorem Pc.silent_passFrom (o : Octile) (k : ℕ) (published : Bool) :
    (Pc.passFrom (n := n) o k published).silent = true := by
  unfold passFrom
  split_ifs <;> rfl

theorem Exit.silent_pc {x : Exit n} (h : (Pc.leave x).silent = true) : x.pc.silent = true := by
  cases x with
  | owns j r => cases h
  | scavenged d =>
    cases d with
    | pass o published => exact Pc.silent_passFrom o 0 published
    | _ => rfl
  | cancelled d => cases d <;> rfl
  | pass o k published => exact Pc.silent_passFrom o k published
  | throw published => cases published <;> rfl
  | _ => rfl

theorem Purpose.silent_next (p : Purpose) (j : Fin n) : (p.next j).silent = true := by
  cases p <;> rfl

theorem copies_answer (q : Query n) (sum : ℕ) : Copies i c₀ (q.answer sum) := by
  cases q with
  | unpaired j o access p =>
    simp only [Query.answer]
    split_ifs
    · exact .silent (p.silent_next j)
    · exact .silent rfl
  | _ =>
    simp only [Query.answer]
    split_ifs <;> first | exact .silent rfl | exact .leave (by rintro ⟨⟩)

theorem copies_next (h : s.next a ch = some (e, c)) : Copies i (s.pc a) c := by
  unfold State.next at h
  cases hpc : s.pc a
  all_goals simp only [hpc, State.acquireStep, State.releaseStep, State.copyStep, State.countStep,
    State.clearPendingStep, State.scavengeStep, State.eligibleStep, State.evictStep] at h
  case wait x =>
    split_ifs at h
    cases h
    exact .silent (by cases x <;> rfl)
  case leave x =>
    cases h
    by_cases hx : (Pc.leave x).silent = true
    · exact .silent (Exit.silent_pc hx)
    · cases x with
      | owns j r =>
        refine ⟨trivial, fun hr hcopied => ?_⟩
        cases hcopied
        exact absurd rfl hr
      | _ => exact absurd rfl hx
  case settle j o r =>
    cases h
    refine ⟨trivial, fun hr hcopied => ?_⟩
    cases hcopied
    exact absurd rfl hr
  case copying j o =>
    cases h
    refine ⟨trivial, fun _ hcopied => ?_⟩
    cases hcopied
    exact ⟨o, rfl⟩
  case acquireAdded j o previous =>
    cases h
    cases previous with
    | none => exact .owns (by rintro ⟨⟩)
    | some p => exact .silent rfl
  case clearPending j guard mode p =>
    cases guard with
    | none =>
      cases h
      exact .silent (p.silent_next j)
    | some o =>
      cases h
      cases mode with
      | none => exact .silent (p.silent_next j)
      | _ => exact .silent rfl
  case clearCount j o p =>
    cases h
    exact .silent (p.silent_next j)
  case unpaired j o p | unpairedSwap j o access p =>
    split_ifs at h <;> cases h
    · exact .silent (p.silent_next j)
    · exact .silent rfl
  case count q k sum =>
    split_ifs at h <;> cases h <;> first | exact .silent rfl | exact copies_answer q sum
  case blocked o published | recheck o published =>
    split_ifs at h <;> cases h
    · exact .silent (by cases published <;> rfl)
    · exact .silent rfl
  all_goals first
    | (cases h; done)
    | (cases h; first
        | exact .silent rfl
        | exact .settle (by rintro ⟨⟩)
        | exact .leave (by rintro ⟨⟩))
    | (split_ifs at h <;> cases h <;> first
        | exact .silent rfl
        | exact .owns (by rintro ⟨⟩)
        | exact .leave (by rintro ⟨⟩))

theorem copies_call {d : Call} (h : s.call a d = some (e, c)) : Copies i (s.pc a) c := by
  refine .silent ?_
  cases call_cases h with
  | reader _ hstart => cases hstart <;> rfl
  | _ => rfl

theorem copies_step {act : Action} (i : Fin n) (h : (machine n).step s act = some t) (b : Agent) :
    t.pc b = s.pc b ∨ Copies i (s.pc b) (t.pc b) := by
  have hmove : ∀ a e c, Copies i (s.pc a) c → ((s.apply a e).goto a c).pc b = s.pc b ∨
      Copies i (s.pc b) (((s.apply a e).goto a c).pc b) := by
    intro a e c hcopies
    obtain rfl | hba := eq_or_ne b a
    · rw [State.pc_goto_self]
      exact .inr hcopies
    · rw [s.pc_move a e c b hba]
      exact .inl rfl
  cases step_cases h with
  | call _ hcall => exact hmove _ _ _ (copies_call hcall)
  | advance _ hnext => exact hmove _ _ _ (copies_next hnext)
  | exit p => exact .inl rfl

theorem copied_step {act : Action} (hhonest : (s.pc a).Honest) (h : (machine n).step s act = some t)
    (hold : s.pc a ≠ .owns i .copied) (hnew : t.pc a = .owns i .copied) :
    ∃ o, s.pc a = .copying i o := by
  rcases copies_step i h a with hsame | hcopies
  · exact absurd (hsame.symm.trans hnew) hold
  · exact hcopies.copied hhonest hnew

theorem reachable_honest (i : Fin n) (h : (machine n).Reachable s) (a : Agent) :
    (s.pc a).Honest := by
  refine h.invariant (I := fun s => ∀ a, (s.pc a).Honest) ?_ ?_ a
  · rintro s rfl b
    trivial
  · intro s act t hs hstep b
    rcases copies_step i hstep b with hsame | hcopies
    · rw [hsame]
      exact hs b
    · exact hcopies.honest

end

/-! ### The arbitration -/

/-- A compare-and-swap of `read_access` by a recovery. -/
def Effect.recovers : Effect n → Bool
  | .store _ _ => true
  | _ => false

/-- The step is no compare-and-swap of a recovery. -/
def Unrecovered (s : State n) : Action → Prop
  | .advance a ch => ((s.next a ch).any fun m => m.1.recovers) = false
  | _ => True

instance (s : State n) : (act : Action) → Decidable (Unrecovered s act)
  | .advance _ _ => inferInstanceAs (Decidable (_ = false))
  | .call _ _ | .exit _ => .isTrue trivial

/-- `advance_writer_octile_if_needed` has returned or thrown, the constructor of the writer has
returned, or its destructor is about to give up `ownership_mutex`. -/
def Pc.settled : Pc n → Bool
  | .writer _ | .wait (.cancel .caught) | .closing => true
  | _ => false

/-- What the arbitration guarantees in a state. -/
structure Arbitrated (s : State n) : Prop where
  /-- No step moves a busy slot of a live reader out of ACTIVE or takes its guard, and no step of another
  agent changes its guard, COPYING or its pending octile. -/
  busy : ∀ a i act t, s.Live a → (s.pc a).slot = some i → Busy (s.slots i) →
    (machine n).step s act = some t →
      (t.slots i).status = .active ∧ ((s.slots i).guard ≠ none → (t.slots i).guard ≠ none) ∧
        ((∀ ch, act ≠ .advance a ch) → (t.slots i).guard = (s.slots i).guard ∧
          (t.slots i).copying = (s.slots i).copying ∧ (t.slots i).pending = (s.slots i).pending)
  /-- A slot is only evicted by the writer, with REQUEST set and while it is not busy. The step clears
  its guard and nothing else, and the writer is to release a count of the octile it guarded. -/
  evicted : ∀ i act t, (machine n).step s act = some t → (s.slots i).status ≠ .evicted →
    (t.slots i).status = .evicted → ∃ a ch o published, act = .advance a ch ∧ s.writer = some a ∧
      (s.slots i).request = true ∧ ¬Busy (s.slots i) ∧
      (s.slots i).guard = some (s.slots i).guardOctile ∧
      t = (s.apply a (.word i { s.slots i with status := .evicted, guardPresent := false })).goto a
        (.evictCount o i (s.slots i).guardOctile published)
  /-- It then releases one count of this octile; there is one, unless a recovery has wiped it. -/
  released : ∀ a o i guard published, s.Live a → s.pc a = .evictCount o i guard published →
    (∀ ch t, (machine n).step s (.advance a ch) = some t →
      t = (s.apply a (.sub guard)).goto a (.unrequest o i published)) ∧
    ((machine n).ReachableUnder Unrecovered s → 1 ≤ s.readAccess guard)
  /-- While a live reader copies, its slot is ACTIVE and guards the octile. -/
  copying : ∀ a i o, s.Live a → s.pc a = .copying i o →
    (s.slots i).status = .active ∧ (s.slots i).copying = true ∧ (s.slots i).guard = some o ∧
      ((machine n).ReachableUnder Unrecovered s → 1 ≤ s.readAccess o)
  /-- COPIED is only returned by a reader that has copied. -/
  copied : ∀ a i act t, (machine n).step s act = some t → s.pc a ≠ .owns i .copied →
    t.pc a = .owns i .copied → ∃ o, s.pc a = .copying i o
  /-- No slot carries REQUEST when the calls of the writer have come to their end … -/
  settled : ∀ a i, s.Live a → (s.pc a).settled = true → (s.slots i).request = false
  /-- … and when there is no writer. -/
  closed : ∀ i, s.writer = none → (s.slots i).request = false

section

variable {s t : State n} {a : Agent} {act : Action} {i : Fin n}

theorem Unrecovered.harmless (h : (machine n).ReachableUnder Unrecovered s) :
    (machine n).ReachableUnder Harmless s := by
  refine h.mono ?_
  intro s act hact
  cases act with
  | advance a ch =>
    intro o count c hnext
    simp [Unrecovered, hnext, Effect.recovers] at hact
  | call a d | exit p => trivial

theorem slots_of_call {d : Call} {e : Effect n} {c : Pc n} (h : s.call a d = some (e, c)) :
    (s.apply a e).slots = s.slots := by
  cases call_cases h <;> rfl

theorem Inv.busy_step (hs : Inv s) (ha : s.Live a) (hi : (s.pc a).slot = some i)
    (hbusy : Busy (s.slots i)) (h : (machine n).step s act = some t) :
    (t.slots i).status = .active ∧ ((s.slots i).guard ≠ none → (t.slots i).guard ≠ none) ∧
      ((∀ ch, act ≠ .advance a ch) → (t.slots i).guard = (s.slots i).guard ∧
        (t.slots i).copying = (s.slots i).copying ∧ (t.slots i).pending = (s.slots i).pending) := by
  have hactive := hs.active_of_busy ha hi hbusy
  cases step_cases h with
  | @call b d e c _ hcall =>
    show ((s.apply b e).slots i).status = .active ∧
      (_ → ((s.apply b e).slots i).guard ≠ none) ∧ (_ → ((s.apply b e).slots i).guard = _ ∧
        ((s.apply b e).slots i).copying = _ ∧ ((s.apply b e).slots i).pending = _)
    rw [slots_of_call hcall]
    exact ⟨hactive, id, fun _ => ⟨rfl, rfl, rfl⟩⟩
  | @advance b ch e c hb hnext =>
    obtain rfl | hba := eq_or_ne b a
    · obtain ⟨hstatus, hguard⟩ := hs.keeps_next ha hi hbusy hnext
      exact ⟨hstatus, hguard, fun hother => absurd rfl (hother ch)⟩
    · have hspares := hs.spares_next ha hb hba hi hnext
      obtain ⟨hstatus, hguard⟩ := hspares.kept (by
        rcases hbusy with hcopying | hpending
        · exact .inr hcopying
        · exact .inl (Option.isSome_iff_ne_none.2 hpending))
      exact ⟨hstatus.trans hactive, hguard.symm ▸ id,
        fun _ => ⟨hguard, hspares.copying, hspares.pending⟩⟩
  | exit p => exact ⟨hactive, id, fun _ => ⟨rfl, rfl, rfl⟩⟩

theorem evicted_step (hr : Requests s) (h : (machine n).step s act = some t)
    (hold : (s.slots i).status ≠ .evicted) (hnew : (t.slots i).status = .evicted) :
    ∃ a ch o published, act = .advance a ch ∧ s.writer = some a ∧
      (s.slots i).request = true ∧ ¬Busy (s.slots i) ∧
      (s.slots i).guard = some (s.slots i).guardOctile ∧
      t = (s.apply a (.word i { s.slots i with status := .evicted, guardPresent := false })).goto a
        (.evictCount o i (s.slots i).guardOctile published) := by
  cases step_cases h with
  | @call b d e c _ hcall =>
    change ((s.apply b e).slots i).status = .evicted at hnew
    rw [slots_of_call hcall] at hnew
    exact absurd hnew hold
  | @advance b ch e c hb hnext =>
    change ((s.apply b e).slots i).status = .evicted at hnew
    by_cases hwrites : ∃ w, e = .word i w
    · obtain ⟨w, rfl⟩ := hwrites
      replace hnew : (update s.slots i w i).status = .evicted := hnew
      rw [update_self] at hnew
      rcases word_cases hnext with ⟨-, hkept, -⟩ | rfl | ⟨-, rfl⟩ | ⟨hevicts, rfl⟩
      · exact absurd (hkept hnew) hold
      · exact absurd hnew hold
      · exact absurd hnew hold
      · obtain ⟨o, published, hpc, rfl⟩ := hevicts.next
        refine ⟨b, ch, o, published, rfl, ?_, hevicts.request, ?_, ?_, rfl⟩
        · exact hr.role b i hb (by rw [hpc]; exact (nomatch ·))
        · rintro (hcopying | hpending)
          · simp [hevicts.copying] at hcopying
          · exact hpending hevicts.pending
        · exact ReaderState.guard_of_present hevicts.present
    · rw [State.slots_apply_of_ne _ _ fun w he => hwrites ⟨w, he⟩] at hnew
      exact absurd hnew hold
  | exit p => exact absurd hnew hold

theorem Requests.settled (hr : Requests s) (ha : s.Live a) (hsettled : (s.pc a).settled = true)
    (i : Fin n) : (s.slots i).request = false := by
  have hfalse : (s.pc a).published i = some false := by
    cases hpc : s.pc a with
    | wait x =>
      rw [hpc] at hsettled
      cases x with
      | cancel d => cases d <;> first | rfl | cases hsettled
      | _ => cases hsettled
    | writer ok | closing => rfl
    | _ => simp [hpc, Pc.settled] at hsettled
  by_contra hrequest
  obtain ⟨b, hwriter, hpublished⟩ := hr.request i (by simpa using hrequest)
  have hrole := hr.role a i ha (by rw [hfalse]; exact (nomatch ·))
  obtain rfl := Option.mem_unique hwriter hrole
  simp [hpublished ha] at hfalse

/-- **The arbitration holds in every reachable state**, whatever the interleaving and whoever died. -/
theorem arbitration (hs : (machine n).Reachable s) : Arbitrated s where
  busy a i act t ha hi hbusy h := (reachable_inv hs).busy_step ha hi hbusy h
  evicted i act t h hold hnew := evicted_step (reachable_requests hs) h hold hnew
  released := by
    intro a o i guard published ha hpc
    constructor
    · intro ch t h
      cases step_cases h with
      | advance _ hnext =>
        simp only [State.next, hpc] at hnext
        cases hnext
        rfl
    · intro hrun
      have hmem : Sum.inr a ∈ s.holders guard := ⟨ha, by rw [hpc]; rfl⟩
      exact (reachable_counted (Unrecovered.harmless hrun) guard).pos hmem
  copying := by
    intro a i o ha hpc
    have howned := (reachable_inv hs).owned a i ha (by rw [hpc]; rfl)
    have hguard := howned.guard
    have hcopying := howned.copying
    rw [hpc] at hguard hcopying
    refine ⟨hguard.1, hcopying, hguard.2, fun hrun => ?_⟩
    have hmem : Sum.inl i ∈ s.holders o := hguard.2
    exact (reachable_counted (Unrecovered.harmless hrun) o).pos hmem
  copied a i act t h hold hnew := copied_step (reachable_honest i hs a) h hold hnew
  settled a i ha hsettled := (reachable_requests hs).settled ha hsettled i
  closed := by
    intro i hwriter
    by_contra hrequest
    obtain ⟨a, hsome, -⟩ := (reachable_requests hs).request i (by simpa using hrequest)
    simp [hwriter] at hsome

end

/-- A reader takes the octile the writer is to enter, and the writer requests and evicts it. -/
def evictingRun : List Action :=
  constructs stayingReader 0 ++ .call theWriter .openWriter :: run theWriter 4 ++
    acquires stayingReader .first ++ .call theWriter (.advanceWriter .first) :: run theWriter 4 ++
    .advance theWriter { plain 0 with pass := true } :: run theWriter 11

/-- The count of an evicted reader is there to be released. -/
theorem arbitration_evicted : ∃ s : State 1, (machine 1).Reachable s ∧ Arbitrated s ∧
    (s.slots 0).status = .evicted ∧ s.pc theWriter = .evictCount 0 0 0 true ∧
    1 ≤ s.readAccess 0 := by
  obtain ⟨s, hs, hevicted, hpc, hlive⟩ :
      ∃ s, (machine 1).ReachableUnder Unrecovered s ∧ (s.slots 0).status = .evicted ∧
        s.pc theWriter = .evictCount 0 0 0 true ∧ theWriter.process ∉ s.exited :=
    Machine.exists_reachableUnder_of_exec evictingRun rfl (by decide +kernel)
  have harbitrated := arbitration hs.reachable
  exact ⟨s, hs.reachable, harbitrated, hevicted, hpc,
    (harbitrated.released theWriter 0 0 0 true hlive hpc).2 hs⟩

end Sintra.Ring.Guards
