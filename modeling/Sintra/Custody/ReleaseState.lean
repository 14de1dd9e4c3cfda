import Mathlib

/-!
# The release state of a custody

A custody is open, or being released, or released. While it is being released it carries the mode of
the release, a request to run again, and one attempt with its generation.

Each operation is a section under the mutex of the custody. Those that may be refused give `none`
then; the source returns false and leaves the state alone.

Sources without a file name are in `managed_process.h`.
-/

namespace Sintra.Custody

open Option

/-- Source: `Release_mode` -/
inductive ReleaseMode
  | passive
  | cleanup
  deriving DecidableEq

/-- Source: `Managed_child_release_state::Attempt` -/
inductive Attempt
  | running
  | failing
  | retryable
  deriving DecidableEq

/-- Source: `Managed_child_release_state::Releasing` -/
structure Releasing where
  cleanupRequested : Bool
  rerunRequested : Bool
  generation : UInt64
  attempt : Attempt
  deriving DecidableEq

/-- Source: `Managed_child_release_state` -/
inductive ReleaseState
  | opened
  | releasing (r : Releasing)
  | released
  deriving DecidableEq

/-- Source: `Managed_child_release_state::next_generation` -/
def nextGeneration (generation : UInt64) : UInt64 :=
  if generation + 1 = 0 then generation + 1 + 1 else generation + 1

theorem nextGeneration_ne_zero (g : UInt64) : nextGeneration g ≠ 0 := by
  unfold nextGeneration
  split
  · next h =>
      rw [h]
      decide
  · next h => exact h

/-- As long as the counter does not wrap around, it counts. -/
theorem toNat_nextGeneration {g : UInt64} (h : g.toNat + 1 < 2 ^ 64) :
    (nextGeneration g).toNat = g.toNat + 1 := by
  have hadd : (g + 1).toNat = g.toNat + 1 := by
    exact Nat.mod_eq_of_lt h
  have hne : g + 1 ≠ 0 := by
    intro hzero
    rw [hzero] at hadd
    cases hadd
  rw [nextGeneration, if_neg hne, hadd]

namespace ReleaseState

/-! ### Queries -/

/-- Source: `Managed_child_release_state::cleanup_requested` -/
def cleanupRequested : ReleaseState → Bool
  | .releasing r => r.cleanupRequested
  | _ => false

/-- Source: `Managed_child_release_state::has_attempt` -/
def hasAttempt (s : ReleaseState) (expected : Attempt) : Bool :=
  match s with
  | .releasing r => r.attempt = expected
  | _ => false

/-- Source: `Managed_child_release_state::generation` -/
def generation : ReleaseState → UInt64
  | .releasing r => r.generation
  | _ => 0

/-- Source: `Managed_child_release_state::running` -/
def running (s : ReleaseState) (expectedGeneration : UInt64) : Bool :=
  expectedGeneration ≠ 0 && s.hasAttempt .running && s.generation = expectedGeneration

/-- Source: `Managed_child_release_state::exact_releasing` -/
def exactReleasing (s : ReleaseState) (expectedGeneration : UInt64) : Option Releasing :=
  match s with
  | .releasing r => if expectedGeneration ≠ 0 ∧ r.generation = expectedGeneration then some r else none
  | _ => none

/-! ### Transitions -/

/-- The generation handed out, zero if none is, and the state.
Source: `Managed_child_release_state::request` -/
def request (s : ReleaseState) (command : ReleaseMode) : UInt64 × ReleaseState :=
  match s with
  | .releasing r =>
    let r' := { r with cleanupRequested := r.cleanupRequested || decide (command = ReleaseMode.cleanup) }
    if r.attempt ≠ .retryable then (0, .releasing { r' with rerunRequested := true })
    else
      (nextGeneration r.generation,
        .releasing { r' with generation := nextGeneration r.generation, attempt := .running })
  | .opened =>
    (nextGeneration 0, .releasing ⟨command = .cleanup, false, nextGeneration 0, .running⟩)
  | .released => (0, .released)

/-- Source: `Managed_child_release_state::mark_failing` -/
def markFailing (s : ReleaseState) (expectedGeneration : UInt64) : Option ReleaseState :=
  match s.exactReleasing expectedGeneration with
  | some r => if r.attempt = .running then some (.releasing { r with attempt := .failing }) else none
  | none => none

/-- Source: `Managed_child_release_state::mark_retryable` -/
def markRetryable (s : ReleaseState) (expectedGeneration : UInt64) : Option ReleaseState :=
  match s.exactReleasing expectedGeneration with
  | some r =>
    if r.attempt = .retryable then none
    else if r.rerunRequested then
      some (.releasing { r with
        rerunRequested := false
        generation := nextGeneration r.generation
        attempt := .running })
    else some (.releasing { r with attempt := .retryable })
  | none => none

/-- Source: `Managed_child_release_state::mark_released` -/
def markReleased (s : ReleaseState) (expectedGeneration : UInt64) : Option ReleaseState :=
  if s.running expectedGeneration then some .released else none

/-! ### Attempts -/

/-- The attempt of the generation runs or fails.
Source: `Managed_child_release_state::active` -/
def Active (s : ReleaseState) (g : UInt64) : Prop :=
  ∃ r, s = .releasing r ∧ r.generation = g ∧ r.attempt ≠ .retryable

variable {s t : ReleaseState} {g : UInt64} {r : Releasing}

theorem exactReleasing_eq_some :
    s.exactReleasing g = some r ↔ s = .releasing r ∧ g ≠ 0 ∧ r.generation = g := by
  cases s with
  | releasing r' =>
    rw [exactReleasing, ite_none_right_eq_some, some.injEq]
    constructor
    · rintro ⟨⟨hne, hgen⟩, rfl⟩
      exact ⟨rfl, hne, hgen⟩
    · rintro ⟨heq, hne, hgen⟩
      cases heq
      exact ⟨⟨hne, hgen⟩, rfl⟩
  | opened | released => simp [exactReleasing]

theorem running_iff :
    s.running g = true ↔ g ≠ 0 ∧ ∃ r, s = .releasing r ∧ r.generation = g ∧ r.attempt = .running := by
  cases s with
  | releasing r =>
    simp only [running, hasAttempt, generation, Bool.and_eq_true, decide_eq_true_eq, and_assoc]
    constructor
    · rintro ⟨hne, hatt, hgen⟩
      exact ⟨hne, r, rfl, of_decide_eq_true hgen, hatt⟩
    · rintro ⟨hne, r', heq, hgen, hatt⟩
      cases heq
      exact ⟨hne, hatt, decide_eq_true hgen⟩
  | opened | released => simp [running, hasAttempt]

theorem active_of_running (h : s.running g = true) : s.Active g := by
  obtain ⟨-, r, heq, hgen, hatt⟩ := running_iff.1 h
  refine ⟨r, heq, hgen, ?_⟩
  rw [hatt]
  exact nofun

theorem markFailing_eq_some (h : s.markFailing g = some t) :
    ∃ r, s = .releasing r ∧ r.generation = g ∧ r.attempt = .running ∧
      t = .releasing { r with attempt := .failing } := by
  unfold markFailing at h
  split at h
  · next r hr =>
      rw [ite_none_right_eq_some, some.injEq] at h
      obtain ⟨heq, -, hgen⟩ := exactReleasing_eq_some.1 hr
      exact ⟨r, heq, hgen, h.1, h.2.symm⟩
  · cases h

/-- What the end of an attempt can do: it hands over to a new one if it was asked to run again. -/
theorem markRetryable_cases (h : s.markRetryable g = some t) :
    ∃ r, s = .releasing r ∧ r.generation = g ∧ r.attempt ≠ .retryable ∧
      (r.rerunRequested = true ∧ t = .releasing { r with
          rerunRequested := false, generation := nextGeneration g, attempt := .running } ∨
        r.rerunRequested = false ∧ t = .releasing { r with attempt := .retryable }) := by
  unfold markRetryable at h
  split at h
  · next r hr =>
      obtain ⟨heq, -, hgen⟩ := exactReleasing_eq_some.1 hr
      rw [ite_none_left_eq_some] at h
      refine ⟨r, heq, hgen, h.1, ?_⟩
      obtain ⟨-, h⟩ := h
      split at h
      · next hrerun =>
          rw [← hgen]
          exact .inl ⟨hrerun, (some.inj h).symm⟩
      · next hrerun => exact .inr ⟨Bool.eq_false_iff.2 hrerun, (some.inj h).symm⟩
  · cases h

/-- An attempt that is over cannot be ended once more. -/
theorem markRetryable_eq_none (h : ¬s.Active g) : s.markRetryable g = none := by
  cases heq : s.markRetryable g with
  | none => rfl
  | some t =>
    obtain ⟨r, hs, hgen, hatt, -⟩ := markRetryable_cases heq
    exact absurd ⟨r, hs, hgen, hatt⟩ h

theorem not_active_of_markRetryable (hne : g ≠ 0) (h : s.markRetryable g = none) : ¬s.Active g := by
  rintro ⟨r, rfl, hgen, hatt⟩
  have hexact := exactReleasing_eq_some.2 ⟨rfl, hne, hgen⟩
  rw [markRetryable, hexact] at h
  dsimp only at h
  rw [if_neg hatt] at h
  split at h <;> cases h

theorem markFailing_eq_none (h : ¬s.Active g) : s.markFailing g = none := by
  cases heq : s.markFailing g with
  | none => rfl
  | some t =>
    obtain ⟨r, hs, hgen, hatt, -⟩ := markFailing_eq_some heq
    refine absurd ⟨r, hs, hgen, ?_⟩ h
    rw [hatt]
    exact nofun

end ReleaseState

end Sintra.Custody
