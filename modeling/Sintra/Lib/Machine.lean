import Mathlib

/-!
# Machines: interleaved steps with all nondeterminism in the action

A `Machine σ α` is a set of initial states and a partial step function. Scheduling, the answers of
the environment and the points at which a participant dies are all carried by the action, so one
action has at most one successor and a finite run can be evaluated.

* `ReachableUnder M P s` — `s` is reached by a run all of whose steps `(s, a)` meet `P`; `Reachable`
  is the case of no condition.
* `Steps M s t` — a run segment, and `exec` — the run along a list of actions, with
  `reachable_of_exec` turning an evaluated run into a reachable state.
-/

/-- A machine: its initial states, and for each state and action at most one successor. -/
structure Machine (σ α : Type*) where
  /-- The initial states. -/
  init : σ → Prop
  /-- The successor of a state under an action, if the action is enabled. -/
  step : σ → α → Option σ

namespace Machine

open Option

variable {σ α : Type*} {s t : σ} {a : α} {P : σ → α → Prop}

/-- A guarded step is taken when the guard holds. -/
theorem of_guard {p : Prop} [Decidable p] (h : (if p then some s else none) = some t) :
    p ∧ s = t := by
  rwa [ite_none_right_eq_some, some.injEq] at h

/-! ### Reachability -/

variable (M : Machine σ α)

/-- States reached from an initial state by steps that all meet `P`. -/
inductive ReachableUnder (P : σ → α → Prop) : σ → Prop
  | init {s : σ} : M.init s → ReachableUnder P s
  | step {s t : σ} {a : α} : ReachableUnder P s → P s a → M.step s a = some t → ReachableUnder P t

/-- States reached from an initial state by any steps. -/
def Reachable : σ → Prop := M.ReachableUnder fun _ _ => True

variable {M}

theorem Reachable.of_init {s : σ} (h : M.init s) : M.Reachable s := ReachableUnder.init h

theorem Reachable.next (h : M.Reachable s) (ht : M.step s a = some t) :
    M.Reachable t := ReachableUnder.step h trivial ht

theorem ReachableUnder.mono {P Q : σ → α → Prop} (hPQ : ∀ s a, P s a → Q s a) {s : σ}
    (h : M.ReachableUnder P s) : M.ReachableUnder Q s := by
  induction h with
  | init h => exact .init h
  | step _ hP ht ih => exact .step ih (hPQ _ _ hP) ht

theorem ReachableUnder.reachable {s : σ} (h : M.ReachableUnder P s) :
    M.Reachable s := h.mono fun _ _ _ => trivial

/-- **The invariant rule.** `I` holds in every state reached under `P` as soon as it holds
initially and every conforming step from a reached state in `I` stays in `I`. -/
theorem ReachableUnder.invariant {I : σ → Prop} (h0 : ∀ s, M.init s → I s)
    (hstep : ∀ s a t, M.ReachableUnder P s → I s → P s a → M.step s a = some t → I t) {s : σ}
    (h : M.ReachableUnder P s) : I s := by
  induction h with
  | init h => exact h0 _ h
  | step hs hP ht ih => exact hstep _ _ _ hs ih hP ht

/-- The invariant rule without a condition on the steps. -/
theorem Reachable.invariant {I : σ → Prop} (h0 : ∀ s, M.init s → I s)
    (hstep : ∀ s a t, I s → M.step s a = some t → I t) {s : σ} (h : M.Reachable s) : I s :=
  ReachableUnder.invariant h0 (fun s a t _ hI _ ht => hstep s a t hI ht) h

/-! ### Run segments -/

variable (M)

/-- `t` is reached from `s` by some steps. -/
inductive Steps : σ → σ → Prop
  | refl (s : σ) : Steps s s
  | tail {s t u : σ} {a : α} : Steps s t → M.step t a = some u → Steps s u

/-- The state after a list of actions, if each of them is enabled in turn. -/
def exec (s : σ) : List α → Option σ
  | [] => some s
  | a :: as => (M.step s a).bind fun t => exec t as

variable {M}

theorem Steps.trans {s t u : σ} (h : M.Steps s t) (h' : M.Steps t u) : M.Steps s u := by
  induction h' with
  | refl => exact h
  | tail _ ht ih => exact .tail ih ht

theorem Steps.single (h : M.step s a = some t) : M.Steps s t :=
  .tail (.refl s) h

theorem Reachable.steps (h : M.Reachable s) (hst : M.Steps s t) : M.Reachable t := by
  induction hst with
  | refl => exact h
  | tail _ ht ih => exact ih.next ht

@[simp] theorem exec_nil (s : σ) : M.exec s [] = some s := rfl

theorem exec_cons (h : M.step s a = some t) (as : List α) : M.exec s (a :: as) = M.exec t as := by
  simp [exec, h]

theorem steps_of_exec {as : List α} (h : M.exec s as = some t) : M.Steps s t := by
  induction as generalizing s with
  | nil => cases h; exact .refl _
  | cons a as ih =>
    simp only [exec, bind_eq_some_iff] at h
    obtain ⟨u, hu, hut⟩ := h
    exact (Steps.single hu).trans (ih hut)

theorem reachable_of_exec {as : List α} (hs : M.init s) (h : M.exec s as = some t) :
    M.Reachable t := (Reachable.of_init hs).steps (steps_of_exec h)

/-- A run that ends in a state with a decidable property shows that such a state is reached. -/
theorem exists_steps_of_exec (as : List α) {s : σ} {P : σ → Prop} [DecidablePred P]
    (h : ((M.exec s as).any fun t => P t) = true) : ∃ t, M.Steps s t ∧ P t := by
  cases ht : M.exec s as with
  | none => simp [ht] at h
  | some t => exact ⟨t, steps_of_exec ht, by simpa [ht] using h⟩

theorem exists_reachable_of_exec (as : List α) {s : σ} {P : σ → Prop} [DecidablePred P]
    (hs : M.init s) (h : ((M.exec s as).any fun t => P t) = true) : ∃ t, M.Reachable t ∧ P t := by
  obtain ⟨t, ht, hP⟩ := exists_steps_of_exec as h
  exact ⟨t, (Reachable.of_init hs).steps ht, hP⟩

/-! ### Runs under a condition -/

/-- The machine that refuses the steps that do not meet `P`. -/
def restrict (M : Machine σ α) (P : σ → α → Prop) [∀ s a, Decidable (P s a)] : Machine σ α where
  init := M.init
  step s a := if P s a then M.step s a else none

theorem Reachable.of_restrict [∀ s a, Decidable (P s a)] {s : σ} (h : (M.restrict P).Reachable s) :
    M.ReachableUnder P s := by
  induction h with
  | init h => exact .init h
  | @step s t a _ _ ht ih =>
    by_cases hP : P s a
    · exact .step ih hP (by simpa [restrict, hP] using ht)
    · simp [restrict, hP] at ht

theorem exists_reachableUnder_of_exec [∀ s a, Decidable (P s a)] (as : List α) {s : σ} {Q : σ → Prop}
    [DecidablePred Q] (hs : M.init s) (h : (((M.restrict P).exec s as).any fun t => Q t) = true) :
    ∃ t, M.ReachableUnder P t ∧ Q t := by
  obtain ⟨t, ht, hQ⟩ := exists_reachable_of_exec (M := M.restrict P) as hs h
  exact ⟨t, ht.of_restrict, hQ⟩

/-! ### Monotone quantities -/

/-- A quantity that no step lowers is at most its later value. -/
theorem Steps.mono {β : Type*} [Preorder β] {f : σ → β}
    (hf : ∀ s a t, M.step s a = some t → f s ≤ f t) (h : M.Steps s t) : f s ≤ f t := by
  induction h with
  | refl => exact le_rfl
  | tail _ ht ih => exact ih.trans (hf _ _ _ ht)

/-- A quantity that no step lowers and that is equal at both ends of a segment is constant on
it. -/
theorem Steps.bracket {β : Type*} [PartialOrder β] {f : σ → β}
    (hf : ∀ s a t, M.step s a = some t → f s ≤ f t) {s u t : σ} (h : M.Steps s u) (h' : M.Steps u t)
    (hst : f t = f s) : f u = f s :=
  le_antisymm (hst ▸ h'.mono hf) (h.mono hf)

end Machine
