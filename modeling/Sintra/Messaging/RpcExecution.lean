import Sintra.Lib.Machine

/-!
# Calls that execute on a transceiver, and its shutdown

A call is admitted under `m_rpc_lifecycle_mutex` and lives as long as its guard; the shutdown closes
admission and waits for the last one. The list of the targets a thread executes is read and written by
that thread only, so its use is one step with the locked section beside it; of the list only the
entries for this transceiver are kept, as a number.
-/

namespace Sintra.Messaging.RpcExecution

open Function Machine

/-- Where a thread stands in `ensure_rpc_shutdown`. -/
inductive Pc
  | idle
  /-- Blocked until no call executes, after a number of warnings. -/
  | draining (warnings : ℕ) (notified : Bool)
  /-- Logs a warning, without the lock. -/
  | warning (warnings : ℕ)
  /-- Blocked until another thread has performed the shutdown. -/
  | waiting (notified : Bool)
  | returned
  | threw
  deriving DecidableEq

namespace Pc

def blocked : Pc → Bool
  | draining _ _ | waiting _ => true
  | _ => false

/-- The thread performs the shutdown. -/
def performs : Pc → Bool
  | draining _ _ | warning _ => true
  | _ => false

def notify : Pc → Pc
  | draining n _ => draining n true
  | waiting _ => waiting true
  | p => p

end Pc

/-- The lifecycle fields of a transceiver, its guards and the threads. -/
structure State (ι : Type*) where
  accepting : Bool := true
  active : ℕ := 0
  requested : Bool := false
  complete : Bool := false
  /-- The guards that own the transceiver, by the threads on which they were acquired. A guard that is
  moved hands its place to another one; assignment to a guard that owns releases that one before. -/
  guards : Multiset ι := 0
  /-- The entries for this transceiver in `tl_executing_rpc_targets`. -/
  targets : ι → ℕ := fun _ => 0
  pc : ι → Pc := fun _ => .idle

inductive Action (ι : Type*)
  | tryAcquireRpcExecution (th : ι)
  /-- A guard that was acquired on the thread `home` ends on `th`. -/
  | releaseRpcExecution (th home : ι)
  | ensureRpcShutdown (th : ι)
  /-- A blocked thread looks at its condition: notified, spuriously, or as its interval is over. -/
  | wake (th : ι) (timeout : Bool)
  /-- The warning is logged and the lock is taken again. -/
  | relock (th : ι)

variable {ι : Type*} [DecidableEq ι]

namespace State

variable (s : State ι)

def goto (th : ι) (p : Pc) : State ι := { s with pc := update s.pc th p }

def notifyAll : State ι := { s with pc := fun th => (s.pc th).notify }

/-- Source: `transceiver_impl.h`, `Transceiver::try_acquire_rpc_execution`. -/
def tryAcquireRpcExecution (th : ι) : State ι :=
  if s.accepting then
    { s with
      targets := update s.targets th (s.targets th + 1)
      active := s.active + 1
      guards := th ::ₘ s.guards }
  else s

/-- Source: `transceiver_impl.h`, `Transceiver::release_rpc_execution`. -/
def releaseRpcExecution (th home : ι) : State ι :=
  let t : State ι := { s with
    targets := update s.targets th (s.targets th - 1)
    active := s.active - 1
    guards := s.guards.erase home }
  if s.requested = true ∧ s.active - 1 = 0 then t.notifyAll else t

/-- The end of the shutdown: it is complete, and all waiters are notified. -/
def completeShutdown (th : ι) : State ι :=
  ({ s with complete := true } : State ι).notifyAll.goto th .returned

/-- The loop of the shutdown at its condition. -/
def drain (th : ι) (warnings : ℕ) : State ι :=
  if s.active = 0 then s.completeShutdown th else s.goto th (.draining warnings false)

/-- Source: `transceiver_impl.h`, `Transceiver::ensure_rpc_shutdown`, up to its first wait. -/
def ensureRpcShutdown (th : ι) : State ι :=
  if s.targets th ≠ 0 then s.goto th .threw
  else if s.complete then s.goto th .returned
  else if s.requested then s.goto th (.waiting false)
  else ({ s with requested := true, accepting := false } : State ι).drain th 0

def maxShutdownWarningCount : ℕ := 6

/-- One step. A thread that has logged its last warning terminates the process: it takes no other. -/
def step : Action ι → Option (State ι)
  | .tryAcquireRpcExecution th =>
    if (s.pc th).blocked = false then some (s.tryAcquireRpcExecution th) else none
  | .releaseRpcExecution th home =>
    if (s.pc th).blocked = false ∧ home ∈ s.guards then some (s.releaseRpcExecution th home) else none
  | .ensureRpcShutdown th =>
    if (s.pc th).blocked = false ∧ (s.pc th).performs = false then some (s.ensureRpcShutdown th)
    else none
  | .wake th timeout =>
    match s.pc th with
    | .draining n _ =>
      some (if s.active ≠ 0 ∧ timeout then s.goto th (.warning (n + 1)) else s.drain th n)
    | .waiting _ => some (s.goto th (if s.complete then .returned else .waiting false))
    | _ => none
  | .relock th =>
    match s.pc th with
    | .warning n => if n < maxShutdownWarningCount then some (s.drain th n) else none
    | _ => none

end State

variable (ι) in
/-- A transceiver that accepts calls, with any number of threads. -/
def machine : Machine (State ι) (Action ι) where
  init s := s = {}
  step := State.step

/-- A guard ends on the thread that acquired it. -/
def OnOwnThread (_ : State ι) : Action ι → Prop
  | .releaseRpcExecution th home => home = th
  | _ => True

instance (s : State ι) (a : Action ι) : Decidable (OnOwnThread s a) := by
  cases a with
  | releaseRpcExecution th home => exact inferInstanceAs (Decidable (home = th))
  | _ => exact .isTrue trivial

/-! ### The invariant -/

/-- What holds where a thread stands. -/
def Pc.Ok (requested complete : Bool) (active : ℕ) : Pc → Prop
  | draining _ notified => requested = true ∧ (notified = false → active ≠ 0)
  | warning _ => requested = true
  | waiting notified => notified = false → complete = false
  | returned => complete = true
  | _ => True

structure Inv (s : State ι) : Prop where
  active : s.active = s.guards.card
  closed : s.requested = true → s.accepting = false
  complete : s.complete = true → s.requested = true ∧ s.guards = 0
  threads : ∀ th, (s.pc th).Ok s.requested s.complete s.active

section

variable {p : Pc} {r c c' : Bool} {a a' : ℕ}

/-- Who is notified may find anything but an unfinished shutdown. -/
theorem Pc.Ok.notify (h : p.Ok r c a) (hc : c = true → c' = true) : p.notify.Ok r c' a' := by
  cases p <;> simp_all [Pc.Ok, Pc.notify]

/-- Before the shutdown nobody looks at the counter. -/
theorem Pc.Ok.of_open (h : p.Ok false c a) : p.Ok false c a' := by
  cases p <;> simp_all [Pc.Ok]

end

variable {s t : State ι} {th home : ι}

omit [DecidableEq ι] in
theorem Inv.at (hs : Inv s) {p : Pc} (hpc : s.pc th = p) : p.Ok s.requested s.complete s.active :=
  hpc ▸ hs.threads th

theorem Inv.goto (hs : Inv s) {p : Pc} (hp : p.Ok s.requested s.complete s.active) : Inv (s.goto th p) :=
  ⟨hs.active, hs.closed, hs.complete,
    (forall_update_iff s.pc fun _ q => q.Ok _ _ _).2 ⟨hp, fun x _ => hs.threads x⟩⟩

theorem Inv.completeShutdown (hs : Inv s) (hrequested : s.requested = true) (h0 : s.active = 0) :
    Inv (s.completeShutdown th) := by
  have hdone : Inv ({ s with complete := true } : State ι).notifyAll := by
    refine ⟨hs.active, hs.closed, fun _ => ⟨hrequested, ?_⟩, fun x => ?_⟩
    · exact Multiset.card_eq_zero.1 (hs.active.symm.trans h0)
    · exact (hs.threads x).notify fun _ => rfl
  exact hdone.goto rfl

theorem Inv.drain (hs : Inv s) (hrequested : s.requested = true) (n : ℕ) : Inv (s.drain th n) := by
  unfold State.drain
  split_ifs with h0
  · exact hs.completeShutdown hrequested h0
  · exact hs.goto ⟨hrequested, fun _ => h0⟩

theorem Inv.tryAcquireRpcExecution (hs : Inv s) : Inv (s.tryAcquireRpcExecution th) := by
  unfold State.tryAcquireRpcExecution
  split_ifs with haccepting
  · have hopen : s.requested = false := by
      by_contra h
      simp [hs.closed (by simpa using h)] at haccepting
    refine ⟨by simp [hs.active], hs.closed, fun h => ?_, fun x => ?_⟩
    · cases hopen.symm.trans (hs.complete h).1
    · have hx := hs.threads x
      rw [hopen] at hx
      exact hopen ▸ hx.of_open
  · exact hs

theorem Inv.releaseRpcExecution (hs : Inv s) (hhome : home ∈ s.guards) :
    Inv (s.releaseRpcExecution th home) := by
  have hactive : s.active - 1 = (s.guards.erase home).card := by
    rw [Multiset.card_erase_of_mem hhome, hs.active, Nat.pred_eq_sub_one]
  have hcomplete : s.complete = true → s.requested = true ∧ s.guards.erase home = 0 :=
    fun h => absurd hhome (by simp [(hs.complete h).2])
  simp only [State.releaseRpcExecution]
  split_ifs with hlast
  · exact ⟨hactive, hs.closed, hcomplete, fun x => (hs.threads x).notify id⟩
  · refine ⟨hactive, hs.closed, hcomplete, fun x => ?_⟩
    have hx := hs.threads x
    revert hx
    cases s.pc x with
    | draining n notified => exact fun hx => ⟨hx.1, fun _ h0 => hlast ⟨hx.1, h0⟩⟩
    | _ => exact id

theorem Inv.ensureRpcShutdown (hs : Inv s) : Inv (s.ensureRpcShutdown th) := by
  unfold State.ensureRpcShutdown
  split_ifs with htargets hcomplete hrequested
  · exact hs.goto trivial
  · exact hs.goto hcomplete
  · exact hs.goto fun _ => by simpa using hcomplete
  · have hopen : Inv { s with requested := true, accepting := false } := by
      refine ⟨hs.active, fun _ => rfl, fun h => absurd h hcomplete, fun x => ?_⟩
      have hx := hs.threads x
      cases hpc : s.pc x <;> simp_all [Pc.Ok]
    exact hopen.drain rfl 0

theorem Inv.step (hs : Inv s) {a : Action ι} (h : s.step a = some t) : Inv t := by
  cases a with
  | tryAcquireRpcExecution th =>
    obtain ⟨-, rfl⟩ := of_guard h
    exact hs.tryAcquireRpcExecution
  | releaseRpcExecution th home =>
    obtain ⟨⟨-, hhome⟩, rfl⟩ := of_guard h
    exact hs.releaseRpcExecution hhome
  | ensureRpcShutdown th =>
    obtain ⟨-, rfl⟩ := of_guard h
    exact hs.ensureRpcShutdown
  | wake th timeout =>
    simp only [State.step] at h
    split at h
    next n b hpc =>
      have hrequested := (hs.at hpc).1
      cases h
      split_ifs with htimeout
      · exact hs.goto hrequested
      · exact hs.drain hrequested n
    next b hpc =>
      cases h
      refine hs.goto ?_
      split_ifs with hcomplete
      · exact hcomplete
      · exact fun _ => by simpa using hcomplete
    next => cases h
  | relock th =>
    simp only [State.step] at h
    split at h
    next n hpc =>
      obtain ⟨-, rfl⟩ := of_guard h
      exact hs.drain (hs.at hpc) n
    next => cases h

theorem reachable_inv (hs : (machine ι).Reachable s) : Inv s :=
  hs.invariant (by rintro s rfl; exact ⟨rfl, (nomatch ·), (nomatch ·), fun _ => trivial⟩)
    fun _ _ _ hI h => hI.step h

/-- What a step of a shutdown, or any step of a complete one, leaves as it is. -/
theorem step_frame {a : Action ι} (h : s.step a = some t) :
    (s.complete = true → t.complete = true) ∧
      ((∃ th, a = .tryAcquireRpcExecution th) ∨ (∃ th home, a = .releaseRpcExecution th home) ∨
        t.targets = s.targets ∧ t.guards = s.guards) := by
  cases a <;>
    grind [State.step, State.tryAcquireRpcExecution, State.releaseRpcExecution, State.notifyAll,
      State.ensureRpcShutdown, State.drain, State.completeShutdown, State.goto]

theorem complete_steps (h : (machine ι).Steps s t) (hs : s.complete = true) : t.complete = true := by
  induction h with
  | refl => exact hs
  | tail _ ht ih => exact (step_frame ht).1 ih

/-- Where guards end on their own threads, the list of a thread has an entry for each of its calls. -/
theorem targets_eq (hs : (machine ι).ReachableUnder OnOwnThread s) (th : ι) :
    s.targets th = s.guards.count th := by
  induction hs with
  | init h => cases h; rfl
  | @step s t a _ hown h ih =>
    obtain ⟨-, ⟨x, rfl⟩ | ⟨x, home, rfl⟩ | ⟨htargets, hguards⟩⟩ := step_frame h
    · obtain ⟨-, rfl⟩ := of_guard h
      unfold State.tryAcquireRpcExecution
      split_ifs
      · simp only [update_apply, Multiset.count_cons]
        split_ifs <;> simp_all
      · exact ih
    · obtain ⟨-, rfl⟩ := of_guard h
      obtain rfl : home = x := hown
      have hcount : update s.targets home (s.targets home - 1) th = (s.guards.erase home).count th := by
        rcases eq_or_ne th home with rfl | hne
        · rw [update_self, Multiset.count_erase_self, ih]
        · rw [update_of_ne hne, Multiset.count_erase_of_ne hne, ih]
      simp only [State.releaseRpcExecution]
      split_ifs <;> exact hcount
    · rw [htargets, hguards, ih]

/-! ### Admission and shutdown -/

/-- In every run the counter is the number of guards; once a shutdown has returned, nothing executes or
is admitted for good; and who is blocked without a notification has to wait. Where guards end on the
threads that acquired them, a thread that executes a call is refused and changes nothing. -/
theorem rpc_execution_admission (hs : (machine ι).Reachable s) :
    s.active = s.guards.card ∧
    (∀ th, s.pc th = .returned → ∀ t, (machine ι).Steps s t → t.guards = 0 ∧ t.accepting = false) ∧
    (∀ th n, s.pc th = .draining n false → s.active ≠ 0) ∧
    (∀ th, s.pc th = .waiting false → s.complete = false) ∧
    ((machine ι).ReachableUnder OnOwnThread s → ∀ th ∈ s.guards, ∀ t,
      s.step (.ensureRpcShutdown th) = some t → t = s.goto th .threw) := by
  have hinv := reachable_inv hs
  refine ⟨hinv.active, fun th hpc t hst => ?_, fun th n hpc => (hinv.at hpc).2 rfl,
    fun th hpc => hinv.at hpc rfl, fun hown th hth t h => ?_⟩
  · have ht := reachable_inv (hs.steps hst)
    obtain ⟨hrequested, hguards⟩ := ht.complete (complete_steps hst (hinv.at hpc))
    exact ⟨hguards, ht.closed hrequested⟩
  · obtain ⟨-, rfl⟩ := of_guard h
    have htargets : s.targets th ≠ 0 := by
      rw [targets_eq hown th]
      exact (Multiset.count_pos.2 hth).ne'
    exact if_pos htargets

/-- Thread 0 is refused while it executes a call. Thread 1 is not, and has returned when that call has
ended: for good, nothing executes. -/
theorem rpc_execution_admission_drained : ∃ s u : State (Fin 2),
    (machine (Fin 2)).ReachableUnder OnOwnThread s ∧ s.guards = {0} ∧ s.active = 1 ∧
    (s.accepting = true ∧ s.step (.ensureRpcShutdown 0) = some (s.goto 0 .threw)) ∧
    (machine (Fin 2)).Reachable u ∧ u.pc 1 = .returned ∧
    ∀ t, (machine (Fin 2)).Steps u t → t.guards = 0 ∧ t.accepting = false := by
  obtain ⟨s, hs, hguards, haccepting, hstep⟩ := exists_reachableUnder_of_exec
    (P := OnOwnThread) (M := machine (Fin 2))
    (Q := fun s => s.guards = {0} ∧ s.accepting = true ∧ (s.step (.ensureRpcShutdown 0)).isSome = true)
    [.tryAcquireRpcExecution 0, .tryAcquireRpcExecution 1, .releaseRpcExecution 1 1] rfl
    (by decide +kernel)
  obtain ⟨u, hu, hpc⟩ := exists_reachable_of_exec (M := machine (Fin 2))
    (P := fun u => u.pc 1 = .returned)
    [.tryAcquireRpcExecution 0, .ensureRpcShutdown 1, .releaseRpcExecution 0 0, .wake 1 false] rfl
    (by decide +kernel)
  obtain ⟨hactive, -, -, -, hrefused⟩ := rpc_execution_admission hs.reachable
  obtain ⟨-, hreturned, -⟩ := rpc_execution_admission hu
  obtain ⟨t, ht⟩ := Option.isSome_iff_exists.1 hstep
  have hthrew := hrefused hs 0 (by rw [hguards]; exact Multiset.mem_singleton_self 0) t ht
  refine ⟨s, u, hs, hguards, by rw [hactive, hguards]; rfl, ⟨haccepting, ?_⟩, hu, hpc, hreturned 1 hpc⟩
  rw [ht, hthrew]

/-- The guard of thread 0 ends on thread 1, which executes a call of its own: the entry of that call is
gone, and thread 1 waits in the shutdown for itself. -/
theorem foreign_guard_released : ∃ s : State (Fin 2), (machine (Fin 2)).Reachable s ∧
    1 ∈ s.guards ∧ s.pc 1 = .draining 0 false :=
  exists_reachable_of_exec (M := machine (Fin 2))
    [.tryAcquireRpcExecution 0, .tryAcquireRpcExecution 1, .releaseRpcExecution 1 0,
      .ensureRpcShutdown 1] rfl (by decide +kernel)

end Sintra.Messaging.RpcExecution
