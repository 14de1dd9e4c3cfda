import Sintra.Lib.Machine
import Sintra.Lib.Updates
import Sintra.Custody.ReleaseState

/-!
# Release attempts and their workers

A release is asked for on any thread. Whoever is handed a generation starts a worker for it; the start
may fail, the worker may throw, and other workers may block the attempt. The end of an attempt that was
asked to run again hands out the next generation to the thread that ends it.

A thread stands at what it has to do under its generation. `handed` is a ghost: the generations handed
out, in order.
-/

set_option linter.unusedSectionVars false

namespace Sintra.Custody.Attempts

open Machine Option

/-! ### Threads and states -/

/-- What a thread has to do for the release. -/
inductive Thread
  | idle
  /-- It starts the worker. -/
  | starting (generation : UInt64)
  /-- It is the worker. -/
  | working (generation : UInt64)
  /-- It is the worker, and has released the custody. -/
  | finishing (generation : UInt64)
  /-- The start has failed or the worker has thrown. -/
  | failed (generation : UInt64)
  deriving DecidableEq

/-- The generation a thread acts under. -/
def Thread.generation : Thread → Option UInt64
  | .idle => none
  | .starting g | .working g | .finishing g | .failed g => some g

structure State (κ : Type*) where
  /-- `release_state` of the custody. -/
  release : ReleaseState
  threads : κ → Thread
  handed : List UInt64

variable {κ : Type*} [DecidableEq κ]

namespace State

def goto (s : State κ) (th : κ) (p : Thread) : State κ :=
  { s with threads := Function.update s.threads th p }

def setRelease (s : State κ) (release : ReleaseState) : State κ := { s with release := release }

/-- A generation is handed out to a thread that will start its worker. -/
def hand (s : State κ) (th : κ) (generation : UInt64) : State κ :=
  { s.goto th (.starting generation) with handed := s.handed ++ [generation] }

/-- Source: `managed_process_impl.h`, `Managed_process::request_child_custody_release` -/
def request (s : State κ) (th : κ) (command : ReleaseMode) : State κ :=
  let (generation, release) := s.release.request command
  if generation = 0 then s.setRelease release else (s.setRelease release).hand th generation

/-- Source: `managed_process_impl.h`, `Managed_process::fail_release_attempt`, and the `stop_attempt`
branch of `Managed_process::execute_child_custody_release_attempt` -/
def endAttempt (s : State κ) (th : κ) (generation : UInt64) : State κ :=
  match s.release.markRetryable generation with
  | none => s.goto th .idle
  | some release =>
    if release.hasAttempt .running then (s.setRelease release).hand th release.generation
    else (s.setRelease release).goto th .idle

/-- The worker plans. `terminal`: every occurrence of the custody is. Other plans leave the release
state alone.
Source: `managed_process_impl.h`, `Managed_process::execute_child_custody_release_attempt`,
`plan_managed_child_release_action_locked` -/
def plan (s : State κ) (th : κ) (generation : UInt64) (terminal : Bool) : State κ :=
  if s.release.running generation = false then s.endAttempt th generation
  else if terminal then
    match s.release.markReleased generation with
    | none => s.goto th .idle
    | some release => (s.setRelease release).goto th (.finishing generation)
  else s

end State

/-! ### Steps -/

inductive Action (κ : Type*)
  | request (th : κ) (command : ReleaseMode)
  /-- `th` has started the worker `th'`. -/
  | start (th th' : κ)
  | startFails (th : κ)
  | plan (th : κ) (terminal : Bool)
  /-- `record_release_attempt_blocker`, on any thread. -/
  | block (generation : UInt64)
  | throws (th : κ)
  /-- `fail_release_attempt` -/
  | fail (th : κ)
  | finish (th : κ)

def State.step (s : State κ) : Action κ → Option (State κ)
  | .request th command => if s.threads th = .idle then some (s.request th command) else none
  | .start th th' =>
    match s.threads th, s.threads th' with
    | .starting g, .idle => some ((s.goto th .idle).goto th' (.working g))
    | _, _ => none
  | .startFails th =>
    match s.threads th with
    | .starting g => some (s.goto th (.failed g))
    | _ => none
  | .plan th terminal =>
    match s.threads th with
    | .working g => some (s.plan th g terminal)
    | _ => none
  | .block g => some (s.setRelease ((s.release.markFailing g).getD s.release))
  | .throws th =>
    match s.threads th with
    | .working g | .finishing g => some (s.goto th (.failed g))
    | _ => none
  | .fail th =>
    match s.threads th with
    | .failed g => some (s.endAttempt th g)
    | _ => none
  | .finish th =>
    match s.threads th with
    | .finishing _ => some (s.goto th .idle)
    | _ => none

/-- The generation a step is made under. -/
def Action.generation (s : State κ) : Action κ → Option UInt64
  | .request _ _ => none
  | .block g => some g
  | .start th _ | .startFails th | .plan th _ | .throws th | .fail th | .finish th =>
    (s.threads th).generation

/-- No release was asked for. -/
def State.initial (κ : Type*) : State κ := ⟨.opened, fun _ => .idle, []⟩

/-- The release as a machine. -/
def machine (κ : Type*) [DecidableEq κ] : Machine (State κ) (Action κ) where
  init s := s = .initial κ
  step := State.step

/-! ### What a step can do -/

/-- Generations are not zero, and a worker finishes after it has released the custody. -/
structure State.Tidy (s : State κ) : Prop where
  nonzero : ∀ th g, (s.threads th).generation = some g → g ≠ 0
  finishing : ∀ th g, s.threads th = .finishing g → s.release = .released

/-- A step, as far as the generations go. -/
inductive Move (s : State κ) : State κ → Prop
  /-- A thread goes on under its generation, or gives it up when it is no longer active. -/
  | goes {th : κ} {g : UInt64} {p : Thread} (hth : (s.threads th).generation = some g)
      (hp : p = .failed g ∨ p = .idle ∧ ¬s.release.Active g) : Move s (s.goto th p)
  | starts {th th' : κ} {g : UInt64} (hth : s.threads th = .starting g)
      (hth' : s.threads th' = .idle) : Move s ((s.goto th .idle).goto th' (.working g))
  /-- The worker goes on, or a request is too late, or a block. -/
  | stays : Move s s
  /-- A request is noted. -/
  | notes {r : Releasing} {cleanup : Bool} (hs : s.release = .releasing r)
      (hactive : r.attempt ≠ .retryable) (hcleanup : r.cleanupRequested = true → cleanup = true) :
      Move s (s.setRelease (.releasing ⟨cleanup, true, r.generation, r.attempt⟩))
  /-- The release begins. -/
  | opens {th : κ} {cleanup : Bool} (hs : s.release = .opened) (hth : s.threads th = .idle) :
      Move s ((s.setRelease (.releasing ⟨cleanup, false, nextGeneration 0, .running⟩)).hand th
        (nextGeneration 0))
  /-- A release that had failed begins again. -/
  | reopens {th : κ} {r : Releasing} {cleanup : Bool} (hs : s.release = .releasing r)
      (hretryable : r.attempt = .retryable) (hth : s.threads th = .idle)
      (hcleanup : r.cleanupRequested = true → cleanup = true) :
      Move s ((s.setRelease (.releasing ⟨cleanup, r.rerunRequested, nextGeneration r.generation,
        .running⟩)).hand th (nextGeneration r.generation))
  /-- An attempt ends and hands over to the next. -/
  | reruns {th : κ} {r : Releasing} (hs : s.release = .releasing r) (hactive : r.attempt ≠ .retryable)
      (hrerun : r.rerunRequested = true) (hth : (s.threads th).generation = some r.generation) :
      Move s ((s.setRelease (.releasing ⟨r.cleanupRequested, false, nextGeneration r.generation,
        .running⟩)).hand th (nextGeneration r.generation))
  /-- An attempt ends. -/
  | ends {th : κ} {r : Releasing} (hs : s.release = .releasing r) (hactive : r.attempt ≠ .retryable)
      (hrerun : r.rerunRequested = false) (hth : (s.threads th).generation = some r.generation) :
      Move s ((s.setRelease (.releasing { r with attempt := .retryable })).goto th .idle)
  /-- An attempt is blocked. -/
  | blocks {r : Releasing} (hs : s.release = .releasing r) (hrunning : r.attempt = .running) :
      Move s (s.setRelease (.releasing { r with attempt := .failing }))
  | releases {th : κ} {r : Releasing} (hs : s.release = .releasing r) (hrunning : r.attempt = .running)
      (hth : (s.threads th).generation = some r.generation) :
      Move s ((s.setRelease .released).goto th (.finishing r.generation))

variable {s t : State κ} {g : UInt64} {th : κ} {p : Thread}

theorem request_move (command : ReleaseMode) (hth : s.threads th = .idle) :
    Move s (s.request th command) := by
  unfold State.request
  cases hs : s.release with
  | opened =>
    exact .opens hs hth
  | released =>
    simp only [ReleaseState.request, if_true]
    rw [← hs]
    exact .stays
  | releasing r =>
    have hcleanup : r.cleanupRequested = true →
        (r.cleanupRequested || decide (command = ReleaseMode.cleanup)) = true := by
      intro h
      rw [h, Bool.true_or]
    by_cases hretryable : r.attempt = .retryable
    · simp only [ReleaseState.request, hretryable, ne_eq, not_true, if_false, nextGeneration_ne_zero]
      exact .reopens hs hretryable hth hcleanup
    · simp only [ReleaseState.request, hretryable, ne_eq, not_false_eq_true, if_true]
      exact .notes hs hretryable hcleanup

theorem endAttempt_move (hth : (s.threads th).generation = some g) (hne : g ≠ 0) :
    Move s (s.endAttempt th g) := by
  unfold State.endAttempt
  split
  · next hnone => exact .goes hth (.inr ⟨rfl, ReleaseState.not_active_of_markRetryable hne hnone⟩)
  · next release hsome =>
      obtain ⟨r, hs, rfl, hatt, ⟨hrerun, rfl⟩ | ⟨hrerun, rfl⟩⟩ :=
        ReleaseState.markRetryable_cases hsome
      · exact .reruns hs hatt hrerun hth
      · exact .ends hs hatt hrerun hth

theorem plan_move (terminal : Bool) (hth : (s.threads th).generation = some g) (hne : g ≠ 0) :
    Move s (s.plan th g terminal) := by
  unfold State.plan
  by_cases hrunning : s.release.running g = true
  · rw [if_neg (by rw [hrunning]; exact nofun)]
    obtain ⟨-, r, hs, rfl, hatt⟩ := ReleaseState.running_iff.1 hrunning
    cases terminal with
    | true =>
      simp only [if_true, ReleaseState.markReleased, hrunning]
      exact .releases hs hatt hth
    | false => exact .stays
  · rw [if_pos (Bool.eq_false_iff.2 hrunning)]
    exact endAttempt_move hth hne

theorem step_move (htidy : s.Tidy) {a : Action κ} (h : s.step a = some t) : Move s t := by
  cases a
  all_goals simp only [State.step] at h
  case request th command =>
    obtain ⟨hth, rfl⟩ := of_guard h
    exact request_move command hth
  case start th th' =>
    split at h
    · next g hth hth' =>
        cases h
        exact .starts hth hth'
    · cases h
  case startFails th =>
    split at h
    · next g hth =>
        cases h
        exact .goes (by rw [hth]; rfl) (.inl rfl)
    · cases h
  case plan th terminal =>
    split at h
    · next g hth =>
        cases h
        have hgen : (s.threads th).generation = some g := by rw [hth]; rfl
        exact plan_move terminal hgen (htidy.nonzero th g hgen)
    · cases h
  case block g =>
    cases h
    cases hmark : s.release.markFailing g with
    | none => exact .stays
    | some release =>
      obtain ⟨r, hs, -, hatt, rfl⟩ := ReleaseState.markFailing_eq_some hmark
      exact .blocks hs hatt
  case throws th =>
    split at h
    · next g hth =>
        cases h
        exact .goes (by rw [hth]; rfl) (.inl rfl)
    · next g hth =>
        cases h
        exact .goes (by rw [hth]; rfl) (.inl rfl)
    · cases h
  case fail th =>
    split at h
    · next g hth =>
        cases h
        have hgen : (s.threads th).generation = some g := by rw [hth]; rfl
        exact endAttempt_move hgen (htidy.nonzero th g hgen)
    · cases h
  case finish th =>
    split at h
    · next g hth =>
        cases h
        refine .goes (by rw [hth]; rfl) (.inr ⟨rfl, ?_⟩)
        rintro ⟨r, hs, -⟩
        cases (htidy.finishing th g hth).symm.trans hs
    · cases h

/-! ### Released is final, cleanup stays requested -/

theorem Move.released (h : Move s t) (hs : s.release = .released) : t.release = .released := by
  cases h with
  | goes | starts | stays => exact hs
  | releases => rfl
  | notes heq | opens heq | reopens heq | reruns heq | ends heq | blocks heq => cases hs.symm.trans heq

/-- Cleanup was requested, or the custody is released. -/
def State.CleansUp (s : State κ) : Prop :=
  s.release = .released ∨ ∃ r, s.release = .releasing r ∧ r.cleanupRequested = true

theorem Move.cleansUp (h : Move s t) (hs : s.CleansUp) : t.CleansUp := by
  obtain hs | ⟨r, hs, hcleanup⟩ := hs
  · exact .inl (h.released hs)
  cases h with
  | goes | starts | stays => exact .inr ⟨r, hs, hcleanup⟩
  | releases => exact .inl rfl
  | opens heq => cases hs.symm.trans heq
  | notes heq _ himp | reopens heq _ _ himp =>
    cases hs.symm.trans heq
    exact .inr ⟨_, rfl, himp hcleanup⟩
  | reruns heq | ends heq | blocks heq =>
    cases hs.symm.trans heq
    exact .inr ⟨_, rfl, hcleanup⟩

/-! ### Threads and generations -/

/-- The thread acts under the generation. -/
def State.Carries (s : State κ) (th : κ) (g : UInt64) : Prop := (s.threads th).generation = some g

@[simp] theorem goto_threads_self (s : State κ) (th : κ) (p : Thread) :
    (s.goto th p).threads th = p := Function.update_self _ _ _

theorem goto_threads_of_ne {x : κ} (hx : x ≠ th) (s : State κ) (p : Thread) :
    (s.goto th p).threads x = s.threads x := Function.update_of_ne hx _ _

theorem carries_goto {x : κ} (h : (s.goto th p).Carries x g) :
    x = th ∧ p.generation = some g ∨ x ≠ th ∧ s.Carries x g := by
  obtain ⟨hx, hp⟩ | ⟨hx, hold⟩ := Updates.update_cases (y := (s.goto th p).threads x) rfl
  · exact .inl ⟨hx, hp ▸ h⟩
  · exact .inr ⟨hx, (congrArg Thread.generation hold).trans h⟩

theorem carries_goto_self (h : p.generation = some g) : (s.goto th p).Carries th g := by
  rw [State.Carries, goto_threads_self]
  exact h

theorem carries_goto_of_ne {x : κ} (hx : x ≠ th) (h : s.Carries x g) :
    (s.goto th p).Carries x g := by
  rw [State.Carries, goto_threads_of_ne hx]
  exact h

/-! ### Tidy states -/

theorem Tidy.goto (h : s.Tidy) (hp : ∀ g, p.generation = some g → g ≠ 0)
    (hfinishing : ∀ g, p = .finishing g → s.release = .released) : (s.goto th p).Tidy where
  nonzero x g hx := by
    obtain ⟨-, hx⟩ | ⟨-, hx⟩ := carries_goto hx
    · exact hp g hx
    · exact h.nonzero x g hx
  finishing x g hx := by
    obtain ⟨-, hx⟩ | ⟨-, hx⟩ := Updates.update_cases hx
    · exact hfinishing g hx
    · exact h.finishing x g hx

/-- As long as the custody is being released no worker finishes. -/
theorem Tidy.setRelease (h : s.Tidy) (hs : s.release ≠ .released) (release : ReleaseState) :
    (s.setRelease release).Tidy where
  nonzero := h.nonzero
  finishing x g hx := absurd (h.finishing x g hx) hs

theorem Tidy.hand (h : s.Tidy) (hne : g ≠ 0) : (s.hand th g).Tidy := by
  have hgoto : (s.goto th (.starting g)).Tidy := by
    refine Tidy.goto h (fun g' hg' => ?_) fun _ => nofun
    rwa [← some.inj hg']
  exact ⟨hgoto.nonzero, hgoto.finishing⟩

theorem Move.tidy (h : Move s t) (hs : s.Tidy) : t.Tidy := by
  have hidle : ∀ g, Thread.idle.generation = some g → g ≠ 0 := fun _ => nofun
  cases h with
  | stays => exact hs
  | goes hth hp =>
    obtain rfl | ⟨rfl, -⟩ := hp
    · refine Tidy.goto hs (fun g' hg' => ?_) fun _ => nofun
      rw [← some.inj hg']
      exact hs.nonzero _ _ hth
    · exact Tidy.goto hs hidle fun _ => nofun
  | @starts th _ g hth =>
    refine Tidy.goto (Tidy.goto hs hidle fun _ => nofun) (fun g' hg' => ?_) fun _ => nofun
    rw [← some.inj hg']
    exact hs.nonzero th g (by rw [hth]; rfl)
  | notes heq | blocks heq => exact Tidy.setRelease hs (by rw [heq]; exact nofun) _
  | opens heq | reopens heq | reruns heq =>
    exact Tidy.hand (Tidy.setRelease hs (by rw [heq]; exact nofun) _) (nextGeneration_ne_zero _)
  | ends heq =>
    exact Tidy.goto (Tidy.setRelease hs (by rw [heq]; exact nofun) _) hidle fun _ => nofun
  | releases heq _ hth =>
    refine Tidy.goto (Tidy.setRelease hs (by rw [heq]; exact nofun) _) (fun g' hg' => ?_)
      fun _ _ => rfl
    rw [← some.inj hg']
    exact hs.nonzero _ _ hth

theorem reachable_tidy (h : (machine κ).Reachable s) : s.Tidy := by
  refine h.invariant (I := State.Tidy) ?_ fun s a t hs hstep => (step_move hs hstep).tidy hs
  rintro s rfl
  exact ⟨fun _ _ => nofun, fun _ _ => nofun⟩

/-! ### Generations -/

/-- Generations count up, each is carried by at most one thread, and that of an attempt that runs or
fails is carried by one. -/
structure Inv (s : State κ) : Prop where
  listed : s.handed.map UInt64.toNat = List.range' 1 s.handed.length
  count : ∀ r, s.release = .releasing r → r.generation.toNat = s.handed.length
  opened : s.release = .opened → s.handed = []
  carried : ∀ th g, s.Carries th g → g ∈ s.handed
  unique : ∀ x y g, s.Carries x g → s.Carries y g → x = y
  owner : ∀ g, s.release.Active g → ∃ th, s.Carries th g

theorem Inv.toNat_of_mem (h : Inv s) (hg : g ∈ s.handed) :
    1 ≤ g.toNat ∧ g.toNat ≤ s.handed.length := by
  have hmem : g.toNat ∈ List.range' 1 s.handed.length := by
    rw [← h.listed]
    exact List.mem_map_of_mem hg
  rw [List.mem_range'_1] at hmem
  omega

theorem Inv.nodup (h : Inv s) : s.handed.Nodup := by
  have hmap : (s.handed.map UInt64.toNat).Nodup := by
    rw [h.listed]
    exact List.nodup_range' 1
  exact hmap.of_map _

/-- No generation is handed out: `origin` says where the thread that carries one has it from. -/
theorem Inv.of_origin (h : Inv s) (origin : κ → κ) (hhanded : t.handed = s.handed)
    (hcount : ∀ r, t.release = .releasing r →
      ∃ r₀, s.release = .releasing r₀ ∧ r.generation = r₀.generation)
    (hopened : t.release = .opened → s.release = .opened)
    (hcarries : ∀ x g, t.Carries x g → s.Carries (origin x) g)
    (horigin : ∀ x y g, t.Carries x g → t.Carries y g → origin x = origin y → x = y)
    (howner : ∀ g, t.release.Active g → ∃ th, t.Carries th g) : Inv t where
  listed := by
    rw [hhanded]
    exact h.listed
  count r hr := by
    obtain ⟨r₀, hr₀, hgen⟩ := hcount r hr
    rw [hgen, hhanded, h.count r₀ hr₀]
  opened ht := by
    rw [hhanded]
    exact h.opened (hopened ht)
  carried x g hx := by
    rw [hhanded]
    exact h.carried _ g (hcarries x g hx)
  unique x y g hx hy := horigin x y g hx hy (h.unique _ _ g (hcarries x g hx) (hcarries y g hy))
  owner := howner

variable {r : Releasing}

/-- A generation is handed out. -/
theorem Inv.hand (h : Inv s) (hgen : r.generation = g)
    (hg : g.toNat = s.handed.length + 1) : Inv ((s.setRelease (.releasing r)).hand th g) := by
  have hcarries : ∀ x g', ((s.setRelease (.releasing r)).hand th g).Carries x g' →
      x = th ∧ g' = g ∨ x ≠ th ∧ g' ∈ s.handed ∧ s.Carries x g' := by
    intro x g' hx
    obtain ⟨hxth, hx⟩ | ⟨hne, hx⟩ := carries_goto hx
    · exact .inl ⟨hxth, (some.inj hx).symm⟩
    · exact .inr ⟨hne, h.carried x g' hx, hx⟩
  have hfresh : g ∉ s.handed := fun hmem => by
    have := (h.toNat_of_mem hmem).2
    omega
  refine ⟨?_, fun r' hr' => ?_, nofun, fun x g' hx => ?_, fun x y g' hx hy => ?_, fun g' hg' => ?_⟩
  · change (s.handed ++ [g]).map UInt64.toNat = List.range' 1 (s.handed ++ [g]).length
    rw [List.map_append, h.listed, List.length_append, List.length_singleton, List.range'_concat,
      List.map_singleton, hg, Nat.one_mul, Nat.add_comm 1]
  · cases hr'
    change r.generation.toNat = (s.handed ++ [g]).length
    rw [hgen, hg, List.length_append, List.length_singleton]
  · obtain ⟨-, rfl⟩ | ⟨-, hmem, -⟩ := hcarries x g' hx
    · exact List.mem_append_right _ (List.mem_singleton_self _)
    · exact List.mem_append_left _ hmem
  · obtain ⟨rfl, rfl⟩ | ⟨-, hmem, hx⟩ := hcarries x g' hx <;>
      obtain ⟨rfl, hg''⟩ | ⟨-, hmem', hy⟩ := hcarries y g' hy
    · rfl
    · exact absurd hmem' hfresh
    · exact absurd (hg'' ▸ hmem) hfresh
    · exact h.unique x y g' hx hy
  · obtain ⟨r', hr', rfl, -⟩ := hg'
    cases hr'
    refine ⟨th, ?_⟩
    rw [hgen]
    exact carries_goto_self rfl

theorem Move.handed_le (h : Move s t) : s.handed.length ≤ t.handed.length := by
  cases h with
  | goes | starts | stays | notes | ends | blocks | releases => exact Nat.le_refl _
  | opens | reopens | reruns =>
    change _ ≤ (s.handed ++ [_]).length
    rw [List.length_append]
    exact Nat.le_add_right _ _

theorem length_hand (s : State κ) (th : κ) (g : UInt64) :
    (s.hand th g).handed.length = s.handed.length + 1 := by
  change (s.handed ++ [g]).length = _
  rw [List.length_append, List.length_singleton]

/-- The next generation is handed out. -/
theorem Inv.hand_next (h : Inv s) {g₀ : UInt64}
    (hcount : g₀.toNat = s.handed.length) (hgen : r.generation = nextGeneration g₀)
    (hfew : ((s.setRelease (.releasing r)).hand th (nextGeneration g₀)).handed.length < 2 ^ 64) :
    Inv ((s.setRelease (.releasing r)).hand th (nextGeneration g₀)) := by
  rw [length_hand] at hfew
  refine h.hand hgen ?_
  rw [toNat_nextGeneration (hcount ▸ hfew), hcount]

/-- One thread goes on, or gives up a generation that is not active any more. -/
theorem Inv.goto (h : Inv s) (release : ReleaseState)
    (hp : ∀ g, p.generation = some g → s.Carries th g) (hcount : ∀ r, release = .releasing r →
      ∃ r₀, s.release = .releasing r₀ ∧ r.generation = r₀.generation)
    (hopened : release = .opened → s.release = .opened)
    (howner : ∀ g, release.Active g → s.release.Active g ∧
      (s.Carries th g → p.generation = some g)) : Inv ((s.setRelease release).goto th p) := by
  have hcarries : ∀ x g, ((s.setRelease release).goto th p).Carries x g → s.Carries x g := by
    intro x g hx
    obtain ⟨rfl, hpg⟩ | ⟨-, hxg⟩ := carries_goto hx
    · exact hp g hpg
    · exact hxg
  refine h.of_origin id rfl hcount hopened hcarries (fun _ _ _ _ _ heq => heq) fun g hg => ?_
  obtain ⟨hactive, hkeeps⟩ := howner g hg
  obtain ⟨x, hx⟩ := h.owner g hactive
  refine ⟨x, ?_⟩
  obtain rfl | hxth := eq_or_ne x th
  · exact carries_goto_self (hkeeps hx)
  · exact carries_goto_of_ne hxth hx

/-- An attempt that is active goes on under its generation. -/
theorem Inv.setRelease (h : Inv s) {r' : Releasing} (hr : s.release = .releasing r)
    (hgen : r'.generation = r.generation) (hactive : r.attempt ≠ .retryable) :
    Inv (s.setRelease (.releasing r')) := by
  refine h.of_origin id rfl (fun r₁ hr₁ => ?_) nofun (fun _ _ hx => hx) (fun _ _ _ _ _ heq => heq) ?_
  · cases hr₁
    exact ⟨r, hr, hgen⟩
  · rintro g ⟨r₁, hr₁, rfl, -⟩
    cases hr₁
    exact h.owner r'.generation ⟨r, hr, hgen.symm, hactive⟩

/-- A worker is started. -/
theorem Inv.start (h : Inv s) {th' : κ} (hth : s.threads th = .starting g)
    (hth' : s.threads th' = .idle) : Inv ((s.goto th .idle).goto th' (.working g)) := by
  have hcarry : s.Carries th g := by
    rw [State.Carries, hth]
    rfl
  have hcarries : ∀ x g', ((s.goto th .idle).goto th' (.working g)).Carries x g' →
      x = th' ∧ g' = g ∨ x ≠ th' ∧ x ≠ th ∧ s.Carries x g' := by
    intro x g' hx
    obtain ⟨hxth, hx⟩ | ⟨hxth, hx⟩ := carries_goto hx
    · exact .inl ⟨hxth, (some.inj hx).symm⟩
    · obtain ⟨-, hx⟩ | ⟨hxne, hx⟩ := carries_goto hx
      · cases hx
      · exact .inr ⟨hxth, hxne, hx⟩
  refine h.of_origin (fun x => if x = th' then th else x) rfl (fun r hr => ⟨r, hr, rfl⟩) id ?_ ?_ ?_
  · intro x g' hx
    obtain ⟨rfl, rfl⟩ | ⟨hxth, -, hx⟩ := hcarries x g' hx
    · rwa [if_pos rfl]
    · rwa [if_neg hxth]
  · intro x y g' hx hy heq
    obtain ⟨rfl, -⟩ | ⟨hx', hxne, -⟩ := hcarries x g' hx <;>
      obtain ⟨rfl, -⟩ | ⟨hy', hyne, -⟩ := hcarries y g' hy
    · rfl
    · rw [if_pos rfl, if_neg hy'] at heq
      exact absurd heq.symm hyne
    · rw [if_pos rfl, if_neg hx'] at heq
      exact absurd heq hxne
    · rwa [if_neg hx', if_neg hy'] at heq
  · intro g' hg'
    obtain ⟨x, hx⟩ := h.owner g' hg'
    obtain rfl | hxth := eq_or_ne x th
    · obtain rfl := mem_unique hcarry hx
      exact ⟨th', carries_goto_self rfl⟩
    · refine ⟨x, carries_goto_of_ne ?_ (carries_goto_of_ne hxth hx)⟩
      rintro rfl
      rw [State.Carries, hth'] at hx
      cases hx

theorem Move.inv (h : Move s t) (hs : Inv s) (hfew : t.handed.length < 2 ^ 64) : Inv t := by
  cases h with
  | stays => exact hs
  | starts hth hth' => exact hs.start hth hth'
  | @goes th g p hth hp =>
    refine hs.goto s.release (fun g' hg' => ?_) (fun r hr => ⟨r, hr, rfl⟩) id
      fun g' hg' => ⟨hg', fun hcarry => ?_⟩
    · obtain rfl | ⟨rfl, -⟩ := hp
      · exact hth.trans hg'
      · cases hg'
    · obtain rfl := mem_unique hth hcarry
      obtain rfl | ⟨-, hnot⟩ := hp
      · rfl
      · exact absurd hg' hnot
  | notes heq hactive => exact hs.setRelease heq rfl hactive
  | blocks heq hrunning => exact hs.setRelease heq rfl (by rw [hrunning]; exact nofun)
  | opens heq =>
    refine hs.hand_next ?_ rfl hfew
    rw [hs.opened heq]
    rfl
  | reopens heq | reruns heq => exact hs.hand_next (hs.count _ heq) rfl hfew
  | @ends th r heq =>
    refine hs.goto _ (fun _ => nofun) (fun r' hr' => ?_) nofun ?_
    · cases hr'
      exact ⟨r, heq, rfl⟩
    · rintro g ⟨r', hr', -, hatt⟩
      cases hr'
      exact absurd rfl hatt
  | releases heq _ hth =>
    refine hs.goto _ (fun g hg => ?_) nofun nofun ?_
    · cases hg
      exact hth
    · rintro g ⟨r', hr', -⟩
      cases hr'

theorem reachable_inv (h : (machine κ).Reachable s) (hfew : s.handed.length < 2 ^ 64) : Inv s := by
  refine h.invariant (I := fun s => s.Tidy ∧ (s.handed.length < 2 ^ 64 → Inv s)) ?_ ?_ |>.2 hfew
  · rintro s rfl
    refine ⟨⟨fun _ _ => nofun, fun _ _ => nofun⟩, fun _ => ⟨rfl, nofun, fun _ => rfl, fun _ _ => nofun,
      fun _ _ _ => nofun, ?_⟩⟩
    rintro g ⟨r, hr, -⟩
    cases hr
  · rintro s a t ⟨htidy, hinv⟩ hstep
    have hmove := step_move htidy hstep
    exact ⟨hmove.tidy htidy, fun hlt => hmove.inv (hinv (hmove.handed_le.trans_lt hlt)) hlt⟩

/-! ### Requests -/

/-- A thread that acts under a generation that is not active leaves the release alone. -/
theorem release_of_not_active {a : Action κ} (h : s.step a = some t) (ha : a.generation s = some g)
    (hnot : ¬s.release.Active g) : t.release = s.release := by
  have hend : ∀ th, (s.endAttempt th g).release = s.release := by
    intro th
    rw [State.endAttempt, ReleaseState.markRetryable_eq_none hnot]
    rfl
  cases a with
  | request th command => cases ha
  | start th th' | startFails th | finish th =>
    simp only [State.step] at h
    split at h
    · obtain rfl := some.inj h
      rfl
    · cases h
  | throws th =>
    simp only [State.step] at h
    split at h
    · obtain rfl := some.inj h
      rfl
    · obtain rfl := some.inj h
      rfl
    · cases h
  | block g' =>
    obtain rfl := some.inj ha
    obtain rfl := some.inj h
    rw [ReleaseState.markFailing_eq_none hnot]
    rfl
  | plan th terminal =>
    simp only [State.step] at h
    split at h
    · next g' hth =>
        obtain rfl := some.inj h
        rw [Action.generation, hth] at ha
        obtain rfl := some.inj ha
        have hrunning : s.release.running g' = false :=
          Bool.eq_false_iff.2 fun hrun => hnot (ReleaseState.active_of_running hrun)
        rw [State.plan, if_pos hrunning]
        exact hend th
    · cases h
  | fail th =>
    simp only [State.step] at h
    split at h
    · next g' hth =>
        obtain rfl := some.inj h
        rw [Action.generation, hth] at ha
        obtain rfl := some.inj ha
        exact hend th
    · cases h

/-- The attempt of the generation is active, and is to hand over to another. -/
def State.Reruns (s : State κ) (g : UInt64) : Prop :=
  ∃ r, s.release = .releasing r ∧ r.generation = g ∧ r.attempt ≠ .retryable ∧ r.rerunRequested = true

/-- A new attempt runs, and a thread is about to start its worker. -/
def State.HandedOver (s : State κ) (g : UInt64) : Prop :=
  ∃ r th, s.release = .releasing r ∧ r.generation = nextGeneration g ∧ r.attempt = .running ∧
    s.threads th = .starting (nextGeneration g)

/-- A noted request is kept until the custody is released or the attempt hands over. -/
theorem Move.reruns_next (h : Move s t) (hs : s.Reruns g) :
    t.Reruns g ∨ t.release = .released ∨ t.HandedOver g := by
  obtain ⟨r, hr, rfl, hactive, hrerun⟩ := hs
  cases h with
  | goes | starts | stays => exact .inl ⟨r, hr, rfl, hactive, hrerun⟩
  | releases => exact .inr (.inl rfl)
  | opens heq => cases hr.symm.trans heq
  | notes heq =>
    cases hr.symm.trans heq
    exact .inl ⟨_, rfl, rfl, hactive, rfl⟩
  | blocks heq =>
    cases hr.symm.trans heq
    exact .inl ⟨_, rfl, rfl, nofun, hrerun⟩
  | reopens heq hretryable =>
    cases hr.symm.trans heq
    exact absurd hretryable hactive
  | ends heq _ hno =>
    cases hr.symm.trans heq
    cases hrerun.symm.trans hno
  | @reruns th _ heq =>
    cases hr.symm.trans heq
    exact .inr (.inr ⟨_, th, rfl, rfl, rfl, goto_threads_self _ _ _⟩)

/-- A request is noted by an attempt that is active. -/
theorem reruns_of_request {command : ReleaseMode} (h : s.step (.request th command) = some t)
    (hs : s.release.Active g) : t.Reruns g := by
  obtain ⟨-, rfl⟩ := of_guard h
  obtain ⟨r, hr, rfl, hatt⟩ := hs
  refine ⟨{ r with
    cleanupRequested := r.cleanupRequested || decide (command = ReleaseMode.cleanup)
    rerunRequested := true }, ?_, rfl, hatt, rfl⟩
  simp [State.request, hr, ReleaseState.request, hatt, State.setRelease]

theorem cleansUp_of_request (h : s.step (.request th .cleanup) = some t) : t.CleansUp := by
  obtain ⟨-, rfl⟩ := of_guard h
  have hrelease : (s.request th .cleanup).release = (s.release.request .cleanup).2 := by
    unfold State.request
    dsimp only
    split <;> rfl
  rw [State.CleansUp, hrelease]
  cases s.release with
  | opened => exact .inr ⟨_, rfl, rfl⟩
  | released => exact .inl rfl
  | releasing r =>
    unfold ReleaseState.request
    dsimp only
    split
    all_goals exact .inr ⟨_, rfl, Bool.or_true _⟩

/-- What a step keeps is kept from a reachable state on. -/
theorem keeps_of_steps {P : State κ → Prop} (hP : ∀ s t : State κ, Move s t → P s → P t)
    (h : (machine κ).Reachable s) (hs : P s) (hsteps : (machine κ).Steps s t) : P t := by
  suffices hboth : (machine κ).Reachable t ∧ P t from hboth.2
  induction hsteps with
  | refl => exact ⟨h, hs⟩
  | tail _ hstep ih => exact ⟨ih.1.next hstep, hP _ _ (step_move (reachable_tidy ih.1) hstep) ih.2⟩

/-- **Release attempts.** In every run that hands out fewer than `2 ^ 64` generations: they are not
zero and pairwise distinct; at most one is active, and one thread acts under it; a step under any other
generation leaves the release alone; a request made while an attempt is active is kept until the custody
is released or the attempt hands over to the next, whose worker is started; once cleanup was requested,
all later attempts see it; and a released custody stays so. -/
theorem release_attempts (h : (machine κ).Reachable s) (hfew : s.handed.length < 2 ^ 64) :
    s.handed.Nodup ∧ (∀ g ∈ s.handed, g ≠ 0) ∧
    (∀ g g', s.release.Active g → s.release.Active g' → g = g') ∧
    (∀ g, s.release.Active g → g ∈ s.handed ∧ ∃! th, s.Carries th g) ∧
    (∀ a t g, (machine κ).step s a = some t → a.generation s = some g → ¬s.release.Active g →
      t.release = s.release) ∧
    (∀ th command t g, (machine κ).step s (.request th command) = some t → s.release.Active g →
      t.Reruns g) ∧
    (∀ a t g, (machine κ).step s a = some t → s.Reruns g →
      t.Reruns g ∨ t.release = .released ∨ t.HandedOver g) ∧
    (∀ th t u, (machine κ).step s (.request th .cleanup) = some t → (machine κ).Steps t u →
      ∀ g, u.release.running g = true → u.release.cleanupRequested = true) ∧
    (s.release = .released → ∀ t, (machine κ).Steps s t → t.release = .released) := by
  have hinv := reachable_inv h hfew
  have hmove : ∀ {a t}, (machine κ).step s a = some t → Move s t := fun hstep =>
    step_move (reachable_tidy h) hstep
  refine ⟨hinv.nodup, fun g hg heq => ?_, ?_, fun g hg => ?_, fun a t g hstep => ?_,
    fun th command t g hstep => reruns_of_request hstep,
    fun a t g hstep => (hmove hstep).reruns_next, ?_, ?_⟩
  · have hpos := (hinv.toNat_of_mem hg).1
    rw [heq] at hpos
    cases hpos
  · rintro g g' ⟨r, hr, rfl, -⟩ ⟨r', hr', rfl, -⟩
    cases hr.symm.trans hr'
    rfl
  · obtain ⟨th, hth⟩ := hinv.owner g hg
    exact ⟨hinv.carried th g hth, th, hth, fun x hx => hinv.unique x th g hx hth⟩
  · exact release_of_not_active hstep
  · intro th t u hstep hsteps g hrunning
    obtain ⟨-, r, hr, -⟩ := ReleaseState.running_iff.1 hrunning
    obtain hreleased | ⟨r', hr', hcleanup⟩ :=
      keeps_of_steps (fun _ _ hm => hm.cleansUp) (h.next hstep) (cleansUp_of_request hstep) hsteps
    · cases hreleased.symm.trans hr
    · rw [hr']
      exact hcleanup
  · intro hreleased t
    exact keeps_of_steps (fun _ _ hm => hm.released) h hreleased

/-- A request whose attempt is blocked, a cleanup request while it fails, and the end of the attempt. -/
def blockedAndRerun : List (Action ℕ) :=
  [.request 0 .passive, .start 0 1, .block 1, .request 0 .cleanup, .plan 1 false, .start 1 2]

theorem release_attempts_rerun : ∃ s : State ℕ, (machine ℕ).Reachable s ∧ s.handed = [1, 2] ∧
    s.handed.Nodup ∧ ∃! th, s.Carries th 2 := by
  obtain ⟨s, hreach, hhanded, hrelease⟩ : ∃ s : State ℕ, (machine ℕ).Reachable s ∧
      s.handed = [1, 2] ∧ s.release = .releasing ⟨true, false, 2, .running⟩ :=
    exists_reachable_of_exec blockedAndRerun rfl
      (by decide +kernel)
  have hfew : s.handed.length < 2 ^ 64 := by
    rw [hhanded]
    decide
  obtain ⟨hnodup, -, -, howner, -⟩ := release_attempts hreach hfew
  exact ⟨s, hreach, hhanded, hnodup, (howner 2 ⟨_, hrelease, rfl, nofun⟩).2⟩

end Sintra.Custody.Attempts
